import HostSubnets.Number.Double
import Mathlib.Data.Int.Log
import Mathlib.Data.Rat.Floor
import Mathlib.Tactic.Linarith
import Mathlib.Tactic.NormNum
import Mathlib.Tactic.Positivity
import Mathlib.Tactic.Ring

/-!
# Rounding to 53 significant bits

* `nearest` : the integer nearest to a rational number, ties to even; `roundDiv` computes it (`roundDiv_eq_nearest`);
* `Double.rounded` : the number of 53 significant bits nearest to a rational number; `Double.ofRatio` computes it
  (`Double.magnitude_ofRatio`), and with it sums and products (`Double.magnitude_add`, `Double.magnitude_mul`);
* `Double.Fits` : the numbers of 53 significant bits. Rounding does not cross them (`Fits.le_rounded`,
  `Fits.rounded_le`), is monotone (`rounded_mono`) and errs by half of the last bit at most (`abs_rounded_sub_le`).
-/

namespace HostSubnets

/-! ## Nearest integers -/

/-- The integer nearest to a rational number; of two the even one. -/
def nearest (q : ℚ) : ℤ := if 1 < 2 * Int.fract q ∨ (2 * Int.fract q = 1 ∧ ⌊q⌋ % 2 = 1) then ⌊q⌋ + 1 else ⌊q⌋

theorem roundDiv_eq_nearest (n : Nat) {d : Nat} (hd : 0 < d) : (roundDiv n d : ℤ) = nearest (n / d) := by
  have hpos : (0 : ℚ) < d := by exact_mod_cast hd
  have hfloor : ⌊(n / d : ℚ)⌋ = ((n / d : Nat) : ℤ) := by
    rw [Rat.floor_natCast_div_natCast]
    rfl
  have hfract : 2 * Int.fract (n / d : ℚ) = ((2 * (n % d) : Nat) : ℚ) / d := by
    rw [Int.fract_div_natCast_eq_div_natCast_mod]
    push_cast
    ring
  have habove : 1 < 2 * Int.fract (n / d : ℚ) ↔ d < 2 * (n % d) := by
    rw [hfract, lt_div_iff₀ hpos, one_mul]
    exact_mod_cast Iff.rfl
  have htie : 2 * Int.fract (n / d : ℚ) = 1 ↔ 2 * (n % d) = d := by
    rw [hfract, div_eq_one_iff_eq (ne_of_gt hpos)]
    exact_mod_cast Iff.rfl
  have hodd : ⌊(n / d : ℚ)⌋ % 2 = 1 ↔ n / d % 2 = 1 := by
    rw [hfloor]
    omega
  unfold roundDiv nearest
  simp only [habove, htie, hodd]
  rw [hfloor]
  split_ifs <;> simp

theorem abs_nearest_sub_le (q : ℚ) : |(nearest q : ℚ) - q| ≤ 1 / 2 := by
  have hsum := Int.floor_add_fract q
  have hlow := Int.fract_nonneg q
  have hhigh := Int.fract_lt_one q
  rw [abs_le]
  unfold nearest
  split
  · rename_i hup
    have hhalf : 1 ≤ 2 * Int.fract q := hup.elim le_of_lt fun h => le_of_eq h.1.symm
    push_cast
    constructor <;> linarith
  · rename_i hdown
    have hhalf : 2 * Int.fract q ≤ 1 := not_lt.1 fun h => hdown (Or.inl h)
    constructor <;> linarith

theorem nearest_le_of_lt {q : ℚ} {k : ℤ} (h : q < k + 1 / 2) : nearest q ≤ k := by
  have herror := (abs_le.1 (abs_nearest_sub_le q)).2
  have hlt : (nearest q : ℚ) < (k + 1 : ℤ) := by
    push_cast
    linarith
  exact Int.lt_add_one_iff.1 (by exact_mod_cast hlt)

theorem le_nearest_of_lt {q : ℚ} {k : ℤ} (h : k - 1 / 2 < q) : k ≤ nearest q := by
  have herror := (abs_le.1 (abs_nearest_sub_le q)).1
  have hlt : (k : ℚ) < (nearest q + 1 : ℤ) := by
    push_cast
    linarith
  exact Int.lt_add_one_iff.1 (by exact_mod_cast hlt)

theorem nearest_mono {q q' : ℚ} (h : q ≤ q') : nearest q ≤ nearest q' := by
  have hfloor : ⌊q⌋ ≤ ⌊q'⌋ := Int.floor_le_floor h
  have hle : nearest q ≤ ⌊q⌋ + 1 := by
    unfold nearest
    split <;> omega
  have hge : ⌊q'⌋ ≤ nearest q' := by
    unfold nearest
    split <;> omega
  rcases hfloor.lt_or_eq with hlt | heq
  · omega
  · -- With the same integer below, the fractional parts decide.
    have hfract : Int.fract q ≤ Int.fract q' := by
      rw [Int.fract, Int.fract, heq]
      linarith
    unfold nearest
    rw [heq]
    split
    · rename_i hup
      rw [if_pos]
      rcases hup with hup | ⟨htie, hodd⟩
      · exact Or.inl (by linarith)
      · rcases hfract.lt_or_eq with hmore | hsame
        · exact Or.inl (by linarith)
        · exact Or.inr ⟨hsame ▸ htie, hodd⟩
    · split <;> omega

namespace Double

/-! ## The last significant bit -/

/-- The exponent of the last bit that a number near `q` has. -/
def lastBit (q : ℚ) : ℤ := max minExponent (Int.log 2 q - 52)

variable {q q' r : ℚ}

theorem minExponent_le_lastBit (q : ℚ) : minExponent ≤ lastBit q := le_max_left _ _

theorem lt_zpow_lastBit (q : ℚ) : q < 2 ^ (lastBit q + 53) := by
  have hlog : q < 2 ^ (Int.log 2 q + 1) := Int.lt_zpow_succ_log_self (by norm_num) q
  refine hlog.trans_le (zpow_le_zpow_right₀ (by norm_num) ?_)
  have := le_max_right minExponent (Int.log 2 q - 52)
  unfold lastBit
  omega

theorem zpow_lastBit_le (hq : 0 < q) (h : minExponent < lastBit q) : 2 ^ (lastBit q + 52) ≤ q := by
  have hlast : lastBit q + 52 = Int.log 2 q := by
    unfold lastBit at h ⊢
    omega
  rw [hlast]
  exact Int.zpow_log_le_self (by norm_num) hq

theorem lastBit_mono (hq : 0 < q) (h : q ≤ q') : lastBit q ≤ lastBit q' :=
  max_le_max_left _ (Int.sub_le_sub_right (Int.log_mono_right hq h) 52)

theorem lastBit_le {k : ℤ} (hk : minExponent + 53 ≤ k) (hq : 0 < q) (h : q < 2 ^ k) : lastBit q ≤ k - 53 := by
  have hlog : Int.log 2 q < k := (Int.lt_zpow_iff_log_lt (by norm_num) hq).1 h
  exact max_le (by omega) (by omega)

/-! ## Rounding -/

/-- The number of 53 significant bits that is nearest to `q`. -/
def rounded (q : ℚ) : ℚ := nearest (q / 2 ^ lastBit q) * 2 ^ lastBit q

theorem zpow_pos_two (e : ℤ) : (0 : ℚ) < 2 ^ e := zpow_pos (by norm_num) e

theorem abs_rounded_sub_le (q : ℚ) : |rounded q - q| ≤ 2 ^ (lastBit q - 1) := by
  have hunit := zpow_pos_two (lastBit q)
  have hscaled : rounded q - q = (nearest (q / 2 ^ lastBit q) - q / 2 ^ lastBit q) * 2 ^ lastBit q := by
    rw [sub_mul, div_mul_cancel₀ _ (ne_of_gt hunit)]
    rfl
  rw [hscaled, abs_mul, abs_of_pos hunit, zpow_sub_one₀ (by norm_num)]
  have herror := mul_le_mul_of_nonneg_right (abs_nearest_sub_le (q / 2 ^ lastBit q)) hunit.le
  linarith

theorem rounded_le_of_lt {k : ℤ} (h : q < (k + 1 / 2) * 2 ^ lastBit q) : rounded q ≤ k * 2 ^ lastBit q := by
  have hunit := zpow_pos_two (lastBit q)
  have hnearest : nearest (q / 2 ^ lastBit q) ≤ k := nearest_le_of_lt ((div_lt_iff₀ hunit).2 h)
  exact mul_le_mul_of_nonneg_right (by exact_mod_cast hnearest) hunit.le

theorem rounded_le_of_le {k : ℤ} (h : q ≤ k * 2 ^ lastBit q) : rounded q ≤ k * 2 ^ lastBit q := by
  have hunit := zpow_pos_two (lastBit q)
  exact rounded_le_of_lt (by linarith)

theorem le_rounded_of_le {k : ℤ} (h : k * 2 ^ lastBit q ≤ q) : k * 2 ^ lastBit q ≤ rounded q := by
  have hunit := zpow_pos_two (lastBit q)
  have hscaled : (k : ℚ) ≤ q / 2 ^ lastBit q := (le_div_iff₀ hunit).2 h
  have hnearest : k ≤ nearest (q / 2 ^ lastBit q) := le_nearest_of_lt (by linarith)
  exact mul_le_mul_of_nonneg_right (by exact_mod_cast hnearest) hunit.le

theorem rounded_zero : rounded 0 = 0 := by
  have hzero : nearest 0 = 0 := by simp [nearest]
  rw [rounded, zero_div, hzero, Int.cast_zero, zero_mul]

theorem abs_rounded_sub_le_of_lt {k : ℤ} (hk : minExponent + 53 ≤ k) (hq : 0 ≤ q) (h : q < 2 ^ k) :
    |rounded q - q| ≤ 2 ^ (k - 54) := by
  rcases hq.eq_or_lt with rfl | hpos
  · rw [rounded_zero, sub_zero, abs_zero]
    exact (zpow_pos_two _).le
  · have hbit := lastBit_le hk hpos h
    exact (abs_rounded_sub_le q).trans (zpow_le_zpow_right₀ (by norm_num) (by omega))

/-! ## Numbers that fit -/

/-- Whether a number has 53 significant bits at most. -/
def Fits (r : ℚ) : Prop := ∃ (k : Nat) (j : ℤ), k ≤ 2 ^ 53 ∧ minExponent ≤ j ∧ r = k * 2 ^ j

theorem zpow_eq_multiple (e : ℤ) : (2 : ℚ) ^ (e + 52) = (2 ^ 52 : ℤ) * 2 ^ e := by
  rw [zpow_add₀ (by norm_num)]
  norm_num [mul_comm]

theorem fits_zpow {e : ℤ} (he : minExponent ≤ e) : Fits (2 ^ (e + 52)) :=
  ⟨2 ^ 52, e, by norm_num, he, by rw [zpow_eq_multiple]; norm_num⟩

theorem fits_natCast {n : Nat} (h : n ≤ 2 ^ 53) : Fits n := ⟨n, 0, h, by decide, by simp⟩

theorem Fits.nonneg (hr : Fits r) : 0 ≤ r := by
  obtain ⟨k, j, -, -, rfl⟩ := hr
  exact mul_nonneg k.cast_nonneg (zpow_pos_two j).le

/-- Beside a number that is not below it, a number that fits is a multiple of the last bit, unless it is too small. -/
theorem Fits.multiple_or_le (hr : Fits r) (hq : 0 < q) :
    (∃ k : ℤ, r = k * 2 ^ lastBit q) ∨ (r ≤ 2 ^ (lastBit q + 52) ∧ 2 ^ (lastBit q + 52) ≤ q) := by
  obtain ⟨k, j, hk, hj, rfl⟩ := hr
  rcases le_or_gt (lastBit q) j with hle | hlt
  · left
    have hsplit : (2 : ℚ) ^ j = 2 ^ (j - lastBit q).toNat * 2 ^ lastBit q := by
      rw [← zpow_natCast, ← zpow_add₀ (by norm_num)]
      congr 1
      omega
    refine ⟨k * 2 ^ (j - lastBit q).toNat, ?_⟩
    rw [hsplit]
    push_cast
    ring
  · right
    have hcast : (k : ℚ) ≤ 2 ^ (53 : ℤ) := by exact_mod_cast hk
    refine ⟨?_, zpow_lastBit_le hq (hj.trans_lt hlt)⟩
    calc (k : ℚ) * 2 ^ j ≤ 2 ^ (53 : ℤ) * 2 ^ j := mul_le_mul_of_nonneg_right hcast (zpow_pos_two j).le
      _ = 2 ^ (53 + j) := (zpow_add₀ (by norm_num) _ _).symm
      _ ≤ 2 ^ (lastBit q + 52) := zpow_le_zpow_right₀ (by norm_num) (by omega)

theorem Fits.le_rounded (hr : Fits r) (h : r ≤ q) : r ≤ rounded q := by
  rcases (hr.nonneg.trans h).eq_or_lt with rfl | hq
  · rwa [rounded_zero]
  rcases hr.multiple_or_le hq with ⟨k, rfl⟩ | ⟨hr, hpow⟩
  · exact le_rounded_of_le h
  · rw [zpow_eq_multiple] at hr hpow
    exact hr.trans (le_rounded_of_le hpow)

theorem Fits.rounded_le (hr : Fits r) (hq : 0 ≤ q) (h : q ≤ r) : rounded q ≤ r := by
  rcases hq.eq_or_lt with rfl | hq
  · rwa [rounded_zero]
  rcases hr.multiple_or_le hq with ⟨k, rfl⟩ | ⟨hr, hpow⟩
  · exact rounded_le_of_le h
  · -- Both numbers are the least one that has this last bit.
    have hleast : q ≤ (2 ^ 52 : ℤ) * 2 ^ lastBit q := zpow_eq_multiple _ ▸ h.trans hr
    exact (rounded_le_of_le hleast).trans (zpow_eq_multiple _ ▸ hpow.trans h)

theorem Fits.rounded_eq (hr : Fits r) : rounded r = r :=
  le_antisymm (hr.rounded_le hr.nonneg le_rfl) (hr.le_rounded le_rfl)

theorem rounded_nonneg (hq : 0 ≤ q) : 0 ≤ rounded q := by
  have hzero : Fits 0 := by exact_mod_cast fits_natCast (Nat.zero_le _)
  exact hzero.le_rounded hq

theorem rounded_mono (hq : 0 ≤ q) (h : q ≤ q') : rounded q ≤ rounded q' := by
  rcases hq.eq_or_lt with rfl | hpos
  · rw [rounded_zero]
    exact rounded_nonneg h
  rcases (lastBit_mono hpos h).lt_or_eq with hlt | heq
  · -- The least number with the greater last bit lies between them.
    have hmin : minExponent < lastBit q' := (minExponent_le_lastBit q).trans_lt hlt
    have hfits := fits_zpow hmin.le
    have hbelow : q ≤ 2 ^ (lastBit q' + 52) :=
      (lt_zpow_lastBit q).le.trans (zpow_le_zpow_right₀ (by norm_num) (by omega))
    exact (hfits.rounded_le hq hbelow).trans (hfits.le_rounded (zpow_lastBit_le (hpos.trans_le h) hmin))
  · have hunit := zpow_pos_two (lastBit q')
    have hnearest := nearest_mono (div_le_div_of_nonneg_right h hunit.le)
    unfold rounded
    rw [heq]
    exact mul_le_mul_of_nonneg_right (by exact_mod_cast hnearest) hunit.le

theorem fits_rounded (hq : 0 ≤ q) : Fits (rounded q) := by
  have hunit := zpow_pos_two (lastBit q)
  have hlow : 0 ≤ nearest (q / 2 ^ lastBit q) := le_nearest_of_lt (by
    have := div_nonneg hq hunit.le
    push_cast
    linarith)
  have hhigh : nearest (q / 2 ^ lastBit q) ≤ 2 ^ 53 := nearest_le_of_lt (by
    have hlt : q / 2 ^ lastBit q < 2 ^ (53 : ℤ) := by
      rw [div_lt_iff₀ hunit, ← zpow_add₀ (by norm_num), add_comm]
      exact lt_zpow_lastBit q
    push_cast
    linarith [zpow_natCast (2 : ℚ) 53])
  obtain ⟨k, hk⟩ := Int.eq_ofNat_of_zero_le hlow
  rw [hk] at hhigh
  refine ⟨k, lastBit q, by exact_mod_cast hhigh, minExponent_le_lastBit q, ?_⟩
  rw [rounded, hk]
  rfl

theorem Fits.exists_natCast (hr : Fits r) (hlarge : 2 ^ 53 ≤ r) : ∃ n : Nat, r = n := by
  obtain ⟨k, j, hk, -, rfl⟩ := hr
  have hj : 0 ≤ j := by
    by_contra hneg
    have hcast : (k : ℚ) ≤ 2 ^ 53 := by exact_mod_cast hk
    have hpow : (2 : ℚ) ^ j < 1 := zpow_lt_one_of_neg₀ (by norm_num) (not_le.1 hneg)
    have hunit := zpow_pos_two j
    nlinarith
  refine ⟨k * 2 ^ j.toNat, ?_⟩
  push_cast
  rw [← zpow_natCast, Int.toNat_of_nonneg hj]

/-- What is added to a large number without reaching the next integer is lost. -/
theorem Fits.absorbs (hr : Fits r) (hlarge : 2 ^ 53 ≤ r) (hq : 0 ≤ q) (h : q < r + 1) : rounded q ≤ r := by
  rcases le_or_gt q r with hle | hlt
  · exact hr.rounded_le hq hle
  have hpos : 0 < q := lt_of_lt_of_le (by norm_num) (hlarge.trans hlt.le)
  have hbit : 1 ≤ lastBit q := by
    have hpow : (2 : ℚ) ^ (53 : ℤ) < 2 ^ (lastBit q + 53) := by
      refine lt_of_le_of_lt ?_ ((hlt.trans (lt_zpow_lastBit q)))
      exact_mod_cast hlarge
    have := (zpow_lt_zpow_iff_right₀ (by norm_num : (1 : ℚ) < 2)).1 hpow
    omega
  have hunit : (2 : ℚ) ≤ 2 ^ lastBit q := by
    simpa using zpow_le_zpow_right₀ (by norm_num : (1 : ℚ) ≤ 2) hbit
  obtain ⟨k, rfl⟩ : ∃ k : ℤ, r = k * 2 ^ lastBit q := by
    rcases hr.multiple_or_le hpos with hmultiple | ⟨hle, hpow⟩
    · exact hmultiple
    · -- No integer lies between the number and the least one with the last bit of the sum.
      obtain ⟨n, rfl⟩ := hr.exists_natCast hlarge
      have hleast : (2 : ℚ) ^ (lastBit q + 52) = (2 ^ (lastBit q + 52).toNat : Nat) := by
        push_cast
        rw [← zpow_natCast, Int.toNat_of_nonneg (by omega)]
      have hlt : (2 : ℚ) ^ (lastBit q + 52) < (n + 1 : Nat) := hpow.trans_lt (by exact_mod_cast h)
      rw [hleast] at hle hlt
      have hsame : n = 2 ^ (lastBit q + 52).toNat :=
        le_antisymm (by exact_mod_cast hle) (Nat.lt_succ_iff.1 (by exact_mod_cast hlt))
      exact ⟨2 ^ 52, by rw [← zpow_eq_multiple, hleast, hsame]⟩
  exact rounded_le_of_lt (by linarith)

/-! ## Quotients -/

/-- The value of a finite number, its sign left out of account. -/
def magnitude : Double → ℚ
  | .finite _ mantissa exponent => mantissa * 2 ^ exponent
  | _ => 0

theorem ratio_snd_pos (mantissa : Nat) (exponent : ℤ) : 0 < (ratio mantissa exponent).2 := by
  cases exponent with
  | ofNat n => exact Nat.one_pos
  | negSucc n => exact Nat.two_pow_pos _

theorem ratio_eq (mantissa : Nat) (exponent : ℤ) :
    ((ratio mantissa exponent).1 / (ratio mantissa exponent).2 : ℚ) = mantissa * 2 ^ exponent := by
  cases exponent with
  | ofNat n =>
    simp [ratio]
  | negSucc n =>
    simp [ratio, zpow_negSucc, div_eq_mul_inv]

theorem scaleRatio_snd_pos (num : Nat) {den : Nat} (hden : 0 < den) (exponent : ℤ) :
    0 < (scaleRatio num den exponent).2 := by
  cases exponent with
  | ofNat n => exact Nat.mul_pos hden (Nat.two_pow_pos n)
  | negSucc n => exact hden

theorem scaleRatio_eq (num den : Nat) (exponent : ℤ) :
    ((scaleRatio num den exponent).1 / (scaleRatio num den exponent).2 : ℚ) = num / den / 2 ^ exponent := by
  cases exponent with
  | ofNat n =>
    simp [scaleRatio, div_div]
  | negSucc n =>
    simp [scaleRatio, zpow_negSucc, div_mul_eq_mul_div]

theorem log_div_bounds {num den : Nat} (hnum : 0 < num) (hden : 0 < den) :
    (Nat.log2 num : ℤ) - Nat.log2 den - 1 ≤ Int.log 2 (num / den : ℚ) ∧
      Int.log 2 (num / den : ℚ) ≤ (Nat.log2 num : ℤ) - Nat.log2 den := by
  have hpos : (0 : ℚ) < den := by exact_mod_cast hden
  have hquotient : (0 : ℚ) < num / den := div_pos (by exact_mod_cast hnum) hpos
  have hlow : ∀ {n : Nat}, 0 < n → (2 : ℚ) ^ (Nat.log2 n : ℤ) ≤ n := fun hn => by
    exact_mod_cast Nat.log2_self_le hn.ne'
  have hhigh : ∀ n : Nat, (n : ℚ) < 2 ^ ((Nat.log2 n : ℤ) + 1) := fun n => by
    exact_mod_cast Nat.lt_log2_self
  constructor
  · refine (Int.zpow_le_iff_le_log (by norm_num) hquotient).1 ((le_div_iff₀ hpos).2 ?_)
    calc (2 : ℚ) ^ ((Nat.log2 num : ℤ) - Nat.log2 den - 1) * den
        ≤ 2 ^ ((Nat.log2 num : ℤ) - Nat.log2 den - 1) * 2 ^ ((Nat.log2 den : ℤ) + 1) :=
          mul_le_mul_of_nonneg_left (hhigh den).le (zpow_pos_two _).le
      _ = 2 ^ (Nat.log2 num : ℤ) := by
          rw [← zpow_add₀ (by norm_num)]
          congr 1
          omega
      _ ≤ num := hlow hnum
  · refine Int.lt_add_one_iff.1 ((Int.lt_zpow_iff_log_lt (by norm_num) hquotient).1 ((div_lt_iff₀ hpos).2 ?_))
    calc (num : ℚ) < 2 ^ ((Nat.log2 num : ℤ) + 1) := hhigh num
      _ = 2 ^ ((Nat.log2 num : ℤ) - Nat.log2 den + 1) * 2 ^ (Nat.log2 den : ℤ) := by
          rw [← zpow_add₀ (by norm_num)]
          congr 1
          omega
      _ ≤ 2 ^ ((Nat.log2 num : ℤ) - Nat.log2 den + 1) * den :=
          mul_le_mul_of_nonneg_left (hlow hden) (zpow_pos_two _).le

theorem exponentOf_eq_lastBit {num den : Nat} (hnum : 0 < num) (hden : 0 < den) :
    exponentOf num den = lastBit (num / den) := by
  have hquotient : (0 : ℚ) < num / den := div_pos (by exact_mod_cast hnum) (by exact_mod_cast hden)
  obtain ⟨hlow, hhigh⟩ := log_div_bounds hnum hden
  generalize hguess : (Nat.log2 num : ℤ) - Nat.log2 den - 52 = guess
  have hpos : (0 : ℚ) < (scaleRatio num den guess).2 := by exact_mod_cast scaleRatio_snd_pos num hden guess
  have hshort : (scaleRatio num den guess).1 < 2 ^ 52 * (scaleRatio num den guess).2 ↔
      Int.log 2 (num / den : ℚ) < guess + 52 := by
    rw [← Int.lt_zpow_iff_log_lt (by norm_num) hquotient, Nat.cast_ofNat, zpow_eq_multiple,
      ← div_lt_iff₀ (zpow_pos_two guess), ← scaleRatio_eq, div_lt_iff₀ hpos]
    exact_mod_cast Iff.rfl
  unfold exponentOf lastBit
  simp only [hguess, hshort]
  split <;> omega

/-- Where it is finite, the number made of a quotient is the quotient rounded. -/
theorem magnitude_ofRatio {negative : Bool} (num : Nat) {den : Nat} (hden : 0 < den)
    (hfinite : (ofRatio negative num den).isFinite = true) :
    (ofRatio negative num den).magnitude = rounded (num / den) := by
  unfold ofRatio at hfinite ⊢
  by_cases hnum : num = 0
  · subst hnum
    simp [magnitude, rounded_zero]
  rw [if_neg hnum] at hfinite ⊢
  dsimp only at hfinite ⊢
  split
  · rename_i hlarge
    rw [if_pos hlarge] at hfinite
    cases hfinite
  · have hexponent := exponentOf_eq_lastBit (Nat.pos_of_ne_zero hnum) hden
    have hmantissa := roundDiv_eq_nearest (scaleRatio num den (exponentOf num den)).1
      (scaleRatio_snd_pos num hden (exponentOf num den))
    rw [scaleRatio_eq, hexponent] at hmantissa
    have hcast := congrArg (Int.cast (R := ℚ)) hmantissa
    rw [magnitude, hexponent, rounded, ← hcast]
    simp

/-! ## Sums and products -/

variable {x y z : Double}

theorem magnitude_one : one.magnitude = 1 := by simp [one, magnitude]

theorem exists_eq_finite (h : x.isFinite = true) : ∃ negative m e, x = finite negative m e := by
  cases x with
  | nan => cases h
  | infinite negative => cases h
  | finite negative m e => exact ⟨negative, m, e, rfl⟩

theorem one_lt_magnitude (hfinite : x.isFinite = true) (h : x.exceedsOne = true) : 1 < x.magnitude := by
  obtain ⟨negative, m, e, rfl⟩ := exists_eq_finite hfinite
  cases negative with
  | true => cases h
  | false =>
    have hlt : (ratio m e).2 < (ratio m e).1 := of_decide_eq_true h
    have hpos : (0 : ℚ) < (ratio m e).2 := by exact_mod_cast ratio_snd_pos m e
    rw [magnitude, ← ratio_eq, one_lt_div hpos]
    exact_mod_cast hlt

theorem isFinite_of_add (hfinite : (x.add y).isFinite = true) : x.isFinite = true ∧ y.isFinite = true := by
  cases x <;> cases y <;> first | exact ⟨rfl, rfl⟩ | cases hfinite

theorem isFinite_of_mul (h : x.mul? y = some z) : x.isFinite = true ∧ y.isFinite = true := by
  cases x <;> cases y <;> first | exact ⟨rfl, rfl⟩ | cases h

theorem magnitude_add (hfinite : (x.add y).isFinite = true) :
    (x.add y).magnitude = rounded (x.magnitude + y.magnitude) := by
  obtain ⟨hx, hy⟩ := isFinite_of_add hfinite
  obtain ⟨s, m, e, rfl⟩ := exists_eq_finite hx
  obtain ⟨s', m', e', rfl⟩ := exists_eq_finite hy
  have hpos := ratio_snd_pos m e
  have hpos' := ratio_snd_pos m' e'
  have hne : ((ratio m e).2 : ℚ) ≠ 0 := by exact_mod_cast hpos.ne'
  have hne' : ((ratio m' e').2 : ℚ) ≠ 0 := by exact_mod_cast hpos'.ne'
  have hsum : (((ratio m e).1 * (ratio m' e').2 + (ratio m' e').1 * (ratio m e).2 : Nat) : ℚ) /
      ((ratio m e).2 * (ratio m' e').2 : Nat) = m * 2 ^ e + m' * 2 ^ e' := by
    rw [← ratio_eq m e, ← ratio_eq m' e', div_add_div _ _ hne hne']
    push_cast
    ring
  exact (magnitude_ofRatio _ (Nat.mul_pos hpos hpos') hfinite).trans (congrArg rounded hsum)

theorem magnitude_mul (h : x.mul? y = some z) : z.magnitude = rounded (x.magnitude * y.magnitude) := by
  obtain ⟨hx, hy⟩ := isFinite_of_mul h
  obtain ⟨s, m, e, rfl⟩ := exists_eq_finite hx
  obtain ⟨s', m', e', rfl⟩ := exists_eq_finite hy
  have hproduct : (m * m' : Nat) * (2 : ℚ) ^ (e + e') = m * 2 ^ e * (m' * 2 ^ e') := by
    rw [zpow_add₀ (by norm_num)]
    push_cast
    ring
  unfold mul? at h
  dsimp only at h
  split at h
  · rename_i hfinite
    obtain rfl := Option.some.inj h
    rw [magnitude_ofRatio _ (ratio_snd_pos _ _) hfinite, ratio_eq, hproduct]
    rfl
  · cases h

end Double

end HostSubnets

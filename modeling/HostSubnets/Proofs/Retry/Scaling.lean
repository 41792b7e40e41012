import HostSubnets.Retry.Duration
import HostSubnets.Proofs.Number.Rounding

/-!
# Lengths of time times a factor

A length is read as a number of seconds, multiplied and rounded back, so that even a factor of one may change it.

* `scaled` : the nanoseconds that come out (`nanos_scale`). They grow with the length (`scaled_mono`), from whole
  seconds to the next ones because a number of seconds never reaches the next one by rounding (`secondsOf_mono`);
* `le_scaled` : for factors of one and more they are not less than the length as long as nanoseconds can be told apart,
  which is the case below 2 ^ 23 seconds.
-/

namespace HostSubnets.Duration

open Double

/-- The part of a second that is left beside whole seconds. -/
def restOf (n : Nat) : ℚ := (n % nanosPerSecond : Nat) / nanosPerSecond

/-- A number of nanoseconds in seconds, whole seconds and the rest rounded apart. -/
def secondsOf (n : Nat) : ℚ := rounded (rounded (n / nanosPerSecond : Nat) + rounded (restOf n))

/-- The number of nanoseconds nearest to a multiple of a length. -/
def scaled (factor : ℚ) (n : Nat) : ℤ := nearest (rounded (factor * secondsOf n) * nanosPerSecond)

theorem magnitude_seconds {d : Duration} (hfinite : d.seconds.isFinite = true) :
    d.seconds.magnitude = secondsOf d.nanos := by
  obtain ⟨hwhole, hrest⟩ := isFinite_of_add hfinite
  have hsum := magnitude_add hfinite
  rw [magnitude_ofRatio _ Nat.one_pos hwhole, magnitude_ofRatio _ (by decide) hrest, Nat.cast_one, div_one] at hsum
  exact hsum

theorem nanos_ofSeconds {x : Double} {d : Duration} (h : ofSeconds? x = some d) :
    (d.nanos : ℤ) = nearest (x.magnitude * nanosPerSecond) := by
  cases x with
  | nan => cases h
  | infinite negative => cases h
  | finite negative m e =>
    unfold ofSeconds? at h
    dsimp only at h
    split at h
    · cases h
    · obtain rfl := Option.some.inj h
      rw [roundDiv_eq_nearest _ (ratio_snd_pos m e), magnitude, ← ratio_eq]
      push_cast
      rw [div_mul_eq_mul_div]

theorem nanos_scale {d e : Duration} {factor : Double} (h : d.scale? factor = some e) :
    factor.isFinite = true ∧ (e.nanos : ℤ) = scaled factor.magnitude d.nanos := by
  obtain ⟨x, hx, he⟩ := Option.bind_eq_some_iff.1 h
  obtain ⟨hfactor, hseconds⟩ := isFinite_of_mul hx
  refine ⟨hfactor, ?_⟩
  rw [nanos_ofSeconds he, magnitude_mul hx, magnitude_seconds hseconds]
  rfl

/-! ## Whole seconds and the rest -/

variable {n n' : Nat}

theorem cast_nanosPerSecond : (nanosPerSecond : ℚ) = 10 ^ 9 := by norm_num [nanosPerSecond]

theorem whole_add_restOf (n : Nat) : ((n / nanosPerSecond : Nat) + restOf n) * 10 ^ 9 = n := by
  have hsplit : (nanosPerSecond : ℚ) * (n / nanosPerSecond : Nat) + (n % nanosPerSecond : Nat) = n := by
    exact_mod_cast Nat.div_add_mod n nanosPerSecond
  rw [cast_nanosPerSecond] at hsplit
  rw [restOf, cast_nanosPerSecond, add_mul, div_mul_cancel₀ _ (by norm_num)]
  linarith

theorem restOf_nonneg (n : Nat) : 0 ≤ restOf n := div_nonneg (Nat.cast_nonneg _) (Nat.cast_nonneg _)

theorem restOf_le (n : Nat) : restOf n ≤ 1 - 1 / 10 ^ 9 := by
  have hlt : ((n % nanosPerSecond : Nat) : ℚ) + 1 ≤ 10 ^ 9 := by exact_mod_cast Nat.mod_lt n (by decide)
  rw [restOf, cast_nanosPerSecond, div_le_iff₀ (by norm_num)]
  linarith

theorem rounded_restOf_lt_one (n : Nat) : rounded (restOf n) < 1 := by
  have hfits : Fits ((2 ^ 30 - 1 : Nat) * 2 ^ (-30 : ℤ)) := ⟨2 ^ 30 - 1, -30, by norm_num, by decide, rfl⟩
  have hbelow : restOf n ≤ (2 ^ 30 - 1 : Nat) * 2 ^ (-30 : ℤ) := (restOf_le n).trans (by norm_num)
  exact (hfits.rounded_le (restOf_nonneg n) hbelow).trans_lt (by norm_num)

theorem parts_nonneg (n : Nat) : 0 ≤ rounded (n / nanosPerSecond : Nat) + rounded (restOf n) :=
  add_nonneg (rounded_nonneg (Nat.cast_nonneg _)) (rounded_nonneg (restOf_nonneg n))

theorem fits_secondsOf (n : Nat) : Fits (secondsOf n) := fits_rounded (parts_nonneg n)

/-- A time is not rounded beyond whole seconds that come later. -/
theorem secondsOf_le_whole (h : n / nanosPerSecond < n' / nanosPerSecond) :
    secondsOf n ≤ rounded (n' / nanosPerSecond : Nat) := by
  have hfits : Fits (rounded (n' / nanosPerSecond : Nat)) := fits_rounded (Nat.cast_nonneg _)
  have hrest := rounded_restOf_lt_one n
  rcases le_or_gt (n' / nanosPerSecond) (2 ^ 53) with hsmall | hlarge
  · have hsucc : ((n / nanosPerSecond : Nat) : ℚ) + 1 ≤ (n' / nanosPerSecond : Nat) := by exact_mod_cast h
    refine hfits.rounded_le (parts_nonneg n) ?_
    rw [(fits_natCast (h.le.trans hsmall)).rounded_eq, (fits_natCast hsmall).rounded_eq]
    linarith
  · have hpow : Fits (2 ^ 53) := by exact_mod_cast fits_natCast le_rfl
    have hbase : 2 ^ 53 ≤ rounded (n' / nanosPerSecond : Nat) := hpow.le_rounded (by exact_mod_cast hlarge.le)
    have hmono : rounded (n / nanosPerSecond : Nat) ≤ rounded (n' / nanosPerSecond : Nat) :=
      rounded_mono (Nat.cast_nonneg _) (by exact_mod_cast h.le)
    exact hfits.absorbs hbase (parts_nonneg n) (by linarith)

theorem secondsOf_mono (h : n ≤ n') : secondsOf n ≤ secondsOf n' := by
  have hwhole : n / nanosPerSecond ≤ n' / nanosPerSecond := Nat.div_le_div_right h
  rcases hwhole.lt_or_eq with hlt | heq
  · have hfits : Fits (rounded (n' / nanosPerSecond : Nat)) := fits_rounded (Nat.cast_nonneg _)
    have hrest := rounded_nonneg (restOf_nonneg n')
    exact (secondsOf_le_whole hlt).trans (hfits.le_rounded (le_add_of_nonneg_right hrest))
  · have hle : restOf n ≤ restOf n' := by
      have hsplit := whole_add_restOf n
      have hsplit' := whole_add_restOf n'
      have hcast : (n : ℚ) ≤ n' := by exact_mod_cast h
      rw [heq] at hsplit
      linarith
    refine rounded_mono (parts_nonneg n) ?_
    rw [heq]
    linarith [rounded_mono (restOf_nonneg n) hle]

theorem scaled_mono {factor : ℚ} (hfactor : 0 ≤ factor) (h : n ≤ n') : scaled factor n ≤ scaled factor n' := by
  have hproduct : factor * secondsOf n ≤ factor * secondsOf n' := mul_le_mul_of_nonneg_left (secondsOf_mono h) hfactor
  have hrounded := rounded_mono (mul_nonneg hfactor (fits_secondsOf n).nonneg) hproduct
  exact nearest_mono (mul_le_mul_of_nonneg_right hrounded (Nat.cast_nonneg _))

/-! ## Short lengths do not get shorter -/

theorem lt_secondsOf (h : n < 2 ^ 23 * nanosPerSecond) : n - 1 / 2 < secondsOf n * 10 ^ 9 := by
  have hbelow : n / nanosPerSecond < 2 ^ 23 := (Nat.div_lt_iff_lt_mul (by decide)).2 h
  have hsucc : ((n / nanosPerSecond : Nat) : ℚ) + 1 ≤ 2 ^ 23 := by exact_mod_cast hbelow
  have hwhole : rounded (n / nanosPerSecond : Nat) = (n / nanosPerSecond : Nat) :=
    (fits_natCast (hbelow.le.trans (by norm_num))).rounded_eq
  have hrest : |rounded (restOf n) - restOf n| ≤ 2 ^ (0 - 54 : ℤ) :=
    abs_rounded_sub_le_of_lt (by decide) (restOf_nonneg n) (by
      rw [zpow_zero]
      linarith [restOf_le n])
  have hsum : |secondsOf n - (rounded (n / nanosPerSecond : Nat) + rounded (restOf n))| ≤ 2 ^ (23 - 54 : ℤ) :=
    abs_rounded_sub_le_of_lt (by decide) (parts_nonneg n) (by
      rw [zpow_ofNat]
      linarith [rounded_restOf_lt_one n])
  rw [hwhole] at hsum
  have herror := (abs_le.1 hrest).1
  have herror' := (abs_le.1 hsum).1
  have hexact := whole_add_restOf n
  norm_num at herror herror' ⊢
  linarith

theorem le_scaled {factor : ℚ} (hfactor : 1 ≤ factor) (h : n < 2 ^ 23 * nanosPerSecond) : n ≤ scaled factor n := by
  have hproduct : secondsOf n ≤ factor * secondsOf n := le_mul_of_one_le_left (fits_secondsOf n).nonneg hfactor
  have hrounded := mul_le_mul_of_nonneg_right ((fits_secondsOf n).le_rounded hproduct) (Nat.cast_nonneg nanosPerSecond)
  have hlost := lt_secondsOf h
  rw [← cast_nanosPerSecond] at hlost
  exact le_nearest_of_lt (by exact_mod_cast hlost.trans_le hrounded)

end HostSubnets.Duration

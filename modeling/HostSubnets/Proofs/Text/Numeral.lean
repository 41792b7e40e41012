import HostSubnets.Text.Numeral
import Mathlib.Algebra.Order.Ring.Nat

/-!
# Written numbers read back

`showNat` writes decimal digits without leading zeros (`isDigit_of_mem_showNat`, `head?_showNat`), and
`readNat_showNat` and, with a sign, `readInt_showInt` read them back wherever the bounds admit the number.
`takeWhile_append` splits a text where its first characters end.
-/

namespace HostSubnets.Text

theorem takeWhile_append {p : Char → Bool} {l rest : List Char} (hl : ∀ c ∈ l, p c = true)
    (hrest : ∀ c ∈ rest.head?, p c = false) : (l ++ rest).takeWhile p = l := by
  rw [List.takeWhile_append_of_pos hl]
  cases rest with
  | nil => simp
  | cons c t => rw [List.takeWhile_cons_of_neg (by simp [hrest c rfl]), List.append_nil]

theorem hexValue_digitChar : ∀ {d : Nat}, d < 16 → hexValue (Nat.digitChar d) = some d := by decide

theorem isDigit_of_mem_showNat {n : Nat} {c : Char} (h : c ∈ showNat n) : c.isDigit = true :=
  Nat.isDigit_of_mem_toDigits (by omega) (by omega) h

theorem showNat_ne_nil (n : Nat) : showNat n ≠ [] := Nat.toDigits_ne_nil

theorem ofDigitChars_showNat (n : Nat) : Nat.ofDigitChars 10 (showNat n) 0 = n :=
  Nat.ofDigitChars_ten_toDigits

theorem length_showNat_le_iff {n k : Nat} (hk : 0 < k) : (showNat n).length ≤ k ↔ n < 10 ^ k :=
  Nat.length_toDigits_le_iff (by omega) hk

/-- A zero in front stands alone. -/
theorem head?_showNat {n : Nat} (h : (showNat n).head? = some '0') : n = 0 := by
  induction n using Nat.strongRecOn with
  | _ n ih =>
    unfold showNat at h ih
    by_cases hn : n < 10
    · rw [Nat.toDigits_of_lt_base hn, List.head?_cons] at h
      have hzero : n.digitChar.toNat = 48 := by rw [Option.some.inj h]; rfl
      rw [Nat.toNat_digitChar_of_lt_ten hn] at hzero
      omega
    · rw [Nat.toDigits_of_base_le (by omega) (by omega), List.head?_append,
        List.head?_eq_some_head Nat.toDigits_ne_nil, Option.some_or] at h
      have := ih (n / 10) (by omega) (by rw [List.head?_eq_some_head Nat.toDigits_ne_nil, h])
      omega

theorem le_ofDigitChars (l : List Char) (n : Nat) : n ≤ Nat.ofDigitChars 10 l n := by
  induction l generalizing n with
  | nil => exact Nat.le_of_eq Nat.ofDigitChars_nil.symm
  | cons c rest ih =>
    rw [Nat.ofDigitChars_cons]
    have := ih (10 * n + (c.toNat - '0'.toNat))
    omega

theorem readDigits_eq_ok {max : Nat} (beyond : NumeralError) {l : List Char} {value : Nat}
    (hl : ∀ c ∈ l, c.isDigit = true) (hmax : Nat.ofDigitChars 10 l value ≤ max) :
    readDigits max beyond value l = .ok (Nat.ofDigitChars 10 l value) := by
  induction l generalizing value with
  | nil => rw [readDigits, Nat.ofDigitChars_nil]
  | cons c rest ih =>
    rw [Nat.ofDigitChars_cons] at hmax ⊢
    have hle := le_ofDigitChars rest (10 * value + (c.toNat - '0'.toNat))
    rw [readDigits, if_pos (hl c List.mem_cons_self)]
    dsimp only
    rw [if_neg (by omega)]
    exact ih (fun d hd => hl d (List.mem_cons_of_mem _ hd)) hmax

theorem readDigits_showNat {max n : Nat} (beyond : NumeralError) (h : n ≤ max) :
    readDigits max beyond 0 (showNat n) = .ok n := by
  have hmax : Nat.ofDigitChars 10 (showNat n) 0 ≤ max := by
    rw [ofDigitChars_showNat]
    exact h
  have hread := readDigits_eq_ok beyond (fun c hc => isDigit_of_mem_showNat hc) hmax
  rwa [ofDigitChars_showNat] at hread

theorem not_mem_showNat {c : Char} (hc : c.isDigit = false) (n : Nat) : c ∉ showNat n := by
  intro hmem
  rw [isDigit_of_mem_showNat hmem] at hc
  cases hc

theorem readNat_showNat {max n : Nat} (h : n ≤ max) : readNat max (showNat n) = .ok n := by
  have hplus : '+' ∉ showNat n := not_mem_showNat rfl n
  unfold readNat
  split
  · exact absurd ‹_› (showNat_ne_nil n)
  · simp_all
  · simp_all
  · exact readDigits_showNat .tooLarge h

theorem le_of_readDigits {max value n : Nat} {beyond : NumeralError} {l : List Char}
    (h : readDigits max beyond value l = .ok n) (hvalue : value ≤ max) : n ≤ max := by
  induction l generalizing value with
  | nil =>
    obtain rfl := Except.ok.inj h
    exact hvalue
  | cons c rest ih =>
    unfold readDigits at h
    split at h
    · dsimp only at h
      split at h
      · cases h
      · exact ih h (by omega)
    · cases h

theorem le_of_readNat {max n : Nat} {s : List Char} (h : readNat max s = .ok n) : n ≤ max := by
  unfold readNat at h
  split at h
  · cases h
  · cases h
  · exact le_of_readDigits h (Nat.zero_le _)
  · exact le_of_readDigits h (Nat.zero_le _)

theorem readInt_showInt {bits : Nat} {i : Int} (hlow : -2 ^ (bits - 1) ≤ i) (hhigh : i < 2 ^ (bits - 1)) :
    readInt bits (showInt i) = .ok i := by
  cases i with
  | ofNat n =>
    have hlt : (n : Int) < 2 ^ (bits - 1) := hhigh
    have hn : n ≤ 2 ^ (bits - 1) - 1 := Nat.le_sub_one_of_lt (by exact_mod_cast hlt)
    have hplus : '+' ∉ showNat n := not_mem_showNat rfl n
    have hminus : '-' ∉ showNat n := not_mem_showNat rfl n
    show readInt bits (showNat n) = _
    unfold readInt
    split
    · exact absurd ‹_› (showNat_ne_nil n)
    · simp_all
    · simp_all
    · simp_all
    · simp_all
    · rw [readDigits_showNat .tooLarge hn]
      rfl
  | negSucc n =>
    have hle : -((2 ^ (bits - 1) : Nat) : Int) ≤ Int.negSucc n := by exact_mod_cast hlow
    have hn : n + 1 ≤ 2 ^ (bits - 1) := by omega
    show readInt bits ('-' :: showNat (n + 1)) = _
    unfold readInt
    split
    · cases ‹_›
    · simp_all
    · rename_i hnil
      exact absurd (List.cons.inj hnil).2 (showNat_ne_nil _)
    · rename_i hcons
      obtain rfl := (List.cons.inj hcons).2
      rw [readDigits_showNat .tooSmall hn]
      rfl
    · simp_all
    · simp_all

end HostSubnets.Text

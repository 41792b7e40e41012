import HostSubnets.Cidr.Text
import HostSubnets.Proofs.Cidr.V6
import HostSubnets.Text.Blank
import Mathlib.Data.List.TakeDrop

/-!
# Blocks read back

`Cidr.read_write` : the text of a block reads as that block, host bits included. No IPv6 text is taken for an IPv4
one, since it has a colon. The text has no blanks (`Cidr.trim_write`).
-/

namespace HostSubnets.Cidr

open HostSubnets.Text

theorem isDigit_ne_slash {c : Char} (h : c.isDigit = true) : c ≠ '/' := by
  rintro rfl
  exact absurd h (by decide)

theorem slash_not_mem_showNat (n : Nat) : '/' ∉ showNat n := fun h =>
  isDigit_ne_slash (isDigit_of_mem_showNat h) rfl

theorem slash_not_mem_writeAddress (f : Family) (a : Nat) : '/' ∉ writeAddress f a := by
  intro h
  cases f with
  | v4 => exact absurd (V4.mem_write h) (by decide)
  | v6 => exact absurd (V6.mem_write h) (by decide)

theorem splitLength_append {l r : List Char} (hl : '/' ∉ l) (hr : '/' ∉ r) :
    splitLength (l ++ '/' :: r) = some (l, some r) := by
  have hne : ∀ c ∈ l, (c != '/') = true := fun c hc => bne_iff_ne.2 fun heq => hl (heq ▸ hc)
  have hspan : (l ++ '/' :: r).span (· != '/') = (l, '/' :: r) := by
    rw [List.span_eq_takeWhile_dropWhile, takeWhile_append hne (by simp), List.dropWhile_append_of_pos hne,
      List.dropWhile_cons_of_neg (by decide)]
  unfold splitLength
  rw [hspan]
  exact if_neg hr

theorem readLength_showNat {bits n : Nat} (h : n ≤ bits) (hbits : bits ≤ 255) :
    readLength bits (showNat n) = some n := by
  rw [readLength, readNat_showNat (Nat.le_trans h hbits)]
  exact if_pos h

theorem of?_self (c : Cidr) : of? c.family c.address c.length = some c := dif_pos ⟨c.address_lt, c.length_le⟩

theorem read_v4_showNat (n : Nat) : V4.read (showNat n) = none := by
  cases h : V4.read (showNat n) with
  | none => rfl
  | some a => exact absurd (isDigit_of_mem_showNat (V4.mem_of_read h).1) (by decide)

theorem readV4_write {c : Cidr} (h : c.family = .v4) : readV4 c.write = some c := by
  have haddr : c.address < 2 ^ 32 := by simpa [h, Family.bits] using c.address_lt
  have hlen : c.length ≤ 32 := by simpa [h, Family.bits] using c.length_le
  have hself := c.of?_self
  rw [h] at hself
  unfold readV4 write
  rw [splitLength_append (slash_not_mem_writeAddress _ _) (slash_not_mem_showNat _), h, writeAddress]
  simp only [Option.bind_eq_bind, Option.bind_some, V4.read_write haddr, read_v4_showNat,
    readLength_showNat hlen (by omega), hself]

theorem readV4_eq_none {c : Cidr} (h : c.family = .v6) : readV4 c.write = none := by
  have hno : V4.read (V6.write c.address) = none := by
    cases hread : V4.read (V6.write c.address) with
    | none => rfl
    | some a => exact absurd ((V4.mem_of_read hread).2 ':' (V6.colon_mem_write _)) (by decide)
  unfold readV4 write
  rw [splitLength_append (slash_not_mem_writeAddress _ _) (slash_not_mem_showNat _), h, writeAddress]
  simp only [Option.bind_eq_bind, Option.bind_some, hno, Option.bind_none]

theorem readV6_write {c : Cidr} (h : c.family = .v6) : readV6 c.write = some c := by
  have haddr : c.address < 2 ^ 128 := by simpa [h, Family.bits] using c.address_lt
  have hlen : c.length ≤ 128 := by simpa [h, Family.bits] using c.length_le
  have hself := c.of?_self
  rw [h] at hself
  unfold readV6 write
  rw [splitLength_append (slash_not_mem_writeAddress _ _) (slash_not_mem_showNat _), h, writeAddress]
  simp only [Option.bind_eq_bind, Option.bind_some, V6.read_write haddr,
    readLength_showNat hlen (by omega), hself]

/-- **The text of a block reads as that block.** -/
theorem read_write (c : Cidr) : read c.write = some c := by
  unfold read
  cases hf : c.family with
  | v4 =>
    rw [readV4_write hf]
    rfl
  | v6 =>
    rw [readV4_eq_none hf, readV6_write hf]
    rfl

/-! ## Blanks -/

theorem isBlank_eq_false {c : Char} (hlow : 0x21 ≤ c.toNat) (hhigh : c.toNat ≤ 0x7e) : isBlank c = false := by
  simp only [isBlank, Bool.or_eq_false_iff, Bool.and_eq_false_iff, decide_eq_false_iff_not, beq_eq_false_iff_ne]
  omega

theorem isBlank_of_hexValue {c : Char} (h : (hexValue c).isSome = true) : isBlank c = false := by
  have hrange : 48 ≤ c.toNat ∧ c.toNat ≤ 102 := by
    unfold hexValue at h
    simp only [Char.isDigit, Char.le_def, UInt32.le_iff_toNat_le, Bool.and_eq_true, decide_eq_true_eq,
      ge_iff_le] at h
    unfold Char.toNat
    split at h
    · rename_i hd
      change 48 ≤ c.val.toNat ∧ c.val.toNat ≤ 57 at hd
      omega
    · split at h
      · rename_i hl
        change 97 ≤ c.val.toNat ∧ c.val.toNat ≤ 102 at hl
        omega
      · split at h
        · rename_i hu
          change 65 ≤ c.val.toNat ∧ c.val.toNat ≤ 70 at hu
          omega
        · cases h
  exact isBlank_eq_false (by omega) (by omega)

theorem isBlank_of_isDigit {c : Char} (h : c.isDigit = true) : isBlank c = false := by
  refine isBlank_of_hexValue ?_
  rw [hexValue, if_pos h]
  rfl

theorem isBlank_of_mem_write {c : Cidr} {d : Char} (h : d ∈ c.write) : isBlank d = false := by
  unfold write at h
  rcases List.mem_append.1 h with h | h
  · cases hf : c.family with
    | v4 =>
      rw [hf] at h
      rcases V4.mem_write h with hd | rfl
      · exact isBlank_of_isDigit hd
      · decide
    | v6 =>
      rw [hf] at h
      rcases V6.mem_write h with rfl | rfl | hd
      · decide
      · decide
      · exact isBlank_of_hexValue hd
  · rcases List.mem_cons.1 h with rfl | h
    · decide
    · exact isBlank_of_isDigit (isDigit_of_mem_showNat h)

theorem trim_write (c : Cidr) : trim c.write = c.write := by
  refine trim_of_not_blank (fun d hd => ?_) (fun d hd => ?_)
  · exact isBlank_of_mem_write (List.mem_of_head? hd)
  · exact isBlank_of_mem_write (List.mem_of_getLast? hd)

end HostSubnets.Cidr

import HostSubnets.Cidr.V4
import HostSubnets.Proofs.Text.Numeral
import Mathlib.Tactic.NormNum

/-!
# IPv4 addresses read back

`V4.read_write` : the text of an address reads as that address. It is made of digits and points only
(`V4.mem_write`), and so is every text that reads as an address (`V4.mem_of_read`).
-/

namespace HostSubnets.V4

open HostSubnets.Text

/-! ## Reading what is written -/

theorem readOctet_showNat {v : Nat} (hv : v < 256) {rest : List Char}
    (hrest : ∀ c ∈ rest.head?, c.isDigit = false) : readOctet (showNat v ++ rest) = some (v, rest) := by
  have hdigits : (showNat v ++ rest).takeWhile Char.isDigit = showNat v :=
    takeWhile_append (fun c hc => isDigit_of_mem_showNat hc) hrest
  have hlen : (showNat v).length ≤ 3 := (length_showNat_le_iff (by omega)).2 (by omega)
  have hlead : ¬ ((showNat v).head? = some '0' ∧ 1 < (showNat v).length) := by
    rintro ⟨hhead, hlong⟩
    rw [head?_showNat hhead] at hlong
    exact absurd hlong (by decide)
  unfold readOctet
  simp only [hdigits, ofDigitChars_showNat]
  rw [if_neg, List.drop_left]
  rintro (h | h | h | h)
  · exact showNat_ne_nil v h
  · omega
  · exact hlead h
  · omega

theorem readNextOctet_showNat {v : Nat} (hv : v < 256) {rest : List Char}
    (hrest : ∀ c ∈ rest.head?, c.isDigit = false) :
    readNextOctet ('.' :: (showNat v ++ rest)) = some (v, rest) := readOctet_showNat hv hrest

/-- An address is read up to the first character that is no digit. -/
theorem readStart_write {a : Nat} (ha : a < 2 ^ 32) {rest : List Char}
    (hrest : ∀ c ∈ rest.head?, c.isDigit = false) : readStart (write a ++ rest) = some (a, rest) := by
  have hpoint : ∀ l : List Char, ∀ c ∈ ('.' :: l).head?, c.isDigit = false := by simp
  have hmod : ∀ n, n % 256 < 256 := fun n => Nat.mod_lt n (by omega)
  unfold readStart write
  simp only [List.append_assoc, List.cons_append]
  rw [readOctet_showNat (hmod _) (hpoint _), Option.bind_eq_bind, Option.bind_some]
  dsimp only
  rw [readNextOctet_showNat (hmod _) (hpoint _), Option.bind_some]
  dsimp only
  rw [readNextOctet_showNat (hmod _) (hpoint _), Option.bind_some]
  dsimp only
  rw [readNextOctet_showNat (hmod _) hrest, Option.bind_some]
  have hsum : ((a / 256 ^ 3 % 256 * 256 + a / 256 ^ 2 % 256) * 256 + a / 256 % 256) * 256 + a % 256 = a := by
    norm_num
    omega
  simp only [hsum]

theorem read_write {a : Nat} (ha : a < 2 ^ 32) : read (write a) = some a := by
  have hstart : readStart (write a ++ []) = some (a, []) := readStart_write ha (by simp)
  rw [List.append_nil] at hstart
  rw [read, hstart]

theorem mem_write {a : Nat} {c : Char} (h : c ∈ write a) : c.isDigit = true ∨ c = '.' := by
  simp only [write, List.mem_append, List.mem_cons] at h
  rcases h with ((h | rfl | h) | rfl | h) | rfl | h
  · exact Or.inl (isDigit_of_mem_showNat h)
  · exact Or.inr rfl
  · exact Or.inl (isDigit_of_mem_showNat h)
  · exact Or.inr rfl
  · exact Or.inl (isDigit_of_mem_showNat h)
  · exact Or.inr rfl
  · exact Or.inl (isDigit_of_mem_showNat h)

/-! ## What can be read -/

theorem eq_append_of_readOctet {s rest : List Char} {v : Nat} (h : readOctet s = some (v, rest)) :
    ∃ digits, s = digits ++ rest ∧ ∀ c ∈ digits, c.isDigit = true := by
  unfold readOctet at h
  dsimp only at h
  split at h
  · cases h
  · obtain ⟨-, rfl⟩ := Prod.mk.inj (Option.some.inj h)
    have hprefix : s.takeWhile Char.isDigit <+: s := List.takeWhile_prefix Char.isDigit
    exact ⟨s.takeWhile Char.isDigit, (List.prefix_iff_eq_append.1 hprefix).symm,
      List.all_eq_true.1 List.all_takeWhile⟩

theorem eq_append_of_readNextOctet {s rest : List Char} {v : Nat} (h : readNextOctet s = some (v, rest)) :
    ∃ digits, s = '.' :: (digits ++ rest) ∧ ∀ c ∈ digits, c.isDigit = true := by
  unfold readNextOctet at h
  split at h
  · obtain ⟨digits, rfl, hd⟩ := eq_append_of_readOctet h
    exact ⟨digits, rfl, hd⟩
  · cases h

theorem eq_append_of_readStart {s rest : List Char} {a : Nat} (h : readStart s = some (a, rest)) :
    ∃ l, s = l ++ rest ∧ '.' ∈ l ∧ ∀ c ∈ l, c.isDigit = true ∨ c = '.' := by
  unfold readStart at h
  simp only [Option.bind_eq_bind, Option.bind_eq_some_iff, Prod.exists, Option.some.injEq,
    Prod.mk.injEq] at h
  obtain ⟨_, s1, h1, _, s2, h2, _, s3, h3, _, s4, h4, -, rfl⟩ := h
  obtain ⟨d1, rfl, hd1⟩ := eq_append_of_readOctet h1
  obtain ⟨d2, rfl, hd2⟩ := eq_append_of_readNextOctet h2
  obtain ⟨d3, rfl, hd3⟩ := eq_append_of_readNextOctet h3
  obtain ⟨d4, rfl, hd4⟩ := eq_append_of_readNextOctet h4
  refine ⟨d1 ++ '.' :: (d2 ++ '.' :: (d3 ++ '.' :: d4)), by simp, by simp, fun c hc => ?_⟩
  simp only [List.mem_append, List.mem_cons] at hc
  rcases hc with hc | rfl | hc | rfl | hc | rfl | hc
  · exact Or.inl (hd1 c hc)
  · exact Or.inr rfl
  · exact Or.inl (hd2 c hc)
  · exact Or.inr rfl
  · exact Or.inl (hd3 c hc)
  · exact Or.inr rfl
  · exact Or.inl (hd4 c hc)

theorem readStart_eq_none {s : List Char} (h : '.' ∉ s) : readStart s = none := by
  cases hs : readStart s with
  | none => rfl
  | some r =>
    obtain ⟨l, rfl, hp, -⟩ := eq_append_of_readStart hs
    exact absurd (List.mem_append_left _ hp) h

theorem mem_of_read {s : List Char} {a : Nat} (h : read s = some a) :
    '.' ∈ s ∧ ∀ c ∈ s, c.isDigit = true ∨ c = '.' := by
  unfold read at h
  split at h
  · rename_i hs
    obtain ⟨l, rfl, hp, hl⟩ := eq_append_of_readStart hs
    rw [List.append_nil]
    exact ⟨hp, hl⟩
  · cases h

end HostSubnets.V4

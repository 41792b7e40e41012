import HostSubnets.Proofs.Cidr.Text
import HostSubnets.Range
import Mathlib.Data.List.TakeWhile

/-!
# Ranges read back

The text of a range has two slashes, one in the text of its network and one before the second length (`count_write`), so
it is split where it was put together (`splitLast_write`). There are no blanks in it, and those around it are trimmed
(`trim_surrounded`). So it is read as the range it was written for: `SubnetRange.read_surrounded`.
-/

namespace HostSubnets

open HostSubnets.Text

theorem Text.trim_surrounded {before s after : List Char} (hbefore : ∀ c ∈ before, isBlank c = true)
    (hs : ∀ c ∈ s, isBlank c = false) (hafter : ∀ c ∈ after, isBlank c = true) : trim (before ++ s ++ after) = s := by
  have hafter' : ∀ c ∈ after.reverse, isBlank c = true := fun c hc => hafter c (List.mem_reverse.1 hc)
  have hkept : ∀ {t : List Char}, (∀ c ∈ t, isBlank c = false) → ∀ rest, t ≠ [] →
      (t ++ rest).dropWhile isBlank = t ++ rest := by
    intro t ht rest hne
    obtain ⟨c, t', rfl⟩ := List.exists_cons_of_ne_nil hne
    exact List.dropWhile_cons_of_neg (by simp [ht c List.mem_cons_self])
  unfold trim
  rw [List.append_assoc, List.dropWhile_append_of_pos hbefore]
  by_cases hnil : s = []
  · rw [hnil, List.nil_append, List.dropWhile_eq_nil_iff.2 hafter]
    rfl
  · have hback : ∀ c ∈ s.reverse, isBlank c = false := fun c hc => hs c (List.mem_reverse.1 hc)
    have hend := hkept hback [] (by simpa using hnil)
    rw [List.append_nil] at hend
    rw [hkept hs after hnil, List.reverse_append, List.dropWhile_append_of_pos hafter', hend, List.reverse_reverse]

namespace SubnetRange

open HostSubnets.Cidr

variable (r : SubnetRange)

theorem count_write : r.write.count '/' = 2 := by
  have hnetwork : (writeAddress r.network.family r.network.address).count '/' = 0 :=
    List.count_eq_zero.2 (slash_not_mem_writeAddress _ _)
  have hlength : ∀ n, (showNat n).count '/' = 0 := fun n => List.count_eq_zero.2 (slash_not_mem_showNat n)
  unfold write Cidr.write
  simp only [List.count_append, List.count_cons_self, hnetwork, hlength]

theorem splitLast_append {l last : List Char} (hlast : '/' ∉ last) : splitLast (l ++ '/' :: last) = (l, last) := by
  have hne : ∀ c ∈ last.reverse, (c != '/') = true :=
    fun c hc => bne_iff_ne.2 fun heq => hlast (heq ▸ List.mem_reverse.1 hc)
  have hreverse : (l ++ '/' :: last).reverse = last.reverse ++ '/' :: l.reverse := by simp
  have hend : ((l ++ '/' :: last).reverse.takeWhile (· != '/')).reverse = last := by
    rw [hreverse, takeWhile_append hne (by simp), List.reverse_reverse]
  have hplace : (l ++ '/' :: last).length - last.length - 1 = l.length := by
    rw [List.length_append, List.length_cons]
    omega
  unfold splitLast
  rw [hend]
  dsimp only
  rw [hplace, List.take_left]

theorem splitLast_write : splitLast r.write = (r.network.write, showNat r.hostLength) :=
  splitLast_append (slash_not_mem_showNat _)

theorem readHostLength_showNat {n : Nat} (h : n < 256) : readHostLength (showNat n) = .ok ⟨n, h⟩ := by
  have hread : readNat 255 (showNat n) = .ok n := readNat_showNat (Nat.le_of_lt_succ h)
  unfold readHostLength
  rw [hread]
  exact dif_pos h

theorem readTrimmed_write : readTrimmed r.write = .ok r := by
  unfold readTrimmed
  rw [if_pos r.count_write, splitLast_write]
  simp only [readHostLength_showNat r.hostLength_lt, Cidr.read_write]

theorem isBlank_of_mem_write {c : Char} (h : c ∈ r.write) : isBlank c = false := by
  unfold write at h
  rcases List.mem_append.1 h with h | h
  · exact Cidr.isBlank_of_mem_write h
  · rcases List.mem_cons.1 h with rfl | h
    · decide
    · exact isBlank_of_isDigit (isDigit_of_mem_showNat h)

/-- **The text of a range is read as that range**, of either family, with host bits and with any second length, and
whichever blanks stand around it. -/
theorem read_surrounded (before after : List Char) (hbefore : ∀ c ∈ before, isBlank c = true)
    (hafter : ∀ c ∈ after, isBlank c = true) : read (before ++ r.toString.toList ++ after) = .ok r := by
  have htrim : trim (before ++ r.toString.toList ++ after) = r.write := by
    unfold SubnetRange.toString
    rw [String.toList_ofList]
    exact trim_surrounded hbefore (fun c hc => r.isBlank_of_mem_write hc) hafter
  unfold read
  rw [htrim, r.readTrimmed_write]

/-- An IPv4-mapped network with host bits, between an ideographic space and a line separator, with a second length
that no registered range has. -/
theorem mappedRange_surrounded :
    let r : SubnetRange := ⟨⟨.v6, 0xffff_0a000001, 97, by decide, by decide⟩, 255, by decide⟩
    (∀ c ∈ ['\u3000'], isBlank c = true) ∧ (∀ c ∈ ['\u2028', '\t'], isBlank c = true) ∧
      r.toString = "::ffff:10.0.0.1/97/255" ∧ read (['\u3000'] ++ r.toString.toList ++ ['\u2028', '\t']) = .ok r := by
  intro r
  have hbefore : ∀ c ∈ ['\u3000'], isBlank c = true := List.all_eq_true.1 (by decide)
  have hafter : ∀ c ∈ ['\u2028', '\t'], isBlank c = true := List.all_eq_true.1 (by decide)
  exact ⟨hbefore, hafter, by decide +kernel, r.read_surrounded _ _ hbefore hafter⟩

end SubnetRange

end HostSubnets

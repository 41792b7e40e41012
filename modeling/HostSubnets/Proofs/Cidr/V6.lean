import HostSubnets.Cidr.V6
import HostSubnets.Proofs.Cidr.V4

/-!
# IPv6 addresses read back

`V6.read_write` : the canonical text of an address reads as that address, whether groups are left out, the last
two are an IPv4 address, or all eight are written. Groups are read as they are written (`readGroups_writeGroups`),
and what a double colon stands for is a run of zeros (`longestRun_eq`).
-/

namespace HostSubnets.V6

open HostSubnets.Text

/-! ## One group -/

theorem exists_digits (n : Nat) :
    ∃ ds : List Nat, Nat.toDigits 16 n = ds.map Nat.digitChar ∧ (∀ d ∈ ds, d < 16) ∧
      ds.foldl (fun value d => 16 * value + d) 0 = n := by
  induction n using Nat.strongRecOn with
  | _ n ih =>
    by_cases hn : n < 16
    · exact ⟨[n], by rw [Nat.toDigits_of_lt_base hn]; rfl, by simpa using hn, by simp⟩
    · obtain ⟨ds, hds, hlt, hval⟩ := ih (n / 16) (by omega)
      refine ⟨ds ++ [n % 16], ?_, ?_, ?_⟩
      · rw [Nat.toDigits_of_base_le (by omega) (by omega), hds, List.map_append, List.map_singleton]
      · intro d hd
        rcases List.mem_append.1 hd with hd | hd
        · exact hlt d hd
        · rw [List.mem_singleton.1 hd]
          omega
      · rw [List.foldl_append, hval, List.foldl_cons, List.foldl_nil]
        omega

theorem isSome_hexValue_of_mem {n : Nat} {c : Char} (h : c ∈ Nat.toDigits 16 n) :
    (hexValue c).isSome = true := by
  obtain ⟨ds, hds, hlt, -⟩ := exists_digits n
  rw [hds] at h
  obtain ⟨d, hd, rfl⟩ := List.mem_map.1 h
  rw [hexValue_digitChar (hlt d hd)]
  rfl

theorem hexDigits_append {ds : List Nat} (hds : ∀ d ∈ ds, d < 16) {rest : List Char}
    (hrest : ∀ c ∈ rest.head?, hexValue c = none) : hexDigits (ds.map Nat.digitChar ++ rest) = ds := by
  induction ds with
  | nil =>
    cases rest with
    | nil => rfl
    | cons c t =>
      have hc := hrest c rfl
      simp [hexDigits, hc]
  | cons d ds ih =>
    rw [List.map_cons, List.cons_append, hexDigits, hexValue_digitChar (hds d List.mem_cons_self)]
    exact congrArg (d :: ·) (ih fun e he => hds e (List.mem_cons_of_mem _ he))

theorem readGroup_toDigits {v : Nat} (hv : v < 65536) {rest : List Char}
    (hrest : ∀ c ∈ rest.head?, hexValue c = none) :
    readGroup (Nat.toDigits 16 v ++ rest) = some (v, rest) := by
  obtain ⟨ds, hds, hlt, hval⟩ := exists_digits v
  have hlen : ds.length = (Nat.toDigits 16 v).length := by rw [hds, List.length_map]
  have hle : (Nat.toDigits 16 v).length ≤ 4 := (Nat.length_toDigits_le_iff (by omega) (by omega)).2 (by omega)
  have hdigits : hexDigits (Nat.toDigits 16 v ++ rest) = ds := by
    rw [hds]
    exact hexDigits_append hlt hrest
  unfold readGroup
  simp only [hdigits, hval]
  rw [if_neg, hlen, List.drop_left]
  rintro (h | h)
  · rw [h] at hlen
    exact Nat.toDigits_ne_nil (List.length_eq_zero_iff.1 hlen.symm)
  · omega

theorem readGroup_eq_none {s : List Char} (h : ∀ c ∈ s.head?, hexValue c = none) : readGroup s = none := by
  have hdigits : hexDigits s = [] := @hexDigits_append [] (by simp) s h
  simp [readGroup, hdigits]

/-! ## Several groups -/

/-- The text ends here, or with a double colon. -/
def Ends (rest : List Char) : Prop := rest = [] ∨ ∃ r, rest = ':' :: ':' :: r

theorem Ends.head {rest : List Char} (h : Ends rest) : ∀ c ∈ rest.head?, hexValue c = none := by
  rcases h with rfl | ⟨r, rfl⟩
  · simp
  · intro c hc
    obtain rfl : ':' = c := Option.some.inj hc
    decide

def further (values : List Nat) : List Char := values.flatMap fun v => ':' :: Nat.toDigits 16 v

theorem writeGroups_cons (v : Nat) (values : List Nat) :
    writeGroups (v :: values) = Nat.toDigits 16 v ++ further values := by
  induction values generalizing v with
  | nil => simp [writeGroups, further]
  | cons w values ih =>
    have hcons : writeGroups (v :: w :: values) = Nat.toDigits 16 v ++ ':' :: writeGroups (w :: values) := by
      simp [writeGroups]
    rw [hcons, ih]
    simp [further]

theorem head?_further_append {values : List Nat} {rest : List Char} (h : Ends rest) :
    ∀ c ∈ (further values ++ rest).head?, hexValue c = none := by
  cases values with
  | nil => exact h.head
  | cons v values =>
    intro c hc
    obtain rfl : ':' = c := Option.some.inj hc
    decide

theorem isSome_hexValue_or_of_mem_further {values : List Nat} {c : Char} (h : c ∈ further values) :
    c = ':' ∨ (hexValue c).isSome = true := by
  obtain ⟨v, -, hc⟩ := List.mem_flatMap.1 h
  rcases List.mem_cons.1 hc with rfl | hc
  · exact Or.inl rfl
  · exact Or.inr (isSome_hexValue_of_mem hc)

theorem isSome_hexValue_or_of_mem_writeGroups {values : List Nat} {c : Char} (h : c ∈ writeGroups values) :
    c = ':' ∨ (hexValue c).isSome = true := by
  cases values with
  | nil => simp [writeGroups] at h
  | cons v values =>
    rw [writeGroups_cons, List.mem_append] at h
    exact h.elim (fun hc => Or.inr (isSome_hexValue_of_mem hc)) isSome_hexValue_or_of_mem_further

theorem readGroups_ends (started : Bool) (room : Nat) {rest : List Char} (h : Ends rest)
    (hpoint : '.' ∉ rest) : readGroups started room rest = ⟨[], false, rest⟩ := by
  cases room with
  | zero => rfl
  | succ room =>
    rcases h with rfl | ⟨r, rfl⟩
    · cases started
      · have hgroup : readGroup [] = none := rfl
        simp [readGroups, V4.readStart_eq_none (List.not_mem_nil), hgroup]
      · rfl
    · have hcolon : ∀ l : List Char, readGroup (':' :: l) = none := fun l =>
        readGroup_eq_none (by simp; decide)
      have hv4 : V4.readStart (':' :: r) = none :=
        V4.readStart_eq_none fun hmem => hpoint (List.mem_cons_of_mem _ hmem)
      cases started <;> simp [readGroups, V4.readStart_eq_none hpoint, hv4, hcolon]

/-- The step shared by the first group and those after a colon. -/
theorem readGroup_step {v : Nat} (hv : v < 65536) (values : List Nat) (room : Nat) {rest : List Char}
    (h : Ends rest) (hpoint : '.' ∉ rest) :
    (if room = 0 then none else V4.readStart (Nat.toDigits 16 v ++ (further values ++ rest))) = none ∧
      readGroup (Nat.toDigits 16 v ++ (further values ++ rest)) = some (v, further values ++ rest) := by
  have hno : '.' ∉ Nat.toDigits 16 v ++ (further values ++ rest) := by
    simp only [List.mem_append, not_or]
    refine ⟨fun hm => ?_, fun hm => ?_, hpoint⟩
    · exact absurd (isSome_hexValue_of_mem hm) (by decide)
    · exact absurd (isSome_hexValue_or_of_mem_further hm) (by decide)
  refine ⟨?_, readGroup_toDigits hv (head?_further_append h)⟩
  rw [V4.readStart_eq_none hno, ite_self]

theorem readGroups_further {values : List Nat} (hv : ∀ v ∈ values, v < 65536) {room : Nat}
    (hroom : values.length ≤ room) {rest : List Char} (h : Ends rest) (hpoint : '.' ∉ rest) :
    readGroups true room (further values ++ rest) = ⟨values, false, rest⟩ := by
  induction values generalizing room with
  | nil => exact readGroups_ends true room h hpoint
  | cons v values ih =>
    obtain ⟨room, rfl⟩ : ∃ k, room = k + 1 := ⟨room - 1, by rw [List.length_cons] at hroom; omega⟩
    obtain ⟨hv4, hgroup⟩ := readGroup_step (hv v List.mem_cons_self) values room h hpoint
    have htext : further (v :: values) ++ rest = ':' :: (Nat.toDigits 16 v ++ (further values ++ rest)) := by
      simp [further]
    rw [htext, readGroups]
    simp only [hv4, hgroup]
    rw [ih (fun w hw => hv w (List.mem_cons_of_mem _ hw)) (by simpa using hroom)]

theorem readGroups_writeGroups {values : List Nat} (hv : ∀ v ∈ values, v < 65536) {room : Nat}
    (hroom : values.length ≤ room) {rest : List Char} (h : Ends rest) (hpoint : '.' ∉ rest) :
    readGroups false room (writeGroups values ++ rest) = ⟨values, false, rest⟩ := by
  cases values with
  | nil => exact readGroups_ends false room h hpoint
  | cons v values =>
    obtain ⟨room, rfl⟩ : ∃ k, room = k + 1 := ⟨room - 1, by rw [List.length_cons] at hroom; omega⟩
    obtain ⟨hv4, hgroup⟩ := readGroup_step (hv v List.mem_cons_self) values room h hpoint
    rw [writeGroups_cons, List.append_assoc, readGroups]
    simp only [hv4, hgroup]
    rw [readGroups_further (fun w hw => hv w (List.mem_cons_of_mem _ hw)) (by simpa using hroom) h hpoint]

/-! ## Groups that are left out -/

theorem eq_replicate_takeWhile (l : List Nat) :
    l.takeWhile (· == 0) = List.replicate (l.takeWhile (· == 0)).length 0 := by
  refine List.eq_replicate_iff.2 ⟨rfl, fun v hv => ?_⟩
  exact beq_iff_eq.1 (List.all_eq_true.1 List.all_takeWhile v hv)

/-- What the longest run leaves out are zeros. -/
theorem longestRun_eq (start : Nat) (l : List Nat) :
    ∃ i, (longestRun start l).1 = start + i ∧ i + (longestRun start l).2 ≤ l.length ∧
      l = l.take i ++ List.replicate (longestRun start l).2 0 ++ l.drop (i + (longestRun start l).2) := by
  induction l generalizing start with
  | nil => exact ⟨0, rfl, Nat.le_refl _, rfl⟩
  | cons g rest ih =>
    obtain ⟨i, hstart, hlen, heq⟩ := ih (start + 1)
    unfold longestRun
    dsimp only
    split
    · refine ⟨i + 1, by omega, by rw [List.length_cons]; omega, ?_⟩
      rw [List.take_succ_cons, Nat.add_right_comm, List.drop_succ_cons, List.cons_append, List.cons_append,
        ← heq]
    · have hprefix : (g :: rest).takeWhile (· == 0) <+: g :: rest := List.takeWhile_prefix _
      refine ⟨0, rfl, by rw [Nat.zero_add]; exact hprefix.length_le, ?_⟩
      rw [List.take_zero, List.nil_append, Nat.zero_add, ← eq_replicate_takeWhile]
      exact (List.prefix_iff_eq_append.1 hprefix).symm

theorem length_groups (a : Nat) : (groups a).length = 8 := rfl

theorem lt_of_mem_groups {a v : Nat} (h : v ∈ groups a) : v < 65536 := by
  obtain ⟨i, -, rfl⟩ := List.mem_map.1 h
  exact Nat.mod_lt _ (by omega)

theorem ofGroups_groups {a : Nat} (ha : a < 2 ^ 128) : ofGroups (groups a) = a := by
  simp only [ofGroups, groups, List.map_cons, List.map_nil, List.foldl_cons, List.foldl_nil]
  norm_num
  omega

theorem not_point_mem_writeGroups (values : List Nat) : '.' ∉ writeGroups values := fun h =>
  absurd (isSome_hexValue_or_of_mem_writeGroups h) (by decide)

theorem readStart_gap {a i n : Nat} (ha : a < 2 ^ 128) (hn : 1 < n) (hlen : i + n ≤ 8)
    (heq : groups a = (groups a).take i ++ List.replicate n 0 ++ (groups a).drop (i + n)) :
    readStart (writeGroups ((groups a).take i) ++ ':' :: ':' :: writeGroups ((groups a).drop (i + n))) =
      some (a, []) := by
  have hpoint : '.' ∉ ':' :: ':' :: writeGroups ((groups a).drop (i + n)) := by
    simp [not_point_mem_writeGroups]
  have htake : ((groups a).take i).length = i := by
    rw [List.length_take, length_groups]
    omega
  have hdrop : ((groups a).drop (i + n)).length = 8 - (i + n) := by rw [List.length_drop, length_groups]
  have hlt : ∀ v ∈ groups a, v < 65536 := fun v hv => lt_of_mem_groups hv
  have hhead := readGroups_writeGroups (fun v hv => hlt v (List.mem_of_mem_take hv))
    (show ((groups a).take i).length ≤ 8 by omega) (Or.inr ⟨_, rfl⟩) hpoint
  have htail := readGroups_writeGroups (fun v hv => hlt v (List.mem_of_mem_drop hv))
    (show ((groups a).drop (i + n)).length ≤ 7 - i by omega) (Or.inl rfl) List.not_mem_nil
  rw [List.append_nil] at htail
  have hgap : 8 - i - (8 - (i + n)) = n := by omega
  unfold readStart
  simp only [hhead, htake, htail, hdrop, hgap]
  rw [if_neg (by omega), if_neg Bool.false_ne_true, ← heq, ofGroups_groups ha]

theorem readStart_groups {a : Nat} (ha : a < 2 ^ 128) : readStart (writeGroups (groups a)) = some (a, []) := by
  have hlt : ∀ v ∈ groups a, v < 65536 := fun v hv => lt_of_mem_groups hv
  have hall := readGroups_writeGroups hlt (Nat.le_of_eq (length_groups a)) (Or.inl rfl) List.not_mem_nil
  rw [List.append_nil] at hall
  unfold readStart
  simp only [hall, length_groups, if_pos, ofGroups_groups ha]

theorem readStart_mapped {b : Nat} (hb : b < 2 ^ 32) :
    readStart ("::ffff:".toList ++ V4.write b) = some (0xffff * 2 ^ 32 + b, []) := by
  have hv4 : V4.readStart (V4.write b ++ []) = some (b, []) := V4.readStart_write hb (by simp)
  rw [List.append_nil] at hv4
  have hends : readGroups false 8 ("::ffff:".toList ++ V4.write b) = ⟨[], false, "::ffff:".toList ++ V4.write b⟩ :=
    rfl
  have hlast : readGroups true 6 (':' :: V4.write b) = ⟨[b / 65536, b % 65536], true, []⟩ := by
    simp [readGroups, hv4]
  have hmixed : readGroups false 7 ("ffff:".toList ++ V4.write b) = ⟨[0xffff, b / 65536, b % 65536], true, []⟩ := by
    have hno : V4.readStart ("ffff:".toList ++ V4.write b) = none := rfl
    have hones : readGroup ("ffff:".toList ++ V4.write b) = some (0xffff, ':' :: V4.write b) := rfl
    rw [readGroups]
    simp only [hno, hones, hlast, ite_self]
  have hsum : ofGroups ([] ++ List.replicate 5 0 ++ [0xffff, b / 65536, b % 65536]) = 0xffff * 2 ^ 32 + b := by
    simp only [ofGroups, List.replicate, List.nil_append, List.cons_append, List.foldl_cons, List.foldl_nil]
    omega
  unfold readStart
  simp only [hends]
  show (let tail := readGroups false 7 ("ffff:".toList ++ V4.write b)
    some (ofGroups ([] ++ List.replicate (8 - tail.values.length) 0 ++ tail.values), tail.rest)) = _
  rw [hmixed]
  exact congrArg (fun a => some (a, [])) hsum

/-! ## All addresses -/

/-- **The canonical text of an address reads as that address.** -/
theorem read_write {a : Nat} (ha : a < 2 ^ 128) : read (write a) = some a := by
  suffices h : readStart (write a) = some (a, []) by rw [read, h]
  unfold write
  split
  · rename_i hmapped
    have hb : a % 2 ^ 32 < 2 ^ 32 := Nat.mod_lt _ (by omega)
    rw [readStart_mapped hb, ← hmapped, Nat.mul_comm, Nat.div_add_mod]
  · obtain ⟨i, hstart, hlen, heq⟩ := longestRun_eq 0 (groups a)
    rw [length_groups] at hlen
    rw [Nat.zero_add] at hstart
    dsimp only
    rw [hstart]
    split
    · rename_i hlong
      exact readStart_gap ha hlong hlen heq
    · exact readStart_groups ha

theorem mem_write {a : Nat} {c : Char} (h : c ∈ write a) : c = ':' ∨ c = '.' ∨ (hexValue c).isSome = true := by
  have hgroups : ∀ {values : List Nat}, c ∈ writeGroups values → c = ':' ∨ c = '.' ∨ (hexValue c).isSome = true :=
    fun hc => (isSome_hexValue_or_of_mem_writeGroups hc).imp_right Or.inr
  unfold write at h
  split at h
  · rcases List.mem_append.1 h with h | h
    · have hconst : ∀ d ∈ "::ffff:".toList, d = ':' ∨ d = '.' ∨ (hexValue d).isSome = true := by
        rw [show "::ffff:".toList = [':', ':', 'f', 'f', 'f', 'f', ':'] from rfl]
        simp [hexValue]
      exact hconst c h
    · rcases V4.mem_write h with hd | hd
      · refine Or.inr (Or.inr ?_)
        rw [hexValue, if_pos hd]
        rfl
      · exact Or.inr (Or.inl hd)
  · dsimp only at h
    split at h
    · simp only [List.mem_append, List.mem_cons] at h
      rcases h with h | h | h | h
      · exact hgroups h
      · exact Or.inl h
      · exact Or.inl h
      · exact hgroups h
    · exact hgroups h

theorem colon_mem_write (a : Nat) : ':' ∈ write a := by
  unfold write
  split
  · simp
  · dsimp only
    split
    · simp
    · simp [groups, writeGroups]

end HostSubnets.V6

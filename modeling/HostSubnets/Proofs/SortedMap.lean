import HostSubnets.SortedMap
import Mathlib.Data.List.Nodup
import Mathlib.Order.Basic

/-!
# Look-ups and entries of a map

`find?_eq_some_iff` : a map holds a value at a key exactly if the pair is one of its entries, so the lists of
keys and values (`mem_keys`, `mem_values`, `nodup_keys`) say what look-ups say; `ofList_entries` : the entries
of a map make the same map again.

`Assigns` : a change that settles what is at one key, whatever the map. Such changes commute at different keys
(`Assigns.comm`), and of two at one key the later counts (`Assigns.comp_eq`).
-/

namespace HostSubnets.SortedMap

variable {κ α : Type} [LT κ] [LE κ] [Std.IsLinearOrder κ] [Std.LawfulOrderLT κ] [DecidableLT κ]
  [DecidableEq κ]

set_option linter.unusedSectionVars false

/-! ## Entry lists -/

theorem lookup_append (key : κ) (l r : List (κ × α)) :
    lookup key (l ++ r) = (lookup key l).or (lookup key r) := by
  induction l with
  | nil => rfl
  | cons e l ih =>
    simp only [List.cons_append, lookup]
    split
    · rfl
    · exact ih

theorem lookup_eq_some_iff {key : κ} {value : α} {entries : List (κ × α)}
    (h : (entries.map Prod.fst).Nodup) :
    lookup key entries = some value ↔ (key, value) ∈ entries := by
  induction entries with
  | nil => simp [lookup]
  | cons e rest ih =>
    obtain ⟨k, v⟩ := e
    rw [List.map_cons, List.nodup_cons] at h
    rw [lookup, List.mem_cons, Prod.mk.injEq]
    split
    · rename_i hk
      subst hk
      have hne : (key, value) ∉ rest := fun hm => h.1 (List.mem_map.2 ⟨_, hm, rfl⟩)
      simp [hne, eq_comm]
    · rename_i hk
      simp [hk, ih h.2]

theorem nodup_fst_of_sorted {entries : List (κ × α)}
    (h : entries.Pairwise fun a b => a.1 < b.1) : (entries.map Prod.fst).Nodup := by
  rw [List.Nodup, List.pairwise_map]
  refine h.imp fun {a b} hlt heq => ?_
  rw [heq] at hlt
  exact Std.lt_irrefl hlt

/-! ## Maps -/

theorem find?_eq_some_iff (m : SortedMap κ α) (key : κ) (value : α) :
    m.find? key = some value ↔ (key, value) ∈ m.entries :=
  lookup_eq_some_iff (nodup_fst_of_sorted m.sorted)

theorem nodup_keys (m : SortedMap κ α) : m.keys.Nodup := nodup_fst_of_sorted m.sorted

theorem mem_keys {m : SortedMap κ α} {key : κ} :
    key ∈ m.keys ↔ ∃ value, m.find? key = some value := by
  simp [keys, find?_eq_some_iff]

theorem mem_values {m : SortedMap κ α} {value : α} :
    value ∈ m.values ↔ ∃ key, m.find? key = some value := by
  simp [values, find?_eq_some_iff]

/-- Entries put one after the other on top of a map: the last one of a key counts. -/
theorem find?_foldl_insert (entries : List (κ × α)) (m : SortedMap κ α) (key : κ) :
    (entries.foldl (fun m e => m.insert e.1 e.2) m).find? key =
      (lookup key entries.reverse).or (m.find? key) := by
  induction entries generalizing m with
  | nil => rfl
  | cons e rest ih =>
    rw [List.foldl_cons, ih, find?_insert, List.reverse_cons, lookup_append, Option.or_assoc, lookup]
    split <;> rfl

theorem ofList_entries (m : SortedMap κ α) : ofList m.entries = m := by
  refine ext_find? fun key => ?_
  have hn : (m.entries.reverse.map Prod.fst).Nodup := by
    rw [List.map_reverse, List.nodup_reverse]
    exact nodup_keys m
  rw [ofList, find?_foldl_insert, find?_empty, Option.or_none]
  ext value
  rw [lookup_eq_some_iff hn, List.mem_reverse, find?_eq_some_iff]

theorem eq_empty_of_isEmpty {m : SortedMap κ α} (h : m.isEmpty = true) : m = empty := by
  refine ext_find? fun key => ?_
  rw [find?, List.isEmpty_iff.1 h]
  rfl

/-! ## Changes at one key -/

/-- A change that leaves this at a key, whatever was there, and nothing else changed. -/
def Assigns (key : κ) (value? : Option α) (change : SortedMap κ α → SortedMap κ α) : Prop :=
  ∀ m k, (change m).find? k = if k = key then value? else m.find? k

theorem assigns_insert (key : κ) (value : α) : Assigns key (some value) fun m => m.insert key value :=
  fun m k => find?_insert m key value k

theorem assigns_erase (key : κ) : Assigns key none fun m : SortedMap κ α => m.erase key :=
  fun m k => find?_erase m key k

section Assigns

variable {key key' : κ} {value? value?' : Option α} {change change' : SortedMap κ α → SortedMap κ α}

theorem Assigns.find?_of_ne (h : Assigns key value? change) (m : SortedMap κ α) {k : κ} (hne : k ≠ key) :
    (change m).find? k = m.find? k := by
  rw [h, if_neg hne]

theorem Assigns.comm (h : Assigns key value? change) (h' : Assigns key' value?' change') (hne : key ≠ key') :
    change' ∘ change = change ∘ change' := by
  funext m
  refine ext_find? fun k => ?_
  simp only [Function.comp_apply, h _ k, h' _ k]
  by_cases hk : k = key
  · rw [if_pos hk, if_pos hk, if_neg (hk ▸ hne)]
  · rw [if_neg hk, if_neg hk]

theorem Assigns.comp_eq (h : Assigns key value? change) (h' : Assigns key value?' change') :
    change' ∘ change = change' := by
  funext m
  refine ext_find? fun k => ?_
  simp only [Function.comp_apply, h _ k, h' _ k]
  split <;> rfl

end Assigns

end HostSubnets.SortedMap

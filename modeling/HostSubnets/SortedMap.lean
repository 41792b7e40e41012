/-!
# Maps in key order

A finite map as the list of its entries in strictly increasing key order, so that two maps with the
same entries are the same value.

* `SortedMap.find?`, `SortedMap.insert`, `SortedMap.erase` : look-up and change;
* `find?_empty`, `find?_insert`, `find?_erase` : what each operation does to look-ups;
* `SortedMap.ext_find?` : maps with the same look-ups are equal;
* `SortedMap.ofList` : later entries replace earlier ones of the same key.
-/

namespace HostSubnets

open Std

/-- A finite map with its entries in strictly increasing key order. -/
structure SortedMap (κ : Type) (α : Type) [LT κ] where
  entries : List (κ × α)
  sorted : entries.Pairwise fun a b => a.1 < b.1
deriving Repr

namespace SortedMap

variable {κ α : Type} [LT κ] [LE κ] [IsLinearOrder κ] [LawfulOrderLT κ] [DecidableLT κ]
  [DecidableEq κ]

set_option linter.unusedSectionVars false

instance [DecidableEq α] : DecidableEq (SortedMap κ α) := fun a b =>
  decidable_of_iff (a.entries = b.entries) (by cases a; cases b; simp)

/-! ## Entry lists -/

def lookup (key : κ) : List (κ × α) → Option α
  | [] => none
  | (k, v) :: rest => if key = k then some v else lookup key rest

/-- An entry added in key order, or replaced. -/
def place (key : κ) (value : α) : List (κ × α) → List (κ × α)
  | [] => [(key, value)]
  | (k, v) :: rest =>
    if key < k then (key, value) :: (k, v) :: rest
    else if key = k then (key, value) :: rest
    else (k, v) :: place key value rest

def without (key : κ) (entries : List (κ × α)) : List (κ × α) :=
  entries.filter fun e => e.1 ≠ key

theorem mem_place {key : κ} {value : α} {entries : List (κ × α)} {e : κ × α}
    (h : e ∈ place key value entries) : e = (key, value) ∨ e ∈ entries := by
  induction entries with
  | nil => simpa [place] using h
  | cons first rest ih =>
    obtain ⟨k, v⟩ := first
    unfold place at h
    split at h
    · simpa using h
    · split at h
      · rcases List.mem_cons.1 h with h | h
        · exact .inl h
        · exact .inr (List.mem_cons_of_mem _ h)
      · rcases List.mem_cons.1 h with h | h
        · exact .inr (h ▸ List.mem_cons_self)
        · rcases ih h with h | h
          · exact .inl h
          · exact .inr (List.mem_cons_of_mem _ h)

theorem sorted_place (key : κ) (value : α) {entries : List (κ × α)}
    (sorted : entries.Pairwise fun a b => a.1 < b.1) :
    (place key value entries).Pairwise fun a b => a.1 < b.1 := by
  induction entries with
  | nil => simp [place]
  | cons first rest ih =>
    obtain ⟨k, v⟩ := first
    have ⟨low, high⟩ := List.pairwise_cons.1 sorted
    unfold place
    split
    next before =>
      refine List.pairwise_cons.2 ⟨fun e he => ?_, sorted⟩
      rcases List.mem_cons.1 he with rfl | he
      · exact before
      · exact Std.lt_trans before (low e he)
    next notBefore =>
      split
      next same => exact List.pairwise_cons.2 ⟨fun e he => same ▸ low e he, high⟩
      next different =>
        refine List.pairwise_cons.2 ⟨fun e he => ?_, ih high⟩
        rcases mem_place he with rfl | he
        · exact Std.lt_of_le_of_ne (Std.not_lt.1 notBefore) (Ne.symm different)
        · exact low e he

theorem lookup_place (key : κ) (value : α) (entries : List (κ × α)) (k : κ) :
    lookup k (place key value entries) = if k = key then some value else lookup k entries := by
  induction entries with
  | nil => simp [place, lookup]
  | cons first rest ih =>
    obtain ⟨k', v'⟩ := first
    unfold place
    split
    · rw [lookup]
    · split
      next same => subst same; simp only [lookup]; split <;> rfl
      next different =>
        simp only [lookup, ih]
        by_cases h : k = k'
        · subst h; simp [Ne.symm different]
        · simp [h]

theorem lookup_without (key : κ) (entries : List (κ × α)) (k : κ) :
    lookup k (without key entries) = if k = key then none else lookup k entries := by
  induction entries with
  | nil => simp [without, lookup]
  | cons first rest ih =>
    obtain ⟨k', v'⟩ := first
    unfold without at ih ⊢
    rw [List.filter_cons]
    by_cases same : k' = key
    · subst same
      simp only [ne_eq, not_true_eq_false, decide_false, Bool.false_eq_true, if_false, ih, lookup]
      split <;> rfl
    · simp only [ne_eq, same, not_false_eq_true, decide_true, if_true, lookup, ih]
      by_cases h : k = k'
      · subst h; simp [same]
      · simp [h]

/-! ## Maps -/

def empty : SortedMap κ α := ⟨[], List.Pairwise.nil⟩

instance : Inhabited (SortedMap κ α) := ⟨empty⟩

def find? (m : SortedMap κ α) (key : κ) : Option α := lookup key m.entries

def contains (m : SortedMap κ α) (key : κ) : Bool := (m.find? key).isSome

def insert (m : SortedMap κ α) (key : κ) (value : α) : SortedMap κ α :=
  ⟨place key value m.entries, sorted_place key value m.sorted⟩

def erase (m : SortedMap κ α) (key : κ) : SortedMap κ α :=
  ⟨without key m.entries, m.sorted.filter _⟩

def isEmpty (m : SortedMap κ α) : Bool := m.entries.isEmpty

def size (m : SortedMap κ α) : Nat := m.entries.length

def keys (m : SortedMap κ α) : List κ := m.entries.map (·.1)

def values (m : SortedMap κ α) : List α := m.entries.map (·.2)

/-- The map of a list of entries; of two entries with one key the later counts. -/
def ofList (entries : List (κ × α)) : SortedMap κ α :=
  entries.foldl (fun m e => m.insert e.1 e.2) empty

@[simp] theorem find?_empty (key : κ) : (empty : SortedMap κ α).find? key = none := rfl

theorem find?_insert (m : SortedMap κ α) (key : κ) (value : α) (k : κ) :
    (m.insert key value).find? k = if k = key then some value else m.find? k :=
  lookup_place key value m.entries k

theorem find?_erase (m : SortedMap κ α) (key k : κ) :
    (m.erase key).find? k = if k = key then none else m.find? k :=
  lookup_without key m.entries k

theorem lookup_eq_none_of_lt {key : κ} {entries : List (κ × α)}
    (h : ∀ e ∈ entries, key < e.1) : lookup key entries = none := by
  induction entries with
  | nil => rfl
  | cons first rest ih =>
    obtain ⟨k, v⟩ := first
    have different : key ≠ k := fun same =>
      Std.lt_irrefl (same ▸ h (k, v) List.mem_cons_self : key < key)
    rw [lookup, if_neg different]
    exact ih fun e he => h e (List.mem_cons_of_mem _ he)

theorem eq_of_lookup {a b : List (κ × α)} (ha : a.Pairwise fun x y => x.1 < y.1)
    (hb : b.Pairwise fun x y => x.1 < y.1) (h : ∀ k, lookup k a = lookup k b) : a = b := by
  induction a generalizing b with
  | nil =>
    cases b with
    | nil => rfl
    | cons e r => simpa [lookup] using h e.1
  | cons e r ih =>
    obtain ⟨k, v⟩ := e
    cases b with
    | nil => simpa [lookup] using h k
    | cons e' r' =>
      obtain ⟨k', v'⟩ := e'
      have ⟨lowa, higha⟩ := List.pairwise_cons.1 ha
      have ⟨lowb, highb⟩ := List.pairwise_cons.1 hb
      have missing : ∀ {x : κ} {s : List (κ × α)} {y : κ} {w : α}, x < y →
          (∀ e ∈ s, y < e.1) → lookup x ((y, w) :: s) = none := fun hxy hs =>
        lookup_eq_none_of_lt fun e he => by
          rcases List.mem_cons.1 he with rfl | he
          · exact hxy
          · exact Std.lt_trans hxy (hs e he)
      have same : k = k' := by
        by_cases less : k < k'
        · have := h k
          rw [missing less lowb] at this
          simp [lookup] at this
        · by_cases eq : k = k'
          · exact eq
          · have := h k'
            rw [missing (Std.lt_of_le_of_ne (Std.not_lt.1 less) (Ne.symm eq)) lowa] at this
            simp [lookup] at this
      subst same
      have value : v = v' := by simpa [lookup] using h k
      subst value
      rw [ih higha highb]
      intro x
      by_cases hx : x = k
      · subst hx
        rw [lookup_eq_none_of_lt lowa, lookup_eq_none_of_lt lowb]
      · simpa [lookup, hx] using h x

/-- Maps with the same look-ups are equal. -/
theorem ext_find? {a b : SortedMap κ α} (h : ∀ k, a.find? k = b.find? k) : a = b := by
  have := eq_of_lookup a.sorted b.sorted h
  cases a; cases b; subst this; rfl

end SortedMap

end HostSubnets

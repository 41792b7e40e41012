/-!
# What is due when

* `Agenda` : names, each with the time from which it is due, in order of time;
* `Agenda.add` : a name to be due once more. No name is there twice: it is due at the earlier of its
  times (`due?_add`), and after the others of that time;
* `Agenda.first?` : the entry of an eligible name that is due first;
* `Agenda.drop` : the entries of all other names (`due?_drop`).
-/

namespace HostSubnets

structure Agenda where
  entries : List (Nat × String)
deriving DecidableEq, Repr

namespace Agenda

def empty : Agenda := ⟨[]⟩

/-- The entry that is due first among those whose names are eligible. -/
def first? (a : Agenda) (eligible : String → Bool) : Option (Nat × String) :=
  a.entries.find? fun e => eligible e.2

def size (a : Agenda) : Nat := a.entries.length

def timeOf (name : String) : List (Nat × String) → Option Nat
  | [] => none
  | (due, other) :: rest => if name = other then some due else timeOf name rest

def due? (a : Agenda) (name : String) : Option Nat := timeOf name a.entries

/-- An entry behind those that are due no later. -/
def place (due : Nat) (name : String) : List (Nat × String) → List (Nat × String)
  | [] => [(due, name)]
  | e :: rest => if due < e.1 then (due, name) :: e :: rest else e :: place due name rest

def without (name : String) (entries : List (Nat × String)) : List (Nat × String) :=
  entries.filter fun e => e.2 ≠ name

def add (a : Agenda) (due : Nat) (name : String) : Agenda :=
  match a.due? name with
  | none => ⟨place due name a.entries⟩
  | some planned => if due < planned then ⟨place due name (without name a.entries)⟩ else a

def drop (a : Agenda) (name : String) : Agenda := ⟨without name a.entries⟩

theorem timeOf_without (name : String) (entries : List (Nat × String)) (other : String) :
    timeOf other (without name entries) = if other = name then none else timeOf other entries := by
  induction entries with
  | nil => simp [without, timeOf]
  | cons first rest ih =>
    obtain ⟨due, n⟩ := first
    unfold without at ih ⊢
    rw [List.filter_cons]
    by_cases same : n = name
    · subst same
      simp only [ne_eq, not_true_eq_false, decide_false, Bool.false_eq_true, if_false, ih, timeOf]
      split <;> rfl
    · simp only [ne_eq, same, not_false_eq_true, decide_true, if_true, timeOf, ih]
      by_cases h : other = n
      · subst h; simp [same]
      · simp [h]

theorem due?_drop (a : Agenda) (name other : String) :
    (a.drop name).due? other = if other = name then none else a.due? other :=
  timeOf_without name a.entries other

theorem timeOf_place {due : Nat} {name : String} {entries : List (Nat × String)}
    (new : timeOf name entries = none) (other : String) :
    timeOf other (place due name entries) =
      if other = name then some due else timeOf other entries := by
  induction entries with
  | nil => simp [place, timeOf]
  | cons first rest ih =>
    obtain ⟨d, n⟩ := first
    have different : name ≠ n := by
      rintro rfl
      simp [timeOf] at new
    have newRest : timeOf name rest = none := by simpa [timeOf, different] using new
    unfold place
    split
    · rw [timeOf]
    · simp only [timeOf, ih newRest]
      by_cases h : other = n
      · subst h; simp [Ne.symm different]
      · simp [h]

/-- A name is due at the earlier of its times, and no other name's time changes. -/
theorem due?_add (a : Agenda) (due : Nat) (name other : String) :
    (a.add due name).due? other =
      if other = name then some (((a.due? name).map (min due)).getD due) else a.due? other := by
  unfold add
  split
  next new => simp [due?, timeOf_place new, show timeOf name a.entries = none from new]
  next planned h =>
    split
    next earlier =>
      simp only [due?] at h ⊢
      rw [timeOf_place (by simp [timeOf_without]), timeOf_without, h]
      split
      · simp [Nat.min_eq_left (Nat.le_of_lt earlier)]
      · rfl
    next later =>
      split
      next same => subst same; simp [h, Nat.min_eq_right (Nat.not_lt.1 later)]
      next => rfl

end Agenda

end HostSubnets

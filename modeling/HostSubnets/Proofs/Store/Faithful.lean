import HostSubnets.Proofs.SortedMap
import HostSubnets.Store.Scripted
import Mathlib.Logic.Basic

/-!
# Stores that keep node records

`StoreOps.Faithful` : what callers rely on. Reads and failed writes change no record, a successful write changes
one record that was there, and a record is reported missing only if it is. Anything may fail otherwise, and
nothing is said of how often. `StoreOps.Reports` : a missing record is reported missing in fact.
`StoreOps.Accepting` : a present one is read and written without fail.
`ScriptedStore.faithful` : the scripted store is faithful as long as its faults only refuse calls.
-/

namespace HostSubnets

/-- Every record is kept under the name it goes by. -/
def Records.Keyed (records : Records) : Prop := ∀ name n, records.find? name = some n → n.key = name

theorem Records.keyed_empty : Records.Keyed .empty := fun _ _ h => by cases h

theorem Records.Keyed.insert {records : Records} (h : records.Keyed) {name : String} {n : Node}
    (hn : n.key = name) : Records.Keyed (records.insert name n) := by
  intro x m hm
  rw [SortedMap.find?_insert] at hm
  split at hm
  · rename_i hx
    obtain rfl := Option.some.inj hm
    rw [hx, hn]
  · exact h x m hm

theorem Records.Keyed.erase {records : Records} (h : records.Keyed) (name : String) :
    Records.Keyed (records.erase name) := by
  intro x m hm
  rw [SortedMap.find?_erase] at hm
  split at hm
  · cases hm
  · exact h x m hm

theorem Records.Keyed.put {records : Records} (h : records.Keyed) (n : Node) : Records.Keyed (records.put n) :=
  h.insert rfl

theorem Records.Keyed.mem_values_iff {records : Records} (h : records.Keyed) {n : Node} :
    n ∈ records.values ↔ records.find? n.key = some n := by
  rw [SortedMap.mem_values]
  constructor
  · intro hmem
    obtain ⟨name, hfind⟩ := hmem
    rw [h name n hfind]
    exact hfind
  · exact fun hfind => ⟨n.key, hfind⟩

theorem Records.replace_ok {n w : Node} {records after : Records} (h : replace n records = .ok (w, after)) :
    (records.find? n.key).isSome = true ∧ (∃ version, w = { n with version }) ∧
      after = records.insert n.key w := by
  unfold replace at h
  split at h
  · cases h
  · rename_i current hcurrent
    split at h
    · obtain ⟨rfl, rfl⟩ := Prod.mk.inj (Except.ok.inj h)
      exact ⟨by rw [hcurrent]; rfl, ⟨_, rfl⟩, rfl⟩
    · cases h

theorem Records.replace_notFound {n : Node} {records : Records} {e : StoreError}
    (h : replace n records = .error e) (he : e.isNotFound = true) : records.find? n.key = none := by
  unfold replace at h
  split at h
  · rename_i hnone
    exact hnone
  · split at h
    · cases h
    · obtain rfl := Except.error.inj h
      cases he

/-- What the operations of a store do to the records in it. -/
structure StoreOps.Faithful {σ : Type} (ops : StoreOps σ) (records : σ → Records) : Prop where
  get_records : ∀ name s, records (ops.get name s).2 = records s
  get_ok : ∀ name s n, (ops.get name s).1 = .ok n → (records s).find? name = some n
  get_notFound : ∀ name s e, (ops.get name s).1 = .error e → e.isNotFound = true →
    (records s).find? name = none
  list_records : ∀ selector s, records (ops.list selector s).2 = records s
  write_ok : ∀ n s w, (ops.write n s).1 = .ok w → ((records s).find? n.key).isSome = true ∧
    (∃ version, w = { n with version }) ∧ records (ops.write n s).2 = (records s).insert n.key w
  write_error : ∀ n s e, (ops.write n s).1 = .error e → records (ops.write n s).2 = records s ∧
    (e.isNotFound = true → (records s).find? n.key = none)

/-- A missing record is always reported missing. -/
def StoreOps.Reports {σ : Type} (ops : StoreOps σ) (records : σ → Records) (name : String) : Prop :=
  ∀ s, (records s).find? name = none → ∃ e, (ops.get name s).1 = .error e ∧ e.isNotFound = true

/-- No call for a record that is there fails, except a write that starts from an old version. -/
structure StoreOps.Accepting {σ : Type} (ops : StoreOps σ) (records : σ → Records) : Prop where
  get_present : ∀ name s n, (records s).find? name = some n → (ops.get name s).1 = .ok n
  write_current : ∀ n s m, (records s).find? n.key = some m → n.version = m.version → ∃ w, (ops.write n s).1 = .ok w

/-! ## Records as such -/

namespace Records

def ops : StoreOps Records where
  get name s := (match s.find? name with | some n => .ok n | none => .error (.notFound name), s)
  list selector s := (.ok (s.select selector), s)
  write n s :=
    match replace n s with
    | .ok (w, after) => (.ok w, after)
    | .error e => (.error e, s)

theorem faithful : ops.Faithful id where
  get_records := fun _ _ => rfl
  get_ok := by
    intro name s n h
    change (match s.find? name with | some n => .ok n | none => .error (StoreError.notFound name)) = Except.ok n at h
    split at h
    · rename_i m hm
      rw [id, hm, Except.ok.inj h]
    · cases h
  get_notFound := by
    intro name s e h _
    change (match s.find? name with | some n => .ok n | none => .error (StoreError.notFound name)) = Except.error e at h
    split at h
    · cases h
    · rename_i hnone
      exact hnone
  list_records := fun _ _ => rfl
  write_ok := by
    intro n s w h
    unfold ops at h ⊢
    dsimp only at h ⊢
    split at h
    · rename_i w' after hr
      obtain rfl := Except.ok.inj h
      exact replace_ok hr
    · cases h
  write_error := by
    intro n s e h
    unfold ops at h ⊢
    dsimp only at h ⊢
    split at h
    · cases h
    · rename_i e' hr
      obtain rfl := Except.error.inj h
      exact ⟨rfl, replace_notFound hr⟩

theorem reports (name : String) : StoreOps.Reports ops id name := by
  intro s h
  refine ⟨.notFound name, ?_, rfl⟩
  show (match s.find? name with | some n => .ok n | none => .error (StoreError.notFound name)) = Except.error _
  rw [show s.find? name = none from h]

theorem accepting : ops.Accepting id where
  get_present := by
    intro name s n h
    show (match s.find? name with | some n => .ok n | none => .error (StoreError.notFound name)) = Except.ok n
    rw [show s.find? name = some n from h]
  write_current := by
    intro n s m h hversion
    have hreplace : replace n s = .ok (n.bump, s.insert n.key n.bump) := by
      unfold replace
      rw [show s.find? n.key = some m from h]
      exact if_pos hversion.symm
    refine ⟨n.bump, ?_⟩
    show (match replace n s with | .ok (w, after) => (Except.ok w, after) | .error e => (.error e, s)).1 = _
    rw [hreplace]

end Records

/-! ## The scripted store -/

namespace ScriptedStore

theorem get_cases (name : String) (s : ScriptedStore) :
    (s.get name).2.records = s.records ∧
      ((∃ e, (s.getFaults.headD .pass).error? name = some e ∧ (s.get name).1 = .error e) ∨
        (∃ n, s.records.find? name = some n ∧ (s.get name).1 = .ok n) ∨
        s.records.find? name = none ∧ (s.get name).1 = .error (.notFound name)) := by
  unfold get
  dsimp only
  split
  · rename_i e he
    exact ⟨rfl, Or.inl ⟨e, he, rfl⟩⟩
  · split
    · rename_i n hn
      exact ⟨rfl, Or.inr (Or.inl ⟨n, hn, rfl⟩)⟩
    · rename_i hnone
      exact ⟨rfl, Or.inr (Or.inr ⟨hnone, rfl⟩)⟩

theorem write_cases (n : Node) (s : ScriptedStore) :
    (∃ e, (s.writeFaults.headD .pass).error? n.key = some e ∧ (s.write n).1 = .error e ∧
        (s.write n).2.records = s.records) ∨
      (s.writeFaults.headD .pass).error? n.key = none ∧
        ((∃ e, Records.replace n (disturb n.key (s.writeFaults.headD .pass) s.records) = .error e ∧
            (s.write n).1 = .error e ∧
              (s.write n).2.records = disturb n.key (s.writeFaults.headD .pass) s.records) ∨
          ∃ w after, Records.replace n (disturb n.key (s.writeFaults.headD .pass) s.records) = .ok (w, after) ∧
            (s.write n).1 = .ok w ∧ (s.write n).2.records = after) := by
  unfold write
  dsimp only
  split
  · rename_i e he
    exact Or.inl ⟨e, he, rfl, rfl⟩
  · rename_i hnone
    refine Or.inr ⟨hnone, ?_⟩
    cases Records.replace n (disturb n.key (s.writeFaults.headD .pass) s.records) with
    | error e => exact Or.inl ⟨e, rfl, rfl, rfl⟩
    | ok r => exact Or.inr ⟨r.1, r.2, rfl, rfl, rfl⟩

/-- Faults that refuse a call and do nothing else. -/
def Refusing (faults : List Fault) : Prop :=
  ∀ fault ∈ faults, fault = .pass ∨ fault = .conflict ∨ fault = .encode ∨ fault = .server

instance (faults : List Fault) : Decidable (Refusing faults) :=
  inferInstanceAs (Decidable (∀ fault ∈ faults, _))

abbrev Refuser : Type := { s : ScriptedStore // Refusing s.getFaults ∧ Refusing s.writeFaults }

theorem Refusing.tail {faults : List Fault} (h : Refusing faults) : Refusing faults.tail :=
  fun fault hf => h fault (List.mem_of_mem_tail hf)

theorem Refusing.head {faults : List Fault} (h : Refusing faults) :
    faults.headD .pass = .pass ∨ faults.headD .pass = .conflict ∨ faults.headD .pass = .encode ∨
      faults.headD .pass = .server := by
  cases faults with
  | nil => exact Or.inl rfl
  | cons fault rest => exact h fault List.mem_cons_self

theorem refusing_get (name : String) (s : Refuser) :
    Refusing (s.1.get name).2.getFaults ∧ Refusing (s.1.get name).2.writeFaults := by
  unfold get
  dsimp only
  split
  · exact ⟨s.2.1.tail, s.2.2⟩
  · split <;> exact ⟨s.2.1.tail, s.2.2⟩

theorem refusing_list (selector : String) (s : Refuser) :
    Refusing (s.1.list selector).2.getFaults ∧ Refusing (s.1.list selector).2.writeFaults := by
  unfold list
  dsimp only
  split <;> exact s.2

theorem refusing_write (n : Node) (s : Refuser) :
    Refusing (s.1.write n).2.getFaults ∧ Refusing (s.1.write n).2.writeFaults := by
  unfold write
  dsimp only
  split
  · exact ⟨s.2.1, s.2.2.tail⟩
  · split <;> exact ⟨s.2.1, s.2.2.tail⟩

def refuserOps : StoreOps Refuser where
  get name s := ((s.1.get name).1, ⟨(s.1.get name).2, refusing_get name s⟩)
  list selector s := ((s.1.list selector).1, ⟨(s.1.list selector).2, refusing_list selector s⟩)
  write n s := ((s.1.write n).1, ⟨(s.1.write n).2, refusing_write n s⟩)

theorem isNotFound_of_error? {fault : Fault} {name : String} {e : StoreError} (h : fault.error? name = some e)
    (hf : fault = .pass ∨ fault = .conflict ∨ fault = .encode ∨ fault = .server) : e.isNotFound = false := by
  rcases hf with rfl | rfl | rfl | rfl
  · cases h
  · obtain rfl := Option.some.inj h
    rfl
  · obtain rfl := Option.some.inj h
    rfl
  · obtain rfl := Option.some.inj h
    rfl

theorem disturb_of_error? {fault : Fault} {name : String} (h : fault.error? name = none)
    (hf : fault = .pass ∨ fault = .conflict ∨ fault = .encode ∨ fault = .server) (records : Records) :
    disturb name fault records = records := by
  rcases hf with rfl | rfl | rfl | rfl
  · rfl
  · cases h
  · cases h
  · cases h

/-- **Faults that only refuse calls leave a store faithful.** -/
theorem faithful : refuserOps.Faithful fun s => s.1.records where
  get_records name s := (get_cases name s.1).1
  get_ok := by
    intro name s n h
    change (s.1.get name).1 = _ at h
    rcases (get_cases name s.1).2 with ⟨e, -, he⟩ | ⟨m, hm, hok⟩ | ⟨-, he⟩
    · cases he.symm.trans h
    · obtain rfl := Except.ok.inj (hok.symm.trans h)
      exact hm
    · cases he.symm.trans h
  get_notFound := by
    intro name s e h he
    change (s.1.get name).1 = _ at h
    rcases (get_cases name s.1).2 with ⟨e', hfault, he'⟩ | ⟨m, -, hok⟩ | ⟨hnone, -⟩
    · obtain rfl := Except.error.inj (he'.symm.trans h)
      cases (isNotFound_of_error? hfault s.2.1.head).symm.trans he
    · cases hok.symm.trans h
    · exact hnone
  list_records := by
    intro selector s
    show (s.1.list selector).2.records = _
    unfold list
    dsimp only
    split <;> rfl
  write_ok := by
    intro n s w h
    change (s.1.write n).1 = _ at h
    show _ ∧ _ ∧ (s.1.write n).2.records = _
    rcases write_cases n s.1 with ⟨e, -, he, -⟩ | ⟨hnone, ⟨e, -, he, -⟩ | ⟨w', after, hr, hw, hafter⟩⟩
    · cases he.symm.trans h
    · cases he.symm.trans h
    · obtain rfl := Except.ok.inj (hw.symm.trans h)
      rw [disturb_of_error? hnone s.2.2.head] at hr
      rw [hafter]
      exact Records.replace_ok hr
  write_error := by
    intro n s e h
    change (s.1.write n).1 = _ at h
    show (s.1.write n).2.records = _ ∧ _
    rcases write_cases n s.1 with ⟨e', hfault, he, hrecords⟩ | ⟨hnone, ⟨e', hr, he, hrecords⟩ | ⟨w, after, -, hw, -⟩⟩
    · obtain rfl := Except.error.inj (he.symm.trans h)
      exact ⟨hrecords, fun hnot => by cases (isNotFound_of_error? hfault s.2.2.head).symm.trans hnot⟩
    · obtain rfl := Except.error.inj (he.symm.trans h)
      rw [disturb_of_error? hnone s.2.2.head] at hr hrecords
      exact ⟨hrecords, Records.replace_notFound hr⟩
    · cases hw.symm.trans h

end ScriptedStore

end HostSubnets

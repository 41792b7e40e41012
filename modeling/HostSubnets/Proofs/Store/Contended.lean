import HostSubnets.Proofs.Store.Retaining

/-!
# Stores that others write too

`StoreOps.Contended` : calls for a name may fail in any way, and whenever one is made the record of that name may have
been changed or removed by somebody else. A write succeeds on the record that was there, and no call changes the record
of another name. So it is with the scripted store under all faults (`ScriptedStore.contended`), and with stores that
nobody else writes (`StoreOps.Retaining.contended`).
-/

namespace HostSubnets

namespace Records

/-- The record of one name may have changed, not the name, and no other record. -/
structure Touched (name : String) (before after : Records) : Prop where
  others : ∀ x, x ≠ name → after.find? x = before.find? x
  keyed : before.Keyed → after.Keyed

variable {before after : Records} {name : String} {n : Node}

theorem Touched.refl (name : String) (before : Records) : Touched name before before := ⟨fun _ _ => rfl, id⟩

theorem touched_insert (hn : before.Keyed → n.key = name) : Touched name before (before.insert name n) where
  others := fun x hx => by rw [SortedMap.find?_insert, if_neg hx]
  keyed := fun h => h.insert (hn h)

theorem touched_erase (name : String) (before : Records) : Touched name before (before.erase name) where
  others := fun x hx => by rw [SortedMap.find?_erase, if_neg hx]
  keyed := fun h => h.erase name

end Records

/-- What the operations of a store do to the records in it if others write too. -/
structure StoreOps.Contended {σ : Type} (ops : StoreOps σ) (records : σ → Records) : Prop where
  get_touches : ∀ name s, Records.Touched name (records s) (records (ops.get name s).2)
  get_ok : ∀ name s n, (ops.get name s).1 = .ok n → (records (ops.get name s).2).find? name = some n
  write_ok : ∀ n s w, (ops.write n s).1 = .ok w →
    (∃ version, w = { n with version }) ∧ records (ops.write n s).2 = (records s).insert n.key w
  write_error : ∀ n s e, (ops.write n s).1 = .error e →
    Records.Touched n.key (records s) (records (ops.write n s).2)

theorem StoreOps.Retaining.contended {σ : Type} {ops : StoreOps σ} {records : σ → Records}
    (h : ops.Retaining records) : ops.Contended records where
  get_touches := fun name s => by
    rw [h.get_records]
    exact .refl name _
  get_ok := fun name s n hn => by
    rw [h.get_records]
    exact h.get_ok name s n hn
  write_ok := h.write_ok
  write_error := fun n s e he => by
    rw [h.write_error n s e he]
    exact .refl n.key _

namespace ScriptedStore

theorem touched_disturb (name : String) (fault : Fault) (records : Records) :
    Records.Touched name records (disturb name fault records) := by
  cases fault with
  | touch =>
    show Records.Touched name records (Records.modify name Node.bump records)
    unfold Records.modify
    split
    · exact .refl name records
    · rename_i n hn
      exact Records.touched_insert fun h => (Node.key_bump n).trans (h name n hn)
  | delete => exact Records.touched_erase name records
  | _ => exact .refl name records

theorem insert_of_touched {name : String} {before after : Records} (h : Records.Touched name before after) (n : Node) :
    after.insert name n = before.insert name n := by
  refine SortedMap.ext_find? fun x => ?_
  rw [SortedMap.find?_insert, SortedMap.find?_insert]
  split
  · rfl
  · rename_i hx
    exact h.others x hx

/-- **Others may change or remove a record before it is written**, besides any failure of any call. -/
theorem contended : ops.Contended records where
  get_touches := by
    intro name s
    show Records.Touched name s.records (s.get name).2.records
    rw [(get_cases name s).1]
    exact .refl name _
  get_ok := by
    intro name s n h
    change (s.get name).1 = _ at h
    show (s.get name).2.records.find? name = _
    obtain ⟨hrecords, hcases⟩ := get_cases name s
    rw [hrecords]
    rcases hcases with ⟨e, -, he⟩ | ⟨m, hm, hok⟩ | ⟨-, he⟩
    · cases he.symm.trans h
    · obtain rfl := Except.ok.inj (hok.symm.trans h)
      exact hm
    · cases he.symm.trans h
  write_ok := by
    intro n s w h
    change (s.write n).1 = _ at h
    show _ ∧ (s.write n).2.records = _
    rcases write_cases n s with ⟨e, -, he, -⟩ | ⟨-, ⟨e, -, he, -⟩ | ⟨w', after, hr, hw, hafter⟩⟩
    · cases he.symm.trans h
    · cases he.symm.trans h
    · obtain rfl := Except.ok.inj (hw.symm.trans h)
      obtain ⟨-, hversion, rfl⟩ := Records.replace_ok hr
      rw [hafter]
      exact ⟨hversion, insert_of_touched (touched_disturb _ _ _) _⟩
  write_error := by
    intro n s e h
    change (s.write n).1 = _ at h
    show Records.Touched n.key s.records (s.write n).2.records
    rcases write_cases n s with ⟨e', -, -, hrecords⟩ | ⟨-, ⟨e', -, -, hrecords⟩ | ⟨w, after, -, hw, -⟩⟩
    · rw [hrecords]
      exact .refl n.key _
    · rw [hrecords]
      exact touched_disturb _ _ _
    · cases hw.symm.trans h

end ScriptedStore

end HostSubnets

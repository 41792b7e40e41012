import HostSubnets.Proofs.Store.Faithful
import Mathlib.Data.List.Perm.Subperm

/-!
# Stores that nobody else writes

`StoreOps.Retaining` : records change by successful writes alone, and calls may fail in any way. Less is asked of a
store than by `StoreOps.Faithful`: a record may be reported missing that is there. `StoreOps.Lists` : a listing leaves
out none of the records that the selector matches, as in the scripted store (`ScriptedStore.lists_records`), and tells
none twice, so the names in it are different (`Records.Keyed.nodup_keys_of_subperm`).
-/

namespace HostSubnets

/-- What the operations of a store do to the records in it if it may fail at any time. -/
structure StoreOps.Retaining {σ : Type} (ops : StoreOps σ) (records : σ → Records) : Prop where
  get_records : ∀ name s, records (ops.get name s).2 = records s
  get_ok : ∀ name s n, (ops.get name s).1 = .ok n → (records s).find? name = some n
  list_records : ∀ selector s, records (ops.list selector s).2 = records s
  write_ok : ∀ n s w, (ops.write n s).1 = .ok w →
    (∃ version, w = { n with version }) ∧ records (ops.write n s).2 = (records s).insert n.key w
  write_error : ∀ n s e, (ops.write n s).1 = .error e → records (ops.write n s).2 = records s

/-- A listing is of the records that the selector matches, perhaps with others, and of none twice. -/
def StoreOps.Lists {σ : Type} (ops : StoreOps σ) (records : σ → Records) : Prop :=
  ∀ selector s nodes, (ops.list selector s).1 = .ok nodes →
    nodes.Subperm (records s).values ∧ ∀ n ∈ (records s).values, Records.matches? selector n = true → n ∈ nodes

theorem StoreOps.Faithful.retaining {σ : Type} {ops : StoreOps σ} {records : σ → Records}
    (h : ops.Faithful records) : ops.Retaining records where
  get_records := h.get_records
  get_ok := h.get_ok
  list_records := h.list_records
  write_ok := fun n s w hw => (h.write_ok n s w hw).2
  write_error := fun n s e he => (h.write_error n s e he).1

namespace Records

variable {records : Records} {nodes : List Node}

theorem matches?_not (label : String) (n : Node) : matches? ("!" ++ label) n = (n.labelAt? label).isNone := by
  have hlist : ("!" ++ label).toList = '!' :: label.toList := by
    rw [String.toList_append]
    rfl
  unfold matches?
  rw [hlist]
  exact congrArg (fun text => (n.labelAt? text).isNone) String.ofList_toList

theorem Keyed.map_key_values (h : records.Keyed) : records.values.map Node.key = records.keys := by
  unfold SortedMap.values SortedMap.keys
  rw [List.map_map]
  refine List.map_congr_left fun e he => ?_
  exact h e.1 e.2 ((SortedMap.find?_eq_some_iff records e.1 e.2).2 he)

theorem Keyed.nodup_keys_of_subperm (h : records.Keyed) (hnodes : nodes.Subperm records.values) :
    (nodes.map Node.key).Nodup := by
  obtain ⟨l, hperm, hsub⟩ := hnodes
  have hnodup : (records.values.map Node.key).Nodup := by
    rw [h.map_key_values]
    exact SortedMap.nodup_keys records
  exact (hperm.map Node.key).nodup_iff.1 (hnodup.sublist (hsub.map Node.key))

theorem select_lists (selector : String) (records : Records) :
    (records.select selector).Subperm records.values ∧
      ∀ n ∈ records.values, matches? selector n = true → n ∈ records.select selector :=
  ⟨List.filter_sublist.subperm, fun _ hn hmatch => List.mem_filter.2 ⟨hn, hmatch⟩⟩

theorem lists : ops.Lists id := by
  intro selector s nodes h
  obtain rfl := Except.ok.inj h
  exact select_lists selector s

end Records

namespace ScriptedStore

theorem lists_records : refuserOps.Lists fun s => s.1.records := by
  intro selector s nodes h
  change (s.1.list selector).1 = _ at h
  unfold list at h
  dsimp only at h
  split at h
  · cases h
  · obtain rfl := Except.ok.inj h
    split
    · exact ⟨List.Subperm.refl _, fun n hn _ => hn⟩
    · exact Records.select_lists selector s.1.records

end ScriptedStore

end HostSubnets

import HostSubnets.Proofs.Store.Faithful
import HostSubnets.Proofs.Text.Numeral
import HostSubnets.Store.Memory

/-!
# Versions of a record

`StoreOps.Conditional` : writes succeed on the version that they were made from alone, as in the records themselves
(`Records.conditional`) and in the store in memory (`MemoryStore.write?_ok`). That store counts a record's versions up
as far as they go, so it never gives one twice (`MemoryStore.version_fresh`).
-/

namespace HostSubnets

/-- A write only succeeds on the version that it was made from. -/
def StoreOps.Conditional {σ : Type} (ops : StoreOps σ) (records : σ → Records) : Prop :=
  ∀ n s w, (ops.write n s).1 = .ok w → ∃ m, (records s).find? n.key = some m ∧ m.version = n.version

theorem Records.version_of_replace {n w : Node} {records after : Records} (h : replace n records = .ok (w, after)) :
    ∃ m, records.find? n.key = some m ∧ m.version = n.version ∧ w = n.bump := by
  unfold replace at h
  split at h
  · cases h
  · rename_i m hm
    split at h
    · rename_i hversion
      exact ⟨m, hm, hversion, (Prod.mk.inj (Except.ok.inj h)).1.symm⟩
    · cases h

theorem Node.versionNumber_le (n : Node) : n.versionNumber ≤ MemoryStore.lastVersion := by
  unfold versionNumber
  split
  · exact Nat.zero_le _
  · split
    · rename_i hread
      exact Text.le_of_readNat hread
    · exact Nat.zero_le _

theorem Node.versionNumber_bump {n : Node} (h : n.versionNumber < MemoryStore.lastVersion) :
    n.bump.versionNumber = n.versionNumber + 1 := by
  have htext : (toString (n.versionNumber + 1)).toList = Text.showNat (n.versionNumber + 1) := by
    show (Nat.repr _).toList = _
    simp [Nat.repr, Text.showNat]
  have hread : Text.readNat (2 ^ 64 - 1) (toString (n.versionNumber + 1)).toList = .ok (n.versionNumber + 1) := by
    rw [htext]
    exact Text.readNat_showNat h
  have hversion : n.bump.version = some (toString (n.versionNumber + 1)) := rfl
  rw [versionNumber, hversion]
  dsimp only
  rw [hread]

namespace MemoryStore

variable {s s' : MemoryStore} {n w : Node}

/-- **A write that succeeds** was made from the stored version, and counts it up. -/
theorem write?_ok (h : s.write? n = some (.ok w, s')) :
    (∃ m, s.records.find? n.key = some m ∧ m.version = n.version) ∧ w = n.bump ∧
      w.versionNumber = n.versionNumber + 1 ∧ s'.records = s.records.insert n.key w := by
  unfold write? at h
  split at h
  · cases h
  · split at h
    · cases h
    · cases hreplace : Records.replace n s.records with
      | error e =>
        rw [hreplace] at h
        cases h
      | ok r =>
        obtain ⟨written, after⟩ := r
        rw [hreplace] at h
        dsimp only at h
        split at h
        · cases h
        · rename_i hlast
          obtain ⟨rfl, rfl⟩ : written = w ∧ _ = s' := by
            obtain ⟨hw, hs⟩ := Prod.mk.inj (Option.some.inj h)
            exact ⟨Except.ok.inj hw, hs⟩
          obtain ⟨m, hm, hversion, rfl⟩ := Records.version_of_replace hreplace
          obtain ⟨-, -, rfl⟩ := Records.replace_ok hreplace
          exact ⟨⟨m, hm, hversion⟩, rfl, Node.versionNumber_bump (Nat.lt_of_le_of_ne n.versionNumber_le hlast), rfl⟩

theorem write?_error {e : StoreError} (h : s.write? n = some (.error e, s')) : s'.records = s.records := by
  unfold write? at h
  split at h
  · obtain ⟨-, rfl⟩ := Prod.mk.inj (Option.some.inj h)
    rfl
  · split at h
    · obtain ⟨-, rfl⟩ := Prod.mk.inj (Option.some.inj h)
      rfl
    · cases hreplace : Records.replace n s.records with
      | error e' =>
        rw [hreplace] at h
        obtain ⟨-, rfl⟩ := Prod.mk.inj (Option.some.inj h)
        rfl
      | ok r =>
        rw [hreplace] at h
        dsimp only at h
        split at h <;> cases h

/-- **No version is given twice.** A version above all that there were is new, and above all that there were. -/
theorem version_fresh (h : s.write? n = some (.ok w, s')) {m : Node} (hm : m.versionNumber ≤ n.versionNumber) :
    w.version ≠ m.version ∧ m.versionNumber ≤ w.versionNumber := by
  obtain ⟨-, -, hnumber, -⟩ := write?_ok h
  refine ⟨fun heq => ?_, by omega⟩
  have hsame : w.versionNumber = m.versionNumber := by
    unfold Node.versionNumber
    rw [heq]
  omega

end MemoryStore

end HostSubnets

import HostSubnets.Proofs.Reconciler.Seeding

/-!
# Requests of a deletion

A deletion asks for nothing but that what its name holds be given back (`delete_clears`), so it shows that name
holding less and less (`Request.Clears.of_seen`), and when it is over every pool that is used was cleared
(`delete_cleared`).
-/

namespace HostSubnets.Reconciler

open HostSubnets.Task

variable {r : Reconciler} {name : String}

def Request.Clears (name : String) : Request → Prop
  | .pool _ (.releaseAll o) => o = name
  | .pool _ .count => True
  | .recordCapacity _ => True
  | _ => False

def Request.clear (q : Request) (cleared : PoolName → Prop) : PoolName → Prop :=
  match q with
  | .pool which (.releaseAll _) => Function.update cleared which True
  | _ => cleared

abbrev Request.ClearStep (q : Request) (cleared : PoolName → Prop) (_ : q.Reply) (cleared' : PoolName → Prop) : Prop :=
  cleared' = q.clear cleared

theorem Request.Clears.isBy {q : Request} (h : q.Clears name) : q.IsBy name := by
  cases q with
  | pool which q =>
    cases q with
    | releaseAll o => exact h
    | count => exact trivial
    | _ => exact h.elim
  | recordCapacity figures => exact trivial
  | _ => exact h.elim

theorem Request.Clears.of_seen {q : Request} (h : q.Clears name) {which : PoolName} {x : String} {v v' : View}
    {reply : q.Reply} (hseen : q.Seen which x v reply v') : v'.record = v.record ∧ v'.held ⊆ v.held := by
  by_cases hx : name = x
  · subst hx
    cases q with
    | pool y q =>
      by_cases hy : y = which
      · subst hy
        obtain ⟨hheld, hrecord⟩ := seen_pool_self.1 hseen
        refine ⟨hrecord, ?_⟩
        cases q with
        | releaseAll o =>
          obtain rfl : o = name := h
          have hnone : v'.held = ∅ := hheld.trans (if_pos rfl)
          rw [hnone]
          exact Set.empty_subset _
        | count => exact hheld.subset
        | _ => exact h.elim
      · rw [(seen_pool_other hy).1 hseen]
        exact ⟨rfl, subset_rfl⟩
    | recordCapacity figures =>
      obtain rfl : v' = v := hseen
      exact ⟨rfl, subset_rfl⟩
    | _ => exact h.elim
  · rw [h.isBy.eq_of_seen hx hseen]
    exact ⟨rfl, subset_rfl⟩

theorem Request.Clears.held_of_clear {q : Request} (h : q.Clears name) {which : PoolName} {v v' : View}
    {reply : q.Reply} (hseen : q.Seen which name v reply v') {cleared : PoolName → Prop} (hnot : ¬ cleared which)
    (hclear : q.clear cleared which) : v'.held = ∅ := by
  cases q with
  | pool x q =>
    cases q with
    | releaseAll o =>
      obtain rfl : o = name := h
      have hx : x = which := by
        by_contra hne
        change Function.update cleared x True which at hclear
        rw [Function.update_of_ne (Ne.symm hne)] at hclear
        exact hnot hclear
      subst hx
      exact (seen_pool_self.1 hseen).1.trans (if_pos rfl)
    | count => exact absurd hclear hnot
    | _ => exact h.elim
  | recordCapacity figures => exact absurd hclear hnot
  | _ => exact h.elim

theorem delete_clears (r : Reconciler) (name : String) :
    (r.delete name).Only (Request.Clears name) fun _ _ => True :=
  delete_asks r name (fun _ => rfl) trivial fun _ => trivial

theorem recordCapacity_cleared {cleared : PoolName → Prop} :
    r.recordCapacity.Always Request.ClearStep (fun _ => True) (fun _ C => C = cleared) cleared := by
  unfold recordCapacity
  split
  · rfl
  · rintro figures _ rfl
    refine ⟨trivial, ?_⟩
    rintro _ _ rfl
    exact ⟨trivial, rfl⟩

/-- **A deletion clears every pool that is used.** -/
theorem delete_cleared (r : Reconciler) (name : String) :
    (r.delete name).Always Request.ClearStep (fun _ => True) (fun _ C => ∀ which, C which)
      fun which => r.uses which = false := by
  rw [delete_eq, always_bind]
  have hcluster : ∀ C : PoolName → Prop, C .overlay → (C .cluster ∨ r.network.perNode = true) →
      (if r.network.perNode = true then askPool .cluster (.releaseAll name) >>= fun _ => r.recordCapacity
        else pure () : Program Unit).Always Request.ClearStep (fun _ => True)
          (fun _ C => ∀ which, C which) C := by
    intro C hoverlay hcluster
    split
    · rw [always_bind]
      rintro reply _ rfl
      refine ⟨trivial, recordCapacity_cleared.imp ?_⟩
      rintro _ _ rfl which
      cases which with
      | cluster => exact trivial
      | overlay => exact hoverlay
    · rename_i hper
      intro which
      cases which with
      | cluster => exact hcluster.resolve_right hper
      | overlay => exact hoverlay
  have hunused : r.uses .cluster = false ∨ r.network.perNode = true := by
    show r.network.perNode = false ∨ r.network.perNode = true
    cases r.network.perNode <;> simp
  by_cases hoverlay : r.hasOverlay = true
  · rw [if_pos hoverlay, always_bind]
    rintro reply _ rfl
    exact ⟨trivial, hcluster _ trivial hunused⟩
  · rw [if_neg hoverlay]
    exact hcluster (fun which => r.uses which = false) (by simpa [uses] using hoverlay) hunused

end HostSubnets.Reconciler

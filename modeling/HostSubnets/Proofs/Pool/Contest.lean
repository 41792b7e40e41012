import HostSubnets.Proofs.Pool.Choice

/-!
# Reconciliation while everything is given back

Somebody else may give back all that the owner holds, at any moment of its `reconcile`. What is followed then is the
owner's `Share` of the pool: the subnets it holds, the families that have room, and whether everything was given back
for the last time. `reconcile_contested` : the subnets chosen are those of an undisturbed run, whenever the others
strike, and after the last time nothing is held but chosen subnets.
-/

namespace HostSubnets.Pool

open HostSubnets.Task

variable {p : Pool} {o : String} {families : Families} {existing kept : List Cidr} {s : Cidr} {f : Family}

/-! ## Shares -/

structure Share where
  held : Set Cidr
  room : Set Family
  /-- Nobody else gives anything back any more. -/
  cleared : Prop

def share (o : String) (cleared : Prop) (p : Pool) : Share := ⟨p.heldBy o, {f | ¬ p.Full f}, cleared⟩

namespace Share

def MayClear (v v' : Share) : Prop := v' = v ∨ (v'.held = ∅ ∧ v'.cleared ∧ v.room ⊆ v'.room)

theorem MayClear.refl (v : Share) : v.MayClear v := Or.inl rfl

theorem MayClear.trans {u v w : Share} (huv : u.MayClear v) (hvw : v.MayClear w) : u.MayClear w := by
  rcases hvw with rfl | ⟨hheld, hcleared, hroom⟩
  · exact huv
  · rcases huv with rfl | ⟨-, -, hroom'⟩
    · exact Or.inr ⟨hheld, hcleared, hroom⟩
    · exact Or.inr ⟨hheld, hcleared, hroom'.trans hroom⟩

/-- There is room in the families of `R`, and what is held for good is in `l`. -/
structure Ready (R : Set Family) (l : List Cidr) (v : Share) : Prop where
  room : R ⊆ v.room
  held : v.cleared → ∀ s ∈ v.held, s ∈ l

theorem Ready.mayClear {R : Set Family} {l : List Cidr} {v v' : Share} (h : v.Ready R l) (hv : v.MayClear v') :
    v'.Ready R l := by
  rcases hv with rfl | ⟨hheld, -, hroom⟩
  · exact h
  · refine ⟨h.room.trans hroom, fun _ s hs => ?_⟩
    rw [hheld] at hs
    exact hs.elim

theorem Ready.mono {R R' : Set Family} {l l' : List Cidr} {v : Share} (h : v.Ready R l) (hR : R' ⊆ R) (hl : l ⊆ l') :
    v.Ready R' l' :=
  ⟨hR.trans h.room, fun hc s hs => hl (h.held hc s hs)⟩

end Share

/-! ## Requests -/

/-- The reply to a request of `o`, who can have the subnets `U`, and its share before and after it. -/
def Request.Contested (o : String) (U : Set Cidr) : (q : Request) → Share → q.Reply → Share → Prop
  | .mark x l, v, reply, v' => x = o → v'.cleared = v.cleared ∧ (reply = .ok () ↔ ∀ s ∈ l, s ∈ U) ∧
      (∀ s ∈ v'.held, s ∈ v.held ∨ s ∈ l ∧ s ∈ U) ∧
        ∀ s, l = [s] → ∀ f ∈ v.room, (s ∈ U → s.family ≠ f) → f ∈ v'.room
  | .release x l, v, _, v' => x = o → v'.cleared = v.cleared ∧ v'.held ⊆ v.held ∧ ∀ s, l = [s] → v.room ⊆ v'.room
  | .allocate x f, v, .ok (some s), v' => x = o → v'.cleared = v.cleared ∧ s.family = f ∧ s ∈ U ∧
      v'.held ⊆ insert s v.held ∧ v.room \ {f} ⊆ v'.room
  | .allocate x f, v, _, _ => x = o → f ∉ v.room
  | .releaseAll x, v, _, v' => x = o → v'.cleared = v.cleared ∧ v'.held = ∅
  | .allocated x, v, reply, v' => v' = v ∧ (x = o → ∀ s, s ∈ reply ↔ s ∈ v.held)
  | .count, v, _, v' => v' = v
  | .usage, v, _, v' => v' = v
  | .addRange .., _, _, _ => True

/-- **Every request of an owner agrees with that.** -/
theorem Coherent.contested_perform (hp : p.Coherent) {q : Request} (hq : q.IsBy o) (cleared : Prop) :
    q.Contested o {s | p.Usable o s} (p.share o cleared) (q.perform p).1 ((q.perform p).2.share o cleared) := by
  have hseen := hp.seen_perform o q
  have husable := hp.usable_perform hq
  cases q with
  | addRange network hostLength => exact hq.elim
  | mark x l =>
    obtain rfl : x = o := hq
    obtain ⟨-, hheld, -⟩ := (if_pos rfl).mp hseen
    refine fun _ => ⟨rfl, mark_ok_iff x l p, fun s hs => ?_, ?_⟩
    · refine (hheld s hs).imp_right fun hl => ⟨hl, (husable s).1 (usable_of_owner? ?_)⟩
      exact ((hp.mark x l).mem_heldBy_iff x s).1 hs
    · rintro s rfl f hf hother
      by_cases hs : p.Usable x s
      · exact (full_mark_one x (hother hs)).not.2 hf
      · show ¬ (p.mark x [s]).2.Full f
        rw [mark_one_error hs]
        exact hf
  | release x l =>
    obtain rfl : x = o := hq
    refine fun _ => ⟨rfl, fun s hs => ?_, ?_⟩
    · have hrest : (p.release x l).2.heldBy x = {s | s ∈ p.heldBy x ∧ s ∉ l} := hseen.trans (if_pos rfl)
      have hmem : s ∈ {s | s ∈ p.heldBy x ∧ s ∉ l} := hrest ▸ hs
      exact hmem.1
    · rintro s rfl f hf hfull
      exact hf (full_of_full_release hfull)
  | allocate x f =>
    obtain rfl : x = o := hq
    have hsome := allocate_some_iff x f p
    have hothers : (p.share x cleared).room \ {f} ⊆ ((p.allocate x f).2.share x cleared).room := by
      rintro g ⟨hg, hne⟩
      exact (hp.full_allocate x (Ne.symm hne)).not.2 hg
    change Request.Seen _ (.allocate x f) _ (p.allocate x f).1 ((p.allocate x f).2.heldBy x) at hseen
    show (Request.allocate x f).Contested x _ _ (p.allocate x f).1 _
    cases hreply : (p.allocate x f).1 with
    | error e =>
      refine fun _ hroom => ?_
      obtain ⟨s, hs⟩ := hsome.2 hroom
      cases hreply.symm.trans hs
    | ok taken =>
      cases taken with
      | none =>
        refine fun _ hroom => ?_
        obtain ⟨s, hs⟩ := hsome.2 hroom
        cases hreply.symm.trans hs
      | some s =>
        rw [hreply] at hseen
        obtain ⟨-, hsf, hinsert⟩ := (if_pos rfl).mp hseen
        refine fun _ => ⟨rfl, hsf, (husable s).1 (usable_of_owner? ?_), hinsert.le, hothers⟩
        exact ((hp.allocate x f).mem_heldBy_iff x s).1 (hinsert ▸ Set.mem_insert s _)
  | releaseAll x => exact fun hx => ⟨rfl, hseen.trans (if_pos hx)⟩
  | allocated x => exact ⟨rfl, fun hx s => by subst hx; rfl⟩
  | count => rfl
  | usage => rfl

section Contest

variable {U : Set Cidr} {R : Set Family} {l : List Cidr} {v : Share} {α : Type} {post : α → Share → Prop}

theorem contested_mark_one {next : Except PoolError Unit → Program α} (hv : v.Ready R l)
    (hok : s ∈ U → s.family ∉ R ∧ ∀ v' : Share, v'.Ready R (l ++ [s]) →
      (next (.ok ())).Always (After Share.MayClear (Request.Contested o U)) (fun _ => True) post v')
    (herr : s ∉ U → ∀ e, ∀ v' : Share, v'.Ready R l →
      (next (.error e)).Always (After Share.MayClear (Request.Contested o U)) (fun _ => True) post v') :
    (perform (Request.mark o [s]) >>= next).Always (After Share.MayClear (Request.Contested o U)) (fun _ => True) post
      v := by
  rw [always_bind, always_perform]
  rintro reply v' ⟨v₁, hclear, hstep⟩
  obtain ⟨hcleared, hreply, hheld, hroom⟩ := hstep rfl
  have hv₁ := hv.mayClear hclear
  simp only [List.mem_singleton, forall_eq] at hreply hheld
  refine ⟨trivial, ?_⟩
  by_cases hs : s ∈ U
  · obtain rfl : reply = .ok () := hreply.2 hs
    refine (hok hs).2 v' ⟨fun f hf => ?_, fun hc t ht => ?_⟩
    · refine hroom s rfl f (hv₁.room hf) fun _ hsf => (hok hs).1 (hsf ▸ hf)
    · rw [hcleared] at hc
      rw [List.mem_append, List.mem_singleton]
      exact (hheld t ht).imp (hv₁.held hc t) fun h => h.1
  · cases reply with
    | ok _ => exact absurd (hreply.1 rfl) hs
    | error e =>
      refine herr hs e v' ⟨fun f hf => ?_, fun hc t ht => ?_⟩
      · exact hroom s rfl f (hv₁.room hf) fun hsU => absurd hsU hs
      · rw [hcleared] at hc
        rcases hheld t ht with hold | ⟨rfl, hnew⟩
        · exact hv₁.held hc t hold
        · exact absurd hnew hs

theorem contested_release_one {task : Program α} (hv : v.Ready R l)
    (h : ∀ v' : Share, v'.Ready R l → task.Always (After Share.MayClear (Request.Contested o U)) (fun _ => True) post v') :
    (perform (Request.release o [s]) >>= fun _ => task).Always (After Share.MayClear (Request.Contested o U))
      (fun _ => True) post v := by
  rw [always_bind, always_perform]
  rintro reply v' ⟨v₁, hclear, hstep⟩
  obtain ⟨hcleared, hheld, hroom⟩ := hstep rfl
  have hv₁ := hv.mayClear hclear
  refine ⟨trivial, h v' ⟨hv₁.room.trans (hroom s rfl), fun hc t ht => ?_⟩⟩
  rw [hcleared] at hc
  exact hv₁.held hc t (hheld ht)

theorem contested_allocate_one {next : Except PoolError (Option Cidr) → Program α} (hv : v.Ready R l) (hf : f ∈ R)
    (h : ∀ s, s.family = f → s ∈ U → ∀ v' : Share, v'.Ready (R \ {f}) (l ++ [s]) →
      (next (.ok (some s))).Always (After Share.MayClear (Request.Contested o U)) (fun _ => True) post v') :
    (perform (Request.allocate o f) >>= next).Always (After Share.MayClear (Request.Contested o U)) (fun _ => True) post
      v := by
  rw [always_bind, always_perform]
  rintro reply v' ⟨v₁, hclear, hstep⟩
  have hv₁ := hv.mayClear hclear
  refine ⟨trivial, ?_⟩
  rcases reply with e | taken
  · exact absurd (hv₁.room hf) (hstep rfl)
  · cases taken with
    | none => exact absurd (hv₁.room hf) (hstep rfl)
    | some s =>
      obtain ⟨hcleared, hsf, hs, hheld, hroom⟩ := hstep rfl
      refine h s hsf hs v' ⟨fun g hg => hroom ⟨hv₁.room hg.1, hg.2⟩, fun hc t ht => ?_⟩
      rw [hcleared] at hc
      rw [List.mem_append, List.mem_singleton]
      exact (hheld ht).symm.imp_left (hv₁.held hc t)

end Contest

/-! ## What stays, and what is new -/

/-- **What an owner stays with is chosen as in an undisturbed run.** -/
theorem keep_contested (rest : List Cidr) {R : Set Family} {v : Share} (h : Picks families o p existing kept)
    (hv : v.Ready R kept) (hR : ∀ s ∈ rest, p.Usable o s → s.family ∉ R) :
    (keep o families kept rest).Always (After Share.MayClear (Request.Contested o {s | p.Usable o s})) (fun _ => True)
      (fun all v' => Picks families o p (existing ++ rest) all ∧ v'.Ready R all) v := by
  induction rest generalizing existing kept v with
  | nil =>
    rw [List.append_nil]
    exact ⟨h, hv⟩
  | cons s rest ih =>
    have hrest : ∀ t ∈ rest, p.Usable o t → t.family ∉ R := fun t ht => hR t (List.mem_cons_of_mem _ ht)
    have hback : (families.wants s.family = true → p.Usable o s → (p.pick o existing s.family).isSome = true) →
        ∀ v' : Share, v'.Ready R kept →
          (perform (Request.release o [s]) >>= fun _ => keep o families kept rest).Always
            (After Share.MayClear (Request.Contested o {s | p.Usable o s})) (fun _ => True)
            (fun all v' => Picks families o p (existing ++ [s] ++ rest) all ∧ v'.Ready R all) v' :=
      fun hno v' hv' => contested_release_one hv' fun v'' hv'' => ih (h.skip hno) hv'' hrest
    rw [show existing ++ s :: rest = existing ++ [s] ++ rest by simp, keep_cons]
    split
    · rename_i hs
      exact ih (h.again hs) hv hrest
    · split
      · rename_i hnew
        obtain ⟨hw, hf⟩ : families.wants s.family = true ∧ hasFamily kept s.family = false := by
          simpa using hnew
        refine contested_mark_one hv (fun hs => ⟨hR s List.mem_cons_self hs, fun v' hv' => ?_⟩) fun hs e v' hv' => ?_
        · exact ih (h.add hw hf hs) hv' hrest
        · exact hback (fun _ husable => absurd husable hs) v' hv'
      · rename_i hold
        refine hback (fun hw _ => ?_) v hv
        rw [hw, Bool.true_and, Bool.not_eq_true', Bool.not_eq_false] at hold
        exact (h.hasFamily_iff hw).1 hold

theorem fill_contested {U : Set Cidr} (absent : List Family) (hnodup : absent.Nodup) {l : List Cidr} {v : Share}
    (hv : v.Ready {f | f ∈ absent} (kept ++ l)) (hl : ∀ s ∈ l, s ∈ U) :
    (fill o l absent).Always (After Share.MayClear (Request.Contested o U)) (fun _ => True)
      (fun result v' => ∃ new, result = .ok (l ++ new) ∧ new.map Cidr.family = absent ∧ (∀ s ∈ l ++ new, s ∈ U) ∧
        v'.Ready ∅ (kept ++ (l ++ new))) v := by
  induction absent generalizing l v with
  | nil =>
    refine ⟨[], by rw [List.append_nil], rfl, by simpa using hl, ?_⟩
    rw [List.append_nil]
    exact hv.mono (Set.empty_subset _) (List.Subset.refl _)
  | cons f rest ih =>
    obtain ⟨hf, hrest⟩ := List.nodup_cons.1 hnodup
    rw [fill]
    refine contested_allocate_one hv List.mem_cons_self fun s hsf hs v' hv' => ?_
    have hready : v'.Ready {g | g ∈ rest} (kept ++ (l ++ [s])) := by
      rw [← List.append_assoc]
      refine hv'.mono (fun g hg => ⟨List.mem_cons_of_mem _ hg, ?_⟩) (List.Subset.refl _)
      rintro rfl
      exact hf hg
    have hall : ∀ t ∈ l ++ [s], t ∈ U := by
      intro t ht
      rcases List.mem_append.1 ht with ht | ht
      · exact hl t ht
      · exact List.mem_singleton.1 ht ▸ hs
    refine (ih hrest hready hall).imp ?_
    rintro result v'' ⟨new, rfl, hnew, hU, hready'⟩
    refine ⟨s :: new, by simp, by rw [List.map_cons, hnew, hsf], by simpa using hU, ?_⟩
    simpa using hready'

/-- **A contested reconciliation that is not starved succeeds, with subnets as an undisturbed one chooses them.** Once
everything has been given back for the last time, the owner holds none but those. -/
theorem reconcile_contested (hnot : ¬ p.Starved o families existing) {v : Share}
    (hroom : ∀ f, ¬ p.Full f → f ∈ v.room) (hv : v.cleared → v.held = ∅) :
    (reconcile o existing families).Always (After Share.MayClear (Request.Contested o {s | p.Usable o s}))
      (fun _ => True)
      (fun result v' => ∃ a, result = .ok a ∧ Fits p o families existing a ∧ v'.Ready ∅ a.subnets) v := by
  let R : Set Family := {f | families.wants f = true ∧ p.pick o existing f = none}
  have hready : v.Ready R [] := by
    refine ⟨fun f hf => hroom f fun hfull => hnot ⟨f, hf.1, hf.2, hfull⟩, fun hc s hs => ?_⟩
    rw [hv hc] at hs
    exact hs.elim
  have hR : ∀ s ∈ existing, p.Usable o s → s.family ∉ R :=
    fun s hs husable hf => pick_eq_none_iff.1 hf.2 s hs rfl husable
  rw [reconcile_eq, always_bind]
  refine (keep_contested existing (picks_nil families o p) hready hR).imp ?_
  rintro kept v' ⟨hpicks, hv'⟩
  rw [List.nil_append] at hpicks
  unfold complete
  split
  · rename_i hlen
    refine ⟨⟨kept, []⟩, rfl, ?_, hv'.mono (Set.empty_subset _) (List.Subset.refl _)⟩
    exact hpicks.fits (serves_of_length hpicks.admits hlen) (by simp) (by simp)
  · rw [always_bind]
    have hmissing : v'.Ready {f | f ∈ missing families kept} (kept ++ []) := by
      rw [List.append_nil]
      exact hv'.mono (fun f hf => hpicks.mem_missing.1 hf) (List.Subset.refl _)
    refine (fill_contested (missing families kept) (nodup_missing families kept) hmissing (by simp)).imp ?_
    rintro result v'' ⟨l, rfl, hl, hU, hv''⟩
    have hlen : ([] ++ l).length = (missing families kept).length := by
      rw [List.nil_append, ← hl, List.length_map]
    dsimp only
    rw [if_pos hlen]
    refine ⟨⟨kept ++ ([] ++ l), [] ++ l⟩, rfl, ?_, hv''⟩
    exact hpicks.fits (serves_append hpicks.admits hl) rfl hU

end HostSubnets.Pool

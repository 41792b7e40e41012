import HostSubnets.Proofs.Pool.Lists

/-!
# Batches of subnets

The entries of a batch are reserved or given back one after the other, each on what those before it have left. The
reply is that of the first entry that fails in its turn (`attemptAll_reply`), and whether an entry fails can be told from
the pool as it was (`Refused`, `Withheld`). What is held afterwards does not depend on order and repetitions, and what a
batch has newly reserved can be given back as if it had not been there: `batches_exact`.
-/

namespace HostSubnets.Pool

variable {p : Pool} {o x : String} {s : Cidr} {l : List Cidr} {e : PoolError}

/-! ## The first failure -/

/-- When an entry fails, and with which error, after those before it. -/
abbrev Failing := List Cidr → Cidr → PoolError → Prop

def NoneFails (fails : Failing) (l : List Cidr) : Prop :=
  ∀ before s rest, l = before ++ s :: rest → ∀ e, ¬ fails before s e

def FirstFailure (fails : Failing) (l : List Cidr) (e : PoolError) : Prop :=
  ∃ before s rest, l = before ++ s :: rest ∧ NoneFails fails before ∧ fails before s e

section First

variable {fails : Failing}

theorem noneFails_nil : NoneFails fails [] := by
  intro before s rest hl
  simp at hl

theorem noneFails_cons :
    NoneFails fails (s :: l) ↔ (∀ e, ¬ fails [] s e) ∧ NoneFails (fun before => fails (s :: before)) l := by
  constructor
  · intro h
    refine ⟨h [] s l rfl, fun before t rest hl => h (s :: before) t rest ?_⟩
    rw [hl, List.cons_append]
  · rintro ⟨hfirst, hlater⟩ before t rest hl
    rcases List.cons_eq_append_iff.1 hl with ⟨rfl, hhead⟩ | ⟨before', rfl, hl'⟩
    · obtain ⟨rfl, -⟩ := List.cons.inj hhead
      exact hfirst
    · exact hlater before' t rest hl'

theorem firstFailure_nil : ¬ FirstFailure fails [] e := by
  rintro ⟨before, s, rest, hl, -⟩
  simp at hl

theorem firstFailure_cons :
    FirstFailure fails (s :: l) e ↔
      fails [] s e ∨ (∀ e', ¬ fails [] s e') ∧ FirstFailure (fun before => fails (s :: before)) l e := by
  constructor
  · rintro ⟨before, t, rest, hl, hnone, hfails⟩
    rcases List.cons_eq_append_iff.1 hl with ⟨rfl, hhead⟩ | ⟨before', rfl, hl'⟩
    · obtain ⟨rfl, -⟩ := List.cons.inj hhead
      exact Or.inl hfails
    · obtain ⟨hfirst, hlater⟩ := noneFails_cons.1 hnone
      exact Or.inr ⟨hfirst, before', t, rest, hl', hlater, hfails⟩
  · rintro (hfails | ⟨hfirst, before, t, rest, rfl, hnone, hfails⟩)
    · exact ⟨[], s, l, rfl, noneFails_nil, hfails⟩
    · exact ⟨s :: before, t, rest, rfl, noneFails_cons.2 ⟨hfirst, hnone⟩, hfails⟩

end First

/-- An entry fails if it does on what is left by those before it. -/
def InTurn (attempt : Pool → Cidr → Except PoolError Pool) (p : Pool) : Failing := fun before s e =>
  attempt (attemptAll attempt before p).2 s = .error e

theorem inTurn_cons (attempt : Pool → Cidr → Except PoolError Pool) (p : Pool) (s : Cidr) :
    (fun before => InTurn attempt p (s :: before)) = InTurn attempt (attempted attempt p s) := by
  funext before t e
  unfold InTurn
  rw [attemptAll_snd, attemptAll_snd, List.foldl_cons]

/-- **A batch is answered with the error of the first entry that fails in its turn**, and with none if none does. -/
theorem attemptAll_reply (attempt : Pool → Cidr → Except PoolError Pool) (l : List Cidr) (p : Pool) :
    ((attemptAll attempt l p).1 = .ok () ↔ NoneFails (InTurn attempt p) l) ∧
      ∀ e, (attemptAll attempt l p).1 = .error e ↔ FirstFailure (InTurn attempt p) l e := by
  induction l generalizing p with
  | nil =>
    refine ⟨⟨fun _ => noneFails_nil, fun _ => rfl⟩, fun e => ⟨fun h => ?_, fun h => absurd h firstFailure_nil⟩⟩
    cases h
  | cons s rest ih =>
    have hrest := ih (attempted attempt p s)
    have hturn : ∀ e, InTurn attempt p [] s e ↔ attempt p s = .error e := fun e => Iff.rfl
    simp only [noneFails_cons, firstFailure_cons, inTurn_cons, hturn]
    unfold attempted at hrest ⊢
    rw [attemptAll]
    cases hs : attempt p s with
    | ok p' =>
      rw [hs] at hrest
      simpa using hrest
    | error e => simp

/-! ## Which entries fail -/

/-- Why a subnet is not reserved for an owner: it is no host subnet, or another owner has it. -/
def Refused (p : Pool) (o : String) (s : Cidr) (e : PoolError) : Prop :=
  (¬ p.Hosts s ∧ e = .outOfRange s) ∨ ∃ x, x ≠ o ∧ s ∈ p.allocated x ∧ e = .alreadyAllocated s x

/-- Why a subnet is not taken back from an owner: it is no host subnet, or the owner does not have it, or no longer
after those that were given back before. -/
def Withheld (p : Pool) (o : String) (before : List Cidr) (s : Cidr) (e : PoolError) : Prop :=
  (¬ p.Hosts s ∧ e = .outOfRange s) ∨ (p.Hosts s ∧ (s ∉ p.allocated o ∨ s ∈ before) ∧ e = .notOwned s o)

theorem markOne_error_iff :
    markOne o p s = .error e ↔
      (¬ p.Hosts s ∧ e = .outOfRange s) ∨ ∃ x, x ≠ o ∧ p.owner? s = some x ∧ e = .alreadyAllocated s x := by
  by_cases hs : p.Hosts s
  · obtain ⟨place, -, hmark⟩ := markOne_of_hosts o hs
    rw [hmark]
    cases p.owner? s with
    | none => simp [hs]
    | some y =>
      by_cases hy : y = o
      · simp [hs, hy]
      · have hne : o ≠ y := Ne.symm hy
        simp [hs, hy, hne, eq_comm]
  · have hunowned : ∀ y, p.owner? s ≠ some y := fun y hy => hs (hosts_of_owner? hy)
    rw [markOne_of_not_hosts o hs]
    simp [hs, hunowned, eq_comm]

theorem releaseOne_error_iff :
    releaseOne o p s = .error e ↔
      (¬ p.Hosts s ∧ e = .outOfRange s) ∨ (p.Hosts s ∧ p.owner? s ≠ some o ∧ e = .notOwned s o) := by
  by_cases hs : p.Hosts s
  · obtain ⟨place, -, hrelease⟩ := releaseOne_of_hosts o hs
    rw [hrelease]
    by_cases hown : p.owner? s = some o
    · simp [hs, hown]
    · simp [hs, hown, eq_comm]
  · rw [releaseOne_of_not_hosts o hs]
    simp [hs, eq_comm]

theorem Coherent.inTurn_markOne (hp : p.Coherent) (o : String) :
    InTurn (markOne o) p = fun _ => p.Refused o := by
  funext before s e
  have howner : ∀ y, y ≠ o → ((p.mark o before).2.owner? s = some y ↔ s ∈ p.allocated y) := by
    intro y hy
    rw [owner?_mark, hp.mirrored]
    split
    · rename_i hnew
      simp [hnew.2.2, Ne.symm hy]
    · rfl
  refine propext (markOne_error_iff.trans ?_)
  refine or_congr (and_congr_left' (not_congr (hosts_mark o before p s))) (exists_congr fun y => ?_)
  exact and_congr_right fun hy => and_congr_left' (howner y hy)

theorem Coherent.inTurn_releaseOne (hp : p.Coherent) (o : String) :
    InTurn (releaseOne o) p = p.Withheld o := by
  funext before s e
  have hhosts := hosts_release o before p s
  have howner : (p.release o before).2.owner? s ≠ some o ↔ s ∉ p.allocated o ∨ s ∈ before := by
    rw [owner?_release, hp.mirrored]
    split
    · rename_i hfreed
      simp [hfreed.1]
    · rename_i hkept
      rw [not_and] at hkept
      exact ⟨Or.inl, fun h hown => h.elim (fun hnot => hnot hown) fun hbefore => hkept hbefore hown⟩
  refine propext (releaseOne_error_iff.trans ?_)
  exact or_congr (and_congr_left' (not_congr hhosts)) (and_congr hhosts (and_congr_left' howner))

/-! ## What is held afterwards -/

section Held

variable (hp : p.Coherent) (o : String)
include hp

theorem Coherent.mem_allocated_mark (l : List Cidr) (s : Cidr) :
    s ∈ (p.mark o l).2.allocated o ↔
      s ∈ p.allocated o ∨ (s ∈ l ∧ p.Hosts s ∧ ∀ y, s ∈ p.allocated y → y = o) := by
  rw [(hp.mark o l).mirrored, owner?_mark]
  simp only [hp.mirrored]
  split
  · rename_i hnew
    simp [hnew]
  · rename_i hsame
    rw [iff_self_or]
    rintro ⟨hmem, hhosts, honly⟩
    cases hown : p.owner? s with
    | none => exact absurd ⟨hmem, hhosts, hown⟩ hsame
    | some y => rw [honly y hown]

theorem Coherent.allocated_release (l : List Cidr) :
    (p.release o l).2.allocated o = (p.allocated o).filter (· ∉ l) := by
  unfold Pool.release
  rw [attemptAll_snd]
  induction l generalizing p with
  | nil => simp
  | cons s rest ih =>
    rw [List.foldl_cons, ih (hp.attempted_releaseOne o s), hp.allocated_attempted_releaseOne, List.filter_filter]
    refine List.filter_congr fun t _ => ?_
    simp [Bool.and_comm]

omit hp in
theorem prefix_allocated_mark (p : Pool) (l : List Cidr) : p.allocated o <+: (p.mark o l).2.allocated o := by
  unfold Pool.mark
  rw [attemptAll_snd]
  induction l generalizing p with
  | nil => exact List.prefix_rfl
  | cons s rest ih =>
    refine List.IsPrefix.trans ?_ (ih (attempted (markOne o) p s))
    unfold attempted
    rcases markOne_cases o p s with ⟨-, hm⟩ | ⟨place, -, -, hm⟩ | ⟨-, e, hm⟩ <;> rw [hm]
    exact ⟨[s], ((allocated_hold o o s p _).trans (if_pos rfl)).symm⟩

theorem Coherent.mark_release_frame (l : List Cidr) :
    ((p.mark o l).2.layout = p.layout ∧ ∀ x, x ≠ o → (p.mark o l).2.allocated x = p.allocated x) ∧
      (p.release o l).2.layout = p.layout ∧ ∀ x, x ≠ o → (p.release o l).2.allocated x = p.allocated x := by
  have hmark : (Request.mark o l).IsBy o := rfl
  have hrelease : (Request.release o l).IsBy o := rfl
  exact ⟨⟨hp.layout_perform hmark, fun _ hx => allocated_perform_of_ne hmark hx p⟩,
    hp.layout_perform hrelease, fun _ hx => allocated_perform_of_ne hrelease hx p⟩

/-- **What a batch has newly reserved can be given back as if it had not been there.** -/
theorem Coherent.release_mark {l undone : List Cidr}
    (hundone : ∀ s, s ∈ undone ↔ s ∈ (p.mark o l).2.allocated o ∧ s ∉ p.allocated o) :
    ((p.mark o l).2.release o undone).2 = p := by
  have hq := hp.mark o l
  obtain ⟨⟨hlayout, hothers⟩, -⟩ := hp.mark_release_frame o l
  obtain ⟨-, hlayout', hothers'⟩ := hq.mark_release_frame o undone
  refine (hq.release o undone).eq_of_allocated hp (hlayout'.trans hlayout) fun x => ?_
  by_cases hx : x = o
  · subst hx
    obtain ⟨new, hnew⟩ := prefix_allocated_mark x p l
    have hnodup := hq.nodup_allocated x
    have hstay : ∀ s ∈ p.allocated x, s ∉ undone := fun s hs hmem => ((hundone s).1 hmem).2 hs
    have hgo : ∀ s ∈ new, s ∈ undone := by
      intro s hs
      rw [← hnew] at hnodup
      refine (hundone s).2 ⟨hnew ▸ List.mem_append_right _ hs, fun hold => ?_⟩
      exact (List.nodup_append.1 hnodup).2.2 s hold s hs rfl
    rw [hq.allocated_release, ← hnew, List.filter_append, List.filter_eq_self.2 (by simpa using hstay),
      List.filter_eq_nil_iff.2 (by simpa using hgo), List.append_nil]
  · exact (hothers' x hx).trans (hothers x hx)

end Held

/-- **Batches.** Reserving adds the listed host subnets that no other owner has and giving back takes the listed ones
away, in whichever order and however often they are listed; other owners keep their lists. The reply is the error of the
first entry that fails, or none if no entry does. Giving back what was newly reserved leads back to the same pool, with
the owner's list in its old order. -/
theorem batches_exact (requests : List Request) (o : String) (l : List Cidr) :
    let p := empty.after requests
    (∀ s, s ∈ (p.mark o l).2.allocated o ↔
      s ∈ p.allocated o ∨ (s ∈ l ∧ p.Hosts s ∧ ∀ x, s ∈ p.allocated x → x = o)) ∧
    (∀ s, s ∈ (p.release o l).2.allocated o ↔ s ∈ p.allocated o ∧ s ∉ l) ∧
    (∀ x, x ≠ o → (p.mark o l).2.allocated x = p.allocated x ∧ (p.release o l).2.allocated x = p.allocated x) ∧
    (∀ l', (∀ s, s ∈ l' ↔ s ∈ l) →
      (∀ s, s ∈ (p.mark o l').2.allocated o ↔ s ∈ (p.mark o l).2.allocated o) ∧
        (p.release o l').2.allocated o = (p.release o l).2.allocated o) ∧
    ((p.mark o l).1 = .ok () ↔ NoneFails (fun _ => p.Refused o) l) ∧
    (∀ e, (p.mark o l).1 = .error e ↔ FirstFailure (fun _ => p.Refused o) l e) ∧
    ((p.release o l).1 = .ok () ↔ NoneFails (p.Withheld o) l) ∧
    (∀ e, (p.release o l).1 = .error e ↔ FirstFailure (p.Withheld o) l e) ∧
    ∀ undone, (∀ s, s ∈ undone ↔ s ∈ (p.mark o l).2.allocated o ∧ s ∉ p.allocated o) →
      ((p.mark o l).2.release o undone).2 = p := by
  intro p
  have hp : p.Coherent := coherent_empty.after requests
  obtain ⟨⟨-, hmark⟩, -, hrelease⟩ := hp.mark_release_frame o l
  obtain ⟨hmarkOk, hmarkError⟩ := attemptAll_reply (markOne o) l p
  obtain ⟨hreleaseOk, hreleaseError⟩ := attemptAll_reply (releaseOne o) l p
  rw [hp.inTurn_markOne] at hmarkOk hmarkError
  rw [hp.inTurn_releaseOne] at hreleaseOk hreleaseError
  refine ⟨hp.mem_allocated_mark o l, fun s => ?_, fun x hx => ⟨hmark x hx, hrelease x hx⟩, fun l' hl' => ⟨fun s => ?_, ?_⟩,
    hmarkOk, hmarkError, hreleaseOk, hreleaseError, fun _ hundone => hp.release_mark o hundone⟩
  · rw [hp.allocated_release]
    simp
  · rw [hp.mem_allocated_mark, hp.mem_allocated_mark, hl']
  · rw [hp.allocated_release, hp.allocated_release]
    exact List.filter_congr fun s _ => by simp only [hl']

/-- Four IPv4 subnets of eight addresses, the first one reserved for another owner. -/
def besideOther : List Request :=
  [.addRange ⟨.v4, 168886272, 27, by decide, by decide⟩ 29, .mark "b" [⟨.v4, 168886272, 29, by decide, by decide⟩]]

/-- A free subnet twice, with the one of the other owner, an IPv6 network and one out of the range in between. -/
def mixedBatch : List Cidr :=
  [⟨.v4, 168886280, 29, by decide, by decide⟩, ⟨.v6, 0, 29, by decide, by decide⟩,
    ⟨.v4, 168886272, 29, by decide, by decide⟩, ⟨.v4, 168886280, 29, by decide, by decide⟩,
    ⟨.v4, 168886304, 29, by decide, by decide⟩]

/-- Of a mixed batch the free subnet is reserved, whichever way the batch is ordered; the IPv6 network is reported, and
to give back the subnet undoes it all. -/
theorem mixedBatch_undone :
    let p := empty.after besideOther
    let fresh : Cidr := ⟨.v4, 168886280, 29, by decide, by decide⟩
    (∀ s, s ∈ mixedBatch.reverse ↔ s ∈ mixedBatch) ∧
      (∀ s, s ∈ (p.mark "a" mixedBatch.reverse).2.allocated "a" ↔ s ∈ (p.mark "a" mixedBatch).2.allocated "a") ∧
      FirstFailure (fun _ => p.Refused "a") mixedBatch (.outOfRange ⟨.v6, 0, 29, by decide, by decide⟩) ∧
      (∀ s, s ∈ [fresh] ↔ s ∈ (p.mark "a" mixedBatch).2.allocated "a" ∧ s ∉ p.allocated "a") ∧
      ((p.mark "a" mixedBatch).2.release "a" [fresh]).2 = p := by
  intro p fresh
  obtain ⟨-, -, -, hsame, -, herror, -, -, hundo⟩ := batches_exact besideOther "a" mixedBatch
  have hreverse : ∀ s, s ∈ mixedBatch.reverse ↔ s ∈ mixedBatch := fun s => List.mem_reverse
  have hmarked : (p.mark "a" mixedBatch).2.allocated "a" = [fresh] := by decide +kernel
  have hbefore : p.allocated "a" = [] := by decide +kernel
  have hnew : ∀ s, s ∈ [fresh] ↔ s ∈ (p.mark "a" mixedBatch).2.allocated "a" ∧ s ∉ p.allocated "a" := by
    rw [hmarked, hbefore]
    simp
  exact ⟨hreverse, (hsame _ hreverse).1, (herror _).1 (by decide +kernel), hnew, hundo _ hnew⟩

end HostSubnets.Pool

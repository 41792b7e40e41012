import HostSubnets.Proofs.Pool.Crowd

/-!
# Calls that cross

Where both families are wanted and there are more owners than subnets, one of them can stand in the way of another: it
comes too late for IPv4, takes an IPv6 subnet all the same, and gives it back only when another one has missed it
(`exists_crossing`). `crowd_served` : how many of the calls of a crowd succeed, and when it is as many as there can be.
-/

namespace HostSubnets.Pool

open HostSubnets.Task

variable {o x : String} {families : Families} {c : Crowd} {f g : Family}

namespace Crowd

theorem turn_fill {l : List Cidr} {rest : List Family}
    (h : c.calls o = fill o l (f :: rest) >>= settle o families) :
    c.turn o = ⟨(c.pool.allocate o f).2,
      Function.update c.calls o (resume o families l rest (c.pool.allocate o f).1)⟩ := by
  rw [fill_settle] at h
  exact turn_ask h

theorem calls_turn_of_ne (c : Crowd) (h : x ≠ o) : (c.turn o).calls x = c.calls x := by
  unfold turn
  split
  · rfl
  · exact Function.update_of_ne h _ _

theorem calls_run_of_notMem {schedule : List String} (h : x ∉ schedule) : (c.run schedule).calls x = c.calls x := by
  induction schedule generalizing c with
  | nil => rfl
  | cons o rest ih =>
    rw [List.mem_cons, not_or] at h
    exact (ih h.2).trans (c.calls_turn_of_ne h.1)

theorem run_append (c : Crowd) (l l' : List String) : c.run (l ++ l') = (c.run l).run l' := List.foldl_append

end Crowd

/-! ## Calls that cannot succeed -/

/-- A call that gives back what it has and fails. -/
def Doomed (o : String) (program : Program (Except PoolError Assignment)) : Prop :=
  ∃ l e, program = giveBack o l >>= fun _ => .done (.error e)

theorem Doomed.turn (h : Doomed o (c.calls o)) (x : String) : Doomed o ((c.turn x).calls o) := by
  by_cases hxo : o = x
  · subst hxo
    obtain ⟨l, e, hcall⟩ := h
    cases l with
    | nil =>
      have hdone : c.calls o = .done (.error e) := hcall
      rw [Crowd.turn_done hdone]
      exact ⟨[], e, hcall⟩
    | cons s l =>
      have hask : c.calls o = .ask (.release o [s]) fun _ => giveBack o l >>= fun _ => .done (.error e) := hcall
      rw [Crowd.turn_ask hask]
      exact ⟨l, e, Function.update_self _ _ _⟩
  · rw [c.calls_turn_of_ne hxo]
    exact h

theorem Doomed.run (h : Doomed o (c.calls o)) (schedule : List String) : Doomed o ((c.run schedule).calls o) := by
  induction schedule generalizing c with
  | nil => exact h
  | cons x rest ih => exact ih (h.turn x)

theorem Doomed.not_ok {program : Program (Except PoolError Assignment)} (h : Doomed o program) (a : Assignment) :
    program ≠ .done (.ok a) := by
  obtain ⟨l, e, rfl⟩ := h
  cases l with
  | nil => exact fun hok => by cases hok
  | cons s l => exact fun hok => by cases hok

/-! ## Asking for one family -/

/-- Owners have asked for `n` subnets of a family that has a range, and have given back none. -/
structure Asked (f g : Family) (n : Nat) (p p' : Pool) : Prop where
  coherent : p'.Coherent
  reach : ∀ h, reach h p'.blocks = reach h p.blocks
  card : (p'.supply f).card = (p.supply f).card - n
  other : p'.supply g = p.supply g

theorem Asked.trans {p q r : Pool} {m n : Nat} (h : Asked f g m p q) (h' : Asked f g n q r) :
    Asked f g (m + n) p r where
  coherent := h'.coherent
  reach := fun i => (h'.reach i).trans (h.reach i)
  card := by rw [h'.card, h.card, Nat.sub_sub]
  other := h'.other.trans h.other

theorem asked_allocate {p : Pool} (hp : p.Coherent) (hfg : f ≠ g) (o : String) :
    Asked f g 1 p (p.allocate o f).2 := by
  rcases hp.allocate_supply o f with ⟨s, hs, -, htakes⟩ | ⟨hempty, hsame, -⟩
  · have hother : s ∉ p.supply g := fun hin =>
      hfg ((family_of_mem_reach (mem_supply.1 hs).1).symm.trans (family_of_mem_reach (mem_supply.1 hin).1))
    refine ⟨hp.allocate o f, htakes.reach, ?_, ?_⟩
    · rw [htakes.supply, Finset.card_erase_of_mem hs]
    · rw [htakes.supply, Finset.erase_eq_of_notMem hother]
  · rw [hsame]
    exact ⟨hp, fun _ => rfl, by rw [hempty]; rfl, rfl⟩

theorem turn_first (hp : c.pool.Coherent) (hrange : (reach f c.pool.blocks).Nonempty) (hfg : f ≠ g)
    (hcall : c.calls o = fill o [] [f, g] >>= settle o families) :
    Asked f g 1 c.pool (c.turn o).pool ∧
      ∃ l, (c.turn o).calls o = fill o l [g] >>= settle o families ∧ l.length ≤ 1 ∧ (c.pool.supply f = ∅ → l = []) := by
  rw [Crowd.turn_fill hcall]
  refine ⟨asked_allocate hp hfg o, ?_⟩
  simp only [Function.update_self]
  rcases hp.allocate_supply o f with ⟨s, hs, hreply, -⟩ | ⟨-, -, hreply⟩
  · rw [hreply]
    refine ⟨[s], rfl, Nat.le_refl 1, fun hempty => ?_⟩
    rw [hempty] at hs
    exact absurd hs (Finset.notMem_empty s)
  · rw [hreply, if_pos (reach_nonempty_iff.1 hrange)]
    exact ⟨[], rfl, Nat.zero_le 1, fun _ => rfl⟩

theorem run_first {owners : List String} (hnodup : owners.Nodup) (hp : c.pool.Coherent)
    (hrange : (reach f c.pool.blocks).Nonempty) (hfg : f ≠ g)
    (hcalls : ∀ o ∈ owners, c.calls o = fill o [] [f, g] >>= settle o families) :
    Asked f g owners.length c.pool (c.run owners).pool ∧
      ∀ o ∈ owners, ∃ l, (c.run owners).calls o = fill o l [g] >>= settle o families ∧ l.length ≤ 1 := by
  induction owners generalizing c with
  | nil => exact ⟨⟨hp, fun _ => rfl, rfl, rfl⟩, fun o ho => by cases ho⟩
  | cons o rest ih =>
    obtain ⟨ho, hrest⟩ := List.nodup_cons.1 hnodup
    obtain ⟨hasked, l, hcall, hl, -⟩ := turn_first hp hrange hfg (hcalls o List.mem_cons_self)
    obtain ⟨hasked', hcalls'⟩ := ih (c := c.turn o) hrest hasked.coherent (by rw [hasked.reach]; exact hrange)
      fun x hx => by
        have hxo : x ≠ o := fun heq => ho (heq ▸ hx)
        rw [c.calls_turn_of_ne hxo]
        exact hcalls x (List.mem_cons_of_mem o hx)
    refine ⟨?_, fun x hx => ?_⟩
    · rw [List.length_cons, Nat.add_comm]
      exact hasked.trans hasked'
    · rcases List.mem_cons.1 hx with rfl | hx
      · exact ⟨l, (Crowd.calls_run_of_notMem ho).trans hcall, hl⟩
      · exact hcalls' x hx

theorem turn_second (hp : c.pool.Coherent) (hfg : g ≠ f) (hboth : missing families [] = [f, g]) {l : List Cidr}
    (hcall : c.calls o = fill o l [g] >>= settle o families) (hl : l.length ≤ 1) :
    Asked g f 1 c.pool (c.turn o).pool ∧
      ((∃ a, (c.turn o).calls o = .done (.ok a)) ∧ (c.pool.supply g).Nonempty ∧ l ≠ [] ∨
        Doomed o ((c.turn o).calls o)) := by
  rw [Crowd.turn_fill hcall]
  refine ⟨asked_allocate hp hfg o, ?_⟩
  simp only [Function.update_self]
  rcases hp.allocate_supply o g with ⟨s, hs, hreply, -⟩ | ⟨-, -, hreply⟩
  · rw [hreply]
    show (∃ a, settle o families (.ok (l ++ [s])) = .done (.ok a)) ∧ _ ∨ Doomed o (settle o families (.ok (l ++ [s])))
    rw [settle]
    split
    · rename_i hlen
      refine Or.inl ⟨⟨_, rfl⟩, ⟨s, hs⟩, ?_⟩
      rintro rfl
      rw [hboth] at hlen
      cases hlen
    · exact Or.inr ⟨_, _, rfl⟩
  · rw [hreply]
    refine Or.inr ?_
    split
    · show Doomed o (settle o families (.ok l))
      have hshort : ¬ l.length = (missing families []).length := by
        rw [hboth, List.length_cons, List.length_singleton]
        omega
      rw [settle, if_neg hshort]
      exact ⟨_, _, rfl⟩
    · exact ⟨_, _, rfl⟩

theorem run_second {owners : List String} (hnodup : owners.Nodup) (hp : c.pool.Coherent) (hfg : g ≠ f)
    (hboth : missing families [] = [f, g])
    (hcalls : ∀ o ∈ owners, ∃ l, c.calls o = fill o l [g] >>= settle o families ∧ l.length ≤ 1) :
    (∀ o ∈ owners, (∃ a, (c.run owners).calls o = .done (.ok a)) ∨ Doomed o ((c.run owners).calls o)) ∧
      ((c.run owners).served owners.toFinset).card ≤ (c.pool.supply g).card := by
  induction owners generalizing c with
  | nil => exact ⟨fun o ho => (by cases ho), Nat.zero_le _⟩
  | cons o rest ih =>
    obtain ⟨ho, hrest⟩ := List.nodup_cons.1 hnodup
    obtain ⟨l, hcall, hl⟩ := hcalls o List.mem_cons_self
    obtain ⟨hasked, hend⟩ := turn_second hp hfg hboth hcall hl
    obtain ⟨hends, hcard⟩ := ih (c := c.turn o) hrest hasked.coherent fun x hx => by
      have hxo : x ≠ o := fun heq => ho (heq ▸ hx)
      rw [c.calls_turn_of_ne hxo]
      exact hcalls x (List.mem_cons_of_mem o hx)
    have hcall' : (c.run (o :: rest)).calls o = (c.turn o).calls o := Crowd.calls_run_of_notMem ho
    refine ⟨fun x hx => ?_, ?_⟩
    · rcases List.mem_cons.1 hx with rfl | hx
      · rw [hcall']
        exact hend.imp_left fun h => h.1
      · exact hends x hx
    · rw [hasked.card] at hcard
      have hserved : (c.run (o :: rest)).served (o :: rest).toFinset ⊆
          insert o (((c.turn o).run rest).served rest.toFinset) := by
        intro x hx
        obtain ⟨hmem, hok⟩ := Crowd.mem_served.1 hx
        rw [List.toFinset_cons, Finset.mem_insert] at hmem
        exact Finset.mem_insert.2 (hmem.imp_right fun h => Crowd.mem_served.2 ⟨h, hok⟩)
      rcases hend with ⟨-, hne, -⟩ | hdoomed
      · have hle := (Finset.card_le_card hserved).trans (Finset.card_insert_le _ _)
        have hpos := Finset.card_pos.2 hne
        omega
      · have hnot : o ∉ (c.run (o :: rest)).served (o :: rest).toFinset := by
          intro hin
          obtain ⟨-, a, ha⟩ := Crowd.mem_served.1 hin
          exact hdoomed.not_ok a (hcall'.symm.trans (Crowd.result_eq_some_iff.1 ha))
        have hle := Finset.card_le_card ((Finset.subset_insert_iff_of_notMem hnot).1 hserved)
        omega

/-! ## The crossing -/

/-- The others take all of IPv4. `x` misses it, takes an IPv6 subnet all the same, and cannot succeed. -/
theorem run_crossing {p : Pool} (hp : p.Coherent) {k : Nat} {others : List String} (hnodup : others.Nodup)
    (hx : x ∉ others) (hfamilies : families.isEmpty = false) (hboth : missing families [] = [.v4, .v6])
    (hk : ∀ f, (p.supply f).card = k) (hpos : 0 < k) (hle : k ≤ others.length) :
    let c := (Crowd.start p families).run (others ++ [x, x])
    c.pool.Coherent ∧ Doomed x (c.calls x) ∧ (c.pool.supply .v6).card = k - 1 ∧
      ∀ o ∈ others, ∃ l, c.calls o = fill o l [.v6] >>= settle o families ∧ l.length ≤ 1 := by
  have hstart : ∀ o, (Crowd.start p families).calls o = fill o [] [.v4, .v6] >>= settle o families := fun o => by
    rw [← hboth]
    exact reconcile_nil o hfamilies
  have hrange : (reach .v4 p.blocks).Nonempty := by
    have hne : (p.supply .v4).Nonempty := Finset.card_pos.1 (by rw [hk]; exact hpos)
    exact hne.mono (Finset.filter_subset _ _)
  -- the others take all of IPv4
  obtain ⟨hasked₁, hcalls₁⟩ := run_first (c := .start p families) hnodup hp hrange (by decide) fun o _ => hstart o
  let c₁ := (Crowd.start p families).run others
  -- `x` misses it
  have hcall₁ : c₁.calls x = _ := (Crowd.calls_run_of_notMem hx).trans (hstart x)
  obtain ⟨hasked₂, l, hcall₂, -, hl⟩ := turn_first hasked₁.coherent (by rw [hasked₁.reach]; exact hrange) (by decide)
    hcall₁
  have hmissed : c₁.pool.supply .v4 = ∅ := by
    have hcard : (c₁.pool.supply .v4).card = (p.supply .v4).card - others.length := hasked₁.card
    rw [← Finset.card_eq_zero, hcard, hk]
    exact Nat.sub_eq_zero_of_le hle
  obtain rfl := hl hmissed
  -- and takes an IPv6 subnet
  obtain ⟨hasked₃, ⟨-, -, hne⟩ | hdoomed⟩ := turn_second hasked₂.coherent (by decide) hboth hcall₂ (Nat.zero_le 1)
  · exact absurd rfl hne
  rw [Crowd.run_append]
  refine ⟨hasked₃.coherent, hdoomed, ?_, fun o ho => ?_⟩
  · have hsame : (c₁.turn x).pool.supply .v6 = p.supply .v6 := (hasked₁.trans hasked₂).other
    show (((c₁.turn x).turn x).pool.supply .v6).card = k - 1
    rw [hasked₃.card, hsame, hk]
  · have hox : o ≠ x := fun hsame => hx (hsame ▸ ho)
    obtain ⟨l, hcall, hl⟩ := hcalls₁ o ho
    refine ⟨l, ?_, hl⟩
    show ((c₁.turn x).turn x).calls o = _
    rw [Crowd.calls_turn_of_ne _ hox, Crowd.calls_turn_of_ne _ hox]
    exact hcall

theorem served_run_subset {owners : Finset String}
    (h : ∀ o ∈ owners, (∃ a, c.calls o = .done (.ok a)) ∨ Doomed o (c.calls o)) (schedule : List String) :
    (c.run schedule).served owners ⊆ c.served owners := by
  intro o ho
  obtain ⟨ho, a, ha⟩ := Crowd.mem_served.1 ho
  rcases h o ho with ⟨a', ha'⟩ | hdoomed
  · exact Crowd.mem_served.2 ⟨ho, a', Crowd.result_eq_some_iff.2 ha'⟩
  · exact absurd (Crowd.result_eq_some_iff.1 ha) ((hdoomed.run schedule).not_ok a)

/-- **With both families wanted and more owners than subnets, an order of requests leaves a subnet of each family
unused.** The last owner misses IPv4 and takes an IPv6 subnet before the others do. -/
theorem exists_crossing {p : Pool} (hp : p.Coherent) {k : Nat} {owners : Finset String}
    (hfamilies : families.isEmpty = false) (hboth : missing families [] = [.v4, .v6])
    (hk : ∀ f, families.wants f = true → (p.supply f).card = k) (hnone : ∀ o ∈ owners, p.allocated o = [])
    (hpos : 0 < k) (hlt : k < owners.card) :
    ∃ schedule : List String, (∀ o ∈ schedule, o ∈ owners) ∧ ((Crowd.start p families).run schedule).Ended owners ∧
      (((Crowd.start p families).run schedule).served owners).card < k := by
  obtain ⟨x, hx⟩ : owners.Nonempty := Finset.card_pos.1 (Nat.lt_trans hpos hlt)
  have hwants : ∀ f, families.wants f = true := fun f =>
    (mem_missing.1 (hboth ▸ (by cases f <;> simp : f ∈ [Family.v4, Family.v6]))).1
  let others := (owners.erase x).toList
  have hothers : ∀ o, o ∈ others ↔ o ≠ x ∧ o ∈ owners := fun o => by rw [Finset.mem_toList, Finset.mem_erase]
  have hnodup : others.Nodup := Finset.nodup_toList _
  have hlen : others.length = owners.card - 1 := by rw [Finset.length_toList, Finset.card_erase_of_mem hx]
  obtain ⟨hcoherent, hdoomed, hleft, hcalls⟩ := run_crossing hp hnodup (fun h => ((hothers x).1 h).1 rfl) hfamilies
    hboth (fun f => hk f (hwants f)) hpos (by omega)
  generalize hc : (Crowd.start p families).run (others ++ [x, x]) = c at hcoherent hdoomed hleft hcalls
  -- the others ask for IPv6
  obtain ⟨hends, hcard⟩ := run_second hnodup hcoherent (by decide) hboth hcalls
  have hsettled : ∀ o ∈ owners, (∃ a, (c.run others).calls o = .done (.ok a)) ∨ Doomed o ((c.run others).calls o) := by
    intro o ho
    by_cases hox : o = x
    · subst hox
      exact Or.inr (hdoomed.run others)
    · exact hends o ((hothers o).2 ⟨hox, ho⟩)
  -- and everybody comes to an end
  let all := owners.toList ++ owners.toList ++ owners.toList ++ owners.toList
  have hrun : (Crowd.start p families).run (others ++ [x, x] ++ others ++ all) = (c.run others).run all := by
    rw [Crowd.run_append _ _ all, Crowd.run_append _ _ others, hc]
  have hmem : ∀ o ∈ others ++ [x, x] ++ others ++ all, o ∈ owners := by
    intro o ho
    simp only [List.mem_append, List.mem_cons, List.not_mem_nil, or_false, or_self, hothers, all,
      Finset.mem_toList] at ho
    rcases ho with ((⟨-, ho⟩ | rfl) | ⟨-, ho⟩) | ho
    · exact ho
    · exact hx
    · exact ho
    · exact ho
  refine ⟨_, hmem, fun o ho => ?_, ?_⟩
  · obtain ⟨got, h⟩ := (orderly_start hp hfamilies hk hnone).run hfamilies hmem
    refine h.isSome_result ho (Nat.sub_eq_zero_of_le ?_)
    have hturn : 1 ≤ owners.toList.count o := List.one_le_count_iff.2 (Finset.mem_toList.2 ho)
    have htwo : families.expected = 2 := by rw [← length_missing_nil hfamilies, hboth]; rfl
    simp only [all, List.count_append, htwo]
    omega
  · rw [hrun]
    have hserved : ((c.run others).run all).served owners ⊆ (c.run others).served others.toFinset := by
      intro o ho
      obtain ⟨ho, a, ha⟩ := Crowd.mem_served.1 (served_run_subset hsettled all ho)
      have hox : o ≠ x := by
        rintro rfl
        exact (hdoomed.run others).not_ok a (Crowd.result_eq_some_iff.1 ha)
      exact Crowd.mem_served.2 ⟨List.mem_toFinset.2 ((hothers o).2 ⟨hox, ho⟩), a, ha⟩
    have hle := Finset.card_le_card hserved
    omega

/-! ## How many calls succeed -/

/-- **Owners that reconcile at once use the pool up to capacity, or nearly so.** With `k` subnets of each wanted family
to be had and `n` owners without subnets, and whatever the order of their requests, every call ends after a few of
them. The calls that succeed are `k` or `n` at most and hold a subnet of each family, none of them shared; every other
one fails, because some family was not to be had, and holds nothing. Those that succeed are exactly as many in every
order if only one family is wanted, if there are subnets for all owners or if there are none, and not otherwise: calls
stand in each other's way with one family each then, but `k` or `n`, twice, is at most `n` more than those that
succeed. -/
theorem crowd_served (requests : List Request) (families : Families) {k : Nat} (owners : Finset String)
    (hfamilies : families.isEmpty = false)
    (hk : ∀ f, families.wants f = true → ((empty.after requests).supply f).card = k)
    (hnone : ∀ o ∈ owners, (empty.after requests).allocated o = []) :
    let p := empty.after requests
    (∀ schedule : List String, (∀ o ∈ schedule, o ∈ owners) →
      let c := (Crowd.start p families).run schedule
      ((∀ o ∈ owners, 2 * families.expected ≤ schedule.count o) → c.Ended owners) ∧
        (c.Ended owners →
          (∀ o ∈ c.served owners, families.Serves (c.pool.allocated o) ∧
            c.result o = some (.ok ⟨c.pool.allocated o, c.pool.allocated o⟩)) ∧
          (∀ o ∈ owners, o ∉ c.served owners → c.pool.allocated o = [] ∧
            ∃ e, p.Refuses o families e ∧ c.result o = some (.error e)) ∧
          (∀ o x, o ≠ x → ∀ s ∈ c.pool.allocated o, ∀ t ∈ c.pool.allocated x, ¬ s.Meets t) ∧
          (∀ o, o ∉ owners → c.pool.allocated o = p.allocated o) ∧
          (c.served owners).card ≤ min k owners.card ∧
          2 * min k owners.card ≤ (c.served owners).card + owners.card)) ∧
      ((∀ schedule : List String, (∀ o ∈ schedule, o ∈ owners) →
          ((Crowd.start p families).run schedule).Ended owners →
            (((Crowd.start p families).run schedule).served owners).card = min k owners.card) ↔
        families.expected = 1 ∨ owners.card ≤ k ∨ k = 0) := by
  intro p
  have hp : p.Coherent := coherent_empty.after requests
  have horderly : ∀ schedule : List String, (∀ o ∈ schedule, o ∈ owners) → ∃ got, Orderly p families k owners
      ((Crowd.start p families).run schedule) got fun o => 2 * families.expected - schedule.count o :=
    fun schedule hschedule => (orderly_start hp hfamilies hk hnone).run hfamilies hschedule
  refine ⟨fun schedule hschedule => ?_, fun hexact => ?_, fun hcase schedule hschedule hended => ?_⟩
  · obtain ⟨got, h⟩ := horderly schedule hschedule
    refine ⟨fun hturns o ho => h.isSome_result ho (Nat.sub_eq_zero_of_le (hturns o ho)), fun hended => ?_⟩
    obtain ⟨hhigh, hlow, -⟩ := h.served_bounds hended hfamilies
    refine ⟨fun o ho => ?_, fun o ho hnot => ?_, ?_, h.others, hhigh, hlow⟩
    · have hmem : o ∈ owners := (Crowd.mem_served.1 ho).1
      rcases h.outcome hended hmem with ⟨-, hl, hresult⟩ | ⟨hgot, -⟩
      · exact ⟨by simpa using serves_append (Families.admits_nil families) hl, hresult⟩
      · exact absurd ((h.mem_served_iff hended hmem).1 ho) hgot
    · rcases h.outcome hended ho with ⟨hgot, -⟩ | ⟨-, hl, -, he⟩
      · exact absurd ((h.mem_served_iff hended ho).2 hgot) hnot
      · exact ⟨hl, he⟩
    · intro o x hox s hs t ht hm
      exact hox (h.coherent.eq_of_meets hs ht hm).1
  · by_contra hno
    push Not at hno
    obtain ⟨hone, hlt, hpos⟩ := hno
    have hboth : missing families [] = [.v4, .v6] := by
      obtain ⟨v4, v6⟩ := families
      revert hone
      cases v4 <;> cases v6 <;> decide
    obtain ⟨schedule, hschedule, hended, hfewer⟩ :=
      exists_crossing hp hfamilies hboth hk hnone (Nat.pos_of_ne_zero hpos) hlt
    have hmin := hexact schedule hschedule hended
    omega
  · obtain ⟨got, h⟩ := horderly schedule hschedule
    obtain ⟨hhigh, hlow, hone⟩ := h.served_bounds hended hfamilies
    rcases hcase with heq | hle | rfl
    · exact hone heq
    · omega
    · omega

def pairRequests : List Request :=
  [.addRange ⟨.v4, 167968768, 28, by decide, by decide⟩ 28,
    .addRange ⟨.v6, 0xfd01 <<< 112, 80, by decide, by decide⟩ 80]

/-- Two owners that cross: each one holds what the other misses, both give it back and fail, and nobody is served. And
without ranges nothing is exhausted. -/
theorem crossed_calls_fail :
    let p := empty.after pairRequests
    let c := (Crowd.start p ⟨true, true⟩).run ["a", "b", "b", "a", "b", "a"]
    ((p.supply .v4).card = 1 ∧ (p.supply .v6).card = 1 ∧ p.allocated "a" = [] ∧ p.allocated "b" = [] ∧
      c.Ended {"a", "b"} ∧ c.result "a" = some (.error (.exhausted "a" 2 2 1)) ∧
      c.result "b" = some (.error (.exhausted "b" 2 2 1)) ∧ (c.served {"a", "b"}).card ≠ min 1 2) ∧
    ((empty.after []).supply .v4).card = 0 ∧
      ((Crowd.start (empty.after []) .onlyV4).run ["a"]).result "a" = some (.error (.noRange .v4)) := by
  decide +kernel

theorem pair_served :
    let p := empty.after pairRequests
    let c := (Crowd.start p ⟨true, true⟩).run ["a", "a", "b", "b", "b"]
    c.served {"a", "b"} = {"a"} ∧ Families.Serves ⟨true, true⟩ (c.pool.allocated "a") ∧ c.pool.allocated "b" = [] ∧
      ¬ ∀ schedule : List String, (∀ o ∈ schedule, o ∈ ({"a", "b"} : Finset String)) →
        ((Crowd.start p ⟨true, true⟩).run schedule).Ended {"a", "b"} →
          (((Crowd.start p ⟨true, true⟩).run schedule).served {"a", "b"}).card = min 1 2 := by
  intro p c
  obtain ⟨hall, hexact⟩ := crowd_served (k := 1) pairRequests ⟨true, true⟩ {"a", "b"} rfl
    (fun f _ => by cases f <;> decide +kernel) (by decide +kernel)
  obtain ⟨-, hended⟩ := hall ["a", "a", "b", "b", "b"] (by decide)
  obtain ⟨hserved, hrefused, -⟩ := hended (by decide +kernel)
  have hone : c.served {"a", "b"} = {"a"} := by decide +kernel
  refine ⟨hone, (hserved "a" ?_).1, (hrefused "b" (by decide) ?_).1, fun hsame => ?_⟩
  · show "a" ∈ c.served {"a", "b"}
    rw [hone]
    decide
  · show "b" ∉ c.served {"a", "b"}
    rw [hone]
    decide
  · rcases hexact.1 hsame with h | h | h <;> revert h <;> decide

end HostSubnets.Pool

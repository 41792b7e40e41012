import HostSubnets.Proofs.Pool.Supply

/-!
# What owners hold, in order

Of a pool everything is told by its ranges without their reservations (`layout`) and by the lists of its owners:
`Coherent.eq_of_allocated`. Requests of an owner change neither the ranges nor another owner's list
(`Coherent.alteredBy_runAlone`), and subnets that are given back are struck from the list, the others staying as they
are (`Coherent.allocated_giveBack`).
-/

namespace HostSubnets

def Block.bare (b : Block) : Block := { b with used := .empty }

theorem Block.bare_assign (b : Block) (i : Nat) (o : Option String) : (b.assign i o).bare = b.bare := by
  cases o <;> rfl

theorem Block.eq_of_owner? {b c : Block} (hbare : b.bare = c.bare) (howner : ∀ i, b.owner? i = c.owner? i) :
    b = c := by
  have hused : b.used = c.used := SortedMap.ext_find? howner
  obtain ⟨network, hostLength, used, _, _, _⟩ := b
  obtain ⟨network', hostLength', used', _, _, _⟩ := c
  obtain ⟨rfl, rfl, -⟩ := Block.mk.inj hbare
  obtain rfl : used = used' := hused
  rfl

namespace Pool

open HostSubnets.Task

variable {p q : Pool} {o x : String} {s : Cidr}

/-! ## Ranges and lists tell everything -/

def layout (p : Pool) : List Block := p.blocks.map Block.bare

theorem layout_assign (place : Nat × Nat) (x : Option String) (blocks : List Block) :
    (assign place x blocks).map Block.bare = blocks.map Block.bare :=
  map_assign Block.bare_assign place x blocks

theorem eq_of_map_bare {blocks blocks' : List Block} (h : blocks.map Block.bare = blocks'.map Block.bare)
    (howner : ∀ b ∈ blocks, ∀ c ∈ blocks', b.bare = c.bare → ∀ i, b.owner? i = c.owner? i) : blocks = blocks' := by
  induction blocks generalizing blocks' with
  | nil => exact (List.map_eq_nil_iff.1 h.symm).symm
  | cons b rest ih =>
    obtain ⟨c, rest', rfl, hbare, hrest⟩ := List.map_eq_cons_iff.1 h.symm
    have hbc := howner b List.mem_cons_self c List.mem_cons_self hbare.symm
    rw [Block.eq_of_owner? hbare.symm hbc, ih hrest.symm fun d hd e he =>
      howner d (List.mem_cons_of_mem _ hd) e (List.mem_cons_of_mem _ he)]

/-- What the lists say of a subnet says what the map of lists has at an owner: there is no list without entries. -/
theorem Coherent.find?_held (hp : p.Coherent) (o : String) :
    p.held.find? o = if p.allocated o = [] then none else some (p.allocated o) := by
  unfold allocated
  cases ho : p.held.find? o with
  | none => rfl
  | some l => rw [Option.getD_some, if_neg (hp.listed o l ho).2]

/-- **Coherent pools of the same ranges in which every owner has the same list are the same pool.** -/
theorem Coherent.eq_of_allocated (hp : p.Coherent) (hq : q.Coherent) (hlayout : p.layout = q.layout)
    (hheld : ∀ o, p.allocated o = q.allocated o) : p = q := by
  have howner : ∀ s, p.owner? s = q.owner? s := by
    intro s
    ext o
    rw [← hp.mirrored, ← hq.mirrored, hheld]
  have hmaps : p.held = q.held := by
    refine SortedMap.ext_find? fun o => ?_
    rw [hp.find?_held, hq.find?_held, hheld]
  have hblocks : p.blocks = q.blocks := by
    refine eq_of_map_bare hlayout fun b hb c hc hbare i => ?_
    have hcount : b.bare.count = c.bare.count := congrArg Block.count hbare
    have hindex : b.bare.index? = c.bare.index? := congrArg Block.index? hbare
    by_cases hi : i < b.count
    · have hb' := hp.sound.ownerIn_eq hb (b.index?_hostSubnet hi)
      have hc' := hq.sound.ownerIn_eq hc (i := i) (hindex ▸ b.index?_hostSubnet hi)
      exact hb'.symm.trans ((howner _).trans hc')
    · have hunowned : ∀ {r : Pool} {d : Block}, r.Coherent → d ∈ r.blocks → d.count = b.count →
          d.owner? i = none := by
        intro r d hr hd hcount'
        rw [Option.eq_none_iff_forall_ne_some]
        exact fun y hy => hi (hcount' ▸ hr.sound.numbered d hd i y hy)
      rw [hunowned hp hb rfl, hunowned hq hc hcount.symm]
  obtain ⟨blocks, held⟩ := p
  obtain ⟨blocks', held'⟩ := q
  obtain rfl : blocks = blocks' := hblocks
  obtain rfl : held = held' := hmaps
  rfl

/-! ## One subnet -/

theorem layout_attempted_markOne (o : String) (p : Pool) (s : Cidr) :
    (attempted (markOne o) p s).layout = p.layout := by
  unfold attempted
  rcases markOne_cases o p s with ⟨-, hm⟩ | ⟨place, -, -, hm⟩ | ⟨-, e, hm⟩ <;> rw [hm]
  exact layout_assign place (some o) p.blocks

theorem layout_attempted_releaseOne (o : String) (p : Pool) (s : Cidr) :
    (attempted (releaseOne o) p s).layout = p.layout := by
  unfold attempted
  rcases releaseOne_cases o p s with ⟨place, -, -, hm⟩ | ⟨-, e, hm⟩ <;> rw [hm]
  exact layout_assign place none p.blocks

theorem allocated_attempted_markOne_of_ne (hx : x ≠ o) (p : Pool) (s : Cidr) :
    (attempted (markOne o) p s).allocated x = p.allocated x := by
  unfold attempted
  rcases markOne_cases o p s with ⟨-, hm⟩ | ⟨place, -, -, hm⟩ | ⟨-, e, hm⟩ <;> rw [hm]
  exact (allocated_hold o x s p _).trans (if_neg hx)

theorem allocated_attempted_releaseOne_of_ne (hx : x ≠ o) (p : Pool) (s : Cidr) :
    (attempted (releaseOne o) p s).allocated x = p.allocated x := by
  unfold attempted
  rcases releaseOne_cases o p s with ⟨place, -, -, hm⟩ | ⟨-, e, hm⟩ <;> rw [hm]
  exact (allocated_drop o x s p _).trans (if_neg hx)

theorem Coherent.allocated_attempted_releaseOne (hp : p.Coherent) (o : String) (s : Cidr) :
    (attempted (releaseOne o) p s).allocated o = (p.allocated o).filter (· ≠ s) := by
  unfold attempted
  rcases releaseOne_cases o p s with ⟨place, -, -, hm⟩ | ⟨hnot, e, hm⟩ <;> rw [hm]
  · exact (allocated_drop o o s p _).trans (if_pos rfl)
  · refine (List.filter_eq_self.2 fun t ht => ?_).symm
    have hts : t ≠ s := fun hts => hnot ((hp.mirrored o s).1 (hts ▸ ht))
    simpa using hts

/-! ## Requests and runs -/

theorem attemptAll_unchanged {β : Type} (measure : Pool → β) {attempt : Pool → Cidr → Except PoolError Pool}
    (h : ∀ r s, measure (attempted attempt r s) = measure r) (l : List Cidr) (p : Pool) :
    measure (attemptAll attempt l p).2 = measure p := by
  rw [attemptAll_snd]
  induction l generalizing p with
  | nil => rfl
  | cons s rest ih => rw [List.foldl_cons, ih, h]

theorem layout_foldl_freeOwned (o : String) (l : List Cidr) (blocks : List Block) :
    (l.foldl (freeOwned o) blocks).map Block.bare = blocks.map Block.bare := by
  induction l generalizing blocks with
  | nil => rfl
  | cons s rest ih =>
    rw [List.foldl_cons, ih]
    unfold freeOwned
    split
    · rfl
    · split
      · exact layout_assign _ none blocks
      · rfl

theorem Coherent.layout_perform (hp : p.Coherent) {request : Request} (h : request.IsBy o) :
    (request.perform p).2.layout = p.layout := by
  cases request with
  | addRange network hostLength => exact h.elim
  | allocate y f =>
    show (p.allocate y f).2.layout = _
    rcases hp.allocate_cases y f with ⟨s, place, -, -, -, ha⟩ | ⟨-, ha⟩ <;> rw [ha]
    exact layout_assign place (some y) p.blocks
  | mark y l => exact attemptAll_unchanged layout (layout_attempted_markOne y) l p
  | release y l => exact attemptAll_unchanged layout (layout_attempted_releaseOne y) l p
  | releaseAll y =>
    show (p.releaseAll y).2.layout = _
    unfold Pool.releaseAll
    split
    · rfl
    · exact layout_foldl_freeOwned y _ p.blocks
  | allocated y => rfl
  | count => rfl
  | usage => rfl

theorem Coherent.allocated_release_one (hp : p.Coherent) (o : String) (s : Cidr) :
    (p.release o [s]).2.allocated o = (p.allocated o).filter (· ≠ s) := by
  show (attemptAll (releaseOne o) [s] p).2.allocated o = _
  rw [attemptAll_snd, List.foldl_cons, List.foldl_nil, hp.allocated_attempted_releaseOne o s]

theorem allocated_allocate_of_ne (hx : x ≠ o) (f : Family) (p : Pool) :
    (p.allocate o f).2.allocated x = p.allocated x := by
  unfold allocate
  split
  · split
    · rename_i t blocks _
      exact (allocated_hold o x t p blocks).trans (if_neg hx)
    · rfl
  · rfl

theorem allocated_perform_of_ne {request : Request} (h : request.IsBy o) (hx : x ≠ o) (p : Pool) :
    (request.perform p).2.allocated x = p.allocated x := by
  cases request with
  | addRange network hostLength => exact h.elim
  | allocate y f =>
    obtain rfl : y = o := h
    exact allocated_allocate_of_ne hx f p
  | mark y l =>
    obtain rfl : y = o := h
    exact attemptAll_unchanged (Pool.allocated x) (allocated_attempted_markOne_of_ne hx) l p
  | release y l =>
    obtain rfl : y = o := h
    exact attemptAll_unchanged (Pool.allocated x) (allocated_attempted_releaseOne_of_ne hx) l p
  | releaseAll y =>
    obtain rfl : y = o := h
    exact (allocated_releaseAll y x p).trans (if_neg hx)
  | allocated y => rfl
  | count => rfl
  | usage => rfl

/-- A pool that an owner alone has worked on: its ranges are the same, and so is what the others hold. -/
structure AlteredBy (p : Pool) (o : String) (q : Pool) : Prop where
  coherent : q.Coherent
  layout : q.layout = p.layout
  others : ∀ x, x ≠ o → q.allocated x = p.allocated x

theorem AlteredBy.perform (h : p.AlteredBy o q) {request : Request} (hrequest : request.IsBy o) :
    p.AlteredBy o (request.perform q).2 where
  coherent := h.coherent.perform request
  layout := (h.coherent.layout_perform hrequest).trans h.layout
  others x hx := (allocated_perform_of_ne hrequest hx q).trans (h.others x hx)

/-- **Programs of an owner leave the ranges as they are, and the lists of all other owners.** -/
theorem Coherent.alteredBy_runAlone {α : Type} {program : Program α} (hp : p.Coherent)
    (h : program.Only (Request.IsBy o) fun _ _ => True) : p.AlteredBy o (program.runAlone p).2 := by
  have hstep : ∀ (request : Request) (q : Pool), request.IsBy o → p.AlteredBy o q →
      p.AlteredBy o (request.perform q).2 ∧ True := fun request q hrequest hq => ⟨hq.perform hrequest, trivial⟩
  exact h.run hstep ⟨hp, rfl, fun x _ => rfl⟩

/-! ## Subnets given back one at a time -/

theorem Coherent.allocated_giveBack (hp : p.Coherent) (o : String) (l : List Cidr) :
    ((giveBack o l).runAlone p).2.Coherent ∧
      ((giveBack o l).runAlone p).2.allocated o = (p.allocated o).filter (· ∉ l) := by
  induction l generalizing p with
  | nil =>
    refine ⟨hp, ?_⟩
    show p.allocated o = _
    simp
  | cons s rest ih =>
    have hfirst := hp.allocated_release_one o s
    obtain ⟨hcoherent, hrest⟩ := ih (hp.release o [s])
    refine ⟨hcoherent, hrest.trans ?_⟩
    rw [hfirst, List.filter_filter]
    refine List.filter_congr fun t _ => ?_
    simp [Bool.and_comm]

end Pool

end HostSubnets

import HostSubnets.Proofs.Pool.Reconcile
import HostSubnets.Proofs.Pool.Supply

/-!
# Many owners at once

Owners without subnets reconcile on one pool at the same time, and any of them may make the next request. Each of
their calls asks for one family after the other, and gives back what it got if one of them was refused (`Along`).
A call is refused only if all subnets of the family were with others at that moment, so as many owners as there are
subnets got one of it, now or before (`Orderly`). How many calls succeed follows from that (`Orderly.served_bounds`).
-/

namespace HostSubnets.Pool

open HostSubnets.Task

variable {p p' : Pool} {o : String} {families : Families} {f : Family} {s : Cidr}

/-! ## Schedules -/

/-- A pool and a call of each owner. -/
structure Crowd where
  pool : Pool
  calls : String → Program (Except PoolError Assignment)

namespace Crowd

def start (p : Pool) (families : Families) : Crowd := ⟨p, fun o => reconcile o [] families⟩

/-- The next request of an owner is carried out, if its call has not ended. -/
def turn (c : Crowd) (o : String) : Crowd :=
  match c.calls o with
  | .done _ => c
  | .ask q next => ⟨(q.perform c.pool).2, Function.update c.calls o (next (q.perform c.pool).1)⟩

def run (c : Crowd) (schedule : List String) : Crowd := schedule.foldl turn c

def result (c : Crowd) (o : String) : Option (Except PoolError Assignment) :=
  match c.calls o with
  | .done result => some result
  | .ask _ _ => none

def Ended (c : Crowd) (owners : Finset String) : Prop := ∀ o ∈ owners, (c.result o).isSome = true

instance (c : Crowd) (owners : Finset String) : Decidable (c.Ended owners) :=
  inferInstanceAs (Decidable (∀ o ∈ owners, _))

def succeeded (c : Crowd) (o : String) : Bool :=
  match c.result o with
  | some (.ok _) => true
  | _ => false

def served (c : Crowd) (owners : Finset String) : Finset String := owners.filter fun o => c.succeeded o = true

theorem result_eq_some_iff {c : Crowd} {result : Except PoolError Assignment} :
    c.result o = some result ↔ c.calls o = .done result := by
  unfold Crowd.result
  split
  · rename_i result' hcall
    rw [hcall, Option.some.injEq, Task.done.injEq]
  · rename_i q next hcall
    rw [hcall]
    simp

theorem mem_served {c : Crowd} {owners : Finset String} :
    o ∈ c.served owners ↔ o ∈ owners ∧ ∃ a, c.result o = some (.ok a) := by
  rw [served, Finset.mem_filter, succeeded]
  refine and_congr_right fun _ => ?_
  split
  · rename_i a hresult
    simp [hresult]
  · rename_i hno
    simp only [Bool.false_eq_true, false_iff, not_exists]
    exact hno

theorem turn_done {c : Crowd} {result : Except PoolError Assignment} (h : c.calls o = .done result) :
    c.turn o = c := by
  rw [turn, h]

theorem turn_ask {c : Crowd} {q : Request} {next : q.Reply → Program (Except PoolError Assignment)}
    (h : c.calls o = .ask q next) :
    c.turn o = ⟨(q.perform c.pool).2, Function.update c.calls o (next (q.perform c.pool).1)⟩ := by
  rw [turn, h]

end Crowd

/-! ## One call -/

def settle (o : String) (families : Families) :
    Except PoolError (List Cidr) → Program (Except PoolError Assignment)
  | .error e => .done (.error e)
  | .ok l =>
    if l.length = (missing families []).length then .done (.ok ⟨l, l⟩)
    else giveBack o l >>= fun _ =>
      .done (.error (.exhausted o families.expected (missing families []).length l.length))

theorem length_missing_nil (h : families.isEmpty = false) : (missing families []).length = families.expected := by
  obtain ⟨v4, v6⟩ := families
  revert h
  cases v4 <;> cases v6 <;> decide

theorem exists_only (h : families.isEmpty = false) (hone : families.expected = 1) :
    ∃ f, families.wants f = true ∧ ∀ g, families.wants g = true → g = f := by
  obtain ⟨v4, v6⟩ := families
  cases v4 with
  | true =>
    refine ⟨.v4, rfl, fun g hg => ?_⟩
    cases g with
    | v4 => rfl
    | v6 =>
      obtain rfl : v6 = true := hg
      cases hone
  | false =>
    refine ⟨.v6, ?_, fun g hg => ?_⟩
    · cases v6 with
      | true => rfl
      | false => cases h
    · cases g with
      | v4 => cases hg
      | v6 => rfl

theorem reconcile_nil (o : String) (h : families.isEmpty = false) :
    reconcile o [] families = fill o [] (missing families []) >>= settle o families := by
  have hne : ¬ ([] : List Cidr).length = families.expected := by
    obtain ⟨v4, v6⟩ := families
    revert h
    cases v4 <;> cases v6 <;> decide
  rw [reconcile_eq]
  show complete o families [] = _
  rw [complete, if_neg hne]
  refine congrArg (fill o [] (missing families []) >>= ·) (funext fun result => ?_)
  cases result <;> rfl

/-- What follows the reply to an allocation. -/
def resume (o : String) (families : Families) (l : List Cidr) (rest : List Family) :
    Except PoolError (Option Cidr) → Program (Except PoolError Assignment)
  | .ok (some s) => fill o (l ++ [s]) rest >>= settle o families
  | .ok none => fill o l rest >>= settle o families
  | .error e => giveBack o l >>= fun _ => .done (.error e)

theorem fill_settle (o : String) (families : Families) (l : List Cidr) (f : Family) (rest : List Family) :
    fill o l (f :: rest) >>= settle o families = .ask (.allocate o f) (resume o families l rest) := by
  refine congrArg (Task.ask _) (funext fun reply => ?_)
  rcases reply with e | _ | s
  · exact bind_assoc (giveBack o l) _ _
  · rfl
  · rfl

/-- Why a call without subnets may fail: fewer families were served than wanted, or a wanted one has no range. -/
def Refuses (p : Pool) (o : String) (families : Families) (e : PoolError) : Prop :=
  (∃ m < families.expected, e = .exhausted o families.expected families.expected m) ∨
    ∃ f, families.wants f = true ∧ (∀ b ∈ p.blocks, b.network.family ≠ f) ∧ e = .noRange f

/-- A call in progress that holds `l`, got subnets of the families `got` and has at most `n` requests to go. Where it
got none, the family is one of `short`, and the error it may end with is one of `refusals`. -/
inductive Along (o : String) (families : Families) (short : Set Family) (refusals : Set PoolError) :
    Program (Except PoolError Assignment) → List Cidr → List Family → Nat → Prop
  | filling {l tried f rest n} (hall : missing families [] = tried ++ f :: rest)
      (hgot : (l.map Cidr.family).Sublist tried) (hshort : ∀ g ∈ tried, g ∉ l.map Cidr.family → g ∈ short)
      (hn : l.length + 2 * (rest.length + 1) ≤ n) :
      Along o families short refusals (fill o l (f :: rest) >>= settle o families) l (l.map Cidr.family) n
  | returning {l got e n} (hl : (l.map Cidr.family).Sublist got) (hgot : got.Sublist (missing families []))
      (hmiss : got ≠ missing families []) (hshort : ∀ g ∈ missing families [], g ∉ got → g ∈ short)
      (he : e ∈ refusals) (hn : l.length ≤ n) :
      Along o families short refusals (giveBack o l >>= fun _ => .done (.error e)) l got n
  | served {l n} (hl : l.map Cidr.family = missing families []) :
      Along o families short refusals (.done (.ok ⟨l, l⟩)) l (missing families []) n

namespace Along

variable {short : Set Family} {refusals : Set PoolError} {program : Program (Except PoolError Assignment)}
  {l : List Cidr} {got : List Family} {n : Nat}

theorem mono (h : Along o families short refusals program l got n) {short' : Set Family} (hs : short ⊆ short') :
    Along o families short' refusals program l got n := by
  cases h with
  | filling hall hgot hshort hn => exact .filling hall hgot (fun g hg hno => hs (hshort g hg hno)) hn
  | returning hl hgot hmiss hshort he hn =>
    exact .returning hl hgot hmiss (fun g hg hno => hs (hshort g hg hno)) he hn
  | served hl => exact .served hl

theorem sublist (h : Along o families short refusals program l got n) :
    (l.map Cidr.family).Sublist got ∧ got.Sublist (missing families []) := by
  cases h with
  | filling hall hgot hshort hn =>
    refine ⟨List.Sublist.refl _, hgot.trans ?_⟩
    rw [hall]
    exact List.sublist_append_left _ _
  | returning hl hgot hmiss hshort he hn => exact ⟨hl, hgot⟩
  | served hl => exact ⟨hl ▸ List.Sublist.refl _, List.Sublist.refl _⟩

theorem nodup_got (h : Along o families short refusals program l got n) : got.Nodup :=
  (nodup_missing families []).sublist h.sublist.2

theorem fill_of {tried rest : List Family} (hfamilies : families.isEmpty = false)
    (hall : missing families [] = tried ++ rest) (hgot : (l.map Cidr.family).Sublist tried)
    (hshort : ∀ g ∈ tried, g ∉ l.map Cidr.family → g ∈ short)
    (hrefusals : ∀ m < families.expected, .exhausted o families.expected families.expected m ∈ refusals)
    (hn : l.length + 2 * rest.length ≤ n) :
    Along o families short refusals (fill o l rest >>= settle o families) l (l.map Cidr.family) n := by
  cases rest with
  | cons f rest => exact .filling hall hgot hshort hn
  | nil =>
    rw [List.append_nil] at hall
    rw [← hall] at hgot hshort
    show Along o families short refusals (settle o families (.ok l)) l (l.map Cidr.family) n
    unfold settle
    dsimp only
    have hlen := hgot.length_le
    rw [List.length_map, length_missing_nil hfamilies] at hlen
    split
    · rename_i heq
      have hserved := hgot.eq_of_length (by rw [List.length_map, heq])
      rw [hserved]
      exact .served hserved
    · rename_i hne
      rw [length_missing_nil hfamilies] at hne ⊢
      refine .returning (List.Sublist.refl _) hgot (fun heq => hne ?_) hshort (hrefusals _ (by omega)) ?_
      · rw [← length_missing_nil hfamilies, ← heq, List.length_map]
      · rw [List.length_nil] at hn
        omega

/-- What the next request of a call does: a subnet of a family is got, or there is none, or one is given back. -/
inductive Turned (o : String) (families : Families) (short : Set Family) (refusals : Set PoolError) (p : Pool)
    (l : List Cidr) (got : List Family) (n : Nat) : Program (Except PoolError Assignment) → Pool → Prop
  | took {f : Family} {s : Cidr} {program : Program (Except PoolError Assignment)} {p' : Pool}
      (hwants : families.wants f = true) (hnew : f ∉ got) (hs : s ∈ p.supply f) (htakes : p.Takes o s p')
      (h : Along o families short refusals program (l ++ [s]) (got ++ [f]) n) :
      Turned o families short refusals p l got n program p'
  | refused {f : Family} {program : Program (Except PoolError Assignment)} (hwants : families.wants f = true)
      (hempty : p.supply f = ∅)
      (h : f ∈ short → ((∀ b ∈ p.blocks, b.network.family ≠ f) →
        (∀ g, families.wants g = true → g ∈ short) ∧ .noRange f ∈ refusals) →
          Along o families short refusals program l got n) :
      Turned o families short refusals p l got n program p
  | gaveBack {s : Cidr} {l' : List Cidr} {program : Program (Except PoolError Assignment)} (hl : l = s :: l')
      (h : Along o families short refusals program l' got n) :
      Turned o families short refusals p l got n program (p.release o [s]).2

/-- **A request of a call in progress takes a subnet, finds none or gives one back.** -/
theorem turned {q : Request} {next : q.Reply → Program (Except PoolError Assignment)}
    (h : Along o families short refusals program l got n) (hprogram : program = .ask q next) (hp : p.Coherent)
    (hfamilies : families.isEmpty = false)
    (hrefusals : ∀ m < families.expected, .exhausted o families.expected families.expected m ∈ refusals) :
    Turned o families short refusals p l got (n - 1) (next (q.perform p).1) (q.perform p).2 := by
  cases h with
  | served hl => cases hprogram
  | returning hl hgot hmiss hshort he hn =>
    cases l with
    | nil => cases hprogram
    | cons s l' =>
      obtain ⟨rfl, rfl⟩ := Task.ask.inj hprogram
      refine .gaveBack rfl (.returning ((List.sublist_cons_self _ _).trans hl) hgot hmiss hshort he ?_)
      rw [List.length_cons] at hn
      omega
  | @filling _ tried f rest _ hall hgot hshort hn =>
    rw [fill_settle] at hprogram
    obtain ⟨rfl, rfl⟩ := Task.ask.inj hprogram
    have hwants : families.wants f = true := by
      have hmem : f ∈ missing families [] := hall ▸ by simp
      exact (mem_missing.1 hmem).1
    have hnodup := nodup_missing families []
    rw [hall, List.nodup_append] at hnodup
    have hnew : f ∉ tried := fun hf => hnodup.2.2 f hf f List.mem_cons_self rfl
    have hall' : missing families [] = (tried ++ [f]) ++ rest := by rw [hall]; simp
    show Turned o families short refusals p l _ (n - 1) (resume o families l rest (p.allocate o f).1) (p.allocate o f).2
    rcases hp.allocate_supply o f with ⟨s, hs, hreply, htakes⟩ | ⟨hempty, hsame, hreply⟩
    · have hsf : s.family = f := family_of_mem_reach (mem_supply.1 hs).1
      have hmap : (l ++ [s]).map Cidr.family = l.map Cidr.family ++ [f] := by simp [hsf]
      rw [hreply]
      refine .took hwants (fun hf => hnew (hgot.subset hf)) hs htakes ?_
      rw [← hmap]
      refine fill_of hfamilies hall' ?_ ?_ hrefusals ?_
      · rw [hmap]
        exact hgot.append_right [f]
      · intro g hg hno
        rw [hmap, List.mem_append, not_or] at hno
        exact hshort g ((List.mem_append.1 hg).resolve_right hno.2) hno.1
      · rw [List.length_append, List.length_singleton]
        omega
    · rw [hreply, hsame]
      refine .refused hwants hempty fun hf hnorange => ?_
      split
      · refine fill_of hfamilies hall' (hgot.trans (List.sublist_append_left _ _)) ?_ hrefusals (by omega)
        intro g hg hno
        rcases List.mem_append.1 hg with hg | hg
        · exact hshort g hg hno
        · exact List.mem_singleton.1 hg ▸ hf
      · rename_i hnone
        obtain ⟨hevery, hrefusal⟩ := hnorange fun b hb hbf => hnone ⟨b, hb, hbf⟩
        have hsub : (l.map Cidr.family).Sublist (missing families []) := by
          rw [hall]
          exact hgot.trans (List.sublist_append_left _ _)
        refine .returning (List.Sublist.refl _) hsub (fun heq => ?_) (fun g hg _ => hevery g (mem_missing.1 hg).1)
          hrefusal (by omega)
        have hmem : f ∈ l.map Cidr.family := by rw [heq, hall]; simp
        exact hnew (hgot.subset hmem)

theorem of_done {result : Except PoolError Assignment} {m : Nat}
    (h : Along o families short refusals program l got n) (hprogram : program = .done result) :
    Along o families short refusals program l got m := by
  cases h with
  | filling hall hgot hshort hn =>
    rw [fill_settle] at hprogram
    cases hprogram
  | returning hl hgot hmiss hshort he hn =>
    cases l with
    | cons s l => cases hprogram
    | nil => exact .returning hl hgot hmiss hshort he (Nat.zero_le m)
  | served hl => exact .served hl

theorem ended (h : Along o families short refusals program l got 0) : ∃ result, program = .done result := by
  cases h with
  | filling hall hgot hshort hn => omega
  | returning hl hgot hmiss hshort he hn =>
    obtain rfl := List.length_eq_zero_iff.1 (Nat.le_zero.1 hn)
    exact ⟨_, rfl⟩
  | served hl => exact ⟨_, rfl⟩

/-- **A call ends with a subnet of each wanted family, or with an error and nothing.** -/
theorem outcome {result : Except PoolError Assignment} (h : Along o families short refusals program l got n)
    (hprogram : program = .done result) :
    (got = missing families [] ∧ l.map Cidr.family = missing families [] ∧ result = .ok ⟨l, l⟩) ∨
      (got ≠ missing families [] ∧ l = [] ∧ (∀ g ∈ missing families [], g ∉ got → g ∈ short) ∧
        ∃ e ∈ refusals, result = .error e) := by
  cases h with
  | filling hall hgot hshort hn =>
    rw [fill_settle] at hprogram
    cases hprogram
  | returning hl hgot hmiss hshort he hn =>
    cases l with
    | cons s l => cases hprogram
    | nil =>
      obtain rfl := Task.done.inj hprogram
      exact Or.inr ⟨hmiss, rfl, hshort, _, he, rfl⟩
  | served hl =>
    obtain rfl := Task.done.inj hprogram
    exact Or.inl ⟨rfl, hl, rfl⟩

end Along

/-! ## All calls -/

def holders (owners : Finset String) (p : Pool) (f : Family) : Finset String :=
  owners.filter fun o => f ∈ (p.allocated o).map Cidr.family

/-- The owners that got a subnet of a family, if only for a time. -/
def getters (owners : Finset String) (got : String → List Family) (f : Family) : Finset String :=
  owners.filter fun o => f ∈ got o

theorem getters_subset {owners : Finset String} {got : String → List Family} {mine : List Family} (h : got o ⊆ mine)
    (f : Family) : getters owners got f ⊆ getters owners (Function.update got o mine) f := by
  intro x hx
  obtain ⟨hx, hgot⟩ := Finset.mem_filter.1 hx
  refine Finset.mem_filter.2 ⟨hx, ?_⟩
  by_cases hxo : x = o
  · subst hxo
    rw [Function.update_self]
    exact h hgot
  · rw [Function.update_of_ne hxo]
    exact hgot

theorem card_holders {owners : Finset String} (ho : o ∈ owners)
    (hothers : ∀ x, x ≠ o → p'.allocated x = p.allocated x) (hnew : f ∉ (p.allocated o).map Cidr.family)
    (hmine : ∀ g, g ∈ (p'.allocated o).map Cidr.family ↔ g ∈ (p.allocated o).map Cidr.family ∨ g = f) (g : Family) :
    (holders owners p' g).card = (holders owners p g).card + if g = f then 1 else 0 := by
  have hmem : ∀ x, x ∈ holders owners p' g ↔ x ∈ holders owners p g ∨ (x = o ∧ g = f) := by
    intro x
    rw [holders, holders, Finset.mem_filter, Finset.mem_filter]
    by_cases hxo : x = o
    · subst hxo
      simp [hmine, ho]
    · simp [hothers x hxo, hxo]
  split
  · rename_i hg
    subst hg
    have hinsert : holders owners p' g = insert o (holders owners p g) := by
      ext x
      rw [hmem, Finset.mem_insert]
      tauto
    have hnot : o ∉ holders owners p g := fun h => hnew (Finset.mem_filter.1 h).2
    rw [hinsert, Finset.card_insert_of_notMem hnot]
  · rename_i hg
    have hsame : holders owners p' g = holders owners p g := by
      ext x
      simp [hmem, hg]
    rw [hsame, Nat.add_zero]

/-- Calls in progress on what was the pool `p`, with `k` subnets of each wanted family to be had: those subnets are
still to be had or are held by an owner of their own, and where none was found, `k` owners had got one. -/
structure Orderly (p : Pool) (families : Families) (k : Nat) (owners : Finset String) (c : Crowd)
    (got : String → List Family) (left : String → Nat) : Prop where
  coherent : c.pool.Coherent
  along : ∀ o ∈ owners, Along o families {f | k ≤ (getters owners got f).card} {e | p.Refuses o families e}
    (c.calls o) (c.pool.allocated o) (got o) (left o)
  ranges : ∀ f, reach f c.pool.blocks = reach f p.blocks
  mem_reach : ∀ o ∈ owners, ∀ s ∈ c.pool.allocated o, s ∈ reach s.family p.blocks
  count : ∀ f, families.wants f = true → (c.pool.supply f).card + (holders owners c.pool f).card = k
  others : ∀ o, o ∉ owners → c.pool.allocated o = p.allocated o

namespace Orderly

variable {k : Nat} {owners : Finset String} {c : Crowd} {got : String → List Family} {left : String → Nat}

theorem holders_subset (h : Orderly p families k owners c got left) (f : Family) :
    holders owners c.pool f ⊆ getters owners got f := by
  intro o ho
  obtain ⟨ho, hf⟩ := Finset.mem_filter.1 ho
  exact Finset.mem_filter.2 ⟨ho, (h.along o ho).sublist.1.subset hf⟩

theorem short_of_empty (h : Orderly p families k owners c got left) (hf : families.wants f = true)
    (hempty : c.pool.supply f = ∅) : k ≤ (getters owners got f).card := by
  have hcount := h.count f hf
  rw [hempty, Finset.card_empty, Nat.zero_add] at hcount
  exact hcount ▸ Finset.card_le_card (h.holders_subset f)

theorem eq_zero_of_noRange (h : Orderly p families k owners c got left) (hf : families.wants f = true)
    (hempty : c.pool.supply f = ∅) (hnone : ∀ b ∈ p.blocks, b.network.family ≠ f) : k = 0 := by
  rw [← h.count f hf, hempty, Finset.card_empty, Nat.zero_add, Finset.card_eq_zero, Finset.eq_empty_iff_forall_notMem]
  intro o hmem
  obtain ⟨ho, hfamily⟩ := Finset.mem_filter.1 hmem
  obtain ⟨s, hs, hsf⟩ := List.mem_map.1 hfamily
  obtain ⟨b, hb, hbf, -⟩ := Pool.mem_reach.1 (h.mem_reach o ho s hs)
  exact hnone b hb (hbf.trans hsf)

theorem update (h : Orderly p families k owners c got left) {program : Program (Except PoolError Assignment)}
    {p' : Pool} {mine : List Family} {n : Nat} (hp' : p'.Coherent)
    (hothers : ∀ x, x ≠ o → p'.allocated x = c.pool.allocated x) (hmine : got o ⊆ mine)
    (hranges : ∀ f, reach f p'.blocks = reach f c.pool.blocks)
    (hreach : ∀ s ∈ p'.allocated o, s ∈ reach s.family p.blocks)
    (hcount : ∀ f, families.wants f = true → (p'.supply f).card + (holders owners p' f).card = k)
    (halong : Along o families {f | k ≤ (getters owners (Function.update got o mine) f).card}
      {e | p.Refuses o families e} program (p'.allocated o) mine n) (ho : o ∈ owners) :
    Orderly p families k owners ⟨p', Function.update c.calls o program⟩ (Function.update got o mine)
      (Function.update left o n) where
  coherent := hp'
  along := by
    intro x hx
    by_cases hxo : x = o
    · subst hxo
      simp only [Function.update_self]
      exact halong
    · simp only [Function.update_of_ne hxo, hothers x hxo]
      exact (h.along x hx).mono fun f hf => Nat.le_trans hf (Finset.card_le_card (getters_subset hmine f))
  ranges := fun f => (hranges f).trans (h.ranges f)
  mem_reach := by
    intro x hx s hs
    by_cases hxo : x = o
    · subst hxo
      exact hreach s hs
    · rw [hothers x hxo] at hs
      exact h.mem_reach x hx s hs
  count := hcount
  others := by
    intro x hx
    have hxo : x ≠ o := fun heq => hx (heq ▸ ho)
    exact (hothers x hxo).trans (h.others x hx)

section Requests

variable (h : Orderly p families k owners c got left) (ho : o ∈ owners) {program : Program (Except PoolError Assignment)}
  {n : Nat}
include h ho

theorem took (hp' : p'.Coherent) (hnew : f ∉ got o) (hs : s ∈ c.pool.supply f) (htakes : c.pool.Takes o s p')
    (hnext : Along o families {f | k ≤ (getters owners got f).card} {e | p.Refuses o families e} program
      (c.pool.allocated o ++ [s]) (got o ++ [f]) n) :
    Orderly p families k owners ⟨p', Function.update c.calls o program⟩ (Function.update got o (got o ++ [f]))
      (Function.update left o n) := by
  obtain ⟨hreach, -⟩ := mem_supply.1 hs
  have hsf : s.family = f := family_of_mem_reach hreach
  have hothers : ∀ x, x ≠ o → p'.allocated x = c.pool.allocated x := fun x hx => by rw [htakes.allocated, if_neg hx]
  have hmine : p'.allocated o = c.pool.allocated o ++ [s] := by rw [htakes.allocated, if_pos rfl]
  refine h.update hp' hothers (List.subset_append_left _ [f]) htakes.reach ?_ ?_ ?_ ho
  · intro t ht
    rw [hmine, List.mem_append, List.mem_singleton] at ht
    rcases ht with ht | rfl
    · exact h.mem_reach o ho t ht
    · rw [hsf, ← h.ranges]
      exact hreach
  · intro g hg
    have hnot : s.family ∉ (c.pool.allocated o).map Cidr.family := fun hin =>
      hnew (hsf ▸ (h.along o ho).sublist.1.subset hin)
    rw [card_holders ho hothers hnot (fun g => by simp [hmine]), htakes.supply, ← h.count g hg]
    split
    · rename_i hgs
      rw [hgs, hsf, Finset.card_erase_of_mem hs]
      have hpos := Finset.card_pos.2 ⟨s, hs⟩
      omega
    · rename_i hgs
      rw [Finset.erase_eq_of_notMem fun hin => hgs (family_of_mem_reach (mem_supply.1 hin).1).symm, Nat.add_zero]
  · rw [hmine]
    exact hnext.mono fun g hg =>
      Nat.le_trans hg (Finset.card_le_card (getters_subset (List.subset_append_left _ [f]) g))

/-- No subnet was to be had, so `k` owners have got one; if there is no range, `k` is zero. -/
theorem refused (hwants : families.wants f = true) (hempty : c.pool.supply f = ∅)
    (hnext : k ≤ (getters owners got f).card → ((∀ b ∈ c.pool.blocks, b.network.family ≠ f) →
      (∀ g, families.wants g = true → k ≤ (getters owners got g).card) ∧ p.Refuses o families (.noRange f)) →
        Along o families {f | k ≤ (getters owners got f).card} {e | p.Refuses o families e} program
          (c.pool.allocated o) (got o) n) :
    Orderly p families k owners ⟨c.pool, Function.update c.calls o program⟩ (Function.update got o (got o))
      (Function.update left o n) := by
  refine h.update h.coherent (fun _ _ => rfl) (List.Subset.refl (got o)) (fun _ => rfl) (h.mem_reach o ho) h.count ?_ ho
  rw [Function.update_eq_self]
  refine hnext (h.short_of_empty hwants hempty) fun hnone => ?_
  have hnone' : ∀ b ∈ p.blocks, b.network.family ≠ f := by
    intro b hb hbf
    have hreach := reach_nonempty_iff.2 ⟨b, hb, hbf⟩
    rw [← h.ranges, reach_nonempty_iff] at hreach
    obtain ⟨b', hb', hbf'⟩ := hreach
    exact hnone b' hb' hbf'
  obtain rfl := h.eq_zero_of_noRange hwants hempty hnone'
  exact ⟨fun g _ => Nat.zero_le _, Or.inr ⟨f, hwants, hnone', rfl⟩⟩

theorem gaveBack (hp' : (c.pool.release o [s]).2.Coherent) {l : List Cidr} (hl : c.pool.allocated o = s :: l)
    (hnext : Along o families {f | k ≤ (getters owners got f).card} {e | p.Refuses o families e} program l (got o) n) :
    Orderly p families k owners ⟨(c.pool.release o [s]).2, Function.update c.calls o program⟩
      (Function.update got o (got o)) (Function.update left o n) := by
  have halong := h.along o ho
  have hs : s ∈ c.pool.allocated o := hl ▸ List.mem_cons_self
  have hown : c.pool.owner? s = some o := (h.coherent.mirrored o s).1 hs
  have hreturns := returns_release hown (by rw [h.ranges]; exact h.mem_reach o ho s hs)
  have hnodup : ((c.pool.allocated o).map Cidr.family).Nodup := halong.nodup_got.sublist halong.sublist.1
  have hothers : ∀ x, x ≠ o → (c.pool.release o [s]).2.allocated x = c.pool.allocated x := fun x hx => by
    rw [hreturns.allocated, if_neg hx]
  rw [hl, List.map_cons, List.nodup_cons] at hnodup
  have hmine : (c.pool.release o [s]).2.allocated o = l := by
    have hrest : ∀ t ∈ l, t ≠ s := by
      rintro t ht rfl
      exact hnodup.1 (List.mem_map_of_mem ht)
    rw [hreturns.allocated, if_pos rfl, hl, List.filter_cons_of_neg (by simp)]
    exact List.filter_eq_self.2 fun t ht => by simpa using hrest t ht
  refine h.update hp' hothers (List.Subset.refl (got o)) hreturns.reach ?_ ?_ ?_ ho
  · intro t ht
    rw [hmine] at ht
    exact h.mem_reach o ho t (hl ▸ List.mem_cons_of_mem s ht)
  · intro g hg
    have hback := card_holders (f := s.family) ho (fun x hx => (hothers x hx).symm) (by rw [hmine]; exact hnodup.1)
      (fun g => by rw [hmine, hl, List.map_cons, List.mem_cons, or_comm]) g
    rw [← h.count g hg, hback, hreturns.supply]
    split
    · rename_i hgs
      have hnot : s ∉ c.pool.supply g := fun hin => by
        rw [(mem_supply.1 hin).2] at hown
        cases hown
      rw [Finset.card_insert_of_notMem hnot]
      omega
    · rfl
  · rw [Function.update_eq_self, hmine]
    exact hnext

end Requests

theorem turn (h : Orderly p families k owners c got left) (hfamilies : families.isEmpty = false) (ho : o ∈ owners) :
    ∃ got', Orderly p families k owners (c.turn o) got' (Function.update left o (left o - 1)) := by
  have halong := h.along o ho
  cases hcall : c.calls o with
  | done result =>
    rw [Crowd.turn_done hcall]
    refine ⟨got, { h with along := fun x hx => ?_ }⟩
    by_cases hxo : x = o
    · subst hxo
      rw [Function.update_self]
      exact halong.of_done hcall
    · rw [Function.update_of_ne hxo]
      exact h.along x hx
  | ask q next =>
    rw [Crowd.turn_ask hcall]
    have hp' := h.coherent.perform q
    have hturned := halong.turned hcall h.coherent hfamilies fun m hm => Or.inl ⟨m, hm, rfl⟩
    generalize (q.perform c.pool).2 = p' at hp' hturned ⊢
    generalize next (q.perform c.pool).1 = program at hturned ⊢
    cases hturned with
    | took hwants hnew hs htakes hnext => exact ⟨_, h.took ho hp' hnew hs htakes hnext⟩
    | refused hwants hempty hnext => exact ⟨_, h.refused ho hwants hempty hnext⟩
    | gaveBack hl hnext => exact ⟨_, h.gaveBack ho hp' hl hnext⟩

theorem run (h : Orderly p families k owners c got left) (hfamilies : families.isEmpty = false) {schedule : List String}
    (hschedule : ∀ o ∈ schedule, o ∈ owners) :
    ∃ got', Orderly p families k owners (c.run schedule) got' fun o => left o - schedule.count o := by
  induction schedule generalizing c got left with
  | nil => exact ⟨got, h⟩
  | cons o rest ih =>
    obtain ⟨got₁, h₁⟩ := h.turn hfamilies (hschedule o List.mem_cons_self)
    obtain ⟨got₂, h₂⟩ := ih h₁ fun x hx => hschedule x (List.mem_cons_of_mem _ hx)
    refine ⟨got₂, ?_⟩
    have hleft : (fun x => left x - (o :: rest).count x) =
        fun x => Function.update left o (left o - 1) x - rest.count x := by
      funext x
      rw [List.count_cons]
      by_cases hxo : x = o
      · subst hxo
        rw [Function.update_self, if_pos (by simp)]
        omega
      · rw [Function.update_of_ne hxo, if_neg (by simpa using Ne.symm hxo), Nat.add_zero]
    rw [hleft]
    exact h₂

theorem isSome_result (h : Orderly p families k owners c got left) (ho : o ∈ owners) (hleft : left o = 0) :
    (c.result o).isSome = true := by
  have halong := h.along o ho
  rw [hleft] at halong
  obtain ⟨result, hdone⟩ := halong.ended
  rw [Crowd.result_eq_some_iff.2 hdone]
  rfl

theorem outcome (h : Orderly p families k owners c got left) (hended : c.Ended owners) (ho : o ∈ owners) :
    (got o = missing families [] ∧ (c.pool.allocated o).map Cidr.family = missing families [] ∧
        c.result o = some (.ok ⟨c.pool.allocated o, c.pool.allocated o⟩)) ∨
      (got o ≠ missing families [] ∧ c.pool.allocated o = [] ∧
        (∀ f ∈ missing families [], f ∉ got o → k ≤ (getters owners got f).card) ∧
        ∃ e, p.Refuses o families e ∧ c.result o = some (.error e)) := by
  obtain ⟨result, hresult⟩ := Option.isSome_iff_exists.1 (hended o ho)
  rw [hresult]
  rcases (h.along o ho).outcome (Crowd.result_eq_some_iff.1 hresult) with
    ⟨hgot, hl, rfl⟩ | ⟨hgot, hl, hshort, e, he, rfl⟩
  · exact Or.inl ⟨hgot, hl, rfl⟩
  · exact Or.inr ⟨hgot, hl, hshort, e, he, rfl⟩

theorem mem_served_iff (h : Orderly p families k owners c got left) (hended : c.Ended owners) (ho : o ∈ owners) :
    o ∈ c.served owners ↔ got o = missing families [] := by
  rw [Crowd.mem_served]
  rcases h.outcome hended ho with ⟨hgot, -, hresult⟩ | ⟨hgot, -, -, e, -, hresult⟩
  · exact ⟨fun _ => hgot, fun _ => ⟨ho, _, hresult⟩⟩
  · rw [hresult]
    refine ⟨?_, fun heq => absurd heq hgot⟩
    rintro ⟨-, a, ha⟩
    cases ha

theorem mem_served_of_getters (h : Orderly p families k owners c got left) (hended : c.Ended owners) (ho : o ∈ owners)
    (hall : ∀ f, families.wants f = true → o ∈ getters owners got f) : o ∈ c.served owners := by
  rw [h.mem_served_iff hended ho]
  have hsub : missing families [] ⊆ got o := fun f hf => (Finset.mem_filter.1 (hall f (mem_missing.1 hf).1)).2
  have hle := (List.subperm_of_subset (nodup_missing families []) hsub).length_le
  exact (h.along o ho).sublist.2.eq_of_length_le hle

theorem card_served_le (h : Orderly p families k owners c got left) (hended : c.Ended owners)
    (hf : families.wants f = true) : (c.served owners).card ≤ k := by
  rw [← h.count f hf]
  refine Nat.le_trans (Finset.card_le_card fun o ho => ?_) (Nat.le_add_left _ _)
  have hmem : o ∈ owners := (Crowd.mem_served.1 ho).1
  rcases h.outcome hended hmem with ⟨-, hl, -⟩ | ⟨hgot, -⟩
  · refine Finset.mem_filter.2 ⟨hmem, ?_⟩
    rw [hl]
    exact mem_missing.2 ⟨hf, by simp⟩
  · exact absurd ((h.mem_served_iff hended hmem).1 ho) hgot

/-- In the end a wanted family was got by as many owners as there were subnets, or by all. -/
theorem min_le_getters (h : Orderly p families k owners c got left) (hended : c.Ended owners)
    (hf : families.wants f = true) : min k owners.card ≤ (getters owners got f).card := by
  have hmissing : f ∈ missing families [] := mem_missing.2 ⟨hf, by simp⟩
  by_cases hall : ∀ o ∈ owners, f ∈ got o
  · rw [getters, Finset.filter_true_of_mem hall]
    exact Nat.min_le_right _ _
  · push Not at hall
    obtain ⟨o, ho, hnot⟩ := hall
    rcases h.outcome hended ho with ⟨hgot, -⟩ | ⟨-, -, hshort, -⟩
    · exact absurd (hgot ▸ hmissing) hnot
    · exact Nat.le_trans (Nat.min_le_left _ _) (hshort f hmissing hnot)

/-- **At most one call for each subnet succeeds, and the calls that lack one family each are not more than those for
which there was no subnet of it.** -/
theorem served_bounds (h : Orderly p families k owners c got left) (hended : c.Ended owners)
    (hfamilies : families.isEmpty = false) :
    (c.served owners).card ≤ min k owners.card ∧ 2 * min k owners.card ≤ (c.served owners).card + owners.card ∧
      (families.expected = 1 → (c.served owners).card = min k owners.card) := by
  have howners : (c.served owners).card ≤ owners.card := Finset.card_le_card (Finset.filter_subset _ _)
  have hall : ∀ o ∈ owners, (∀ f, families.wants f = true → o ∈ getters owners got f) → o ∈ c.served owners :=
    fun o ho => h.mem_served_of_getters hended ho
  by_cases hone : families.expected = 1
  · obtain ⟨f, hf, honly⟩ : ∃ f, families.wants f = true ∧ ∀ g, families.wants g = true → g = f :=
      exists_only hfamilies hone
    have hserved : getters owners got f ⊆ c.served owners := fun o ho =>
      hall o (Finset.mem_filter.1 ho).1 fun g hg => by rwa [honly g hg]
    have hlow := Nat.le_trans (h.min_le_getters hended hf) (Finset.card_le_card hserved)
    have hhigh := h.card_served_le hended hf
    refine ⟨by omega, by omega, fun _ => by omega⟩
  · obtain ⟨h4, h6⟩ : families.wants .v4 = true ∧ families.wants .v6 = true := by
      obtain ⟨v4, v6⟩ := families
      revert hone
      cases v4 <;> cases v6 <;> decide
    have hserved : getters owners got .v4 ∩ getters owners got .v6 ⊆ c.served owners := by
      intro o ho
      obtain ⟨h4, h6⟩ := Finset.mem_inter.1 ho
      refine hall o (Finset.mem_filter.1 h4).1 fun g _ => ?_
      cases g with
      | v4 => exact h4
      | v6 => exact h6
    have hinter := Finset.card_union_add_card_inter (getters owners got .v4) (getters owners got .v6)
    have hunion : (getters owners got .v4 ∪ getters owners got .v6).card ≤ owners.card :=
      Finset.card_le_card (Finset.union_subset (Finset.filter_subset _ _) (Finset.filter_subset _ _))
    have hlow := Finset.card_le_card hserved
    have hlow4 := h.min_le_getters hended h4
    have hlow6 := h.min_le_getters hended h6
    have hhigh := h.card_served_le hended h4
    exact ⟨by omega, by omega, fun heq => absurd heq hone⟩

end Orderly

theorem orderly_start {k : Nat} {owners : Finset String} (hp : p.Coherent) (hfamilies : families.isEmpty = false)
    (hk : ∀ f, families.wants f = true → (p.supply f).card = k) (hnone : ∀ o ∈ owners, p.allocated o = []) :
    Orderly p families k owners (.start p families) (fun _ => []) fun _ => 2 * families.expected where
  coherent := hp
  along := by
    intro o ho
    show Along o families _ _ (reconcile o [] families) (p.allocated o) [] _
    rw [hnone o ho, reconcile_nil o hfamilies]
    refine Along.fill_of hfamilies (List.nil_append _).symm (List.Sublist.refl _) (fun g hg => by cases hg)
      (fun m hm => Or.inl ⟨m, hm, rfl⟩) ?_
    rw [length_missing_nil hfamilies, List.length_nil, Nat.zero_add]
  ranges := fun f => rfl
  mem_reach := by
    intro o ho s hs
    have hs' : s ∈ p.allocated o := hs
    rw [hnone o ho] at hs'
    cases hs'
  count := by
    intro f hf
    have hempty : holders owners p f = ∅ := by
      rw [Finset.eq_empty_iff_forall_notMem]
      intro o ho
      obtain ⟨ho, hin⟩ := Finset.mem_filter.1 ho
      rw [hnone o ho] at hin
      cases hin
    show (p.supply f).card + (holders owners p f).card = k
    rw [hempty, hk f hf, Finset.card_empty, Nat.add_zero]
  others := fun o ho => rfl

end HostSubnets.Pool

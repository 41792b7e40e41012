import HostSubnets.Proofs.Pool.Lists
import HostSubnets.Proofs.Pool.Reconcile

/-!
# Families without a range

Of which families a pool has ranges shows in its replies (`Request.Answers`), and no request of an owner changes it
(`Coherent.ranged_perform`). So it decides how reconciling ends, whatever other owners do meanwhile: with the error of a
family without a range exactly if one of the wanted ones is such, and then with the first of them
(`reconcile_noRange_iff`).
-/

namespace HostSubnets

variable {families : Families} {has : Family → Bool} {f : Family} {kept : List Cidr} {o : String}

/-! ## Wanted families without a range -/

/-- The first wanted family of which there is no range, where it is known of which there are some. -/
def Families.lacking (families : Families) (has : Family → Bool) : Option Family :=
  [Family.v4, Family.v6].find? fun f => families.wants f && !has f

theorem Families.lacking_eq_none_iff :
    families.lacking has = none ↔ ∀ f, families.wants f = true → has f = true := by
  unfold lacking
  rw [List.find?_eq_none]
  constructor
  · intro h f hf
    have hmem : f ∈ [Family.v4, Family.v6] := by cases f <;> simp
    simpa [hf] using h f hmem
  · intro h f _
    cases hf : families.wants f with
    | false => simp
    | true => simp [h f hf]

theorem Families.lacking_onlyV4 : Families.onlyV4.lacking has = some f ↔ f = .v4 ∧ has .v4 = false := by
  unfold lacking
  cases hv4 : has .v4 <;> simp [onlyV4, wants, hv4, eq_comm]

theorem Families.lacking_self (families : Families) : families.lacking families.wants = none :=
  lacking_eq_none_iff.2 fun _ hf => hf

namespace Pool

open HostSubnets.Task

def ranged (p : Pool) (f : Family) : Bool := p.blocks.any fun b => b.network.family == f

theorem ranged_eq_networks (p : Pool) (f : Family) :
    p.ranged f = (p.blocks.map Block.network).any fun c => c.family == f := by
  rw [List.any_map]
  rfl

theorem ranged_of_hosts {p : Pool} {s : Cidr} (h : p.Hosts s) : p.ranged s.family = true := by
  obtain ⟨b, hb, i, hi⟩ := locate_isSome_iff.1 h
  exact List.any_eq_true.2 ⟨b, hb, by simp [Block.family_of_index? hi]⟩

theorem Coherent.ranged_perform {p : Pool} (hp : p.Coherent) {q : Request} (hq : q.IsBy o) :
    (q.perform p).2.ranged = p.ranged := by
  funext f
  have hnetworks : ∀ p : Pool, p.blocks.map Block.network = p.layout.map Block.network := by
    intro p
    unfold layout
    rw [List.map_map]
    rfl
  rw [ranged_eq_networks, ranged_eq_networks, hnetworks, hnetworks, hp.layout_perform hq]

/-! ## Replies -/

/-- A reply of a pool that has ranges of these families. -/
def Request.Answers (has : Family → Bool) : (q : Request) → q.Reply → Prop
  | .allocate _ f, .ok _ => has f = true
  | .allocate _ f, .error e => e = .noRange f ∧ has f = false
  | .mark _ subnets, .ok _ => ∀ s ∈ subnets, has s.family = true
  | _, _ => True

theorem answers_perform (q : Request) (p : Pool) : q.Answers p.ranged (q.perform p).1 := by
  cases q with
  | allocate o f =>
    show (Request.allocate o f).Answers p.ranged (p.allocate o f).1
    unfold allocate
    split
    · rename_i hsome
      split
      · exact hsome
      · exact hsome
    · rename_i hnone
      exact ⟨rfl, Bool.eq_false_iff.2 hnone⟩
  | mark o l =>
    show (Request.mark o l).Answers p.ranged (p.mark o l).1
    cases hreply : (p.mark o l).1 with
    | error e => exact trivial
    | ok _ => exact fun s hs => ranged_of_hosts ((mark_ok_iff o l p).1 hreply s hs).1
  | _ => exact trivial

/-! ## Reconciling -/

theorem keep_yields (existing : List Cidr) (hadmits : families.Admits kept) (hkept : ∀ s ∈ kept, has s.family = true) :
    (keep o families kept existing).Yields (Request.Answers has) fun all =>
      families.Admits all ∧ ∀ s ∈ all, has s.family = true := by
  induction existing generalizing kept with
  | nil => exact ⟨hadmits, hkept⟩
  | cons s rest ih =>
    have hback : (perform (Request.release o [s]) >>= fun _ => keep o families kept rest).Yields (Request.Answers has)
        fun all => families.Admits all ∧ ∀ s ∈ all, has s.family = true :=
      yields_bind_of_forall _ fun _ => ih hadmits hkept
    rw [keep_cons]
    split
    · exact ih hadmits hkept
    · split
      · rename_i husable
        obtain ⟨hw, hf⟩ : families.wants s.family = true ∧ hasFamily kept s.family = false := by simpa using husable
        intro reply hreply
        cases reply with
        | error e => exact hback
        | ok _ =>
          refine ih (admits_append_singleton hadmits hw hf) fun t ht => ?_
          rcases List.mem_append.1 ht with hold | hnew
          · exact hkept t hold
          · rw [List.mem_singleton.1 hnew]
            exact hreply s (List.mem_singleton_self s)
      · exact hback

theorem fill_yields (absent : List Family) (l : List Cidr) :
    (fill o l absent).Yields (Request.Answers has) fun result =>
      ∀ f, result = .error (.noRange f) ↔ (absent.find? fun f => !has f) = some f := by
  induction absent generalizing l with
  | nil => exact fun f => by simp
  | cons g rest ih =>
    rw [fill]
    intro reply hreply
    cases reply with
    | error e =>
      obtain ⟨rfl, hnone⟩ := hreply
      have hback : (giveBack o l >>= fun _ => pure (.error (.noRange g)) : Program (Except PoolError (List Cidr))).Yields
          (Request.Answers has) fun result => ∀ f, result = .error (.noRange f) ↔ some g = some f :=
        yields_bind_of_forall _ fun _ f => by simp
      rw [List.find?_cons_of_pos (by simp [hnone])]
      exact hback
    | ok taken =>
      have hsome : has g = true := hreply
      rw [List.find?_cons_of_neg (by simp [hsome])]
      cases taken with
      | none => exact ih l
      | some s => exact ih (l ++ [s])

/-- What is kept does not hide that a family has no range. -/
theorem find?_missing (hkept : ∀ s ∈ kept, has s.family = true) :
    (missing families kept).find? (fun f => !has f) = families.lacking has := by
  unfold missing Families.lacking
  rw [List.find?_filter]
  congr 1
  funext f
  cases hf : hasFamily kept f with
  | false => simp
  | true =>
    obtain ⟨s, hs, rfl⟩ := hasFamily_iff.1 hf
    simp [hkept s hs]

/-- **Reconciling is refused a family exactly if it is the first wanted one without a range**, whatever other owners do
meanwhile. -/
theorem reconcile_noRange_iff (o : String) (existing : List Cidr) (families : Families) (has : Family → Bool) :
    (reconcile o existing families).Yields (Request.Answers has) fun result =>
      ∀ f, result = .error (.noRange f) ↔ families.lacking has = some f := by
  rw [reconcile_eq, yields_bind]
  refine (keep_yields existing (Families.admits_nil families) (by simp)).imp ?_
  rintro kept ⟨hadmits, hkept⟩
  unfold complete
  split
  · rename_i hlen
    have hnone : families.lacking has = none := by
      refine Families.lacking_eq_none_iff.2 fun f hf => ?_
      obtain ⟨s, hs, rfl⟩ := (serves_of_length hadmits hlen).2 f hf
      exact hkept s hs
    intro f
    simp [hnone]
  · rw [yields_bind]
    refine (fill_yields (missing families kept) []).imp fun result hresult => ?_
    rw [find?_missing hkept] at hresult
    cases result with
    | error e =>
      intro f
      rw [← hresult f]
      simp
    | ok l =>
      have hnone : ∀ f, families.lacking has ≠ some f := fun f hf => by cases (hresult f).2 hf
      dsimp only
      split
      · intro f
        simp [hnone f]
      · refine yields_bind_of_forall _ fun _ f => ?_
        simp [hnone f]

end Pool

end HostSubnets

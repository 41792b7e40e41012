import HostSubnets.Proofs.Pool.Choice

/-!
# What reconciliation returns and leaves

An owner that was reconciled holds the subnets that were returned, one of each wanted family, and besides them those
that it held before and that were not in the list (`Coherent.mem_heldBy_reconcile_iff`): nobody asks the pool for them.
So it is left with one subnet of each family and no more exactly if the list had everything that it held
(`held_returned_iff_listed`).
-/

namespace HostSubnets.Pool

variable {p : Pool} {o : String} {families : Families} {existing : List Cidr} {a : Assignment}

theorem Coherent.mem_heldBy_reconcile_iff (hp : p.Coherent)
    (hok : ((reconcile o existing families).runAlone p).1 = .ok a) :
    Settles p o families existing a ∧
      ∀ s, s ∈ ((reconcile o existing families).runAlone p).2.heldBy o ↔
        s ∈ a.subnets ∨ (s ∈ p.heldBy o ∧ s ∉ existing) := by
  obtain ⟨-, hresult⟩ := reconcile_settles hp o families existing
  rw [hok] at hresult
  obtain ⟨-, ha, hheld⟩ := hresult
  refine ⟨ha, fun s => (hheld s).trans ?_⟩
  rw [ha.mem_subnets, remains, Set.mem_ofPred_eq]
  tauto

theorem Settles.listed_of_mem_subnets (h : Settles p o families existing a) {s : Cidr} (hs : s ∈ a.subnets)
    (hheld : s ∈ p.heldBy o) : s ∈ existing := by
  rcases (h.mem_subnets s).1 hs with hretains | hnew
  · exact hretains.mem
  · exact absurd hheld (h.fresh s hnew)

/-- **When an owner is left with what reconciliation returns.** There is exactly one subnet of each wanted family among
those returned and no other; the owner holds these and what it held before without listing it, so nothing else exactly
if all that it held was listed. -/
theorem held_returned_iff_listed (requests : List Request) (o : String) (existing : List Cidr) (families : Families)
    {a : Assignment} (hok : ((reconcile o existing families).runAlone (empty.after requests)).1 = .ok a) :
    let p := empty.after requests
    let q := ((reconcile o existing families).runAlone p).2
    families.Serves a.subnets ∧
      (∀ s, s ∈ q.allocated o ↔ s ∈ a.subnets ∨ (s ∈ p.allocated o ∧ s ∉ existing)) ∧
        ((∀ s, s ∈ q.allocated o ↔ s ∈ a.subnets) ↔ ∀ s ∈ p.allocated o, s ∈ existing) := by
  intro p q
  have hp : p.Coherent := coherent_empty.after requests
  obtain ⟨ha, hheld⟩ := hp.mem_heldBy_reconcile_iff hok
  refine ⟨ha.serves, hheld, fun hsame s hs => ?_, fun hlisted s => (hheld s).trans ?_⟩
  · by_contra hnot
    have hafter : s ∈ q.allocated o := (hheld s).2 (Or.inr ⟨hs, hnot⟩)
    exact hnot (ha.listed_of_mem_subnets ((hsame s).1 hafter) hs)
  · rw [or_iff_left_iff_imp]
    exact fun ⟨hs, hnot⟩ => absurd (hlisted s hs) hnot

/-- Four IPv4 subnets, and an owner that was given the first. -/
def allocatedOnce : List Request :=
  [.addRange ⟨.v4, 168034304, 22, by decide, by decide⟩ 24, .allocate "a" .v4]

/-- It is reconciled from an empty list: the second subnet is returned, and it holds both. -/
theorem unlisted_stays :
    let first : Cidr := ⟨.v4, 168034304, 24, by decide, by decide⟩
    let second : Cidr := ⟨.v4, 168034560, 24, by decide, by decide⟩
    let run := (reconcile "a" [] .onlyV4).runAlone (empty.after allocatedOnce)
    run.1 = .ok ⟨[second], [second]⟩ ∧ run.2.allocated "a" = [first, second] ∧
      ¬ ∀ s, s ∈ run.2.allocated "a" ↔ s ∈ [second] := by
  intro first second run
  have hheld : run.2.allocated "a" = [first, second] := by decide +kernel
  refine ⟨by decide +kernel, hheld, fun hsame => ?_⟩
  have hfirst : first ∈ [second] := (hsame first).1 (by rw [hheld]; exact List.mem_cons_self)
  exact absurd hfirst (by decide)

def crowded : List Request :=
  [.addRange ⟨.v4, 168034304, 22, by decide, by decide⟩ 24, .addRange ⟨.v6, 0xfd02 <<< 112, 79, by decide, by decide⟩ 80,
    .allocate "b" .v4, .allocate "a" .v4, .allocate "a" .v4]

theorem crowded_left_with_pair :
    let first : Cidr := ⟨.v4, 168034304, 24, by decide, by decide⟩
    let second : Cidr := ⟨.v4, 168034560, 24, by decide, by decide⟩
    let third : Cidr := ⟨.v4, 168034816, 24, by decide, by decide⟩
    let sixth : Cidr := ⟨.v6, 0xfd02 <<< 112, 80, by decide, by decide⟩
    let run := (reconcile "a" [first, third, second] ⟨true, true⟩).runAlone (empty.after crowded)
    run.1 = .ok ⟨[third, sixth], [sixth]⟩ ∧ ∀ s, s ∈ run.2.allocated "a" ↔ s ∈ [third, sixth] := by
  intro first second third sixth run
  have hok : run.1 = .ok ⟨[third, sixth], [sixth]⟩ := by decide +kernel
  obtain ⟨-, -, hiff⟩ := held_returned_iff_listed crowded "a" [first, third, second] ⟨true, true⟩ hok
  exact ⟨hok, hiff.2 (by decide +kernel)⟩

end HostSubnets.Pool

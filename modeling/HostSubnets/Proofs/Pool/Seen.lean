import HostSubnets.Proofs.Pool.Operations
import Mathlib.Data.Set.Insert

/-!
# Operations as one owner sees them

Of a pool an owner sees the set of subnets it holds (`heldBy`) and the replies to its requests. `Request.Seen` says
how these hang together, `seen_perform` that every operation of a coherent pool agrees with it. Requests of other
owners are not seen at all, so a program of one owner can be followed on its own set of subnets.
-/

namespace HostSubnets.Pool

/-- The subnets that an owner holds. -/
def heldBy (o : String) (p : Pool) : Set Cidr := {s | s ∈ p.allocated o}

theorem mem_heldBy {o : String} {p : Pool} {s : Cidr} : s ∈ p.heldBy o ↔ s ∈ p.allocated o := Iff.rfl

theorem Coherent.mem_heldBy_iff {p : Pool} (h : Coherent p) (o : String) (s : Cidr) :
    s ∈ p.heldBy o ↔ p.owner? s = some o := h.mirrored o s

namespace Request

/-- The reply to a request, and what the owner `o` holds before and after it. -/
def Seen (o : String) : (q : Request) → Set Cidr → q.Reply → Set Cidr → Prop
  | .mark x l, H, reply, H' =>
    if x = o then H ⊆ H' ∧ (∀ s ∈ H', s ∈ H ∨ s ∈ l) ∧ (reply = .ok () ↔ ∀ s ∈ l, s ∈ H') else H' = H
  | .release x l, H, _, H' => H' = if x = o then {s | s ∈ H ∧ s ∉ l} else H
  | .allocate x f, H, .ok (some s), H' => if x = o then s ∉ H ∧ s.family = f ∧ H' = insert s H else H' = H
  | .releaseAll x, H, _, H' => H' = if x = o then ∅ else H
  | .allocated x, H, reply, H' => H' = H ∧ (x = o → ∀ s, s ∈ reply ↔ s ∈ H)
  | _, H, _, H' => H' = H

end Request

theorem heldBy_addRange (o : String) (network : Cidr) (hostLength : Nat) (p : Pool) :
    (p.addRange network hostLength).2.heldBy o = p.heldBy o := by
  rcases addRange_cases network hostLength p with ⟨b, -, -, -, ha⟩ | ⟨e, ha⟩ <;> rw [ha]
  rfl

section Operations

variable {p : Pool} (h : Coherent p) (o x : String)
include h

theorem Coherent.seen_mark (l : List Cidr) :
    (Request.mark x l).Seen o (p.heldBy o) (p.mark x l).1 ((p.mark x l).2.heldBy o) := by
  have hmem : ∀ s, s ∈ (p.mark x l).2.heldBy o ↔
      (if s ∈ l ∧ p.Hosts s ∧ p.owner? s = none then some x else p.owner? s) = some o := by
    intro s
    rw [(h.mark x l).mem_heldBy_iff, owner?_mark]
  show if x = o then _ else _
  split
  · rename_i hx
    subst hx
    refine ⟨fun s hs => ?_, fun s hs => ?_, ?_⟩
    · rw [h.mem_heldBy_iff] at hs
      rw [hmem, hs]
      simp
    · rw [hmem] at hs
      rw [h.mem_heldBy_iff]
      split at hs
      · rename_i hnew
        exact Or.inr hnew.1
      · exact Or.inl hs
    · rw [mark_ok_iff]
      refine forall₂_congr fun s hs => ?_
      rw [hmem]
      constructor
      · rintro ⟨hhosts, hfree | hown⟩
        · rw [if_pos ⟨hs, hhosts, hfree⟩]
        · simp [hown]
      · intro hown
        split at hown
        · rename_i hnew
          exact ⟨hnew.2.1, Or.inl hnew.2.2⟩
        · exact ⟨hosts_of_owner? hown, Or.inr hown⟩
  · rename_i hx
    ext s
    rw [hmem, h.mem_heldBy_iff]
    split
    · rename_i hnew
      rw [hnew.2.2]
      simp [hx]
    · rfl

theorem Coherent.seen_release (l : List Cidr) :
    (Request.release x l).Seen o (p.heldBy o) (p.release x l).1 ((p.release x l).2.heldBy o) := by
  show (p.release x l).2.heldBy o = _
  ext s
  rw [(h.release x l).mem_heldBy_iff, owner?_release]
  by_cases hx : x = o
  · subst hx
    rw [if_pos rfl, Set.mem_ofPred_eq, h.mem_heldBy_iff]
    by_cases hs : s ∈ l <;> by_cases hown : p.owner? s = some x <;> simp [hs, hown]
  · rw [if_neg hx, h.mem_heldBy_iff]
    split
    · rename_i hfreed
      rw [hfreed.2]
      simp [hx]
    · rfl

theorem Coherent.seen_allocate (f : Family) :
    (Request.allocate x f).Seen o (p.heldBy o) (p.allocate x f).1 ((p.allocate x f).2.heldBy o) := by
  rcases h.allocate_cases x f with ⟨s, place, hp, hfree, hf, ha⟩ | ⟨hno, ha⟩
  · have hreserve := h.reserve hp hfree x
    rw [ha]
    have hmem : ∀ t, t ∈ (⟨assign place (some x) p.blocks, hold x s p.held⟩ : Pool).heldBy o ↔
        (if t = s then some x else p.owner? t) = some o := by
      intro t
      rw [hreserve.mem_heldBy_iff, owner?, ownerIn_assign hp]
      rfl
    show if x = o then _ else _
    split
    · rename_i hx
      subst hx
      refine ⟨?_, hf, ?_⟩
      · rw [h.mem_heldBy_iff, hfree]
        exact fun hcontra => by cases hcontra
      · ext t
        rw [hmem, Set.mem_insert_iff, h.mem_heldBy_iff]
        by_cases ht : t = s <;> simp [ht]
    · rename_i hx
      ext t
      rw [hmem, h.mem_heldBy_iff]
      by_cases ht : t = s
      · simp [ht, hx, hfree]
      · simp [ht]
  · have hsame : (p.allocate x f).2.heldBy o = p.heldBy o := by rw [ha]
    generalize hr : (p.allocate x f).1 = reply at hno
    rcases reply with e | taken
    · exact hsame
    · cases taken with
      | none => exact hsame
      | some s => exact absurd rfl (hno s)

theorem Coherent.seen_releaseAll :
    (Request.releaseAll x).Seen o (p.heldBy o) (p.releaseAll x).1 ((p.releaseAll x).2.heldBy o) := by
  show (p.releaseAll x).2.heldBy o = _
  ext s
  rw [(h.releaseAll x).mem_heldBy_iff, h.owner?_releaseAll]
  by_cases hx : x = o
  · subst hx
    by_cases hown : p.owner? s = some x <;> simp [hown]
  · rw [if_neg hx, h.mem_heldBy_iff]
    by_cases hown : p.owner? s = some x
    · simp [hown, hx]
    · rw [if_neg hown]

/-- **Every operation is seen by every owner as `Request.Seen` says.** -/
theorem Coherent.seen_perform (q : Request) :
    q.Seen o (p.heldBy o) (q.perform p).1 ((q.perform p).2.heldBy o) := by
  cases q with
  | addRange network hostLength => exact heldBy_addRange o network hostLength p
  | allocate x f => exact h.seen_allocate o x f
  | mark x l => exact h.seen_mark o x l
  | release x l => exact h.seen_release o x l
  | releaseAll x => exact h.seen_releaseAll o x
  | allocated x => exact ⟨rfl, fun hx s => by subst hx; rfl⟩
  | count => rfl
  | usage => rfl

end Operations

/-! ## Requests of one owner -/

namespace Request

/-- A request that reserves and gives back for one owner only. -/
def IsBy (x : String) : Request → Prop
  | .addRange .. => False
  | .allocate o _ => o = x
  | .mark o _ => o = x
  | .release o _ => o = x
  | .releaseAll o => o = x
  | _ => True

def Reads : Request → Prop
  | .allocated _ => True
  | .count => True
  | .usage => True
  | _ => False

theorem Reads.perform {q : Request} (h : q.Reads) (p : Pool) : (q.perform p).2 = p := by
  cases q with
  | allocated o => rfl
  | count => rfl
  | usage => rfl
  | _ => exact h.elim

/-- Nobody else sees the requests of an owner. -/
theorem IsBy.eq_of_seen {x o : String} {q : Request} (hq : q.IsBy x) (hne : x ≠ o) {H H' : Set Cidr}
    {reply : q.Reply} (h : q.Seen o H reply H') : H' = H := by
  cases q with
  | addRange network hostLength => exact hq.elim
  | allocate y f =>
    obtain rfl : y = x := hq
    rcases reply with e | taken
    · exact h
    · cases taken with
      | none => exact h
      | some s => exact (if_neg hne).mp h
  | mark y l =>
    obtain rfl : y = x := hq
    exact (if_neg hne).mp h
  | release y l =>
    obtain rfl : y = x := hq
    exact h.trans (if_neg hne)
  | releaseAll y =>
    obtain rfl : y = x := hq
    exact h.trans (if_neg hne)
  | allocated y => exact h.1
  | count => exact h
  | usage => exact h

end Request

end HostSubnets.Pool

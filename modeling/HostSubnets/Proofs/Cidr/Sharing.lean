import HostSubnets.Cidr.Basic
import Mathlib.Algebra.Order.Ring.Nat
import Mathlib.Tactic.Ring

/-!
# Blocks that share an address

`Meets` : two blocks of one family have an address in common. Blocks are aligned to their sizes, so of two that
meet the larger holds the other's first address (`covers_first_of_covers`), and the test on first addresses is
exact (`overlaps_iff_meets`).
-/

namespace HostSubnets.Cidr

/-- Two blocks of the same family have an address in common. -/
def Meets (c d : Cidr) : Prop :=
  c.family = d.family ∧ ∃ a, c.covers a = true ∧ d.covers a = true

theorem Meets.symm {c d : Cidr} (h : c.Meets d) : d.Meets c := by
  obtain ⟨hf, a, hc, hd⟩ := h
  exact ⟨hf.symm, a, hd, hc⟩

theorem covers_first (c : Cidr) : c.covers c.first = true := by
  rw [covers_iff]
  have := c.size_pos
  omega

theorem covers_address (c : Cidr) : c.covers c.address = true := by simp [covers]

theorem meets_self (c : Cidr) : c.Meets c := ⟨rfl, c.first, c.covers_first, c.covers_first⟩

theorem covers_masked (c : Cidr) (a : Nat) : c.masked.covers a = c.covers a := by
  rw [Bool.eq_iff_iff, covers_iff, covers_iff, first_masked, size_masked]

theorem meets_masked {c d : Cidr} : c.masked.Meets d.masked ↔ c.Meets d := by
  simp only [Meets, covers_masked]
  exact Iff.rfl

theorem meets_masked_right {c d : Cidr} : c.Meets d.masked ↔ c.Meets d := by
  simp only [Meets, covers_masked]
  exact Iff.rfl

theorem size_dvd_first (c : Cidr) : c.size ∣ c.first := Dvd.intro_left _ rfl

theorem size_dvd_size {c d : Cidr} (hf : c.family = d.family) (h : d.length ≤ c.length) :
    c.size ∣ d.size := by
  unfold size
  rw [hf]
  exact Nat.pow_dvd_pow 2 (by omega)

theorem covers_first_of_covers {c d : Cidr} (hs : c.size ∣ d.size) {a : Nat}
    (hc : c.covers a = true) (hd : d.covers a = true) : d.covers c.first = true := by
  obtain ⟨k, hk⟩ := hs
  simp only [covers, beq_iff_eq] at hc hd ⊢
  have hfirst : c.first / c.size = a / c.size := by
    rw [first, Nat.mul_div_cancel _ c.size_pos, hc]
  rw [← hd, hk, ← Nat.div_div_eq_div_mul, ← Nat.div_div_eq_div_mul, hfirst]

theorem covers_of_covers_address {c d : Cidr} (hs : c.size ∣ d.size) (hd : d.covers c.address = true) {a : Nat}
    (hc : c.covers a = true) : d.covers a = true := by
  obtain ⟨k, hk⟩ := hs
  simp only [covers, beq_iff_eq] at hc hd ⊢
  rw [← hd, hk, ← Nat.div_div_eq_div_mul, ← Nat.div_div_eq_div_mul, hc]

/-- The test on first addresses finds a shared address exactly if there is one. -/
theorem overlaps_iff_meets (c d : Cidr) : c.overlaps d = true ↔ c.Meets d := by
  simp only [overlaps, Bool.and_eq_true, beq_iff_eq, Bool.or_eq_true]
  constructor
  · rintro ⟨hf, hc | hd⟩
    · exact ⟨hf, d.first, hc, d.covers_first⟩
    · exact ⟨hf, c.first, c.covers_first, hd⟩
  · rintro ⟨hf, a, hc, hd⟩
    refine ⟨hf, ?_⟩
    rcases Nat.le_total d.length c.length with h | h
    · exact Or.inr (covers_first_of_covers (size_dvd_size hf h) hc hd)
    · exact Or.inl (covers_first_of_covers (size_dvd_size hf.symm h) hd hc)

instance (c d : Cidr) : Decidable (c.Meets d) := decidable_of_iff _ (overlaps_iff_meets c d)

end HostSubnets.Cidr

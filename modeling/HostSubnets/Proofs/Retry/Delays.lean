import HostSubnets.Proofs.Retry.Attempts
import HostSubnets.Proofs.Retry.Scaling
import Mathlib.Data.List.Range

/-!
# How long is waited between attempts

Each delay follows from the one before it (`Backoff.Computes.nanos_delay`). All but the first are cut at the cap, and
they never decrease if the second is not less than the first (`Backoff.Computes.delay_le_succ`), as the product by which
a delay grows does not fall when the delay rises. `Backoff.waits_bounded_iff` says for which delays cap and order hold.
-/

namespace HostSubnets

variable {ε α : Type} {b : Backoff}

theorem exists_pauses (b : Backoff) (retryable : ε → Bool) (outcome : Nat → Except ε α) (retries : Nat)
    (delay : Duration) (t : RetryTrace) :
    ∃ n ≤ retries, (retryTraceFrom b retryable outcome retries delay t).2.pauses =
      ((List.range n).map fun i => b.next^[i] delay).reverse ++ t.pauses := by
  induction retries generalizing delay t with
  | zero => exact ⟨0, le_rfl, rfl⟩
  | succ retries ih =>
    by_cases hend : Conclusive retryable (outcome t.attempts)
    · exact ⟨0, Nat.zero_le _, by rw [retryTraceFrom_of_conclusive hend]; rfl⟩
    · obtain ⟨e, he, hretry⟩ := not_conclusive_iff.1 hend
      obtain ⟨n, hn, hpauses⟩ := ih (b.next delay) ⟨t.attempts + 1, delay :: t.pauses⟩
      refine ⟨n + 1, Nat.succ_le_succ hn, ?_⟩
      rw [retryTraceFrom_of_retryable he hretry, hpauses, List.range_succ_eq_map]
      simp [Function.comp_def, Function.iterate_succ]

namespace Backoff

/-- The pauses between the attempts, first one first. -/
def waits (b : Backoff) (retryable : ε → Bool) (outcome : Nat → Except ε α) : List Duration :=
  (retryTrace b retryable outcome).2.pauses.reverse.map fun delay => delay.stretch b.jitter

theorem exists_waits_eq (hsteady : b.isSteady = true) (retryable : ε → Bool) (outcome : Nat → Except ε α) :
    ∃ n ≤ b.steps - 1, b.waits retryable outcome = (List.range n).map b.delay := by
  obtain ⟨n, hn, hpauses⟩ := exists_pauses b retryable outcome (b.steps - 1) b.duration .start
  have hstretch : (fun delay : Duration => delay.stretch b.jitter) = id := funext fun delay => if_pos hsteady
  refine ⟨n, hn, ?_⟩
  rw [waits, retryTrace_eq, hpauses, hstretch, List.map_id, RetryTrace.start, List.append_nil, List.reverse_reverse]
  rfl

/-! ## One delay after the other -/

def grown (b : Backoff) (n : Nat) : ℤ := Duration.scaled b.growth.magnitude n

/-- The product with the first delay is shorter than the first delay, by rounding. -/
def Shrinks (b : Backoff) : Prop := ∃ d, b.duration.scale? b.growth = some d ∧ d.nanos < b.duration.nanos

theorem one_le_growth (hfinite : b.growth.isFinite = true) : 1 ≤ b.growth.magnitude := by
  unfold growth at hfinite ⊢
  split at hfinite
  · rename_i habove
    rw [if_pos habove]
    exact (Double.one_lt_magnitude hfinite habove).le
  · rename_i hbelow
    rw [if_neg hbelow, Double.magnitude_one]

theorem nanos_scale_growth {d e : Duration} (h : d.scale? b.growth = some e) :
    1 ≤ b.growth.magnitude ∧ (e.nanos : ℤ) = b.grown d.nanos :=
  (Duration.nanos_scale h).imp_left one_le_growth

theorem not_shrinks (h : b.duration.nanos < 2 ^ 23 * Duration.nanosPerSecond) : ¬ b.Shrinks := by
  rintro ⟨d, hd, hlt⟩
  obtain ⟨hgrowth, hnanos⟩ := nanos_scale_growth hd
  have hle := Duration.le_scaled hgrowth h
  unfold grown at hnanos
  omega

theorem exists_product {d : Duration} (h : (b.next? d).isSome = true) :
    ∃ e, d.scale? b.growth = some e ∧ (b.next d).nanos = min e.nanos b.cap.nanos := by
  obtain ⟨next, hnext⟩ := Option.isSome_iff_exists.1 h
  obtain ⟨e, he, hcut⟩ := Option.map_eq_some_iff.1 hnext
  refine ⟨e, he, ?_⟩
  rw [Backoff.next, hnext, Option.getD_some, ← hcut, Duration.min]
  split <;> omega

theorem delay_succ (b : Backoff) (i : Nat) : b.delay (i + 1) = b.next (b.delay i) :=
  Function.iterate_succ_apply' b.next i b.duration

namespace Computes

variable (h : b.Computes) {i : Nat}
include h

theorem exists_product_delay (hi : i < b.steps - 1) :
    ∃ e, (b.delay i).scale? b.growth = some e ∧ (b.delay (i + 1)).nanos = min e.nanos b.cap.nanos := by
  have hadmits := h i hi
  rw [admits, Bool.and_eq_true] at hadmits
  rw [delay_succ]
  exact exists_product hadmits.2

theorem nanos_delay (hi : i < b.steps - 1) :
    1 ≤ b.growth.magnitude ∧ ((b.delay (i + 1)).nanos : ℤ) = min (b.grown (b.delay i).nanos) b.cap.nanos := by
  obtain ⟨e, he, hdelay⟩ := h.exists_product_delay hi
  obtain ⟨hgrowth, hnanos⟩ := nanos_scale_growth he
  refine ⟨hgrowth, ?_⟩
  rw [hdelay, ← hnanos]
  push_cast
  rfl

theorem delay_le_cap (hi : i < b.steps - 1) : (b.delay (i + 1)).nanos ≤ b.cap.nanos := by
  have hdelay := (h.nanos_delay hi).2
  omega

theorem le_delay_succ_iff (hi : i < b.steps - 1) :
    (b.delay i).nanos ≤ (b.delay (i + 1)).nanos ↔
      ((b.delay i).nanos : ℤ) ≤ b.grown (b.delay i).nanos ∧ (b.delay i).nanos ≤ b.cap.nanos := by
  have hdelay := (h.nanos_delay hi).2
  omega

theorem shrinks_iff (hi : 0 < b.steps - 1) : b.Shrinks ↔ b.grown b.duration.nanos < b.duration.nanos := by
  obtain ⟨e, he, -⟩ := h.exists_product_delay hi
  have hproduct : b.duration.scale? b.growth = some e := he
  have hnanos := (nanos_scale_growth hproduct).2
  constructor
  · rintro ⟨d, hd, hlt⟩
    obtain rfl := Option.some.inj (hproduct.symm.trans hd)
    omega
  · intro hlt
    exact ⟨e, hproduct, by omega⟩

theorem delay_le_succ (hstart : (b.delay 0).nanos ≤ (b.delay 1).nanos) (hi : i < b.steps - 1) :
    (b.delay i).nanos ≤ (b.delay (i + 1)).nanos := by
  induction i with
  | zero => exact hstart
  | succ i ih =>
    have hbefore : i < b.steps - 1 := Nat.lt_of_succ_lt hi
    obtain ⟨hgrowth, hdelay⟩ := h.nanos_delay hbefore
    have hdelay' := (h.nanos_delay hi).2
    have hrise : b.grown (b.delay i).nanos ≤ b.grown (b.delay (i + 1)).nanos :=
      Duration.scaled_mono (zero_le_one.trans hgrowth) (ih hbefore)
    omega

theorem delay_le_succ_of_short (hshort : b.cap.nanos < 2 ^ 23 * Duration.nanosPerSecond) (hi : i + 1 < b.steps - 1) :
    (b.delay (i + 1)).nanos ≤ (b.delay (i + 2)).nanos := by
  have hcap := h.delay_le_cap (Nat.lt_of_succ_lt hi)
  exact (h.le_delay_succ_iff hi).2 ⟨Duration.le_scaled (h.nanos_delay hi).1 (hcap.trans_lt hshort), hcap⟩

theorem delays_le_cap_iff {n : Nat} (hn : n < b.steps - 1) :
    (∀ i < n + 1, (b.delay i).nanos ≤ b.cap.nanos) ↔ b.duration.nanos ≤ b.cap.nanos := by
  refine ⟨fun hall => hall 0 n.succ_pos, fun hfirst i hi => ?_⟩
  cases i with
  | zero => exact hfirst
  | succ i => exact h.delay_le_cap (by omega)

/-- Within the cap it is the product with the first delay alone that may break the order. -/
theorem delays_rise_iff (hfirst : b.duration.nanos ≤ b.cap.nanos) {n : Nat} (hn : n < b.steps - 1) :
    (∀ i < n, (b.delay i).nanos ≤ (b.delay (i + 1)).nanos) ↔ n = 0 ∨ ¬ b.Shrinks := by
  have hpos : 0 < b.steps - 1 := Nat.lt_of_le_of_lt n.zero_le hn
  have hstart : (b.delay 0).nanos ≤ (b.delay 1).nanos ↔ ¬ b.Shrinks := by
    rw [h.le_delay_succ_iff hpos, h.shrinks_iff hpos, not_lt]
    exact and_iff_left hfirst
  constructor
  · intro hall
    rcases n.eq_zero_or_pos with hzero | hmore
    · exact Or.inl hzero
    · exact Or.inr (hstart.1 (hall 0 hmore))
  · rintro (rfl | hkeeps) i hi
    · exact absurd hi i.not_lt_zero
    · exact h.delay_le_succ (hstart.2 hkeeps) (hi.trans hn)

end Computes

/-! ## Cap and order -/

def Rising (delays : List Duration) : Prop := delays.IsChain fun d e => d.nanos ≤ e.nanos

instance (delays : List Duration) : Decidable (Rising delays) :=
  inferInstanceAs (Decidable (delays.IsChain fun d e => d.nanos ≤ e.nanos))

theorem rising_map_range_iff (f : Nat → Duration) (n : Nat) :
    Rising ((List.range n).map f) ↔ ∀ i < n - 1, (f i).nanos ≤ (f (i + 1)).nanos := by
  rw [Rising, List.isChain_map, List.isChain_range]

/-- **The cap bounds all delays but the first, and the first decides about the order.** For delays that are slept as
they are and can be computed: all pauses of a run are within the cap and in rising order exactly if there is no pause,
or the first delay is within the cap, and there is just one pause or the first delay does not shrink when it is
multiplied by the factor. Later pauses are within the cap in any case, and in rising order if the cap is less than
2 ^ 23 seconds; a first delay of less than that does not shrink. -/
theorem waits_bounded_iff (b : Backoff) (hsteady : b.isSteady = true) (hcomputes : b.Computes) (retryable : ε → Bool)
    (outcome : Nat → Except ε α) :
    let waits := b.waits retryable outcome
    ((∀ d ∈ waits, d.nanos ≤ b.cap.nanos) ∧ Rising waits ↔
      waits = [] ∨ b.duration.nanos ≤ b.cap.nanos ∧ (waits.length = 1 ∨ ¬ b.Shrinks)) ∧
    (∀ d ∈ waits.tail, d.nanos ≤ b.cap.nanos) ∧
    (b.cap.nanos < 2 ^ 23 * Duration.nanosPerSecond → Rising waits.tail) ∧
    (b.duration.nanos < 2 ^ 23 * Duration.nanosPerSecond → ¬ b.Shrinks) := by
  intro waits
  obtain ⟨n, hn, hwaits⟩ := exists_waits_eq hsteady retryable outcome
  have heq : waits = (List.range n).map b.delay := hwaits
  rw [heq]
  cases n with
  | zero => exact ⟨by simp [Rising], by simp, by simp [Rising], not_shrinks⟩
  | succ n =>
    have htail : ((List.range (n + 1)).map b.delay).tail = (List.range n).map fun i => b.delay (i + 1) := by
      rw [List.range_succ_eq_map]
      simp [Function.comp_def]
    rw [htail, rising_map_range_iff, rising_map_range_iff]
    refine ⟨?_, ?_, ?_, not_shrinks⟩
    · have hcap := hcomputes.delays_le_cap_iff hn
      simp only [List.forall_mem_map, List.mem_range, List.map_eq_nil_iff, List.range_eq_nil, List.length_map,
        List.length_range, Nat.add_one_ne_zero, false_or, hcap, Nat.add_eq_right, Nat.add_sub_cancel]
      exact and_congr_right fun hfirst => hcomputes.delays_rise_iff hfirst hn
    · intro d hd
      obtain ⟨i, hi, rfl⟩ := List.mem_map.1 hd
      exact hcomputes.delay_le_cap ((List.mem_range.1 hi).trans hn)
    · exact fun hshort i hi => hcomputes.delay_le_succ_of_short hshort (by omega)

/-- Delays that are slept as they are, from the first one on. -/
def steadily (duration factor cap : Nat) : Backoff where
  steps := 4
  duration := ⟨duration⟩
  factor := .ofRatio false factor 1
  jitter := .finite false 0 0
  cap := ⟨cap⟩

def allWaits (b : Backoff) : List Duration := b.waits (fun _ : Unit => true) fun _ => (.error () : Except Unit Unit)

/-- A first delay of 20 ms is slept as it is, though the cap is 5 ms, and the pauses after it are shorter. -/
theorem first_exceeds_cap :
    let b := steadily 20000000 2 5000000
    b.isSteady = true ∧ b.Computes ∧ b.allWaits = [⟨20000000⟩, ⟨5000000⟩, ⟨5000000⟩] ∧
      ¬ (∀ d ∈ b.allWaits, d.nanos ≤ b.cap.nanos) ∧ ¬ Rising b.allWaits := by
  decide +kernel

-- From 2 ^ 23 seconds on, lengths may shrink when they are multiplied by one.
example : (steadily (2 ^ 23 * 10 ^ 9 + 8) 1 (2 ^ 24 * 10 ^ 9)).allWaits =
    [⟨2 ^ 23 * 10 ^ 9 + 8⟩, ⟨2 ^ 23 * 10 ^ 9 + 7⟩, ⟨2 ^ 23 * 10 ^ 9 + 7⟩] := by
  decide +kernel

/-- From 10 ms on, times five, up to a cap of 200 ms. -/
theorem pauses_rise_to_cap :
    let b := steadily 10000000 5 200000000
    b.isSteady = true ∧ b.Computes ∧ b.allWaits = [⟨10000000⟩, ⟨50000000⟩, ⟨200000000⟩] ∧
      (∀ d ∈ b.allWaits, d.nanos ≤ b.cap.nanos) ∧ Rising b.allWaits := by
  intro b
  have hsteady : b.isSteady = true := by decide +kernel
  have hcomputes : b.Computes := by decide +kernel
  have hwaits : b.allWaits = [⟨10000000⟩, ⟨50000000⟩, ⟨200000000⟩] := by decide +kernel
  obtain ⟨hiff, -, -, hshort⟩ := waits_bounded_iff b hsteady hcomputes (fun _ : Unit => true)
    fun _ => (.error () : Except Unit Unit)
  have hkeeps : ¬ b.Shrinks := hshort (by decide +kernel)
  exact ⟨hsteady, hcomputes, hwaits, hiff.2 (Or.inr ⟨by decide +kernel, Or.inr hkeeps⟩)⟩

end Backoff

end HostSubnets

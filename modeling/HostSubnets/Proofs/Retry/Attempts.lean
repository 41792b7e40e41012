import HostSubnets.Retry.Backoff
import Mathlib.Data.Nat.Find
import Mathlib.Logic.Function.Iterate
import Mathlib.Order.Bounds.Basic

/-!
# How often is tried, and how often waited

Attempts go on until one is conclusive or the last one that is allowed. What was done by then is the number of attempts
and the delays between them (`retryTraceFrom_eq`). The same comes out if the attempts are counted in words of 32 bits and a
delay that cannot be computed ends everything (`countedFrom_eq`): `Backoff.attempts_exact`.
-/

namespace HostSubnets

variable {ε α : Type} {b : Backoff} {retryable : ε → Bool} {outcome : Nat → Except ε α}

/-- No attempt follows a success, nor an error that is not retryable. -/
def Conclusive (retryable : ε → Bool) : Except ε α → Prop
  | .ok _ => True
  | .error e => retryable e = false

theorem not_conclusive_iff {result : Except ε α} :
    ¬ Conclusive retryable result ↔ ∃ e, result = .error e ∧ retryable e = true := by
  cases result with
  | ok value => simp [Conclusive]
  | error e => simp [Conclusive]

/-! ## Attempts and delays -/

namespace RetryTrace

def attempt (outcome : Nat → Except ε α) : StateM RetryTrace (Except ε α) := fun t =>
  (outcome t.attempts, { t with attempts := t.attempts + 1 })

def pause (delay : Duration) : StateM RetryTrace Unit := fun t => ((), { t with pauses := delay :: t.pauses })

end RetryTrace

/-- Attempts with known outcomes, after what was done before. -/
def retryTraceFrom (b : Backoff) (retryable : ε → Bool) (outcome : Nat → Except ε α) (retries : Nat) (delay : Duration)
    (t : RetryTrace) : Except ε α × RetryTrace :=
  retryFrom b retryable RetryTrace.pause (RetryTrace.attempt outcome) retries delay t

theorem retryTrace_eq (b : Backoff) (retryable : ε → Bool) (outcome : Nat → Except ε α) :
    retryTrace b retryable outcome = retryTraceFrom b retryable outcome (b.steps - 1) b.duration .start := rfl

section Steps

variable {retries : Nat} {delay : Duration} {t : RetryTrace}

theorem retryTraceFrom_of_conclusive (h : Conclusive retryable (outcome t.attempts)) :
    retryTraceFrom b retryable outcome retries delay t =
      (outcome t.attempts, { t with attempts := t.attempts + 1 }) := by
  cases retries with
  | zero => rfl
  | succ retries =>
    unfold retryTraceFrom retryFrom
    show (match outcome t.attempts with | .ok value => _ | .error e => _ : StateM RetryTrace (Except ε α)) _ = _
    cases hresult : outcome t.attempts with
    | ok value => rfl
    | error e =>
      rw [hresult] at h
      have hfatal : retryable e = false := h
      dsimp only
      rw [hfatal]
      rfl

theorem retryTraceFrom_of_retryable {e : ε} (he : outcome t.attempts = .error e) (h : retryable e = true) :
    retryTraceFrom b retryable outcome (retries + 1) delay t =
      retryTraceFrom b retryable outcome retries (b.next delay) ⟨t.attempts + 1, delay :: t.pauses⟩ := by
  unfold retryTraceFrom
  rw [retryFrom]
  show (match outcome t.attempts with | .ok value => _ | .error e => _ : StateM RetryTrace (Except ε α)) _ = _
  rw [he]
  dsimp only
  rw [h]
  rfl

/-- **Attempts up to the first one that is conclusive, or the last one.** -/
theorem retryTraceFrom_eq {n : Nat} (hn : n ≤ retries)
    (hopen : ∀ i < n, ¬ Conclusive retryable (outcome (t.attempts + i)))
    (hend : Conclusive retryable (outcome (t.attempts + n)) ∨ n = retries) :
    retryTraceFrom b retryable outcome retries delay t =
      (outcome (t.attempts + n),
        ⟨t.attempts + n + 1, ((List.range n).map fun i => b.next^[i] delay).reverse ++ t.pauses⟩) := by
  induction n generalizing retries delay t with
  | zero =>
    rcases hend with hend | rfl
    · exact retryTraceFrom_of_conclusive hend
    · rfl
  | succ n ih =>
    obtain ⟨retries, rfl⟩ := Nat.exists_eq_succ_of_ne_zero (Nat.ne_of_gt (Nat.lt_of_lt_of_le n.succ_pos hn))
    obtain ⟨e, he, hretry⟩ := not_conclusive_iff.1 (hopen 0 n.succ_pos)
    have hshift : ∀ i, t.attempts + 1 + i = t.attempts + (i + 1) := fun i => by omega
    rw [retryTraceFrom_of_retryable he hretry, ih (Nat.le_of_succ_le_succ hn)]
    · rw [hshift n, List.range_succ_eq_map]
      simp [Function.comp_def, Function.iterate_succ]
    · intro i hi
      rw [hshift i]
      exact hopen (i + 1) (Nat.succ_lt_succ hi)
    · rw [hshift n]
      exact hend.imp_right Nat.succ.inj

end Steps

/-! ## Attempts counted in 32 bits -/

namespace Backoff

/-- The delay before which there were so many others. -/
def delay (b : Backoff) (i : Nat) : Duration := b.next^[i] b.duration

/-- Every delay that may be needed can be slept, and the one after it computed. -/
def Computes (b : Backoff) : Prop := ∀ i < b.steps - 1, b.admits (b.delay i) = true

instance (b : Backoff) : Decidable b.Computes :=
  inferInstanceAs (Decidable (∀ i < b.steps - 1, b.admits (b.delay i) = true))

/-- The number of attempts that are made at most, as a word. -/
def limit (b : Backoff) : BitVec 32 := BitVec.ofNat 32 (max b.steps 1)

/-- The attempts with a counter of 32 bits that is raised before each of them. Nothing comes out if it overflows or if a
delay that is needed cannot be computed. -/
def countedFrom (b : Backoff) (retryable : ε → Bool) (outcome : Nat → Except ε α) (counter : BitVec 32)
    (delay : Duration) (t : RetryTrace) : Option (Except ε α × RetryTrace) :=
  if _h : BitVec.uaddOverflow counter 1 = true then none
  else
    let after : RetryTrace := { t with attempts := t.attempts + 1 }
    match outcome t.attempts with
    | .ok value => some (.ok value, after)
    | .error e =>
      if !retryable e then some (.error e, after)
      else if b.limit ≤ counter + 1 then some (.error e, after)
      else if b.admits delay then
        b.countedFrom retryable outcome (counter + 1) (b.next delay) { after with pauses := delay :: after.pauses }
      else none
termination_by 2 ^ 32 - counter.toNat
decreasing_by
  have hone : (1 : BitVec 32).toNat = 1 := rfl
  have hlt := counter.isLt
  rw [BitVec.toNat_add_of_not_uaddOverflow _h, hone]
  omega

theorem raised {counter : BitVec 32} (h : counter.toNat + 1 ≤ b.limit.toNat) :
    ¬ BitVec.uaddOverflow counter 1 = true ∧ (counter + 1).toNat = counter.toNat + 1 := by
  have hone : (1 : BitVec 32).toNat = 1 := rfl
  have hlt := b.limit.isLt
  have hno : ¬ BitVec.uaddOverflow counter 1 = true := by
    rw [BitVec.uaddOverflow, decide_eq_true_iff, hone]
    omega
  exact ⟨hno, BitVec.toNat_add_of_not_uaddOverflow hno⟩

theorem countedFrom_eq {retries : Nat} {delay : Duration} {t : RetryTrace} {counter : BitVec 32}
    (hcounter : counter.toNat + retries + 1 = b.limit.toNat)
    (hadmits : ∀ i < retries, b.admits (b.next^[i] delay) = true) :
    b.countedFrom retryable outcome counter delay t = some (retryTraceFrom b retryable outcome retries delay t) := by
  induction retries generalizing counter delay t with
  | zero =>
    obtain ⟨hno, hraised⟩ := raised (Nat.le_of_eq hcounter)
    have hlast : b.limit ≤ counter + 1 := by
      rw [BitVec.le_def, hraised]
      omega
    rw [countedFrom, dif_neg hno]
    show _ = some (outcome t.attempts, _)
    cases outcome t.attempts with
    | ok value => rfl
    | error e =>
      dsimp only
      rw [if_pos hlast, ite_self]
  | succ retries ih =>
    have hbelow : counter.toNat + 1 ≤ b.limit.toNat := by omega
    obtain ⟨hno, hraised⟩ := raised hbelow
    have hmore : ¬ b.limit ≤ counter + 1 := by
      rw [BitVec.le_def, hraised]
      omega
    rw [countedFrom, dif_neg hno]
    by_cases hend : Conclusive retryable (outcome t.attempts)
    · rw [retryTraceFrom_of_conclusive hend]
      cases hresult : outcome t.attempts with
      | ok value => rfl
      | error e =>
        rw [hresult] at hend
        have hfatal : retryable e = false := hend
        simp [hfatal]
    · obtain ⟨e, he, hretry⟩ := not_conclusive_iff.1 hend
      have hfirst : b.admits delay = true := hadmits 0 retries.succ_pos
      have hrest : (counter + 1).toNat + retries + 1 = b.limit.toNat := by omega
      have hlater := ih (t := ⟨t.attempts + 1, delay :: t.pauses⟩) hrest fun i hi =>
        hadmits (i + 1) (Nat.succ_lt_succ hi)
      rw [retryTraceFrom_of_retryable he hretry, ← hlater, he]
      dsimp only
      rw [hretry, if_neg (by decide), if_neg hmore, if_pos hfirst]

/-- **Bounded retry.** Of the attempts that are conclusive, or the last of those allowed, the first one ends the
attempts: so many are made, with one delay less in between, and its outcome is the result. A counter of 32 bits is
enough to count them. -/
theorem attempts_exact (b : Backoff) (hsteps : b.steps < 2 ^ 32) (hdelays : b.Computes) (retryable : ε → Bool)
    (outcome : Nat → Except ε α) :
    ∃ k, IsLeast {k | 1 ≤ k ∧ (Conclusive retryable (outcome (k - 1)) ∨ k = max b.steps 1)} k ∧
      (retryTrace b retryable outcome).1 = outcome (k - 1) ∧
      (retryTrace b retryable outcome).2.attempts = k ∧
      (retryTrace b retryable outcome).2.pauses.length = k - 1 ∧
      b.countedFrom retryable outcome 0 b.duration .start = some (retryTrace b retryable outcome) := by
  classical
  have hsome : ∃ n, Conclusive retryable (outcome n) ∨ n = b.steps - 1 := ⟨b.steps - 1, Or.inr rfl⟩
  let n := Nat.find hsome
  have hend : Conclusive retryable (outcome n) ∨ n = b.steps - 1 := Nat.find_spec hsome
  have hn : n ≤ b.steps - 1 := Nat.find_min' hsome (Or.inr rfl)
  have hbefore : ∀ i < n, ¬ (Conclusive retryable (outcome i) ∨ i = b.steps - 1) := fun i hi => Nat.find_min hsome hi
  have hrun : retryTraceFrom b retryable outcome (b.steps - 1) b.duration .start =
      (outcome (0 + n), ⟨0 + n + 1, ((List.range n).map fun i => b.next^[i] b.duration).reverse ++ []⟩) := by
    refine retryTraceFrom_eq hn (fun i hi => ?_) ?_
    · simpa [RetryTrace.start] using fun h => hbefore i hi (Or.inl h)
    · simpa [RetryTrace.start] using hend
  have hlimit : (0 : BitVec 32).toNat + (b.steps - 1) + 1 = b.limit.toNat := by
    have hmax : max b.steps 1 < 2 ^ 32 := by omega
    rw [limit, BitVec.toNat_ofNat, Nat.mod_eq_of_lt hmax]
    show 0 + (b.steps - 1) + 1 = _
    omega
  refine ⟨n + 1, ⟨⟨Nat.succ_pos n, ?_⟩, ?_⟩, ?_, ?_, ?_, ?_⟩
  · exact hend.imp_right fun h => by omega
  · rintro k ⟨hk, hlast⟩
    by_contra hlt
    refine hbefore (k - 1) (by omega) (hlast.imp_right fun h => by omega)
  · rw [retryTrace_eq, hrun]
    simp
  · rw [retryTrace_eq, hrun]
    simp
  · rw [retryTrace_eq, hrun]
    simp
  · exact (countedFrom_eq hlimit hdelays).trans (congrArg some (retryTrace_eq b retryable outcome).symm)

/-- Two collisions, then an error of another kind; a success would come after it. -/
def collidesTwice (i : Nat) : Except String Nat :=
  if i < 2 then .error "conflict" else if i = 2 then .error "gone" else .ok i

/-- With the standard delays there are three attempts then, and the other error is the result. -/
theorem standard_gives_up :
    standard.steps < 2 ^ 32 ∧ standard.Computes ∧
      (retryTrace standard (· == "conflict") collidesTwice).1 = .error "gone" ∧
      (retryTrace standard (· == "conflict") collidesTwice).2.attempts = 3 ∧
      standard.countedFrom (· == "conflict") collidesTwice 0 standard.duration .start =
        some (retryTrace standard (· == "conflict") collidesTwice) := by
  have hsteps : standard.steps < 2 ^ 32 := by decide
  have hdelays : standard.Computes := by decide +kernel
  have hthree : (retryTrace standard (· == "conflict") collidesTwice).2.attempts = 3 := by decide +kernel
  obtain ⟨k, -, hresult, hattempts, -, hcounted⟩ :=
    attempts_exact standard hsteps hdelays (· == "conflict") collidesTwice
  obtain rfl : k = 3 := hattempts.symm.trans hthree
  exact ⟨hsteps, hdelays, hresult, hthree, hcounted⟩

end Backoff

end HostSubnets

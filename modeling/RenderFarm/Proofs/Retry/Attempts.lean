import RenderFarm.Retry

/-!
# RenderFarm.Proofs.Retry.Attempts

How many attempts a strategy makes, what comes of them, and how long it waits between them.

* `Settles`: an outcome after which nothing is attempted.
* `Course s attempt retryable r n`: `n` attempts were made, the last of them being the first that
  settles the matter, or the last that there may be.
* `course_run`: every run has a course.
* `Course.unique`: outcomes of attempts that are not made are of no account.
-/

namespace RenderFarm
namespace RetryStrategy

variable {ε α : Type}

/-- The operation has succeeded, or has failed for good. -/
def Settles (retryable : ε → Bool) : Except ε α → Prop
  | .ok _ => True
  | .error e => retryable e = false

variable {s : RetryStrategy} {attempt attempt' : Nat → Except ε α} {retryable : ε → Bool}
  {r r' : Attempts ε α} {n n' : Nat}

/-! ## The loop -/

/-- From the attempt numbered `first` at the time `now`, with `left` retries to spare, there are
`retries` of them. -/
structure Goes (s : RetryStrategy) (attempt : Nat → Except ε α) (retryable : ε → Bool)
    (left first now : Nat) (r : Attempts ε α) (retries : Nat) : Prop where
  spared : retries ≤ left
  again : ∀ i < retries, ¬ Settles retryable (attempt (first + i))
  last : retries = left ∨ Settles retryable (attempt (first + retries))
  result : r.result = attempt (first + retries)
  times : r.times = ((List.range' first retries).map s.delay).scanl (· + ·) now

/-- The first attempt is the last. -/
theorem Goes.stop {left first now : Nat} {o : Except ε α} (ho : attempt first = o)
    (h : left = 0 ∨ Settles retryable o) :
    Goes s attempt retryable left first now ⟨o, [now]⟩ 0 where
  spared := Nat.zero_le _
  again := nofun
  last := h.imp Eq.symm fun h => by rwa [Nat.add_zero, ho]
  result := ho.symm
  times := rfl

/-- The first attempt fails and is followed by others. -/
theorem Goes.retry {left first now k : Nat} {e : ε} (he : attempt first = .error e)
    (hretry : retryable e = true)
    (h : Goes s attempt retryable left (first + 1) (now + s.delay first) r k) :
    Goes s attempt retryable (left + 1) first now ⟨r.result, now :: r.times⟩ (k + 1) := by
  have shift (i : Nat) : first + 1 + i = first + (i + 1) := by omega
  refine ⟨Nat.succ_le_succ h.spared, fun i hi => ?_, ?_, ?_, ?_⟩
  · cases i with
    | zero =>
      rw [Nat.add_zero, he]
      exact fun hs => Bool.false_ne_true (hs.symm.trans hretry)
    | succ i =>
      rw [← shift]
      exact h.again i (Nat.lt_of_succ_lt_succ hi)
  · rw [← shift]
    exact h.last.imp_left (congrArg (· + 1))
  · rw [← shift]
    exact h.result
  · rw [List.range'_succ, List.map_cons, List.scanl_cons, ← h.times]

theorem exists_goes (s : RetryStrategy) (attempt : Nat → Except ε α) (retryable : ε → Bool)
    (left first now : Nat) :
    ∃ k, Goes s attempt retryable left first now
      (s.runFrom attempt retryable left first now) k := by
  induction left generalizing first now with
  | zero => exact ⟨0, .stop rfl (.inl rfl)⟩
  | succ left ih =>
    cases ho : attempt first with
    | ok a =>
      simp only [runFrom, ho]
      exact ⟨0, .stop ho (.inr trivial)⟩
    | error e =>
      cases hretry : retryable e with
      | false =>
        simp only [runFrom, ho, hretry, Bool.false_eq_true, if_false]
        exact ⟨0, .stop ho (.inr hretry)⟩
      | true =>
        simp only [runFrom, ho, hretry, if_true]
        obtain ⟨k, h⟩ := ih (first + 1) (now + s.delay first)
        exact ⟨k + 1, .retry ho hretry h⟩

/-! ## The whole run -/

/-- The run `r` consists of `n` attempts. None but the last settles the matter, the last does unless
no more are allowed, and its outcome is that of the run. -/
structure Course (s : RetryStrategy) (attempt : Nat → Except ε α) (retryable : ε → Bool)
    (r : Attempts ε α) (n : Nat) : Prop where
  positive : 0 < n
  allowed : n ≤ s.maxCount + 1
  again : ∀ i, i + 1 < n → ¬ Settles retryable (attempt i)
  last : n = s.maxCount + 1 ∨ Settles retryable (attempt (n - 1))
  result : r.result = attempt (n - 1)
  attempts : r.times.length = n
  /-- The first attempt is made at once, and each other one after a pause. -/
  times : r.times = ((List.range (n - 1)).map s.delay).scanl (· + ·) 0

theorem course_run (s : RetryStrategy) (attempt : Nat → Except ε α) (retryable : ε → Bool) :
    ∃ n, Course s attempt retryable (s.run attempt retryable) n := by
  obtain ⟨k, h⟩ := exists_goes s attempt retryable s.maxCount 0 0
  have again := h.again
  have last := h.last
  have result := h.result
  simp only [Nat.zero_add] at again last result
  refine ⟨k + 1, Nat.succ_pos k, Nat.succ_le_succ h.spared,
    fun i hi => again i (Nat.lt_of_succ_lt_succ hi), last.imp_left (congrArg (· + 1)), result, ?_, ?_⟩
  · rw [run, h.times, List.length_scanl, List.length_map, List.length_range']
  · rw [run, h.times, Nat.add_sub_cancel, List.range_eq_range']

/-- A course is not longer than another that sees the same outcomes. -/
theorem Course.le (h : Course s attempt retryable r n) (h' : Course s attempt' retryable r' n')
    (same : ∀ i < n', attempt' i = attempt i) : n ≤ n' := by
  refine Nat.le_of_not_lt fun hlt => ?_
  have hpos := h'.positive
  rcases h'.last with hmax | hsettles
  · exact absurd h.allowed (by omega)
  · rw [same (n' - 1) (by omega)] at hsettles
    exact h.again (n' - 1) (by omega) hsettles

/-- The outcomes of the attempts that are made decide everything. -/
theorem Course.unique (h : Course s attempt retryable r n)
    (h' : Course s attempt' retryable r' n') (same : ∀ i < n, attempt' i = attempt i) : r' = r := by
  have hle : n' ≤ n := h'.le h fun i hi => (same i hi).symm
  have heq : n' = n := Nat.le_antisymm hle (h.le h' fun i hi => same i (Nat.lt_of_lt_of_le hi hle))
  subst heq
  obtain ⟨result, times⟩ := r
  obtain ⟨result', times'⟩ := r'
  have hresult : result' = result :=
    h'.result.trans ((same _ (Nat.sub_one_lt_of_lt h.positive)).trans h.result.symm)
  have htimes : times' = times := h'.times.trans h.times.symm
  rw [hresult, htimes]

end RetryStrategy
end RenderFarm

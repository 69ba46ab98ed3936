import RenderFarm.Proofs.Retry.Attempts
import RenderFarm.Transport

/-!
# RenderFarm.Proofs.Transport

The call that gives a worker a task is made again only as long as nothing has reached the worker.

* `call_undelivered`, `settles_of_delivered`: a call fails for want of a connection exactly if the
  request was not delivered, and only such a failure is worth another attempt.
* `delivered_at_most_once`: of the attempts of a run, only the last may have delivered the request.
-/

namespace RenderFarm
namespace Transport

open RetryStrategy (Attempts Course Settles)

variable {peer method : String} {c : Contact} {contacts : Nat → Contact}

/-! ## One call -/

/-- An answer is never taken for a missing connection. -/
theorem readAnswer_error {bytes : List UInt8} {e : Failure}
    (h : readAnswer method bytes = .error e) : e.isRetryable = false := by
  unfold readAnswer at h
  split at h
  case h_1 => cases h; rfl
  case h_2 => cases h; rfl
  case h_3 => cases h; rfl
  case h_4 =>
    split at h
    · split at h
      · cases h
      · cases h; rfl
    · cases h; rfl

theorem call_undelivered (h : c.isDelivered = false) :
    ∃ text, call peer method c = .error (.connection text) := by
  cases c with
  | refused => exact ⟨_, rfl⟩
  | unreachable reason => exact ⟨_, rfl⟩
  | unanswered => exact ⟨_, rfl⟩
  | silent => cases h
  | broken reason => cases h
  | answered bytes => cases h

theorem settles_of_delivered (h : c.isDelivered = true) :
    Settles Failure.isRetryable (call peer method c) := by
  cases c with
  | refused => cases h
  | unreachable reason => cases h
  | unanswered => cases h
  | silent => rfl
  | broken reason => rfl
  | answered bytes =>
    cases hr : readAnswer method bytes with
    | ok j =>
      simp only [call, hr]
      trivial
    | error e =>
      simp only [call, hr]
      exact readAnswer_error hr

theorem undelivered_of_again (h : ¬ Settles Failure.isRetryable (call peer method c)) :
    c.isDelivered = false :=
  Bool.eq_false_iff.2 fun hd => h (settles_of_delivered hd)

/-! ## All attempts -/

/-- How many of the first `n` contacts may have delivered the request. -/
def deliveries (contacts : Nat → Contact) (n : Nat) : Nat :=
  (List.range n).countP fun i => (contacts i).isDelivered

/-- If only the last contact may have delivered the request, it is delivered once at most. -/
theorem deliveries_le_one {n : Nat} (h : ∀ i, i + 1 < n → (contacts i).isDelivered = false) :
    deliveries contacts n ≤ 1 := by
  cases n with
  | zero => exact Nat.zero_le 1
  | succ n =>
    have hnone : (List.range n).countP (fun i => (contacts i).isDelivered) = 0 := by
      refine List.countP_eq_zero.2 fun i hi => ?_
      rw [h i (Nat.succ_lt_succ (List.mem_range.1 hi))]
      exact Bool.false_ne_true
    have hlast : List.countP (fun i => (contacts i).isDelivered) [n] ≤ 1 := List.countP_le_length
    rw [deliveries, List.range_succ, List.countP_append, hnone, Nat.zero_add]
    exact hlast

/-- The course of every run of every strategy; and of the attempts at giving a worker a task, all
before the last have found no connection, so the worker gets the task at most once. -/
theorem delivered_at_most_once :
    (∀ {ε α : Type} (s : RetryStrategy) (attempt : Nat → Except ε α) (retryable : ε → Bool),
      ∃ n, Course s attempt retryable (s.run attempt retryable) n ∧
        ∀ attempt' : Nat → Except ε α, (∀ i < n, attempt' i = attempt i) →
          s.run attempt' retryable = s.run attempt retryable) ∧
    ∀ (peer : String) (s : RetryStrategy) (contacts : Nat → Contact),
      Course s (fun i => call peer Wire.runMethod (contacts i)) Failure.isRetryable
        (run peer s contacts) (run peer s contacts).times.length ∧
      (∀ i, i + 1 < (run peer s contacts).times.length →
        (∃ text, call peer Wire.runMethod (contacts i) = .error (.connection text)) ∧
          (contacts i).isDelivered = false) ∧
      deliveries contacts (run peer s contacts).times.length ≤ 1 := by
  constructor
  · intro ε α s attempt retryable
    obtain ⟨n, h⟩ := RetryStrategy.course_run s attempt retryable
    refine ⟨n, h, fun attempt' same => ?_⟩
    obtain ⟨n', h'⟩ := RetryStrategy.course_run s attempt' retryable
    exact h.unique h' same
  · intro peer s contacts
    obtain ⟨n, h⟩ := RetryStrategy.course_run s
      (fun i => call peer Wire.runMethod (contacts i)) Failure.isRetryable
    have undelivered : ∀ i, i + 1 < n → (contacts i).isDelivered = false := fun i hi =>
      undelivered_of_again (h.again i hi)
    rw [show (run peer s contacts).times.length = n from h.attempts]
    exact ⟨h, fun i hi => ⟨call_undelivered (undelivered i hi), undelivered i hi⟩,
      deliveries_le_one undelivered⟩

end Transport
end RenderFarm

import RenderFarm.Word

/-!
# RenderFarm.Retry

How often, and how far apart, an operation is attempted again after a failure that did not reach
the peer. Times are in milliseconds.

* `RetryStrategy.delay` is the pause before each retry; `RetryStrategy.delayIn` gives it in any
  unit of time.
* `RetryStrategy.run` attempts an operation until it succeeds, fails for good, or the retries are
  used up, and tells when each attempt was made.
-/

namespace RenderFarm

inductive RetryStrategy where
  | fixed (maxCount delay : Nat)
  /-- Each delay is the factor times the one before, up to a maximum. -/
  | exponentialBackoff (maxCount initialDelay maxDelay factor : Nat)
  deriving DecidableEq, Repr

namespace RetryStrategy

def maxCount : RetryStrategy → Nat
  | .fixed n _ => n
  | .exponentialBackoff n _ _ _ => n

/-- Durations end before this, in a unit of which so many make a second: their whole seconds are a
64-bit word. -/
def durationLimit (second : Nat) : Nat := Word.size * second

/-- The power, if exponent and power are words of 32 bits. -/
def power? (factor n : Nat) : Option Nat :=
  if Word.size32 ≤ n then none
  else if factor ≤ 1 then some (if n = 0 then 1 else factor)
  else if 32 ≤ n then none
  else if Nat.pow factor n < Word.size32 then some (Nat.pow factor n) else none

/-- The product, if it is a duration. -/
def times? (second duration m : Nat) : Option Nat :=
  if duration * m < durationLimit second then some (duration * m) else none

/-- The delay before the retry with the given index, counted from zero, in a unit of which so many
make a second. -/
def delayIn (second : Nat) (s : RetryStrategy) (retry : Nat) : Nat :=
  match s with
  | .fixed _ d => d
  | .exponentialBackoff _ initial max factor =>
    match (power? factor retry).bind (times? second initial) with
    | some d => min d max
    | none => max

def delay (s : RetryStrategy) (retry : Nat) : Nat := s.delayIn 1000 retry

/-- What came of an operation, and when each attempt at it was made. -/
structure Attempts (ε α : Type) where
  result : Except ε α
  times : List Nat

variable {ε α : Type}

/-- Goes on with the attempt numbered `retry` at the time `now`; `left` retries may follow. -/
def runFrom (s : RetryStrategy) (attempt : Nat → Except ε α) (retryable : ε → Bool) :
    (left retry now : Nat) → Attempts ε α
  | 0, retry, now => ⟨attempt retry, [now]⟩
  | left + 1, retry, now =>
    match attempt retry with
    | .ok a => ⟨.ok a, [now]⟩
    | .error e =>
      if retryable e then
        let rest := runFrom s attempt retryable left (retry + 1) (now + s.delay retry)
        ⟨rest.result, now :: rest.times⟩
      else ⟨.error e, [now]⟩

/-- Attempts an operation; only a retryable failure is followed by another attempt. -/
def run (s : RetryStrategy) (attempt : Nat → Except ε α) (retryable : ε → Bool) : Attempts ε α :=
  s.runFrom attempt retryable s.maxCount 0 0

end RetryStrategy
end RenderFarm

import Mathlib.Algebra.Group.Nat.Defs
import RenderFarm.Retry

/-!
# RenderFarm.Proofs.Retry.Backoff

The delays of an exponential backoff against the delays in unbounded arithmetic, which are
`min (initial * factor ^ n) limit`.

* `power?_eq`, `delayIn_eq`: what is computed, and where the limit stands in for it. A product
  that is no duration is beyond every limit, so only the power matters.
* `backoff_exact_iff`: the delay is exact as long as the power is a word of 32 bits, and after that
  only where the limit is reached anyway.
* `idle_backoff_jumps`: a delay that starts at nothing does not stay there.
-/

namespace RenderFarm
namespace RetryStrategy

/-- Exponent and power are words of 32 bits. -/
def PowerFits (factor n : Nat) : Prop := n < Word.size32 ∧ factor ^ n < Word.size32

instance (factor n : Nat) : Decidable (PowerFits factor n) := inferInstanceAs (Decidable (_ ∧ _))

/-- From the exponent 32 on, only the powers of 0 and 1 are words of 32 bits. -/
theorem size32_le_pow {factor n : Nat} (hfactor : 1 < factor) (hn : 32 ≤ n) :
    Word.size32 ≤ factor ^ n :=
  calc
    Word.size32 = 2 ^ 32 := by decide
    _ ≤ 2 ^ n := Nat.pow_le_pow_right (by decide) hn
    _ ≤ factor ^ n := Nat.pow_le_pow_left hfactor n

theorem pow_of_le_one {factor : Nat} (h : factor ≤ 1) (n : Nat) :
    factor ^ n = if n = 0 then 1 else factor := by
  cases n with
  | zero => rfl
  | succ n =>
    obtain rfl | rfl := Nat.le_one_iff_eq_zero_or_eq_one.1 h
    · exact Nat.zero_pow (Nat.succ_pos n)
    · exact Nat.one_pow _

theorem power?_eq (factor n : Nat) :
    power? factor n = if PowerFits factor n then some (factor ^ n) else none := by
  unfold power?
  by_cases hn : Word.size32 ≤ n
  · have hfits : ¬ PowerFits factor n := fun h => Nat.not_lt_of_le hn h.1
    rw [if_pos hn, if_neg hfits]
  by_cases hfactor : factor ≤ 1
  · have hpow := pow_of_le_one hfactor n
    have hfits : PowerFits factor n := by
      have hone : factor ^ n ≤ 1 := by
        rw [hpow]
        split
        · exact Nat.le_refl 1
        · exact hfactor
      exact ⟨Nat.lt_of_not_le hn, Nat.lt_of_le_of_lt hone (by decide)⟩
    rw [if_neg hn, if_pos hfactor, if_pos hfits, hpow]
  by_cases hlarge : 32 ≤ n
  · have hfits : ¬ PowerFits factor n := fun h =>
      Nat.not_lt_of_le (size32_le_pow (Nat.lt_of_not_le hfactor) hlarge) h.2
    rw [if_neg hn, if_neg hfactor, if_pos hlarge, if_neg hfits]
  · simp only [hn, hfactor, hlarge, if_false, Nat.pow_eq, PowerFits, Nat.lt_of_not_le hn, true_and]

variable {second limit : Nat}

/-- A product that is no duration is not below a limit that is one. -/
theorem min_times? (hlimit : limit < durationLimit second) (duration m : Nat) :
    (match times? second duration m with
      | some d => min d limit
      | none => limit) = min (duration * m) limit := by
  unfold times?
  by_cases h : duration * m < durationLimit second
  · simp only [if_pos h]
  · simp only [if_neg h]
    omega

theorem delayIn_eq (hlimit : limit < durationLimit second) (maxCount initial factor n : Nat) :
    (exponentialBackoff maxCount initial limit factor).delayIn second n =
      if PowerFits factor n then min (initial * factor ^ n) limit else limit := by
  by_cases h : PowerFits factor n
  · simp only [delayIn, power?_eq, h, if_true, Option.bind_some]
    exact min_times? hlimit initial (factor ^ n)
  · simp only [delayIn, power?_eq, h, if_false, Option.bind_none]

/-- What the delay is, and when it is the one of unbounded arithmetic. -/
theorem backoff_exact_iff (hlimit : limit < durationLimit second)
    (maxCount initial factor n : Nat) :
    (exponentialBackoff maxCount initial limit factor).delayIn second n =
        (if PowerFits factor n then min (initial * factor ^ n) limit else limit) ∧
      ((exponentialBackoff maxCount initial limit factor).delayIn second n =
          min (initial * factor ^ n) limit ↔
        PowerFits factor n ∨ limit ≤ initial * factor ^ n) := by
  refine ⟨delayIn_eq hlimit maxCount initial factor n, ?_⟩
  rw [delayIn_eq hlimit]
  by_cases h : PowerFits factor n
  · simp only [h, if_true, true_or]
  · simp only [h, if_false, false_or]
    omega

/-- A delay of a second that doubles, with the largest limit that there is, in nanoseconds. -/
theorem backoff_exact_sample :
    Word.size * 1000000000 - 1 < durationLimit 1000000000 ∧
      (exponentialBackoff 40 1000000000 (Word.size * 1000000000 - 1) 2).delayIn 1000000000 31 =
          2147483648 * 1000000000 ∧
        (exponentialBackoff 40 1000000000 (Word.size * 1000000000 - 1) 2).delayIn 1000000000 32 ≠
          min (1000000000 * 2 ^ 32) (Word.size * 1000000000 - 1) := by
  have hlimit : Word.size * 1000000000 - 1 < durationLimit 1000000000 := by decide
  refine ⟨hlimit, ?_, ?_⟩
  · rw [(backoff_exact_iff hlimit 40 1000000000 2 31).1]
    decide
  · rw [Ne, (backoff_exact_iff hlimit 40 1000000000 2 32).2]
    decide

/-- Nothing, doubled again and again, is nothing; but after 31 retries it becomes the limit. -/
theorem idle_backoff_jumps :
    (exponentialBackoff 40 0 5000 2).delay 31 = min (0 * 2 ^ 31) 5000 ∧
      (exponentialBackoff 40 0 5000 2).delay 32 = 5000 ∧
      (exponentialBackoff 40 0 5000 2).delay 32 ≠ min (0 * 2 ^ 32) 5000 := by
  decide

end RetryStrategy
end RenderFarm

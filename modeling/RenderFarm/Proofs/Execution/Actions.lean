import RenderFarm.Proofs.Execution.Accounts

/-!
# RenderFarm.Proofs.Execution.Actions

An execution announces its end exactly once: with the last action of the call that ends it.
-/

namespace RenderFarm
namespace Execution

def Action.ends : Action → Bool
  | .finish _ | .fail _ => true
  | _ => false

/-- The execution goes on and announces no end, or it is over and announces that last. -/
def Announces (r : Execution × List Action) : Prop :=
  (r.1.isTerminal = false ∧ ∀ a ∈ r.2, a.ends = false) ∨
  (r.1.isTerminal = true ∧
    ∃ front last, r.2 = front ++ [last] ∧ last.ends = true ∧ ∀ a ∈ front, a.ends = false)

theorem ends_adaptTimeout {e : Execution} {elapsed : Nat} {a : Action}
    (ha : a ∈ (e.adaptTimeout elapsed).2) : a.ends = false := by
  unfold adaptTimeout at ha
  split at ha
  · cases ha
  · cases List.mem_singleton.1 ha
    rfl

theorem Step.ends {e : Execution} {call : Call} {lost missed : Nat} {ended : List TaskName}
    {change : Execution × List Action} {ctx : Context}
    (hstep : Step e call lost missed ended change (some ctx)) {a : Action} (ha : a ∈ change.2) :
    a.ends = false := by
  cases hstep with
  | produced => exact ends_adaptTimeout ha
  | retried =>
    cases List.mem_singleton.1 ha
    rfl
  | _ => cases ha

theorem Step.announces {e : Execution} {call : Call} {lost missed : Nat} {ended : List TaskName}
    {change : Execution × List Action} (hstep : Step e call lost missed ended change none)
    (ht : e.isTerminal = false) : Announces change := by
  cases hstep with
  | ignored => exact .inl ⟨ht, by simp⟩
  | completed | finalAbandoned => exact .inr ⟨rfl, [], _, rfl, rfl, by simp⟩
  | finalRetried => exact .inl ⟨ht, by simp [Action.ends]⟩

theorem announces_advance {e : Execution} (ht : e.isTerminal = false) (ctx : Context) :
    Announces (e.advance ctx) := by
  rcases advance_cases ht ctx with ⟨reason, ha⟩ | ⟨_, ts, e', ha, hi, _⟩
  · rw [ha]
    exact .inr ⟨rfl, [], _, rfl, rfl, by simp⟩
  · rw [ha]
    exact .inl ⟨hi.isTerminal ht, by simp [Action.ends]⟩

theorem announces_respond {e : Execution} (ht : e.isTerminal = false) (call : Call) :
    Announces (e.respond call) := by
  obtain ⟨change, next, hstep, heq⟩ := respond_step e call
  rw [heq]
  cases next with
  | none => exact hstep.announces ht
  | some ctx =>
    have hfront : ∀ a ∈ change.2, a.ends = false := fun a => hstep.ends
    rcases announces_advance hstep.running ctx with ⟨hrun, hall⟩ | ⟨hover, front, last, hend⟩
    · refine .inl ⟨hrun, fun a ha => ?_⟩
      rcases List.mem_append.1 ha with ha | ha
      · exact hfront a ha
      · exact hall a ha
    · refine .inr ⟨hover, change.2 ++ front, last, ?_, hend.2.1, fun a ha => ?_⟩
      · simp [proceed, andAdvance, hend.1]
      · rcases List.mem_append.1 ha with ha | ha
        · exact hfront a ha
        · exact hend.2.2 a ha

end Execution
end RenderFarm

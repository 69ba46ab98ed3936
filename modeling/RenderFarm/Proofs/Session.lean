import RenderFarm.Proofs.OrderedMap
import RenderFarm.Session

/-!
# RenderFarm.Proofs.Session

When a request on a session is served, and what the sessions are then.
-/

namespace RenderFarm
namespace Sessions

variable {ss ss' : Sessions} {name : SessionName} {owner : Option String} {s : Session}
  {r : ExecutionRequest} {x : ExecutionName}

theorem authorize_eq_ok : ss.authorize name owner = .ok s ↔
    ss.find? name = some s ∧ s.admits owner = true := by
  unfold authorize
  cases ss.find? name with
  | none => simp
  | some t =>
    by_cases ht : t.admits owner = true
    · simp only [ht, if_true, Except.ok.injEq, Option.some.injEq]
      exact ⟨fun h => ⟨h, h ▸ ht⟩, And.left⟩
    · simp only [ht, Bool.false_eq_true, if_false, reduceCtorEq, Option.some.injEq, false_iff,
        not_and]
      exact fun h => h ▸ ht

theorem delete_eq_ok : ss.delete name owner = .ok (s, ss') ↔
    ss.find? name = some s ∧ s.admits owner = true ∧ s.running = none ∧ ss' = ss.erase name := by
  rw [← and_assoc, ← authorize_eq_ok]
  unfold delete
  cases ss.authorize name owner with
  | error f => simp
  | ok t =>
    cases ht : t.running with
    | none =>
      simp only [ht, Except.ok.injEq, Prod.mk.injEq]
      constructor
      · rintro ⟨rfl, rfl⟩
        exact ⟨rfl, ht, rfl⟩
      · rintro ⟨rfl, _, rfl⟩
        exact ⟨rfl, rfl⟩
    | some e =>
      simp only [ht, reduceCtorEq, Except.ok.injEq, false_iff, not_and]
      rintro rfl hrun
      simp [ht] at hrun

theorem beginExecution_eq_ok : ss.beginExecution r x = .ok (s, ss') ↔
    ∃ t, ss.find? r.session = some t ∧ t.admits r.owner = true ∧ t.running = none ∧
      r.parallel ≠ 0 ∧ s = t.begin r x ∧ ss' = ss.insert r.session s := by
  simp only [← and_assoc, ← authorize_eq_ok]
  unfold beginExecution
  cases ss.authorize r.session r.owner with
  | error f => simp
  | ok t =>
    cases ht : t.running with
    | none =>
      by_cases hp : r.parallel = 0
      · simp [ht, hp]
      · simp only [ht, hp, if_false, Except.ok.injEq, Prod.mk.injEq]
        constructor
        · rintro ⟨rfl, rfl⟩
          exact ⟨t, ⟨⟨⟨rfl, ht⟩, hp⟩, rfl⟩, rfl⟩
        · rintro ⟨t', ⟨⟨⟨rfl, _⟩, _⟩, rfl⟩, rfl⟩
          exact ⟨rfl, rfl⟩
    | some e => simp [ht]

theorem keys_endExecution (ss : Sessions) (name : SessionName) (x : ExecutionName) :
    (ss.endExecution name x).keys = ss.keys := by
  unfold endExecution
  split
  · rfl
  · rename_i s hs
    split
    · exact OrderedMap.keys_insert_of_mem _ (OrderedMap.mem_keys_iff.2 ⟨s, hs⟩)
    · rfl

theorem find?_endExecution (ss : Sessions) (name : SessionName) (x : ExecutionName)
    (n : SessionName) :
    (ss.endExecution name x).find? n = (ss.find? n).map fun s =>
      if n = name ∧ s.running = some x then { s with running := none } else s := by
  unfold endExecution
  cases hs : ss.find? name with
  | none =>
    by_cases hn : n = name
    · simp [hn, hs]
    · simp [hn]
  | some s =>
    by_cases hr : s.running = some x
    · simp only [hr, if_true, OrderedMap.find?_insert]
      by_cases hn : n = name
      · simp [hn, hs, hr]
      · simp [hn, Ne.symm hn]
    · simp only [hr, if_false]
      by_cases hn : n = name
      · simp [hn, hs, hr]
      · simp [hn]

end Sessions
end RenderFarm

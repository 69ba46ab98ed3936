import RenderFarm.Proofs.Fleet.Holders
import RenderFarm.Proofs.Fleet.Reconciliation

/-!
# RenderFarm.Proofs.Fleet.Reports

Whether a worker is in the list of a session is the latest that the fleet has heard of it.

* `heard f w s op`: what an operation says of the worker and the session, if it says anything.
* `words patience w s past`: all that was heard since the session was last newly tracked.
* `holds_perform`: an operation that says something settles who is in the list, and the others leave
  it as it is. Nobody is in a list twice, so to be struck off once is to be out.
* `Undisturbed w f f'`: the other holders stay, and keep their order.
* `latest_word_counts`: all of it, in every run.
-/

namespace RenderFarm
namespace Fleet

/-- What is said about a worker and a session. -/
inductive Hearsay where
  | holds
  | lacks
  deriving DecidableEq, Repr

/-- A worker reports the complete list of the sessions whose resources it holds. -/
def Hearsay.ofReport (s : SessionName) (ss : List SessionName) : Hearsay :=
  if s ∈ ss then .holds else .lacks

/-- What the operation says of the worker and the session. A pong says something if it is accepted,
a round if it strikes the worker off. -/
def heard (f : Fleet) (w : WorkerName) (s : SessionName) : Operation → Option Hearsay
  | .pong v ss =>
    if v = w ∧ (f.pong v ss).2 ≠ .ignored then some (.ofReport s ss) else none
  | .updateCaches v ss => if v = w then some (.ofReport s ss) else none
  | .markCached v s' => if v = w ∧ s' = s then some .holds else none
  | .reconcile ws => if struck f ws w then some .lacks else none
  | .evict _ | .track _ | .untrack _ | .takeCached _ => none

/-- What was heard of the worker and the session since the session was last newly tracked, the
earliest first. -/
def words (patience : Nat) (w : WorkerName) (s : SessionName) : List Operation → List Hearsay
  | [] => []
  | .track s' :: past =>
    if s' = s ∧ s ∉ (after patience past).caches.keys then [] else words patience w s past
  | op :: past => words patience w s past ++ (heard (after patience past) w s op).toList

variable {f : Fleet} {v w : WorkerName} {s s' : SessionName} {ss : List SessionName}
  {op : Operation} {patience : Nat} {past : List Operation}

/-! ## Reports -/

theorem Hearsay.ofReport_eq : Hearsay.ofReport s ss = .holds ↔ s ∈ ss := by
  unfold ofReport
  split <;> simp [*]

/-- An ignored pong changes nothing, and an accepted one is a report. -/
theorem pong_cases (f : Fleet) (v : WorkerName) (ss : List SessionName) :
    (f.pong v ss).2 = .ignored ∧ (f.pong v ss).1 = f ∨
    (f.pong v ss).2 ≠ .ignored ∧
      ∃ members, (f.pong v ss).1 = ({ f with members } : Fleet).updateCaches v ss := by
  unfold pong
  split
  · exact .inl ⟨rfl, rfl⟩
  · rename_i m hm
    split
    · exact .inl ⟨rfl, rfl⟩
    · rename_i n hn
      refine .inr ⟨?_, _, rfl⟩
      cases m.registered <;> simp

theorem pong_accepted : (f.pong v ss).2 ≠ .ignored ↔
    ∃ m, f.members.find? v = some m ∧ m.liveness ≠ .condemned := by
  unfold pong
  cases hm : f.members.find? v with
  | none => simp
  | some m =>
    cases hl : m.liveness with
    | condemned => simp [hl]
    | waiting n => cases hr : m.registered <;> simp [hl, hr]

theorem holds_report (hd : Distinct f) (hs : s ∈ f.caches.keys) :
    Holds (f.updateCaches v ss) w s ↔ if v = w then s ∈ ss else Holds f w s := by
  obtain ⟨holders, hs⟩ := OrderedMap.mem_keys_iff.1 hs
  simp only [Holds, find?_updateCaches, hs, Option.map_some, Option.some.injEq, exists_eq_left']
  by_cases hmem : s ∈ ss
  · simp only [hmem, if_true, mem_addHolder]
    by_cases hv : v = w
    · simp [hv]
    · simp [hv, Ne.symm hv]
  · simp only [hmem, if_false, (hd s holders hs).mem_erase_iff]
    by_cases hv : v = w
    · simp [hv]
    · simp [hv, Ne.symm hv]

/-- The other holders stay where they are, and in their order. -/
def Undisturbed (w : WorkerName) (f f' : Fleet) : Prop :=
  ∀ s, (f'.caches.find? s).map (fun holders => holders.filter fun v => v ≠ w) =
    (f.caches.find? s).map fun holders => holders.filter fun v => v ≠ w

theorem filter_addHolder (w : WorkerName) (holders : List WorkerName) :
    (addHolder w holders).filter (fun v => v ≠ w) = holders.filter fun v => v ≠ w := by
  unfold addHolder
  split
  · rfl
  · simp [List.filter_append]

theorem undisturbed_report (hd : Distinct f) (w : WorkerName) (ss : List SessionName) :
    Undisturbed w f (f.updateCaches w ss) := by
  intro s
  rw [find?_updateCaches]
  cases hs : f.caches.find? s with
  | none => rfl
  | some holders =>
    simp only [Option.map_some, Option.some.injEq]
    split
    · exact filter_addHolder w holders
    · rw [(hd s holders hs).erase_eq_filter, List.filter_filter]
      refine List.filter_congr fun v _ => ?_
      simp

theorem undisturbed_pong (hd : Distinct f) (w : WorkerName) (ss : List SessionName) :
    Undisturbed w f (f.pong w ss).1 := by
  rcases pong_cases f w ss with ⟨_, heq⟩ | ⟨_, members, heq⟩
  · rw [heq]
    exact fun _ => rfl
  · rw [heq]
    have hd' : Distinct ({ f with members } : Fleet) := hd.congr rfl
    exact undisturbed_report hd' w ss

/-! ## One operation -/

theorem holds_struck (f : Fleet) (ws : List Worker) (w : WorkerName) (s : SessionName) :
    Holds (f.reconcile ws).1 w s ↔ Holds f w s ∧ ¬ struck f ws w := by
  simp only [Holds, caches_reconcile, OrderedMap.find?_mapValues, Option.map_eq_some_iff]
  constructor
  · rintro ⟨_, ⟨holders, hs, rfl⟩, hw⟩
    rw [List.mem_filter, decide_eq_true_eq] at hw
    exact ⟨⟨holders, hs, hw.1⟩, hw.2⟩
  · rintro ⟨⟨holders, hs, hw⟩, hspared⟩
    exact ⟨_, ⟨holders, hs, rfl⟩, List.mem_filter.2 ⟨hw, decide_eq_true hspared⟩⟩

theorem holds_noted (hs : s ∈ f.caches.keys) :
    Holds (f.markCached v s') w s ↔ v = w ∧ s' = s ∨ Holds f w s := by
  constructor
  · exact fun h => (holds_markCached h).symm
  · rintro (⟨rfl, rfl⟩ | h)
    · obtain ⟨holders, hs⟩ := OrderedMap.mem_keys_iff.1 hs
      refine ⟨addHolder v holders, ?_, (mem_addHolder v holders).2 (.inl rfl)⟩
      rw [markCached, hs, OrderedMap.find?_insert, if_pos rfl]
    · exact h.markCached

/-- A session that is tracked already is not tracked anew. -/
theorem holds_tracked (hs : s ∈ f.caches.keys) : Holds (f.track s') w s ↔ Holds f w s := by
  refine ⟨holds_track, ?_⟩
  rintro ⟨holders, hfind, hw⟩
  refine ⟨holders, ?_, hw⟩
  simp only [track, OrderedMap.insertNew]
  split
  · exact hfind
  · rename_i hnew
    have hne : ¬ s' = s := by
      rintro rfl
      exact hnew (OrderedMap.contains_iff.2 hs)
    rw [OrderedMap.find?_insert, if_neg hne]
    exact hfind

theorem holds_untracked (hne : s' ≠ s) : Holds (f.untrack s').1 w s ↔ Holds f w s := by
  simp only [Holds, untrack, OrderedMap.find?_erase, if_neg hne]

/-- The operation settles who is in the list if it says anything, and otherwise nothing changes. -/
theorem holds_perform (hd : Distinct f) (hs : s ∈ f.caches.keys)
    (hs' : s ∈ (f.perform op).caches.keys) (w : WorkerName) :
    Holds (f.perform op) w s ↔
      match heard f w s op with
      | some word => word = .holds
      | none => Holds f w s := by
  cases op with
  | reconcile ws =>
    simp only [perform, heard, holds_struck]
    by_cases hw : struck f ws w <;> simp [hw]
  | pong v ss =>
    simp only [perform, heard]
    rcases pong_cases f v ss with ⟨hout, heq⟩ | ⟨hout, members, heq⟩
    · simp [heq, hout]
    · have hd' : Distinct ({ f with members } : Fleet) := hd.congr rfl
      rw [heq, holds_report hd' hs]
      by_cases hv : v = w
      · simp [hv, hv ▸ hout, Hearsay.ofReport_eq]
      · simp only [hv, false_and, if_false]
        exact .rfl
  | evict v => simp only [perform, heard, Holds, caches_evict]
  | track s' => exact holds_tracked hs
  | untrack s' => exact holds_untracked fun heq => (OrderedMap.mem_keys_erase.1 hs').1 heq.symm
  | updateCaches v ss =>
    simp only [perform, heard, holds_report hd hs]
    by_cases hv : v = w <;> simp [hv, Hearsay.ofReport_eq]
  | markCached v s' =>
    simp only [perform, heard, holds_noted hs]
    by_cases hv : v = w ∧ s' = s
    · simp [hv]
    · simp only [hv, false_or, if_false]
  | takeCached s' => exact holds_takeCached

/-! ## Any operations -/

theorem after_distinct (patience : Nat) (past : List Operation) :
    Distinct (after patience past) := by
  induction past with
  | nil =>
    intro s holders hs
    cases hs
  | cons op past ih => exact distinct_perform ih op

/-- Nobody is in the list of a session that is tracked from now on. -/
theorem holds_new (hs : s ∉ f.caches.keys) : ¬ Holds (f.track s) w s := by
  intro h
  obtain ⟨holders, hfind, _⟩ := holds_track h
  exact hs (OrderedMap.mem_keys_iff.2 ⟨holders, hfind⟩)

theorem words_track : words patience w s (.track s' :: past) =
    if s' = s ∧ s ∉ (after patience past).caches.keys then [] else words patience w s past := rfl

theorem words_cons (h : ∀ s, op ≠ .track s) : words patience w s (op :: past) =
    words patience w s past ++ (heard (after patience past) w s op).toList := by
  cases op with
  | track s' => exact absurd rfl (h s')
  | _ => rfl

theorem holds_iff_latest (hs : s ∈ (after patience past).caches.keys) (w : WorkerName) :
    Holds (after patience past) w s ↔ (words patience w s past).getLast? = some .holds := by
  induction past with
  | nil => cases hs
  | cons op past ih =>
    have hd := after_distinct patience past
    by_cases hold : s ∈ (after patience past).caches.keys
    · have hstep := holds_perform hd hold hs w
      rw [after, hstep]
      cases op with
      | track s' =>
        rw [words_track, if_neg fun hnew => hnew.2 hold]
        exact ih hold
      | _ =>
        rw [words_cons (by simp)]
        generalize heard _ w s _ = word
        cases word with
        | none => simpa using ih hold
        | some word => simp
    · -- the session is tracked from this operation on
      obtain rfl : op = .track s := (tracked_perform hs).resolve_left hold
      rw [words_track, if_pos ⟨rfl, hold⟩]
      refine iff_of_false (holds_new hold) ?_
      simp

/-- The lists of holders say the latest that was heard. -/
structure UpToDate (patience : Nat) (past : List Operation) : Prop where
  once : ∀ s holders, (after patience past).caches.find? s = some holders → holders.Nodup
  latest : ∀ s ∈ (after patience past).caches.keys, ∀ w,
    Holds (after patience past) w s ↔ (words patience w s past).getLast? = some .holds
  /-- What a worker reports of itself is nothing to the others. -/
  others : ∀ w ss, Undisturbed w (after patience past) ((after patience past).pong w ss).1 ∧
    Undisturbed w (after patience past) ((after patience past).updateCaches w ss)
  /-- The pong of a known worker is accepted, unless the worker is condemned. -/
  accepted : ∀ w ss, ((after patience past).pong w ss).2 ≠ .ignored ↔
    ∃ m, (after patience past).members.find? w = some m ∧ m.liveness ≠ .condemned
  ignored : ∀ w ss, ((after patience past).pong w ss).2 = .ignored →
    ((after patience past).pong w ss).1 = after patience past

/-- After any operations, a worker is in the list of a tracked session, and once, if the latest that
was heard of the two is that it holds the resources. Nothing was heard before the session was
tracked, and a worker that is struck off lacks them. -/
theorem latest_word_counts (patience : Nat) (past : List Operation) : UpToDate patience past where
  once := after_distinct patience past
  latest _ hs w := holds_iff_latest hs w
  others w ss :=
    ⟨undisturbed_pong (after_distinct patience past) w ss,
      undisturbed_report (after_distinct patience past) w ss⟩
  accepted _ _ := pong_accepted
  ignored w ss hignored := by
    rcases pong_cases (after patience past) w ss with ⟨_, heq⟩ | ⟨hout, _⟩
    · exact heq
    · exact absurd hignored hout

/-- A worker fetches, is struck off, is not believed, and is noted again. -/
example :
    let w (name : String) : Worker := ⟨⟨name⟩, "h", 1, 2⟩
    let past : List Operation := [.markCached ⟨"a"⟩ ⟨"s"⟩, .pong ⟨"a"⟩ [⟨"s"⟩], .reconcile [w "b"],
      .pong ⟨"b"⟩ [⟨"s"⟩], .pong ⟨"a"⟩ [⟨"s"⟩], .reconcile [w "a", w "b"], .track ⟨"s"⟩,
      .markCached ⟨"c"⟩ ⟨"s"⟩]
    words 1 ⟨"a"⟩ ⟨"s"⟩ past = [.holds, .lacks, .holds] ∧
    words 1 ⟨"c"⟩ ⟨"s"⟩ past = [] ∧
    (after 1 past).caches.entries = [(⟨"s"⟩, [⟨"b"⟩, ⟨"a"⟩])] := by
  decide +kernel

end Fleet
end RenderFarm

import Mathlib.Data.Int.Order.Basic
import Mathlib.Order.Bounds.Image
import RenderFarm.Proofs.Fleet.Rounds

/-!
# RenderFarm.Proofs.Fleet.Condemnation

When a worker is condemned, and what becomes of it then.

* `Operation`, `after`: the runs of a fleet.
* `beats patience w past`: the pings to the worker and the pongs from it since it has become known.
* `surpluses h`: by how much the pings outnumber the pongs at the end of the history, counted from
  anywhere on. The greatest of them is the number of pings that count as unanswered.
* `Condemned`, `Outcast`: a worker that is condemned stays out until it is no longer listed.
* `condemned_by_history`: what the pings and pongs of a worker come to, in every run.
-/

namespace RenderFarm
namespace Fleet

/-! ## Runs -/

inductive Operation where
  | reconcile (ws : List Worker)
  | pong (v : WorkerName) (ss : List SessionName)
  | evict (v : WorkerName)
  | track (s : SessionName)
  | untrack (s : SessionName)
  | updateCaches (v : WorkerName) (ss : List SessionName)
  | markCached (v : WorkerName) (s : SessionName)
  | takeCached (s : SessionName)

def perform (f : Fleet) : Operation → Fleet
  | .reconcile ws => (f.reconcile ws).1
  | .pong v ss => (f.pong v ss).1
  | .evict v => (f.evict v).1
  | .track s => f.track s
  | .untrack s => (f.untrack s).1
  | .updateCaches v ss => f.updateCaches v ss
  | .markCached v s => f.markCached v s
  | .takeCached s => (f.takeCached s).2

/-- The fleet after the operations; the latest operation comes first. -/
def after (patience : Nat) : List Operation → Fleet
  | [] => new patience
  | op :: past => (after patience past).perform op

def Operation.lists (w : WorkerName) : Operation → Prop
  | .reconcile ws => w ∈ ws.map Worker.name
  | _ => False

def Operation.delists (w : WorkerName) : Operation → Prop
  | .reconcile ws => w ∉ ws.map Worker.name
  | _ => False

/-! ## Histories -/

inductive Beat where
  | ping
  | pong
  deriving DecidableEq, Repr

/-- What has gone between the fleet and the worker since it has last become known, the earliest
first. A round that does not list the worker forgets it. -/
def beats (patience : Nat) (w : WorkerName) : List Operation → List Beat
  | [] => []
  | .reconcile ws :: past =>
    if w ∈ ws.map Worker.name then
      if w ∈ ((after patience past).reconcile ws).2.pings.map Worker.name then
        beats patience w past ++ [.ping]
      else beats patience w past
    else []
  | .pong v _ :: past =>
    if v = w ∧ (after patience past).members.contains w = true then
      beats patience w past ++ [.pong]
    else beats patience w past
  | _ :: past => beats patience w past

def Beat.value : Beat → Int
  | .ping => 1
  | .pong => -1

/-- The pings less the pongs. -/
def surplus (h : List Beat) : Int := (h.count .ping : Int) - h.count .pong

def surpluses (h : List Beat) : Set Int := {k | ∃ s, s <:+ h ∧ surplus s = k}

theorem surplus_concat (h : List Beat) (b : Beat) : surplus (h ++ [b]) = surplus h + b.value := by
  cases b with
  | ping =>
    simp only [surplus, List.count_append, List.count_singleton, Beat.value]
    simp
    omega
  | pong =>
    simp only [surplus, List.count_append, List.count_singleton, Beat.value]
    simp
    omega

/-- To count from after the last beat is to count nothing. -/
theorem surpluses_concat (h : List Beat) (b : Beat) :
    surpluses (h ++ [b]) = insert 0 ((· + b.value) '' surpluses h) := by
  ext k
  simp only [surpluses, Set.mem_insert_iff, Set.mem_image, Set.mem_ofPred_eq]
  constructor
  · rintro ⟨s, hs, rfl⟩
    rcases List.suffix_concat_iff.1 hs with rfl | ⟨t, rfl, ht⟩
    · exact .inl rfl
    · exact .inr ⟨surplus t, ⟨t, ht, rfl⟩, (surplus_concat t b).symm⟩
  · rintro (rfl | ⟨_, ⟨t, ht, rfl⟩, rfl⟩)
    · exact ⟨[], List.nil_suffix, rfl⟩
    · exact ⟨t ++ [b], List.suffix_concat_iff.2 (.inr ⟨t, rfl, ht⟩), surplus_concat t b⟩

theorem greatest_nil : IsGreatest (surpluses []) 0 := by
  refine ⟨⟨[], List.suffix_rfl, rfl⟩, ?_⟩
  rintro k ⟨s, hs, rfl⟩
  rw [List.suffix_nil.1 hs]
  exact le_rfl

theorem greatest_concat {h : List Beat} {n : Int} (hn : IsGreatest (surpluses h) n) (b : Beat) :
    IsGreatest (surpluses (h ++ [b])) (max 0 (n + b.value)) := by
  have hmono : Monotone fun k : Int => k + b.value := by
    intro i j hij
    simpa using hij
  rw [surpluses_concat]
  exact (hmono.map_isGreatest hn).insert 0

/-! ## One operation -/

variable {f : Fleet} {patience : Nat} {past : List Operation} {v w : WorkerName} {x : Worker}
  {ws : List Worker} {m : Member} {n : Nat}

theorem find?_pong (f : Fleet) (v w : WorkerName) (ss : List SessionName) :
    (f.pong v ss).1.members.find? w = (f.members.find? w).map fun m =>
      match m.liveness with
      | .waiting n => if v = w then { m with liveness := .waiting (n - 1), registered := true } else m
      | .condemned => m := by
  have hsame : ∀ o : Option Member, o = o.map fun m =>
      match m.liveness with
      | .waiting _ | .condemned => m := by
    intro o
    cases o with
    | none => rfl
    | some m => cases h : m.liveness <;> simp [h]
  unfold pong
  cases hv : f.members.find? v with
  | none =>
    by_cases hvw : v = w
    · subst hvw
      simp [hv]
    · simpa [hvw] using hsame (f.members.find? w)
  | some m =>
    cases hm : m.liveness with
    | condemned =>
      by_cases hvw : v = w
      · subst hvw
        simp [hv, hm]
      · simpa [hvw, hm] using hsame (f.members.find? w)
    | waiting n =>
      simp only [hm, members_updateCaches, OrderedMap.find?_insert]
      by_cases hvw : v = w
      · subst hvw
        simp [hv, hm]
      · simpa [hvw] using hsame (f.members.find? w)

theorem find?_evict (f : Fleet) (v w : WorkerName) :
    ((f.evict v).1.members.find? w).map Member.liveness =
      (f.members.find? w).map Member.liveness := by
  unfold evict
  cases hv : f.members.find? v with
  | none => rfl
  | some m =>
    by_cases hr : m.registered = true
    · simp only [hr, if_true, OrderedMap.find?_insert]
      by_cases hvw : v = w
      · subst hvw
        simp [hv]
      · simp [hvw]
    · simp [hr]

theorem patience_perform (f : Fleet) (op : Operation) : (f.perform op).patience = f.patience := by
  cases op with
  | reconcile ws => rfl
  | pong v ss =>
    simp only [perform, pong]
    split
    · rfl
    · split <;> rfl
  | evict v =>
    simp only [perform, evict]
    split
    · rfl
    · split <;> rfl
  | track s => rfl
  | untrack s => rfl
  | updateCaches v ss => rfl
  | markCached v s =>
    simp only [perform, markCached]
    split <;> rfl
  | takeCached s =>
    simp only [perform, takeCached]
    split
    · rfl
    · split <;> rfl

theorem orderly_perform (h : Orderly f.members) (op : Operation) :
    Orderly (f.perform op).members := by
  cases op with
  | reconcile ws => exact orderly_reconcile h ws
  | pong v ss => exact orderly_pong h v ss
  | evict v => exact orderly_evict h v
  | track s => exact h
  | untrack s => exact h
  | updateCaches v ss => simpa [perform] using h
  | markCached v s => simpa [perform] using h
  | takeCached s => simpa [perform] using h

/-- A round that does not list the worker is the only one that forgets a liveness. -/
theorem liveness_perform {op : Operation} (hl : ¬ op.lists w) (hd : ¬ op.delists w)
    (hp : ∀ ss, op ≠ .pong w ss) :
    ((f.perform op).members.find? w).map Member.liveness =
      (f.members.find? w).map Member.liveness := by
  cases op with
  | reconcile ws => exact absurd hl hd
  | pong v ss =>
    have hvw : v ≠ w := by
      rintro rfl
      exact hp ss rfl
    simp only [perform, find?_pong, if_neg hvw]
    cases f.members.find? w with
    | none => rfl
    | some m => cases h : m.liveness <;> simp [h]
  | evict v => exact find?_evict f v w
  | track s => rfl
  | untrack s => rfl
  | updateCaches v ss => simp [perform]
  | markCached v s => simp [perform]
  | takeCached s => simp [perform]

/-! ## The counter -/

/-- What is known of the worker agrees with its history. -/
def Tallied (patience : Nat) (h : List Beat) : Option Liveness → Prop
  | none => h = []
  | some (.waiting n) => IsGreatest (surpluses h) (n : Int) ∧ n ≤ patience
  | some .condemned => True

theorem tallied_seen {h : List Beat}
    (ht : Tallied patience h ((f.members.find? x.name).map Member.liveness)) :
    Tallied patience h (some (seen f.members x).liveness) := by
  unfold seen
  cases hm : f.members.find? x.name with
  | none =>
    rw [hm] at ht
    obtain rfl : h = [] := ht
    exact ⟨greatest_nil, Nat.zero_le _⟩
  | some m =>
    rw [hm] at ht
    exact ht

theorem patience_after (patience : Nat) (past : List Operation) :
    (after patience past).patience = patience := by
  induction past with
  | nil => rfl
  | cons op past ih => rw [after, patience_perform, ih]

theorem orderly_after (patience : Nat) (past : List Operation) :
    Orderly (after patience past).members := by
  induction past with
  | nil =>
    intro v m hv
    cases hv
  | cons op past ih => exact orderly_perform ih op

/-- The threshold is tested before the ping is sent, so that the counter stops at the patience. -/
theorem tallied_reconcile
    (ih : Tallied patience (beats patience w past)
      (((after patience past).members.find? w).map Member.liveness)) :
    Tallied patience (beats patience w (.reconcile ws :: past))
      (((after patience (.reconcile ws :: past)).members.find? w).map Member.liveness) := by
  simp only [after, perform, find?_reconcile, patience_after, beats]
  by_cases hw : w ∈ ws.map Worker.name
  · obtain ⟨x, hx⟩ := listing_of_mem hw
    obtain rfl := (listing_eq_some hx).2
    have hseen := tallied_seen ih
    have hpinged : x.name ∈ ((after patience past).reconcile ws).2.pings.map Worker.name ↔
        (seen (after patience past).members x).pingable patience = true := by
      simp only [mem_pings, hx, patience_after, Option.some.injEq, exists_eq_left']
    simp only [hx, if_pos hw, hpinged, Option.map_some, visit, Member.pingable]
    cases hl : (seen (after patience past).members x).liveness with
    | condemned => simp [hl, Tallied]
    | waiting n =>
      rw [hl] at hseen
      obtain ⟨hgreatest, hle⟩ := hseen
      by_cases hn : patience ≤ n
      · simp [hn, Tallied]
      · have hlt : n < patience := by omega
        have hmax : max 0 ((n : Int) + Beat.ping.value) = ((n + 1 : Nat) : Int) := by
          simp only [Beat.value]
          omega
        simp only [if_neg hn, hlt, decide_true, if_true, Tallied]
        exact ⟨hmax ▸ greatest_concat hgreatest .ping, hlt⟩
  · rw [listing_eq_none.2 hw, if_neg hw]
    rfl

theorem tallied_pong {ss : List SessionName}
    (ih : Tallied patience (beats patience w past)
      (((after patience past).members.find? w).map Member.liveness)) :
    Tallied patience (beats patience w (.pong w ss :: past))
      (((after patience (.pong w ss :: past)).members.find? w).map Member.liveness) := by
  simp only [after, perform, find?_pong]
  cases hm : (after patience past).members.find? w with
  | none =>
    have hunknown : ¬ (after patience past).members.contains w = true := by
      rw [OrderedMap.contains_iff, OrderedMap.mem_keys_iff, hm]
      rintro ⟨m, hm⟩
      cases hm
    rw [beats, if_neg fun h => hunknown h.2]
    rw [hm] at ih
    exact ih
  | some m =>
    have hknown : (after patience past).members.contains w = true := by
      rw [OrderedMap.contains_iff, OrderedMap.mem_keys_iff]
      exact ⟨m, hm⟩
    rw [beats, if_pos ⟨rfl, hknown⟩]
    rw [hm] at ih
    cases hl : m.liveness with
    | condemned => simp [hl, Tallied]
    | waiting n =>
      rw [Option.map_some, hl] at ih
      obtain ⟨hgreatest, hle⟩ := ih
      -- the counter floors at zero, as the greatest surplus does
      have hmax : max 0 ((n : Int) + Beat.pong.value) = ((n - 1 : Nat) : Int) := by
        simp only [Beat.value]
        omega
      simp only [if_true, Option.map_some, hl, Tallied]
      exact ⟨hmax ▸ greatest_concat hgreatest .pong, by omega⟩

theorem tallied_after (patience : Nat) (past : List Operation) (w : WorkerName) :
    Tallied patience (beats patience w past)
      (((after patience past).members.find? w).map Member.liveness) := by
  induction past with
  | nil => rfl
  | cons op past ih =>
    -- what is neither a round nor a pong leaves the liveness and the history
    have hkeeps : ∀ op : Operation, ¬ op.lists w → ¬ op.delists w → (∀ ss, op ≠ .pong w ss) →
        Tallied patience (beats patience w past)
          (((after patience (op :: past)).members.find? w).map Member.liveness) := by
      intro op hl hd hp
      rw [after, liveness_perform hl hd hp]
      exact ih
    cases op with
    | reconcile ws => exact tallied_reconcile ih
    | pong v ss =>
      by_cases hvw : v = w
      · subst hvw
        exact tallied_pong ih
      · have hpong : ∀ ss', Operation.pong v ss ≠ .pong w ss' := by
          intro ss' heq
          cases heq
          exact hvw rfl
        simp only [beats, hvw, false_and, if_false]
        exact hkeeps _ id id hpong
    | evict | track | untrack | updateCaches | markCached | takeCached =>
      exact hkeeps _ id id (by simp)

/-! ## The condemned -/

def Condemned (f : Fleet) (w : WorkerName) : Prop :=
  (f.members.find? w).map Member.liveness = some .condemned

instance (f : Fleet) (w : WorkerName) : Decidable (Condemned f w) :=
  inferInstanceAs (Decidable ((f.members.find? w).map Member.liveness = some .condemned))

theorem Condemned.seen (h : Condemned f x.name) :
    f.members.find? x.name = some (seen f.members x) ∧
      (seen f.members x).liveness = .condemned := by
  obtain ⟨m, hm, hl⟩ := Option.map_eq_some_iff.1 h
  have hseen : Fleet.seen f.members x = m := by
    rw [Fleet.seen, hm, Option.getD_some]
  exact ⟨hseen ▸ hm, hseen ▸ hl⟩

theorem waiting_seen (h : ¬ Condemned f x.name) :
    ∃ n, (seen f.members x).liveness = .waiting n := by
  unfold seen
  cases hm : f.members.find? x.name with
  | none => exact ⟨0, rfl⟩
  | some m =>
    cases hl : m.liveness with
    | waiting n => exact ⟨n, hl⟩
    | condemned => exact absurd (by simp [Condemned, hm, hl]) h

theorem condemned_reconcile (hx : listing ws w = some x) :
    Condemned (f.reconcile ws).1 w ↔
      Condemned f w ∨ (seen f.members x).overdue f.patience = true := by
  obtain rfl := (listing_eq_some hx).2
  by_cases hc : Condemned f x.name
  · have hl := hc.seen.2
    simp [Condemned, find?_reconcile, hx, visit, hl, hc.seen.1]
  · obtain ⟨n, hl⟩ := waiting_seen hc
    rw [or_iff_right hc]
    simp only [Condemned, find?_reconcile, hx, Option.map_some, visit, hl, Member.overdue,
      Option.some.injEq, decide_eq_true_eq]
    split
    · simp [*]
    · simp [*]

/-- Only a round that lists the worker condemns it, and only one that does not list it acquits
it. -/
theorem condemned_perform {op : Operation} (hl : ¬ op.lists w) (hd : ¬ op.delists w) :
    Condemned (f.perform op) w ↔ Condemned f w := by
  by_cases hp : ∃ ss, op = .pong w ss
  · obtain ⟨ss, rfl⟩ := hp
    simp only [Condemned, perform, find?_pong]
    cases f.members.find? w with
    | none => rfl
    | some m => cases h : m.liveness <;> simp [h]
  · have hpong : ∀ ss, op ≠ .pong w ss := by
      intro ss heq
      exact hp ⟨ss, heq⟩
    rw [Condemned, Condemned, liveness_perform hl hd hpong]

theorem Condemned.perform {op : Operation} (h : Condemned f w) (hd : ¬ op.delists w) :
    Condemned (f.perform op) w := by
  by_cases hl : op.lists w
  · cases op with
    | reconcile ws =>
      obtain ⟨x, hx⟩ := listing_of_mem hl
      exact (condemned_reconcile hx).2 (.inl h)
    | _ => cases hl
  · exact (condemned_perform hl hd).2 h

/-- What a worker that is condemned can still expect. -/
structure Outcast (f : Fleet) (w : WorkerName) : Prop where
  condemned : Condemned f w
  dead : w ∉ f.live
  unpinged : ∀ ws, w ∉ (f.reconcile ws).2.pings.map Worker.name
  unreported : ∀ ws, w ∉ (f.reconcile ws).2.condemned ∧ w ∉ (f.reconcile ws).2.removed
  ignored : ∀ ss, f.pong w ss = (f, .ignored)

theorem Condemned.outcast (h : Condemned f w) (hf : Orderly f.members) : Outcast f w := by
  obtain ⟨m, hm, hl⟩ := Option.map_eq_some_iff.1 h
  have hreg : m.registered = false := by
    rw [← Bool.not_eq_true]
    intro hr
    exact (hf w m hm).alive hr hl
  have hlisted : ∀ ws x, listing ws w = some x →
      (Fleet.seen f.members x).liveness = .condemned := by
    intro ws x hx
    obtain rfl := (listing_eq_some hx).2
    exact h.seen.2
  constructor
  case condemned => exact h
  case dead => simp [mem_live, isAlive, hm, hreg]
  case unpinged =>
    intro ws hw
    obtain ⟨x, hx, hp⟩ := mem_pings.1 hw
    simp [Member.pingable, hlisted ws x hx] at hp
  case unreported =>
    intro ws
    constructor
    · intro hw
      obtain ⟨x, hx, ho⟩ := mem_condemned.1 hw
      simp [Member.overdue, hlisted ws x hx] at ho
    · intro hw
      obtain ⟨m', hm', hr⟩ := registered_of_mem_removed hw
      rw [hm] at hm'
      cases hm'
      rw [hreg] at hr
      cases hr
  case ignored => simp [pong, hm, hl]

theorem condemned_append {later : List Operation} (h : Condemned (after patience past) w)
    (hd : ∀ op ∈ later, ¬ op.delists w) : Condemned (after patience (later ++ past)) w := by
  induction later with
  | nil => exact h
  | cons op later ih =>
    have hbefore := ih fun op' hop => hd op' (List.mem_cons_of_mem _ hop)
    exact hbefore.perform (hd op (List.mem_cons_self ..))

/-! ## Starting afresh -/

theorem unknown_perform {op : Operation} (h : f.members.find? w = none) (hl : ¬ op.lists w) :
    (f.perform op).members.find? w = none := by
  cases op with
  | reconcile ws => simp [perform, find?_reconcile, listing_eq_none.2 hl]
  | pong v ss => simp [perform, find?_pong, h]
  | evict v => simpa [perform, h] using find?_evict f v w
  | track s => exact h
  | untrack s => exact h
  | updateCaches v ss => simpa [perform] using h
  | markCached v s => simpa [perform] using h
  | takeCached s => simpa [perform] using h

theorem unknown_append {later : List Operation}
    (h : (after patience past).members.find? w = none) (hl : ∀ op ∈ later, ¬ op.lists w) :
    (after patience (later ++ past)).members.find? w = none := by
  induction later with
  | nil => exact h
  | cons op later ih =>
    have hbefore := ih fun op' hop => hl op' (List.mem_cons_of_mem _ hop)
    exact unknown_perform hbefore (hl op (List.mem_cons_self ..))

/-! ## Condemned by history -/

structure ByHistory (patience : Nat) (past : List Operation) (w : WorkerName) : Prop where
  unknown : (after patience past).members.find? w = none → beats patience w past = []
  /-- The counter is the greatest surplus and never exceeds the patience. -/
  counter : ∀ m n, (after patience past).members.find? w = some m → m.liveness = .waiting n →
    IsGreatest (surpluses (beats patience w past)) (n : Int) ∧ n ≤ patience
  /-- A round that lists the worker condemns it when the greatest surplus has reached the
  patience, and reports so. -/
  condemns : ∀ ws, (Operation.reconcile ws).lists w → ¬ Condemned (after patience past) w →
    (Condemned (after patience (.reconcile ws :: past)) w ↔
      IsGreatest (surpluses (beats patience w past)) (patience : Int)) ∧
    (w ∈ ((after patience past).reconcile ws).2.condemned ↔
      IsGreatest (surpluses (beats patience w past)) (patience : Int))
  spares : ∀ op : Operation, ¬ op.lists w → ¬ Condemned (after patience past) w →
    ¬ Condemned (after patience (op :: past)) w
  /-- The condemned worker stays out for as long as every round lists it. -/
  outcast : Condemned (after patience past) w → ∀ later,
    (∀ op ∈ later, ¬ Operation.delists w op) → Outcast (after patience (later ++ past)) w
  /-- A round that does not list the worker forgets it, and the next one to list it sends the
  first ping to an unregistered worker whose counter is zero. -/
  afresh : ∀ gone later ws x, (Operation.reconcile gone).delists w →
    (∀ op ∈ later, ¬ Operation.lists w op) → listing ws w = some x →
    let f := after patience (later ++ .reconcile gone :: past)
    f.members.find? w = none ∧ seen f.members x = ⟨x, .waiting 0, false⟩ ∧
      x ∈ (f.reconcile ws).2.pings ∧
      (f.reconcile ws).1.members.find? w = some ⟨x, .waiting 1, false⟩ ∧
      beats patience w (.reconcile ws :: later ++ .reconcile gone :: past) = [.ping]
  evicted : ∀ v, beats patience w (.evict v :: past) = beats patience w past ∧
    ((after patience (.evict v :: past)).members.find? w).map Member.liveness =
      ((after patience past).members.find? w).map Member.liveness
  alive : (after patience past).isAlive w = true → ¬ Condemned (after patience past) w

theorem overdue_seen (h : ¬ Condemned (after patience past) x.name) :
    (seen (after patience past).members x).overdue patience = true ↔
      IsGreatest (surpluses (beats patience x.name past)) (patience : Int) := by
  have hseen := tallied_seen (tallied_after patience past x.name)
  obtain ⟨n, hl⟩ := waiting_seen h
  rw [hl] at hseen
  obtain ⟨hgreatest, hle⟩ := hseen
  simp only [Member.overdue, hl, decide_eq_true_eq]
  constructor
  · intro hn
    obtain rfl : n = patience := by omega
    exact hgreatest
  · intro hp
    have heq := hgreatest.unique hp
    omega

/-- The round that lists an unknown worker starts to ping it. -/
theorem pinged_unknown (ht : 1 ≤ patience) {ws : List Worker}
    (hnone : (after patience past).members.find? x.name = none) (hx : listing ws x.name = some x) :
    let f := after patience past
    seen f.members x = ⟨x, .waiting 0, false⟩ ∧ x ∈ (f.reconcile ws).2.pings ∧
      (f.reconcile ws).1.members.find? x.name = some ⟨x, .waiting 1, false⟩ ∧
      beats patience x.name (.reconcile ws :: past) = [.ping] := by
  intro f
  have hseen : seen f.members x = ⟨x, .waiting 0, false⟩ := by
    rw [seen, hnone, Option.getD_none]
  have hpatience : f.patience = patience := patience_after patience _
  have hpingable : (seen f.members x).pingable f.patience = true := by
    simp only [hseen, hpatience, Member.pingable, decide_eq_true_eq]
    omega
  have hpings : x ∈ (f.reconcile ws).2.pings := by
    rw [(round_reconcile f ws).1, List.mem_filter]
    exact ⟨mem_roster.2 hx, hpingable⟩
  have hbeats := tallied_after patience past x.name
  rw [hnone] at hbeats
  refine ⟨hseen, hpings, ?_, ?_⟩
  · have hlt : ¬ patience ≤ 0 := by omega
    simp only [find?_reconcile, hx, Option.map_some, hseen, hpatience, visit, if_neg hlt]
  · rw [beats, if_pos (List.mem_map_of_mem (listing_eq_some hx).1),
      if_pos (List.mem_map_of_mem hpings), show beats patience x.name past = [] from hbeats]
    rfl

/-- In every run the pings and the pongs of a worker decide whether it is condemned. -/
theorem condemned_by_history (ht : 1 ≤ patience) (past : List Operation) (w : WorkerName) :
    ByHistory patience past w := by
  have htally := tallied_after patience past w
  constructor
  case unknown =>
    intro hm
    rw [hm] at htally
    exact htally
  case counter =>
    intro m n hm hl
    rw [hm, Option.map_some, hl] at htally
    exact htally
  case condemns =>
    intro ws hw hc
    obtain ⟨x, hx⟩ := listing_of_mem hw
    obtain rfl := (listing_eq_some hx).2
    have hdue := overdue_seen hc
    refine ⟨?_, ?_⟩
    · rw [after, perform, condemned_reconcile hx, or_iff_right hc, patience_after]
      exact hdue
    · simp only [mem_condemned, hx, Option.some.injEq, exists_eq_left', patience_after]
      exact hdue
  case spares =>
    intro op hl hc
    by_cases hd : op.delists w
    · cases op with
      | reconcile ws =>
        rw [Condemned, after, perform, find?_reconcile, listing_eq_none.2 hd]
        simp
      | _ => cases hd
    · rw [after, condemned_perform hl hd]
      exact hc
  case outcast =>
    intro hc later hlater
    exact (condemned_append hc hlater).outcast (orderly_after patience _)
  case afresh =>
    intro gone later ws x hgone hlater hx f
    obtain rfl := (listing_eq_some hx).2
    have hforgotten : (after patience (.reconcile gone :: past)).members.find? x.name = none := by
      rw [after, perform, find?_reconcile, listing_eq_none.2 hgone]
      rfl
    have hnone : f.members.find? x.name = none := unknown_append hforgotten hlater
    exact ⟨hnone, pinged_unknown ht hnone hx⟩
  case evicted =>
    intro v
    exact ⟨rfl, find?_evict _ v w⟩
  case alive =>
    intro halive hc
    exact (hc.outcast (orderly_after patience past)).dead (mem_live.2 halive)

/-- The second pong is unsolicited and makes up for no later ping; the last one comes too late. -/
def silentRun : List Operation :=
  let w : Worker := ⟨⟨"w"⟩, "host", 1, 2⟩
  [.pong ⟨"w"⟩ [], .reconcile [w], .reconcile [w], .evict ⟨"w"⟩, .reconcile [w], .pong ⟨"w"⟩ [],
    .pong ⟨"w"⟩ [], .reconcile [w]]

theorem condemned_by_history_sample :
    ByHistory 2 silentRun ⟨"w"⟩ ∧ Condemned (after 2 silentRun) ⟨"w"⟩ ∧
    ¬ Condemned (after 2 (silentRun.drop 2)) ⟨"w"⟩ ∧
    beats 2 ⟨"w"⟩ silentRun = [.ping, .pong, .pong, .ping, .ping, .pong] :=
  ⟨condemned_by_history (by decide) silentRun ⟨"w"⟩, by decide +kernel, by decide +kernel,
    by decide +kernel⟩

end Fleet
end RenderFarm

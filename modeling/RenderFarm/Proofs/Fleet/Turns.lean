import Mathlib.Data.Int.CardIntervalMod
import Mathlib.Data.List.Rotate
import RenderFarm.Proofs.Fleet.Reports

/-!
# RenderFarm.Proofs.Fleet.Turns

The live holders of a session's resources are used in turn.

* `readyFor f s`: the live holders, the one to use next in front. `turn ws j`: whose turn it is
  after `j` others.
* `Turned s m f f'`: the live holders have moved up by `m` turns, and those that are not alive stand
  behind each other as before.
* `turned_takeCached`: one turn. `takes s m f`: so many in a row; `takes_given`, `turned_takes`.
* `count_turns`: of two live holders none is used more than once more often than the other.
* `InTurn f s`: all of it.
-/

namespace RenderFarm
namespace Fleet

/-- The holders of the session's resources. -/
def holdersOf (f : Fleet) (s : SessionName) : List WorkerName := (f.caches.find? s).getD []

def readyFor (f : Fleet) (s : SessionName) : List WorkerName := (f.holdersOf s).filter f.isAlive

/-- Whose turn it is after `j` others, if it is anybody's. -/
def turn (ws : List WorkerName) (j : Nat) : Option WorkerName := ws[j % ws.length]?

/-- Asks for a holder so many times in a row; gives the answers. -/
def takes (s : SessionName) : Nat → Fleet → List (Option WorkerName) × Fleet
  | 0, f => ([], f)
  | m + 1, f =>
    let (w, f) := f.takeCached s
    let (ws, f) := f.takes s m
    (w :: ws, f)

variable {f f' f'' : Fleet} {w u v : WorkerName} {ws : List WorkerName} {s s' : SessionName}
  {m n : Nat}

/-! ## Turns -/

theorem turn_rotate (ws : List WorkerName) (n j : Nat) :
    turn (ws.rotate n) j = turn ws (j + n) := by
  unfold turn
  rw [List.length_rotate]
  cases ws with
  | nil => simp
  | cons w ws =>
    have hlt : j % (w :: ws).length < (w :: ws).length := Nat.mod_lt _ (Nat.succ_pos _)
    rw [List.getElem?_rotate hlt, Nat.mod_add_mod]

theorem turn_zero (ws : List WorkerName) : turn ws 0 = ws.head? := by
  rw [turn, Nat.zero_mod, List.head?_eq_getElem?]

theorem turn_eq_none {j : Nat} : turn ws j = none ↔ ws = [] := by
  refine ⟨fun h => ?_, fun h => by simp [h, turn]⟩
  false_or_by_contra
  rename_i hne
  have hlt : j % ws.length < ws.length := Nat.mod_lt _ (List.length_pos_iff.2 hne)
  have hle := List.getElem?_eq_none_iff.1 h
  omega

/-- How often it has been the turn of a worker. -/
theorem count_turns (hn : ws.Nodup) {i : Nat} (hi : i < ws.length) (m : Nat) :
    ((List.range m).map (turn ws)).count (some ws[i]) =
      m / ws.length + if i < m % ws.length then 1 else 0 := by
  have hturn : ∀ j, turn ws j = some ws[i] ↔ j ≡ i [MOD ws.length] := by
    intro j
    have hj : j % ws.length < ws.length := Nat.mod_lt _ (Nat.zero_lt_of_lt hi)
    rw [turn, List.getElem?_eq_getElem hj, Option.some.injEq, hn.getElem_inj_iff, Nat.ModEq,
      Nat.mod_eq_of_lt hi]
  have hcount := Nat.count_modEq_card m (Nat.zero_lt_of_lt hi) i
  rw [Nat.mod_eq_of_lt hi] at hcount
  rw [← hcount, Nat.count, List.count_eq_countP, List.countP_map]
  refine List.countP_congr fun j _ => ?_
  simp [hturn]

/-! ## One turn -/

/-- The live holders of the session have moved up by `m` turns. -/
structure Turned (s : SessionName) (m : Nat) (f f' : Fleet) : Prop where
  members : f'.members = f.members
  holders : (f'.holdersOf s).Perm (f.holdersOf s)
  ready : f'.readyFor s = (f.readyFor s).rotate m
  absent : (f'.holdersOf s).filter (fun w => !f'.isAlive w) =
    (f.holdersOf s).filter fun w => !f.isAlive w

theorem Turned.same (hm : f'.members = f.members) (hs : f'.caches.find? s = f.caches.find? s) :
    Turned s 0 f f' := by
  have halive : f'.isAlive = f.isAlive := funext (isAlive_congr hm)
  have hlist : f'.holdersOf s = f.holdersOf s := by rw [holdersOf, holdersOf, hs]
  refine ⟨hm, hlist ▸ .refl _, ?_, by rw [hlist, halive]⟩
  rw [List.rotate_zero, readyFor, readyFor, hlist, halive]

theorem Turned.trans (h : Turned s m f f') (h' : Turned s n f' f'') :
    Turned s (m + n) f f'' := by
  refine ⟨h'.members.trans h.members, h'.holders.trans h.holders, ?_, h'.absent.trans h.absent⟩
  rw [h'.ready, h.ready, List.rotate_rotate]

theorem head?_readyFor {holders : List WorkerName} (hs : f.caches.find? s = some holders) :
    (f.readyFor s).head? = holders.find? f.isAlive := by
  rw [readyFor, holdersOf, hs, Option.getD_some, List.head?_filter]

theorem takeCached_none (h : f.readyFor s = []) : f.takeCached s = (none, f) := by
  unfold takeCached
  split
  · rfl
  · rename_i holders hs
    have hfind := head?_readyFor hs
    rw [h] at hfind
    rw [← hfind]
    rfl

theorem takeCached_some (h : f.readyFor s = w :: ws) : f.takeCached s =
    (some w, { f with caches := f.caches.insert s ((f.holdersOf s).erase w ++ [w]) }) := by
  unfold takeCached
  split
  · rename_i hs
    rw [readyFor, holdersOf, hs] at h
    cases h
  · rename_i holders hs
    have hfind := head?_readyFor hs
    rw [h] at hfind
    rw [← hfind, holdersOf, hs]
    rfl

theorem fst_takeCached (f : Fleet) (s : SessionName) :
    (f.takeCached s).1 = (f.readyFor s).head? := by
  cases h : f.readyFor s with
  | nil => rw [takeCached_none h]; rfl
  | cons w ws => rw [takeCached_some h]; rfl

/-- The worker in front of the live ones goes to the back, and so behind those that are not alive,
which close up and keep their order. -/
theorem turned_takeCached (f : Fleet) (s : SessionName) : Turned s 1 f (f.takeCached s).2 := by
  cases h : f.readyFor s with
  | nil =>
    rw [takeCached_none h]
    have hsame : Turned s 0 f f := .same rfl rfl
    exact ⟨rfl, hsame.holders, by simp [h], rfl⟩
  | cons w ws =>
    have hmem : w ∈ f.readyFor s := h ▸ List.mem_cons_self
    obtain ⟨hw, halive⟩ := List.mem_filter.1 hmem
    have hready : ((f.holdersOf s).erase w).filter f.isAlive = ws := by
      rw [← List.erase_filter, ← readyFor, h, List.erase_cons_head]
    have habsent : ((f.holdersOf s).erase w).filter (fun v => !f.isAlive v) =
        (f.holdersOf s).filter fun v => !f.isAlive v := by
      rw [← List.erase_filter]
      refine List.erase_of_not_mem fun hmem => ?_
      simpa [halive] using (List.mem_filter.1 hmem).2
    have hlist : ({ f with caches := f.caches.insert s ((f.holdersOf s).erase w ++ [w]) } :
        Fleet).holdersOf s = (f.holdersOf s).erase w ++ [w] := by
      simp [holdersOf, OrderedMap.find?_insert]
    rw [takeCached_some h]
    refine ⟨rfl, ?_, ?_, ?_⟩
    · rw [hlist]
      exact (List.perm_append_singleton w _).trans (List.perm_cons_erase hw).symm
    · rw [readyFor, hlist, h, List.rotate_cons_succ, List.rotate_zero]
      show ((f.holdersOf s).erase w ++ [w]).filter f.isAlive = ws ++ [w]
      rw [List.filter_append, hready, List.filter_cons_of_pos halive, List.filter_nil]
    · rw [hlist]
      show ((f.holdersOf s).erase w ++ [w]).filter (fun v => !f.isAlive v) = _
      rw [List.filter_append, habsent, List.filter_cons_of_neg (by simp [halive]),
        List.filter_nil, List.append_nil]

theorem find?_takeCached_of_ne (f : Fleet) (hne : s' ≠ s) :
    (f.takeCached s).2.caches.find? s' = f.caches.find? s' := by
  cases h : f.readyFor s with
  | nil => rw [takeCached_none h]
  | cons w ws =>
    rw [takeCached_some h]
    exact (OrderedMap.find?_insert ..).trans (if_neg hne.symm)

/-! ## Turns in a row -/

theorem takes_succ (m : Nat) (f : Fleet) (s : SessionName) : f.takes s (m + 1) =
    ((f.takeCached s).1 :: ((f.takeCached s).2.takes s m).1, ((f.takeCached s).2.takes s m).2) :=
  rfl

theorem takes_given (m : Nat) (f : Fleet) (s : SessionName) :
    (f.takes s m).1 = (List.range m).map (turn (f.readyFor s)) := by
  induction m generalizing f with
  | zero => rfl
  | succ m ih =>
    rw [takes_succ, ih, (turned_takeCached f s).ready, List.range_succ_eq_map, List.map_cons,
      List.map_map, turn_zero, fst_takeCached]
    refine congrArg (_ :: ·) (List.map_congr_left fun j _ => ?_)
    rw [turn_rotate]
    rfl

theorem turned_takes (m : Nat) (f : Fleet) (s : SessionName) : Turned s m f (f.takes s m).2 := by
  induction m generalizing f with
  | zero => exact .same rfl rfl
  | succ m ih =>
    rw [takes_succ, Nat.add_comm]
    exact (turned_takeCached f s).trans (ih _)

theorem find?_takes_of_ne (m : Nat) (f : Fleet) (hne : s' ≠ s) :
    (f.takes s m).2.caches.find? s' = f.caches.find? s' := by
  induction m generalizing f with
  | zero => rfl
  | succ m ih => exact (ih _).trans (find?_takeCached_of_ne f hne)

theorem takes_none (m : Nat) (h : f.readyFor s = []) : (f.takes s m).2 = f := by
  induction m with
  | zero => rfl
  | succ m ih =>
    rw [takes_succ, takeCached_none h]
    exact ih

theorem Distinct.readyFor (h : Distinct f) (s : SessionName) : (f.readyFor s).Nodup := by
  unfold Fleet.readyFor holdersOf
  cases hs : f.caches.find? s with
  | none => exact List.nodup_nil
  | some holders => exact (h s holders hs).filter _

/-- Whose turn it is does not depend on where a count starts, and turns go round. -/
theorem count_turns_le (hn : ws.Nodup) (hu : u ∈ ws) (hv : v ∈ ws) (m : Nat) :
    ((List.range m).map (turn ws)).count (some u) ≤
      ((List.range m).map (turn ws)).count (some v) + 1 := by
  obtain ⟨i, hi, rfl⟩ := List.getElem_of_mem hu
  obtain ⟨j, hj, rfl⟩ := List.getElem_of_mem hv
  rw [count_turns hn hi, count_turns hn hj]
  split <;> split <;> omega

/-- How the holders of the session are used. -/
structure InTurn (f : Fleet) (s : SessionName) : Prop where
  given : ∀ m, (f.takes s m).1 = (List.range m).map (turn (f.readyFor s))
  turned : ∀ m, Turned s m f (f.takes s m).2
  fair : ∀ m, ∀ u ∈ f.readyFor s, ∀ v ∈ f.readyFor s,
    (f.takes s m).1.count (some u) ≤ (f.takes s m).1.count (some v) + 1
  unchanged : f.readyFor s = [] → ∀ m, (f.takes s m).2 = f
  others : ∀ m s', s' ≠ s → (f.takes s m).2.caches.find? s' = f.caches.find? s'

theorem Distinct.inTurn (h : Distinct f) (s : SessionName) : InTurn f s where
  given m := takes_given m f s
  turned m := turned_takes m f s
  fair m u hu v hv := by
    rw [takes_given]
    exact count_turns_le (h.readyFor s) hu hv m
  unchanged hnone m := takes_none m hnone
  others m _ hne := find?_takes_of_ne m f hne

/-- One of the three holders is not alive, and the two others take turns. -/
example :
    let w (name : String) : Worker := ⟨⟨name⟩, "h", 1, 2⟩
    let f := after 1 [.updateCaches ⟨"c"⟩ [⟨"s"⟩], .updateCaches ⟨"b"⟩ [⟨"s"⟩],
      .updateCaches ⟨"a"⟩ [⟨"s"⟩], .pong ⟨"c"⟩ [], .pong ⟨"a"⟩ [], .track ⟨"s"⟩,
      .reconcile [w "a", w "b", w "c"]]
    (f.takes ⟨"s"⟩ 3).1 = [some ⟨"a"⟩, some ⟨"c"⟩, some ⟨"a"⟩] ∧
    (f.takes ⟨"s"⟩ 3).2.holdersOf ⟨"s"⟩ = [⟨"b"⟩, ⟨"c"⟩, ⟨"a"⟩] := by decide +kernel

end Fleet
end RenderFarm

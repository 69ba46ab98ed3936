import RenderFarm.Word

/-!
# RenderFarm.Name

The names by which the farm refers to workers, sessions, executions and tasks, and the two
sources that issue fresh ones: `NameSource` for sessions and executions, `TicketSource` for the
dispatch tickets.

A name from `NameSource` is a kind, the text of the wall clock, a hyphen and a sequence number.
The sequence number alone keeps names apart, whatever the clock shows.
-/

namespace RenderFarm

structure WorkerName where
  text : String
  deriving DecidableEq, Repr, Inhabited

structure SessionName where
  text : String
  deriving DecidableEq, Repr, Inhabited

structure ExecutionName where
  text : String
  deriving DecidableEq, Repr, Inhabited

structure TaskName where
  text : String
  deriving DecidableEq, Repr, Inhabited

/-- The `k`-th task of an execution. -/
def TaskName.ofExecution (execution : ExecutionName) (k : Nat) : TaskName :=
  ⟨execution.text ++ "-task" ++ toString k⟩

/-- Numbers the names it issues; the number is a word. -/
structure NameSource where
  issued : Nat
  deriving DecidableEq, Repr

namespace NameSource

def new : NameSource := ⟨0⟩

/-- A fresh name of the given kind at the given reading of the wall clock. -/
def next (s : NameSource) (kind clock : String) : String × NameSource :=
  let n := (s.issued + 1) % Word.size
  (kind ++ clock ++ "-" ++ toString n, ⟨n⟩)

end NameSource

/-- Identifies one attempt to run a task on a worker. -/
abbrev Ticket := Nat

/-- Issues tickets in increasing order, starting with 1. -/
structure TicketSource where
  upcoming : Ticket
  deriving DecidableEq, Repr

namespace TicketSource

def new : TicketSource := ⟨1⟩

/-- The ticket after `t`, if it is still a word. -/
def successor? (t : Ticket) : Option Ticket :=
  if t + 1 < Word.size then some (t + 1) else none

/-- Issues the upcoming ticket, unless no ticket would be left to follow it. -/
def next? (s : TicketSource) : Option (Ticket × TicketSource) :=
  match successor? s.upcoming with
  | some t => some (s.upcoming, ⟨t⟩)
  | none => none

end TicketSource
end RenderFarm

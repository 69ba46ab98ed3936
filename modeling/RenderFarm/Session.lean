import RenderFarm.Failure
import RenderFarm.OrderedMap
import RenderFarm.Wire.Message

/-!
# RenderFarm.Session

The sessions of the clients. A session describes a scene: its resources, the producer that renders
it and the updates applied to it so far. It runs one execution at a time, and while it does it can
be neither deleted nor changed.
-/

namespace RenderFarm

/-- What a client asks of a new session. -/
structure SessionRequest where
  owner : Option String
  resources : List Wire.Resource
  producer : String
  format : String
  deriving Repr

/-- What a client asks of a new execution. -/
structure ExecutionRequest where
  session : SessionName
  owner : Option String
  /-- The number of producing units. -/
  parallel : Nat
  /-- An update that the session gets first. -/
  update : Option Json
  deriving Repr

structure Session where
  name : SessionName
  owner : Option String
  resources : List Wire.Resource
  producer : String
  format : String
  running : Option ExecutionName
  updates : List Json
  executions : List ExecutionName
  deriving Repr

namespace Session

def hasResources (s : Session) : Bool := !s.resources.isEmpty

def message (s : Session) : Wire.SessionMessage :=
  ⟨s.name, s.producer, s.format, s.resources, s.updates⟩

/-- Whether requests in the name of `owner` are served; a session without an owner serves all. -/
def admits (s : Session) (owner : Option String) : Bool :=
  match s.owner with
  | none => true
  | some o => owner == some o

/-- The session with the execution running. -/
def begin (s : Session) (r : ExecutionRequest) (execution : ExecutionName) : Session :=
  { s with
    updates := s.updates ++ r.update.toList
    executions := s.executions ++ [execution]
    running := some execution }

end Session

/-- The sessions by name. -/
abbrev Sessions := OrderedMap SessionName Session

namespace Sessions

def create (ss : Sessions) (name : SessionName) (r : SessionRequest) : Sessions :=
  ss.insert name
    ⟨name, r.owner, r.resources, r.producer, r.format, none, [], []⟩

/-- The session, for a request in the name of `owner`. -/
def authorize (ss : Sessions) (name : SessionName) (owner : Option String) :
    Except RequestFault Session :=
  match ss.find? name with
  | none => .error (.unknownSession name)
  | some s => if s.admits owner then .ok s else .error (.notOwner name)

/-- Removes a session that runs nothing. -/
def delete (ss : Sessions) (name : SessionName) (owner : Option String) :
    Except RequestFault (Session × Sessions) :=
  match ss.authorize name owner with
  | .error f => .error f
  | .ok s =>
    match s.running with
    | some e => .error (.inUse name e)
    | none => .ok (s, ss.erase name)

/-- Lets a session that runs nothing run the execution. -/
def beginExecution (ss : Sessions) (r : ExecutionRequest) (execution : ExecutionName) :
    Except RequestFault (Session × Sessions) :=
  match ss.authorize r.session r.owner with
  | .error f => .error f
  | .ok s =>
    match s.running with
    | some e => .error (.alreadyRunning r.session e)
    | none =>
      if r.parallel = 0 then .error .nothingToProduce
      else
        let s := s.begin r execution
        .ok (s, ss.insert r.session s)

/-- The execution is over; another one that runs meanwhile is left alone. -/
def endExecution (ss : Sessions) (name : SessionName) (execution : ExecutionName) : Sessions :=
  match ss.find? name with
  | none => ss
  | some s =>
    if s.running = some execution then ss.insert name { s with running := none } else ss

end Sessions
end RenderFarm

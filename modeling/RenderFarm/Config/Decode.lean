import RenderFarm.Config.Basic
import RenderFarm.Config.Tree
import RenderFarm.Word

/-!
# RenderFarm.Config.Decode

What a tree of settings means. A section is a table, or an array with its settings in order; keys
that are not known are passed over.
-/

namespace RenderFarm
namespace Config

inductive Mismatch where
  | wrongType
  | wrongValue
  | wrongLength
  | missingKey
  | unknownVariant
  deriving DecidableEq, Repr

/-- A mismatch, and the path of keys to it. -/
structure Fault where
  mismatch : Mismatch
  path : List String
  deriving DecidableEq, Repr

namespace Decode

variable {α σ : Type}

def mismatch (m : Mismatch) : Except Fault α := .error ⟨m, []⟩

/-- The outcome for what stands under a key. -/
def under (k : String) : Except Fault α → Except Fault α
  | .ok a => .ok a
  | .error f => .error { f with path := k :: f.path }

/-! ## Scalars -/

def text : Tree → Except Fault String
  | .text s => .ok s
  | .letter c => .ok (String.singleton c)
  | _ => mismatch .wrongType

def bool : Tree → Except Fault Bool
  | .bool b => .ok b
  | _ => mismatch .wrongType

/-- A natural number below the limit. -/
def natural (limit : Nat) : Tree → Except Fault Nat
  | .int n => if 0 ≤ n ∧ n < limit then .ok n.toNat else mismatch .wrongValue
  | _ => mismatch .wrongType

def word : Tree → Except Fault Nat := natural Word.size

/-- The double nearest to an integer of 64 bits. -/
def toDouble (n : Int) : Float :=
  if n < 0 then -(UInt64.ofNat n.natAbs).toFloat else (UInt64.ofNat n.natAbs).toFloat

def float : Tree → Except Fault Float
  | .float x => .ok x
  | .int n => .ok (toDouble n)
  | _ => mismatch .wrongType

/-- The items of an array, counted from `i`. -/
def items (read : Tree → Except Fault α) : (i : Nat) → List Tree → Except Fault (List α)
  | _, [] => .ok []
  | i, t :: ts =>
    match under (toString i) (read t) with
    | .error f => .error f
    | .ok a =>
      match items read (i + 1) ts with
      | .error f => .error f
      | .ok as => .ok (a :: as)

def list (read : Tree → Except Fault α) : Tree → Except Fault (List α)
  | .array ts => items read 0 ts
  | _ => mismatch .wrongType

/-! ## Sections -/

/-- A setting of a section. -/
structure Slot (σ : Type) where
  label : String
  required : Bool := true
  read : Tree → σ → Except Fault σ

/-- A setting that is stored with `put`. -/
def Slot.of (label : String) (read : Tree → Except Fault α) (put : α → σ → σ)
    (required : Bool := true) : Slot σ where
  label
  required
  read t s :=
    match read t with
    | .ok a => .ok (put a s)
    | .error f => .error f

def entries (slots : List (Slot σ)) : List (String × Tree) → σ → Except Fault σ
  | [], s => .ok s
  | (k, t) :: es, s =>
    match slots.find? fun slot => slot.label == k with
    | none => entries slots es s
    | some slot =>
      match under k (slot.read t s) with
      | .ok s => entries slots es s
      | .error f => .error f

/-- The settings in their order, from the one numbered `i`. -/
def inOrder : (i : Nat) → List (Slot σ) → List Tree → σ → Except Fault σ
  | _, [], _, s => .ok s
  | _, slots, [], s => if slots.any Slot.required then mismatch .wrongLength else .ok s
  | i, slot :: slots, t :: ts, s =>
    match under (toString i) (slot.read t s) with
    | .ok s => inOrder (i + 1) slots ts s
    | .error f => .error f

/-- A section; `blank` has the settings that are not required. -/
def sectionOf (slots : List (Slot σ)) (blank : σ) : Tree → Except Fault σ
  | .table es =>
    match entries slots es blank with
    | .error f => .error f
    | .ok s =>
      if slots.all fun slot => !slot.required || (Fields.find? slot.label es).isSome then .ok s
      else mismatch .missingKey
  | .array ts => inOrder 0 slots ts blank
  | _ => mismatch .wrongType

def port : Tree → Except Fault Nat := natural Word.size16

def coordinatorSection : Tree → Except Fault CoordinatorSection :=
  sectionOf [
    .of "listen_host" text fun a s => { s with listenHost := a },
    .of "listen_port" port fun a s => { s with listenPort := a },
    .of "external_host" text fun a s => { s with externalHost := a },
    .of "external_port" port (fun a s => { s with externalPort := some a }) false]
    ⟨"", 0, "", none⟩

def worker : Tree → Except Fault Worker :=
  sectionOf [
    .of "name" text fun a w => { w with name := ⟨a⟩ },
    .of "host" text fun a w => { w with host := a },
    .of "port" port (fun a w => { w with port := a }) false,
    .of "resource_port" port (fun a w => { w with resourcePort := a }) false]
    ⟨⟨""⟩, "", 5000, 9000⟩

def clusterSection : Tree → Except Fault ClusterSection :=
  sectionOf [
    .of "manage_interval_secs" word fun a s => { s with manageIntervalSecs := a },
    .of "waiting_pong_timeout" (natural Word.size32) fun a s => { s with waitingPongTimeout := a },
    .of "destroy_zombies" bool fun a s => { s with destroyZombies := a },
    .of "workers" (list worker) (fun a s => { s with workers := a }) false]
    ⟨0, 0, false, []⟩

def schedulerSection : Tree → Except Fault SchedulerSection :=
  sectionOf [.of "prioritize_reducing" bool fun a _ => ⟨a⟩] ⟨false⟩

def executionSection : Tree → Except Fault ExecutionSection :=
  sectionOf [
    .of "task_timeout_secs" word fun a s => { s with taskTimeoutSecs := a },
    .of "task_min_timeout_secs" word fun a s => { s with taskMinTimeoutSecs := a },
    .of "reducing_max_retries" word fun a s => { s with reducingMaxRetries := a },
    .of "producing_fail_ratio" float fun a s => { s with producingFailRatio := a }]
    ⟨0, 0, 0, 0⟩

structure FixedRetry where
  maxCount : Nat := 0
  delay : Nat := 0

def fixedRetry (t : Tree) : Except Fault RetrySection :=
  (sectionOf [
    .of "max_count" word fun a (s : FixedRetry) => { s with maxCount := a },
    .of "delay_secs" word fun a s => { s with delay := a }] {} t).map
    fun s => .fixed s.maxCount s.delay

structure Backoff where
  maxCount : Nat := 0
  initial : Nat := 0
  limit : Nat := 0
  factor : Nat := 0

def backoff (t : Tree) : Except Fault RetrySection :=
  (sectionOf [
    .of "max_count" word fun a (s : Backoff) => { s with maxCount := a },
    .of "initial_delay_secs" word fun a s => { s with initial := a },
    .of "max_delay_secs" word fun a s => { s with limit := a },
    .of "factor" (natural Word.size32) fun a s => { s with factor := a }] {} t).map
    fun s => .exponentialBackoff s.maxCount s.initial s.limit s.factor

/-- The strategies by their names. -/
def strategies : List (String × (Tree → Except Fault RetrySection)) :=
  [("fixed", fixedRetry), ("exponential_backoff", backoff)]

/-- A strategy is told by the first key of a table; a name alone says too little. -/
def retrySection : Tree → Except Fault RetrySection
  | .table ((k, t) :: _) =>
    match strategies.lookup k with
    | some read => under k (read t)
    | none => mismatch .unknownVariant
  | .text s => mismatch (if (strategies.lookup s).isSome then .wrongType else .unknownVariant)
  | _ => mismatch .wrongType

def callSection : Tree → Except Fault CallSection :=
  sectionOf [
    .of "connect_timeout_secs" word fun a s => { s with connectTimeoutSecs := a },
    .of "request_timeout_secs" word fun a s => { s with requestTimeoutSecs := a },
    .of "retry_strategy" retrySection fun a s => { s with retryStrategy := a }]
    ⟨0, 0, .fixed 0 0⟩

def telemetrySection : Tree → Except Fault TelemetrySection :=
  sectionOf [.of "trace_to_console" bool fun a _ => ⟨a⟩] ⟨false⟩

def config : Tree → Except Fault Config :=
  sectionOf [
    .of "coordinator" coordinatorSection fun a c => { c with coordinator := a },
    .of "cluster" clusterSection fun a c => { c with cluster := a },
    .of "scheduler" schedulerSection fun a c => { c with scheduler := a },
    .of "execution" executionSection fun a c => { c with execution := a },
    .of "rpc" callSection fun a c => { c with calls := a },
    .of "telemetry" telemetrySection fun a c => { c with telemetry := a }]
    standard

end Decode
end Config
end RenderFarm

import RenderFarm.Coordinator.Server
import RenderFarm.Proofs.Wire.Lines

/-!
# RenderFarm.Proofs.Coordinator.Conversation

One connection to the coordinator. Every request gets one response, and becomes an event exactly
if the response is an acknowledgement; nothing else in the stream is answered or becomes an event.

* `Exchange`, `Exchange.Fair`: a request with what the coordinator makes of it.
* `converse_append`: lines that are no request do not affect the rest of the stream.
* `conversation`: the whole stream.
-/

namespace RenderFarm
namespace Server

open Wire (Asks requests linesOf textOf? bytesOf)

/-- A request on a connection, its response, and the event that the coordinator is sent. -/
structure Exchange where
  request : Wire.Request
  response : Wire.Response
  event? : Option Event

/-- A call that is understood is acknowledged and becomes an event; any other call is answered
with an error and becomes none. -/
inductive Exchange.Fair : Exchange → Prop
  | accepted {r : Wire.Request} {e : Event} (call : Event.ofCall r.method r.params = .ok e) :
    Fair ⟨r, .ok r.id acknowledgement, some e⟩
  | refused {r : Wire.Request} {f : Failure} (call : Event.ofCall r.method r.params = .error f) :
    Fair ⟨r, .failed r.id f.message, none⟩

theorem Exchange.Fair.id_eq {x : Exchange} (h : x.Fair) : x.response.id = x.request.id := by
  cases h <;> rfl

theorem Exchange.Fair.acknowledged_iff {x : Exchange} (h : x.Fair) :
    x.response.result = some acknowledgement ↔ x.event? ≠ none := by
  cases h <;> simp [Wire.Response.ok, Wire.Response.failed]

theorem Exchange.Fair.error_iff {x : Exchange} (h : x.Fair) :
    x.response.error ≠ none ↔ x.event? = none := by
  cases h <;> simp [Wire.Response.ok, Wire.Response.failed]

/-- The exchange that a running coordinator makes of a request. -/
def exchange (r : Wire.Request) : Exchange := ⟨r, (answer true r).1, (answer true r).2⟩

theorem exchange_fair (r : Wire.Request) : (exchange r).Fair := by
  cases call : Event.ofCall r.method r.params with
  | ok e =>
    have h : answer true r = (.ok r.id acknowledgement, some e) := by
      simp only [answer, accept, call, if_true]
    simpa only [exchange, h] using Exchange.Fair.accepted call
  | error f =>
    have h : answer true r = (.failed r.id f.message, none) := by
      simp only [answer, accept, call]
    simpa only [exchange, h] using Exchange.Fair.refused call

theorem converse_eq (bytes : List UInt8) : converse true bytes =
    (((requests (linesOf bytes)).map exchange).map (·.response),
      ((requests (linesOf bytes)).map exchange).filterMap (·.event?)) := by
  simp [converse, List.filterMap_map, exchange, Function.comp_def]

/-! ## Streams one after the other -/

/-- A stream that is text and ends in a newline is a number of lines and nothing more. -/
theorem requests_stream_append {bytes : List UInt8} (text : textOf? bytes ≠ none)
    (ended : bytes.getLast? = some 10) (more : List UInt8) :
    requests (linesOf (bytes ++ more)) = requests (linesOf bytes) ++ requests (linesOf more) := by
  obtain ⟨l, rfl⟩ := List.getLast?_eq_some_iff.1 ended
  have lines : linesOf (l ++ [10]) = linesOf l ++ linesOf [] := Wire.linesOf_append l []
  have texts : ∀ l' ∈ linesOf l, textOf? l' ≠ none := fun l' hl' =>
    Wire.textOf?_of_mem_linesOf text (lines ▸ List.mem_append_left _ hl')
  have nothing : requests (linesOf []) = [] := Wire.Asks.done.requests_eq.symm
  rw [List.append_assoc, List.singleton_append, Wire.linesOf_append, lines,
    Wire.requests_append texts, Wire.requests_append texts, nothing, List.append_nil]

theorem converse_append {bytes : List UInt8} (text : textOf? bytes ≠ none)
    (ended : bytes.getLast? = some 10) (running : Bool) (more : List UInt8) :
    converse running (bytes ++ more) =
      ((converse running bytes).1 ++ (converse running more).1,
        (converse running bytes).2 ++ (converse running more).2) := by
  simp only [converse, requests_stream_append text ended more, List.map_append,
    List.filterMap_append]

/-! ## The whole stream -/

/-- What comes of a stream is what comes of its requests, one exchange for each and in their
order; and what comes of a stream that is text and ends in a newline does not depend on what
comes after it, nor what comes after it on the stream. -/
theorem conversation (bytes : List UInt8) :
    (∃ xs : List Exchange,
      (∀ rs, Asks bytes rs ↔ rs = xs.map (·.request)) ∧
      (∀ x ∈ xs, x.Fair ∧ x.response.id = x.request.id ∧
        (x.response.result = some acknowledgement ↔ x.event? ≠ none) ∧
        (x.response.error ≠ none ↔ x.event? = none)) ∧
      converse true bytes = (xs.map (·.response), xs.filterMap (·.event?))) ∧
    (textOf? bytes ≠ none → bytes.getLast? = some 10 → ∀ more,
      converse true (bytes ++ more) =
        ((converse true bytes).1 ++ (converse true more).1,
          (converse true bytes).2 ++ (converse true more).2)) := by
  refine ⟨⟨(requests (linesOf bytes)).map exchange, fun rs => ?_, fun x hx => ?_, ?_⟩, ?_⟩
  · rw [Wire.asks_iff, List.map_map]
    simp only [Function.comp_def, exchange, List.map_id']
  · obtain ⟨r, -, rfl⟩ := List.mem_map.1 hx
    have fair := exchange_fair r
    exact ⟨fair, fair.id_eq, fair.acknowledged_iff, fair.error_iff⟩
  · exact converse_eq bytes
  · exact fun text ended more => converse_append text ended true more

/-- A line that is no JSON, a blank one, a call that is refused and one that is accepted. -/
def mixedStream : List UInt8 :=
  bytesOf ("nonsense\n\t\n\x7b\"id\":7,\"method\":\"pong\"\x7d\n" ++
    "\x7b\"id\":8,\"method\":\"pong\",\"params\":\x7b\"workerName\":\"w1\"\x7d\x7d\n").toList

/-- The pong of an event that is one. -/
def pong? : Event → Option Wire.Pong
  | .pong p => some p
  | _ => none

theorem conversation_mixed :
    ((textOf? mixedStream ≠ none ∧ mixedStream.getLast? = some 10) ∧ ∀ more,
      converse true (mixedStream ++ more) =
        ((converse true mixedStream).1 ++ (converse true more).1,
          (converse true mixedStream).2 ++ (converse true more).2)) ∧
    (converse true mixedStream).1.map (fun r => (r.id, r.result.isSome, r.error.isSome)) =
      [(7, false, true), (8, true, false)] ∧
    (converse true mixedStream).2.map pong? = [some ⟨⟨"w1"⟩, [], []⟩] :=
  have text : textOf? mixedStream ≠ none := by simp [mixedStream, Wire.textOf?_bytesOf]
  have ended : mixedStream.getLast? = some 10 := by decide +kernel
  ⟨⟨⟨text, ended⟩, (conversation mixedStream).2 text ended⟩, by decide +kernel, by decide +kernel⟩

end Server
end RenderFarm

import SiteBroker.Json.Decode
import SiteBroker.Packet.Wire
import SiteBroker.Workflow

/-! Services that answer from a script, and a clock that is moved by hand. -/

namespace SiteBroker

/-- The scripted answers still to be given, by the queue they are in, and the time. -/
structure Rehearsal where
  now : Instant
  /-- Waiting does not move the clock. -/
  frozen : Bool := false
  cues : Std.ExtTreeMap String (List Json) := ∅
  /-- How many more calls are answered, if that is limited. -/
  callsLeft : Option Nat := none

namespace Rehearsal

/-- Puts further answers at the ends of their queues. -/
def extend (r : Rehearsal) (queues : List (String × List Json)) : Rehearsal :=
  let add := fun (cues : Std.ExtTreeMap String (List Json)) (k, more) =>
    cues.insert k (cues.getD k [] ++ more)
  { r with cues := queues.foldl add r.cues }

def advance (r : Rehearsal) (d : Duration) : Rehearsal := { r with now := r.now.after d }

/-- An error by the name of its kind. -/
def errorOf (kind detail : String) : ServiceError :=
  match kind with
  | "Connection" => .connection detail
  | "Temporary" => .temporary detail
  | "Timeout" => .timeout detail
  | "RequestFailed" => .requestFailed detail
  | "Validation" => .validation (.other detail)
  | _ => .internal detail

/-- The error that an answer stands for, if it does. -/
def error? (cue : Json) : Option ServiceError :=
  ((cue.field? "error").bind Json.str?).map fun kind =>
    errorOf kind (((cue.field? "message").bind Json.str?).getD "")

/-- Takes the next answer of a queue, once its time has passed. -/
def take (r : Rehearsal) (queue : String) : Except ServiceError (Option Json) × Rehearsal :=
  if r.callsLeft = some 0 then (.error (.internal "call limit"), r)
  else
    let r := { r with callsLeft := r.callsLeft.map (· - 1) }
    match r.cues.getD queue [] with
    | [] => (.ok none, r)
    | cue :: rest =>
      let r := { r with cues := r.cues.insert queue rest }
      let r := r.advance (((cue.field? "elapse").bind Json.natural64?).getD 0)
      match error? cue with
      | some e => (.error e, r)
      | none => (.ok (some cue), r)

/-- A list under a name in an answer; it is empty if there is none. -/
def listIn {α : Type} (read : Json → Option α) (name : String) (cue : Option Json) : List α :=
  ((cue.bind (·.field? name)).bind (Json.listOf? read)).getD []

/-- The status of a submitted task: successful after a millisecond, unless the answer says
otherwise. -/
def statusOf (request : TaskRequest) (cue : Json) : Except ValidationError TaskRecord :=
  let state := match (cue.field? "state").bind Json.str? with
    | some name => TaskState.ofName name
    | none => .ok .successful
  match state with
  | .error e => .error e
  | .ok state =>
    let dt := ((cue.field? "dt").bind Json.int?).getD 1
    TaskRecord.make request.keys (((cue.field? "task_name").bind Json.str?).getD request.taskName)
      (some state) (.ofMillis (request.timestamp.millis + dt))
      (listIn Product.ofJson? "products" (some cue))

/-- What the answer to a call says, and how far the clock moves on without one. -/
def reading : (call : Call) → Option Json → Except ServiceError call.Answer
  | .getTasks .., cue => .ok (listIn TaskRecord.ofJson? "tasks" cue)
  | .clear _, _ => .ok ()
  | .lookup _, cue => .ok ((cue.bind (·.field? "value")).filter (!·.isNull))
  | .submit request, cue =>
    match statusOf request (cue.getD (.obj [])) with
    | .ok t => .ok t
    | .error e => .error (.validation e)
  | .listPackets _, cue => .ok (listIn Packet.ofJson? "packets" cue)
  | .sendPacket _, _ => .ok ()

/-- The queue that answers a call. -/
def queueOf : Call → String
  | .getTasks .. => "get_tasks"
  | .clear _ => "clear"
  | .lookup request => "lookup:" ++ request.kind.name
  | .submit request => "submit:" ++ request.operation.name
  | .listPackets _ => "list"
  | .sendPacket _ => "send"

/-- A call for tasks that has no answer waits for as long as it may. -/
def waiting (r : Rehearsal) : Call → Rehearsal
  | .getTasks _ wait _ => r.advance (1000 * wait)
  | _ => r

def answer (call : Call) (r : Rehearsal) : Except ServiceError call.Answer × Rehearsal :=
  match r.take (queueOf call) with
  | (.error e, r) => (.error e, r)
  | (.ok none, r) => (reading call none, r.waiting call)
  | (.ok (some cue), r) => (reading call (some cue), r)

def environment : Environment Rehearsal where
  clock := {
    read := fun r => (r.now, r)
    sleep := fun d r => if r.frozen then r else r.advance d }
  answer := answer

/-- A handler whose outcomes come from the script. -/
def attend : Work Rehearsal Outcome := fun d =>
  let world := d.world.note (.attended d.job.name)
  match world.outside.take "work" with
  | (.error e, outside) => .error e { d with world := { world with outside } }
  | (.ok cue, outside) =>
    let d := { d with world := { world with outside } }
    match (cue.bind (·.field? "pending")).bind TaskRecord.ofJson? with
    | some t => .ok (.pending t) d
    | none => .ok (.reply d.job.reply) d

end Rehearsal

end SiteBroker

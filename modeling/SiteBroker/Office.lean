import SiteBroker.Snapshot
import SiteBroker.Workflow

/-! The office: a round of work on every job of the docket, replies to those that are done, and
snapshots of all. -/

namespace SiteBroker

/-- What the tasks at hand say about updates to come. -/
structure TaskExpectation where
  /-- A task is being worked on. -/
  busy : Bool
  /-- A task is not finished. -/
  pending : Bool
  deriving DecidableEq

namespace TaskExpectation

def ofTasks (tasks : List TaskRecord) : TaskExpectation :=
  let busy := tasks.any (·.state.isBusy)
  ⟨busy, busy || tasks.any (·.state.isWaiting)⟩

def delayClass (e : TaskExpectation) : DelayClass :=
  if e.busy then .imminent else if e.pending then .human else .idle

end TaskExpectation

def Docket.expected (d : Docket) : TaskExpectation := .ofTasks d.allTasks

/-- The docket, the snapshots and the world. -/
structure Office (σ : Type) where
  docket : Docket
  book : SnapshotBook
  world : World σ

namespace Office

variable {σ : Type}

/-- What becomes of a job whose work ended in a task: nothing yet, unless the task is finished. -/
def ofPending (job : Job) (t : TaskRecord) : Except BrokerError (Option Packet) :=
  match t.state with
  | .successful => .error (.handler ("handler for " ++ job.packet.type.name ++
      " returned successful task '" ++ t.name ++ "' instead of a reply"))
  | .errored => .error (.handler ("task '" ++ t.name ++ "' errored: " ++ t.message?.getD ""))
  | .failed => .ok (some (job.failureReply (t.message?.getD "task failed")))
  | _ => .ok none

/-- What becomes of a job whose work ended in an error: requests that failed or were invalid are
answered, running out of time is borne while a task is active, and all else stops the round. -/
def ofError (job : Job) (e : ServiceError) : Except BrokerError (Option Packet) :=
  match e with
  | .timeout _ => if job.active?.isSome then .ok none else .error (.service e)
  | .requestFailed detail => .ok (some (job.failureReply detail))
  | .validation v => .ok (some (job.failureReply v.message))
  | _ => .error (.service e)

/-- A round of work on one job: its reply, if there is one. -/
def attend (registry : Registry σ) (desk : Desk σ) :
    Except BrokerError (Option Packet) × Desk σ :=
  match registry.work desk.job.packet.type desk with
  | .ok (.reply p) desk => (.ok (some p), desk)
  | .ok (.pending t) desk => (ofPending desk.job t, desk)
  | .error e desk => (ofError desk.job e, desk)

/-- Writes the snapshot of a job. -/
def takeSnapshot (o : Office σ) (job : Job) (full : Bool) : Office σ :=
  let (book, record, outcome) := o.book.write job full
  { o with book, world := o.world.note (.stored job.name record outcome) }

/-- Holds the reply of a job, after its last snapshot. -/
def answer (s : Services σ) (o : Office σ) (job : Job) (reply : Packet) : Office σ :=
  let o := o.takeSnapshot job true
  let (now, world) := s.clock.read o.world
  { o with docket := o.docket.holdReply now reply, world }

/-- Serves the jobs of some transactions in turn, up to the first error. Returns the replies. -/
def serveAll (s : Services σ) (registry : Registry σ) (o : Office σ) (replies : List Packet) :
    List TransactionId → EStateM.Result BrokerError (Office σ) (List Packet)
  | [] => .ok replies o
  | id :: rest =>
    match o.docket.job? id with
    | none => serveAll s registry o replies rest
    | some job =>
      let (outcome, desk) := attend registry ⟨job, o.world⟩
      let o := { o with
        docket := o.docket.mapJob id fun _ => desk.job
        world := desk.world }
      match outcome with
      | .error e => .error e o
      | .ok none => serveAll s registry (o.takeSnapshot desk.job false) replies rest
      | .ok (some reply) =>
        serveAll s registry (o.answer s desk.job reply) (replies ++ [reply]) rest

/-- A round of work on every job, oldest packet first. Returns the replies. -/
def serve (s : Services σ) (registry : Registry σ) :
    EStateM BrokerError (Office σ) (List Packet) := fun o =>
  serveAll s registry o [] (o.docket.jobsInOrder.map (·.transactionId))

/-- Drops a transaction and its snapshots. -/
def purge (o : Office σ) (id : TransactionId) : Office σ :=
  { o with docket := o.docket.purge id, book := o.book.purge id }

end Office

end SiteBroker

import SiteBroker.Instant.Text
import SiteBroker.Packet
import SiteBroker.Progress
import SiteBroker.Task.Wire
import SiteBroker.TaskList

/-! A job: a received packet together with the local work done on its behalf. -/

namespace SiteBroker

structure Job where
  packet : Packet
  recordId : Int64
  /-- The newest time told by a delivery of the packet or by a task. -/
  timestamp : Instant
  tasks : TaskList
  progress : Progress
  recordId_eq : packet.header.recordId = some recordId

namespace Job

/-- The time of the packet itself; a packet without one is as old as time. -/
def packetTime (p : Packet) : Instant := p.header.timestamp.getD .epoch

/-- The job for a packet and the tasks already known for it. -/
def ofPacket (p : Packet) (tasks : TaskList) : Except ValidationError Job :=
  match h : p.header.recordId with
  | none => .error (.missing ["packet_rec_id"])
  | some recordId =>
    let timestamp := match tasks.latest? with
      | some t => max t (packetTime p)
      | none => packetTime p
    .ok ⟨p, recordId, timestamp, tasks, {}, h⟩

def jobId (job : Job) : String := Packet.numberText job.recordId

def transactionId (job : Job) : TransactionId := job.packet.transactionId

def packetId (job : Job) : String := job.packet.packetId

def packetTimestamp (job : Job) : Instant := packetTime job.packet

/-- The body of the packet. A packet names one resource, in a list; it is a field of its own
here. -/
def fields (job : Job) : Fields :=
  match job.packet.body["ResourceList"]? with
  | some (.arr items) => job.packet.body.insert "Resource" (items.head?.getD .null)
  | _ => job.packet.body

def field? (job : Job) (name : String) : Option Json := job.fields.present? name

/-- The text of a field that has one. -/
def fieldText? (job : Job) (name : String) : Option String :=
  ((job.field? name).bind Json.text?).filter (!·.isEmpty)

/-- The name of the job, under which its snapshot is kept. -/
def name (job : Job) : String :=
  job.packet.type.name ++ "." ++ job.transactionId.text ++ "." ++ job.packetId

/-- What ties a new task to the job. -/
def taskKeys (job : Job) : TaskKeys :=
  ⟨job.jobId, job.transactionId, job.packetId, job.packet.type.name⟩

/-- The job at a time that is not before its own. -/
def advance (job : Job) (t : Instant) : Job :=
  { job with timestamp := if job.timestamp < t then t else job.timestamp }

/-- Adds a task, or replaces it by a newer record. -/
def putTask (job : Job) (t : TaskRecord) : Job :=
  if job.tasks.covers t then job
  else { job with tasks := job.tasks.put t }.advance t.timestamp

/-- Takes in another delivery of the packet, with tasks. -/
def update (job : Job) (p : Packet) (tasks : TaskList) : Job :=
  let job := tasks.toList.foldl putTask job
  match p.header.timestamp with
  | some t => job.advance t
  | none => job

/-- Whether any of the tasks is news to the job. -/
def isNews (job : Job) (tasks : TaskList) : Bool := tasks.toList.any fun t => !job.tasks.covers t

def active? (job : Job) : Option TaskRecord := job.tasks.active?

def reply (job : Job) : Packet := job.packet.reply

def failureReply (job : Job) (message : String) : Packet := job.packet.failureReply message

/-- The text of a time in a snapshot. -/
def timeText (t : Instant) : Json := .str (t.textWith "+00:00")

/-- A task as a snapshot shows it. -/
def taskSummary (t : TaskRecord) : Json :=
  .obj [("products", .arr (t.products.map Product.toJson)), ("task_name", .str t.name),
    ("task_state", .str t.state.name), ("timestamp", timeText t.timestamp)]

/-- What every snapshot of a job tells. -/
def fixedFields (job : Job) : Fields :=
  Fields.ofList [
    ("job_id", .str job.jobId),
    ("packet_type", .str job.packet.type.name),
    ("amie_packet_timestamp", timeText job.packetTimestamp),
    ("amie_transaction_id", .str job.transactionId.text),
    ("amie_packet_rec_id", .str job.jobId),
    ("amie_packet_id", .str job.packetId),
    ("timestamp", timeText job.timestamp),
    ("tasks", .arr (job.tasks.inOrder.map taskSummary))]

/-- The full record of a job for the snapshots. -/
def record (job : Job) : Fields :=
  (job.fields.overlay job.progress.fields).overlay job.fixedFields

end Job

end SiteBroker

import SiteBroker.Job
import SiteBroker.Timer

/-! A transaction: the one packet it currently holds, its timer, and tasks set aside for packets
that it does not hold. -/

namespace SiteBroker

/-- Which way a packet goes. -/
inductive Direction where
  | incoming
  | outgoing
  deriving DecidableEq

/-- The packet a transaction holds: one to be worked on, or a reply to be sent until the remote
service has acknowledged it. -/
inductive Content where
  | incoming (job : Job)
  | outgoing (reply : Packet) (acknowledged : Bool)

namespace Content

def packet : Content → Packet
  | incoming job => job.packet
  | outgoing reply _ => reply

def job? : Content → Option Job
  | incoming job => some job
  | outgoing .. => none

end Content

/-- A packet and the timer of its transaction. -/
structure Held where
  content : Content
  timer : Timer

structure Transaction where
  id : TransactionId
  held : Option Held := none
  /-- Tasks by the id of the packet they are for. -/
  parked : Std.ExtTreeMap String TaskList := ∅

/-- What became of a packet that the remote service listed. -/
inductive Disposition where
  /-- A job was set up for it. -/
  | accepted
  /-- It is held already. -/
  | duplicate
  /-- It is the remote service's copy of the reply. -/
  | acknowledged
  /-- It is invalid and answered with failure. -/
  | rejected (message : String)
  /-- The transaction is over. -/
  | completed
  deriving DecidableEq

namespace Disposition

def name : Disposition → String
  | accepted => "Accepted"
  | duplicate => "Duplicate"
  | acknowledged => "Acknowledged"
  | rejected _ => "Rejected"
  | completed => "Completed"

def describe : Disposition → String
  | accepted => "Accepted/buffered incoming packet"
  | duplicate => "Ignoring duplicate packet"
  | acknowledged => "Remote service received our reply"
  | rejected message => "Rejected invalid packet: " ++ message
  | completed => "Got ITC packet - purging transaction"

end Disposition

namespace Transaction

def content? (t : Transaction) : Option Content := t.held.map (·.content)

def packet? (t : Transaction) : Option Packet := t.content?.map (·.packet)

def job? (t : Transaction) : Option Job := t.content?.bind (·.job?)

def timer? (t : Transaction) : Option Timer := t.held.map (·.timer)

/-- A transaction that holds nothing waits for a packet. -/
def direction (t : Transaction) : Direction :=
  match t.content? with
  | some (.outgoing ..) => .outgoing
  | _ => .incoming

def isOutgoing (t : Transaction) : Bool := t.direction == .outgoing

/-- The tasks for a packet, wherever they are. -/
def tasks? (t : Transaction) (packetId : String) : Option TaskList :=
  match t.job? with
  | some job => if job.packetId = packetId then some job.tasks else t.parked[packetId]?
  | none => t.parked[packetId]?

def allTasks (t : Transaction) : List TaskRecord :=
  (match t.job? with
    | some job => job.tasks.toList
    | none => []) ++ t.parked.values.flatMap (·.toList)

/-- Whether a task would change the job. -/
def isNews (t : Transaction) (task : TaskRecord) : Bool :=
  t.job?.any fun job => job.packetId == task.keys.packetId && !job.tasks.covers task

/-- The transaction with a change to its job. -/
def mapJob (t : Transaction) (f : Job → Job) : Transaction :=
  match t.held with
  | some ⟨.incoming job, timer⟩ => { t with held := some ⟨.incoming (f job), timer⟩ }
  | _ => t

/-- Sets a task aside. -/
def park (t : Transaction) (task : TaskRecord) : Transaction :=
  let id := task.keys.packetId
  { t with parked := t.parked.insert id ((t.parked.getD id ∅).put task) }

/-- Takes in a task: it goes to the job if it is for its packet, else it is set aside. -/
def putTask (t : Transaction) (task : TaskRecord) : Transaction :=
  match t.job? with
  | some job =>
    if job.packetId = task.keys.packetId then t.mapJob (·.putTask task) else t.park task
  | none => t.park task

/-- The tasks set aside once the job is done with, which keeps its tasks with them. -/
def retired (t : Transaction) : Std.ExtTreeMap String TaskList :=
  match t.job? with
  | some job =>
    if job.tasks.isEmpty then t.parked
    else t.parked.insert job.packetId
      ((t.parked.getD job.packetId ∅).putAll job.tasks.toList).1
  | none => t.parked

/-- The transaction with its timer set anew. -/
def rearm (t : Transaction) (waits : WaitTimes) (base : Instant) (c : DelayClass) : Transaction :=
  { t with held := t.held.map fun h => { h with timer := Timer.set waits base c } }

/-- The transaction with its reply acknowledged, which is then a person's turn. -/
def acknowledge (t : Transaction) (waits : WaitTimes) (query : Instant) : Transaction :=
  match t.held with
  | some ⟨.outgoing reply false, _⟩ =>
    { t with held := some ⟨.outgoing reply true, Timer.set waits query .human⟩ }
  | _ => t

/-- Sets up the job for a packet, with the tasks that were set aside for it. -/
def accept (t : Transaction) (waits : WaitTimes) (query : Instant) (p : Packet) :
    Except ValidationError Transaction := do
  p.validate
  let parked := t.retired
  let job ← Job.ofPacket p (parked.getD p.packetId ∅)
  return { t with
    held := some ⟨.incoming job, Timer.set waits query .human⟩
    parked := parked.erase p.packetId }

/-- Takes in a packet that the remote service listed at a time. A packet that is held already only
sets a timer anew that has run out. -/
def receive (t : Transaction) (waits : WaitTimes) (query : Instant) (p : Packet) :
    Except ValidationError (Transaction × Disposition) :=
  match t.held with
  | some h =>
    if t.isOutgoing && p.isEchoOf h.content.packet then
      .ok (t.acknowledge waits query, .acknowledged)
    else if h.content.packet.sameIdentity p then
      .ok (if h.timer.target < query then t.rearm waits query .human else t, .duplicate)
    else (t.accept waits query p).map (·, .accepted)
  | none => (t.accept waits query p).map (·, .accepted)

/-- Whether the transaction holds a reply with the identity of a packet. -/
def holdsReply (t : Transaction) (p : Packet) : Bool :=
  t.isOutgoing && t.packet?.any (·.sameIdentity p)

/-- Holds a reply, to be sent at once. One that is held already stays as it is. -/
def holdReply (t : Transaction) (now : Instant) (p : Packet) : Transaction :=
  if t.holdsReply p then t
  else { t with
    held := some ⟨.outgoing p false, Timer.immediate now⟩
    parked := t.retired }

/-- The reply, if it is time to send it or to send it again. -/
def due? (t : Transaction) (now : Instant) : Option Packet :=
  match t.held with
  | some ⟨.outgoing reply false, timer⟩ => if timer.target ≤ now then some reply else none
  | _ => none

/-- The transaction after its reply was taken for sending. -/
def afterDue (t : Transaction) (waits : WaitTimes) (now : Instant) : Transaction :=
  if (t.due? now).isSome then t.rearm waits now .imminent else t

/-- Sets a timer anew that has run out when the remote service was asked. A reply that is not
acknowledged keeps the time to send it again. -/
def refresh (t : Transaction) (waits : WaitTimes) (query : Instant) : Transaction :=
  match t.held with
  | some ⟨.outgoing _ false, _⟩ => t
  | some h => if h.timer.target ≤ query then t.rearm waits query .human else t
  | none => t

end Transaction

end SiteBroker

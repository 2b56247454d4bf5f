import Std.Data.ExtTreeSet
import SiteBroker.Transaction

/-! The docket: the live transactions by their ids. -/

namespace SiteBroker

structure Docket where
  waits : WaitTimes
  transactions : Std.ExtTreeMap TransactionId Transaction := ∅

namespace Docket

def ids (d : Docket) : List TransactionId := d.transactions.keys

def get? (d : Docket) (id : TransactionId) : Option Transaction := d.transactions[id]?

def size (d : Docket) : Nat := d.transactions.size

def isEmpty (d : Docket) : Bool := d.transactions.isEmpty

def toList (d : Docket) : List Transaction := d.transactions.values

/-- The transaction with an id, a new one if there is none. -/
def transaction (d : Docket) (id : TransactionId) : Transaction := (d.get? id).getD { id }

def set (d : Docket) (id : TransactionId) (t : Transaction) : Docket :=
  { d with transactions := d.transactions.insert id t }

/-- The docket with a change to each transaction. -/
def mapAll (d : Docket) (f : Transaction → Transaction) : Docket :=
  { d with transactions := d.transactions.map fun _ t => f t }

/-- Whether a task would change the job it is for. -/
def isNews (d : Docket) (task : TaskRecord) : Bool :=
  (d.transaction task.keys.transactionId).isNews task

/-- Takes in a task, for a transaction that may be new. -/
def putTask (d : Docket) (task : TaskRecord) : Docket :=
  let id := task.keys.transactionId
  d.set id ((d.transaction id).putTask task)

/-- Takes in tasks and tells the transactions whose jobs they changed. -/
def putTasks (d : Docket) : List TaskRecord → Docket × Std.ExtTreeSet TransactionId
  | [] => (d, ∅)
  | task :: rest =>
    let (d', changed) := (d.putTask task).putTasks rest
    (d', if d.isNews task then changed.insert task.keys.transactionId else changed)

/-- Takes in a packet that the remote service listed at a time. An invalid one is answered with
failure; one that closes its transaction is left to the caller. -/
def receive (d : Docket) (query : Instant) (p : Packet) : Docket × Disposition :=
  if p.type.closes then (d, .completed)
  else
    let id := p.transactionId
    let t := d.transaction id
    match t.receive d.waits query p with
    | .ok (t, disposition) => (d.set id t, disposition)
    | .error e =>
      (d.set id (t.holdReply query (p.failureReply e.message)), .rejected e.message)

def jobs (d : Docket) : List Job := d.toList.filterMap (·.job?)

def job? (d : Docket) (id : TransactionId) : Option Job := (d.get? id).bind (·.job?)

/-- The docket with a change to the job of a transaction. -/
def mapJob (d : Docket) (id : TransactionId) (f : Job → Job) : Docket :=
  match d.get? id with
  | some t => d.set id (t.mapJob f)
  | none => d

/-- Older packets first, those of one time by transaction. -/
def precedes (a b : Job) : Bool :=
  a.packetTimestamp < b.packetTimestamp ||
    (a.packetTimestamp == b.packetTimestamp && (compare a.transactionId b.transactionId).isLE)

def jobsInOrder (d : Docket) : List Job := d.jobs.mergeSort precedes

/-- Whether the transaction of a packet holds it as its reply. -/
def holdsReply (d : Docket) (p : Packet) : Bool := (d.transaction p.transactionId).holdsReply p

/-- Holds a reply in its transaction. -/
def holdReply (d : Docket) (now : Instant) (p : Packet) : Docket :=
  d.set p.transactionId ((d.transaction p.transactionId).holdReply now p)

/-- The replies that it is time to send. -/
def due (d : Docket) (now : Instant) : List Packet := d.toList.filterMap (·.due? now)

/-- The docket after the replies that were due have been taken for sending. -/
def afterDue (d : Docket) (now : Instant) : Docket := d.mapAll (·.afterDue d.waits now)

def refresh (d : Docket) (query : Instant) : Docket := d.mapAll (·.refresh d.waits query)

def purge (d : Docket) (id : TransactionId) : Docket :=
  { d with transactions := d.transactions.erase id }

/-- The transactions known from tasks alone. -/
def taskOnly (d : Docket) : List TransactionId :=
  (d.toList.filter (·.held.isNone)).map (·.id)

def purgeAll (d : Docket) (ids : List TransactionId) : Docket := ids.foldl purge d

def allTasks (d : Docket) : List TaskRecord := d.toList.flatMap (·.allTasks)

/-- The first time at which a transaction is due, no later than after the idle delay. -/
def target (d : Docket) (now : Instant) : Instant :=
  (d.toList.filterMap (·.timer?)).foldl (fun t timer => min t timer.target)
    (now.after d.waits.idle)

/-- A timer for the next look at the remote service. -/
def pollTimer (d : Docket) (now : Instant) : PollTimer :=
  PollTimer.ofTimer d.waits ⟨now, d.target now⟩

end Docket

end SiteBroker

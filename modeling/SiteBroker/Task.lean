import SiteBroker.Fields
import SiteBroker.Instant
import SiteBroker.Text.Blank
import SiteBroker.TransactionId

/-! Tasks: the units of work that the local service does on behalf of a packet. -/

namespace SiteBroker

inductive TaskState where
  | nascent
  | queued
  | inProgress
  | delegated
  | syncing
  | successful
  | failed
  | errored
  | cleared
  deriving DecidableEq

namespace TaskState

def all : List TaskState :=
  [nascent, queued, inProgress, delegated, syncing, successful, failed, errored, cleared]

def name : TaskState → String
  | nascent => "nascent"
  | queued => "queued"
  | inProgress => "in-progress"
  | delegated => "delegated"
  | syncing => "syncing"
  | successful => "successful"
  | failed => "failed"
  | errored => "errored"
  | cleared => "cleared"

def ofName? (name : String) : Option TaskState := all.find? (·.name == name)

def ofName (name : String) : Except ValidationError TaskState :=
  match ofName? name with
  | some state => .ok state
  | none => .error (.unknownTaskState name)

/-- A task in such a state never changes again. -/
def isTerminal : TaskState → Bool
  | successful | failed | errored | cleared => true
  | _ => false

/-- The local service is at work on the task. -/
def isBusy : TaskState → Bool
  | inProgress | delegated | syncing => true
  | _ => false

/-- The task has not been taken up yet. -/
def isWaiting : TaskState → Bool
  | nascent | queued => true
  | _ => false

end TaskState

/-- One named result of a task. -/
structure Product where
  name : String
  value : Json

namespace Product

def failedName : String := "FAILED"

def erroredName : String := "ERRORED"

end Product

/-- What ties a task to the packet it serves. -/
structure TaskKeys where
  jobId : String
  transactionId : TransactionId
  packetId : String
  packetType : String
  deriving DecidableEq

/-- What the local service reports of a task. -/
structure TaskRecord where
  keys : TaskKeys
  name : String
  state : TaskState
  timestamp : Instant
  products : List Product

namespace TaskRecord

def hasProduct (products : List Product) (name : String) : Bool := products.any (·.name == name)

/-- A task record whose state agrees with its products: a message of failure or error decides the
state, a failed or errored task needs its message, and a task without a state is nascent. -/
def make (keys : TaskKeys) (name : String) (state : Option TaskState) (timestamp : Instant)
    (products : List Product) : Except ValidationError TaskRecord :=
  let failed := hasProduct products Product.failedName
  let errored := hasProduct products Product.erroredName
  if Text.blank name then .error .blankTaskName
  else if state = some .failed ∧ !failed then
    .error (.unexplained name TaskState.failed.name Product.failedName)
  else if state = some .errored ∧ !errored then
    .error (.unexplained name TaskState.errored.name Product.erroredName)
  else
    let state :=
      if failed then .failed else if errored then .errored else state.getD .nascent
    .ok ⟨keys, name, state, timestamp, products⟩

/-- Ends a task in a state, with the message that explains it. -/
def finish (t : TaskRecord) (state : TaskState) (product message : String) :
    Except ValidationError TaskRecord :=
  if Text.blank message then .error (.blankMessage product)
  else .ok { t with state, products := t.products ++ [⟨product, .str (Text.trim message)⟩] }

def fail (t : TaskRecord) (message : String) : Except ValidationError TaskRecord :=
  t.finish .failed Product.failedName message

def error (t : TaskRecord) (message : String) : Except ValidationError TaskRecord :=
  t.finish .errored Product.erroredName message

/-- The value of the first product with a name. -/
def product? (t : TaskRecord) (name : String) : Option Json :=
  (t.products.find? (·.name == name)).map (·.value)

def productText? (t : TaskRecord) (name : String) : Option String :=
  (t.product? name).bind Json.text?

/-- The message of a failed or errored task. -/
def message? (t : TaskRecord) : Option String :=
  match t.state with
  | .failed => t.productText? Product.failedName
  | .errored => t.productText? Product.erroredName
  | _ => none

def isActive (t : TaskRecord) : Bool := !t.state.isTerminal

end TaskRecord

end SiteBroker

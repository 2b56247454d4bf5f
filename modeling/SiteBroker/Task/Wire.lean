import SiteBroker.Json.Decode
import SiteBroker.Task

/-! Tasks as JSON. Their timestamps are whole milliseconds. -/

namespace SiteBroker

namespace Product

def toJson (p : Product) : Json := .obj [("name", .str p.name), ("value", p.value)]

def ofJson? (a : Json) : Option Product := do
  let get ← a.record? ["name", "value"]
  let name ← (get "name").bind Json.str?
  let value ← get "value"
  some ⟨name, value⟩

end Product

namespace TaskState

/-- A state is its name, or an object with nothing under that name. -/
def ofJson? : Json → Option TaskState
  | .str s => ofName? s
  | .obj [(s, .null)] => ofName? s
  | _ => none

end TaskState

namespace TaskKeys

def fields (k : TaskKeys) : Fields :=
  Fields.ofList [("job_id", .str k.jobId), ("amie_transaction_id", .str k.transactionId.text),
    ("amie_packet_id", .str k.packetId), ("amie_packet_type", .str k.packetType)]

def toJson (k : TaskKeys) : Json := k.fields.toJson

def ofFields? (get : String → Option Json) : Option TaskKeys := do
  let jobId ← (get "job_id").bind Json.str?
  let id ← (get "amie_transaction_id").bind Json.str?
  let transactionId ← TransactionId.parse? id
  let packetId ← (get "amie_packet_id").bind Json.str?
  let packetType ← (get "amie_packet_type").bind Json.str?
  some ⟨jobId, transactionId, packetId, packetType⟩

def ofJson? (a : Json) : Option TaskKeys :=
  (a.record? ["job_id", "amie_transaction_id", "amie_packet_id", "amie_packet_type"]).bind ofFields?

end TaskKeys

namespace TaskRecord

def instant? (a : Json) : Option Instant := a.int?.bind Instant.ofMillis?

def toJson (t : TaskRecord) : Json :=
  (t.keys.fields.overlay (Fields.ofList [
    ("task_name", .str t.name),
    ("task_state", .str t.state.name),
    ("timestamp", .int t.timestamp.millis),
    ("products", .arr (t.products.map Product.toJson))])).toJson

/-- The record an object stands for, if state and products agree in it. -/
def ofJson? : Json → Option TaskRecord
  | .obj entries => do
    let get := fun name => Json.field? name (.obj entries)
    let keys ← TaskKeys.ofFields? get
    let name ← (get "task_name").bind Json.str?
    let state ← Json.optional? TaskState.ofJson? (get "task_state")
    let timestamp ← (get "timestamp").bind instant?
    let products ← match get "products" with
      | none => some []
      | some a => a.listOf? Product.ofJson?
    (make keys name state timestamp products).toOption
  | _ => none

end TaskRecord

end SiteBroker

import SiteBroker.Operation
import SiteBroker.Task.Wire

/-! Requests to the local service, checked against the tables of what they ask for. -/

namespace SiteBroker

/-- A request to do some work as a task. -/
structure TaskRequest where
  operation : Operation
  keys : TaskKeys
  taskName : String
  timestamp : Instant
  fields : Fields

namespace TaskRequest

/-- A request with exactly the given fields. -/
def build (operation : Operation) (keys : TaskKeys) (taskName : String) (timestamp : Instant)
    (fields : Fields) : Except ValidationError TaskRequest :=
  match operation.table.check fields with
  | .ok () => .ok ⟨operation, keys, taskName, timestamp, fields⟩
  | .error e => .error e

/-- A request with those of the given fields that the operation accepts. -/
def ofPacketFields (operation : Operation) (keys : TaskKeys) (taskName : String)
    (timestamp : Instant) (fields : Fields) : Except ValidationError TaskRequest :=
  build operation keys taskName timestamp (operation.table.project fields)

def toJson (r : TaskRequest) : Json :=
  let own := Fields.ofList
    [("task_name", .str r.taskName), ("timestamp", .int r.timestamp.millis)]
  (r.keys.fields.overlay (own.overlay r.fields)).toJson

end TaskRequest

/-- A request to look something up. -/
structure LookupRequest where
  kind : LookupKind
  fields : Fields

namespace LookupRequest

/-- A lookup with exactly the given fields. -/
def build (kind : LookupKind) (fields : Fields) : Except ValidationError LookupRequest :=
  match kind.table.check fields with
  | .ok () => .ok ⟨kind, fields⟩
  | .error e => .error e

/-- A lookup with those of the given fields that it accepts. -/
def ofPacketFields (kind : LookupKind) (fields : Fields) : Except ValidationError LookupRequest :=
  build kind (kind.table.project fields)

def toJson (r : LookupRequest) : Json := r.fields.toJson

end LookupRequest

end SiteBroker

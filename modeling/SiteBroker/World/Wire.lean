import SiteBroker.Packet.Wire
import SiteBroker.World

/-! Events as JSON, the form in which they are logged. -/

namespace SiteBroker

def Call.toJson : Call → Json
  | .getTasks active wait since => .obj [("active", .bool active), ("call", .str "get_tasks"),
      ("since", Json.ofOption (fun t => .int t.millis) since), ("wait", .int wait)]
  | .clear id => .obj [("call", .str "clear"), ("id", .str id.text)]
  | .lookup r => .obj [("call", .str "lookup"), ("kind", .str r.kind.name), ("request", r.toJson)]
  | .submit r => .obj [("call", .str "submit"), ("operation", .str r.operation.name),
      ("request", r.toJson)]
  | .listPackets since => .obj [("call", .str "list"),
      ("since", Json.ofOption (fun t => .int t.millis) since)]
  | .sendPacket p => .obj [("call", .str "send"), ("packet", p.toJson)]

namespace Event

/-- An event; `fileError` writes why a snapshot was not stored. -/
def toJson (fileError : FileError → Json) : Event → Json
  | .slept d => .obj [("call", .str "sleep"), ("ms", .int d)]
  | .called c _ => c.toJson
  | .attended job => .obj [("apacket", .str job), ("call", .str "work")]
  | .stored key record outcome => .obj [("call", .str "snapshot"),
      ("changed", match outcome with
        | .ok changed => .bool changed
        | .error e => fileError e),
      ("key", .str key), ("record", Fields.toJson record)]

end Event

end SiteBroker

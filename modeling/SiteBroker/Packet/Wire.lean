import SiteBroker.Instant.Text
import SiteBroker.Json.Decode
import SiteBroker.Packet

/-! Packets as JSON, the form in which they travel. -/

namespace SiteBroker

namespace PacketHeader

def fieldNames : List String :=
  ["packet_rec_id", "packet_id", "transaction_id", "originating_site_name", "remote_site_name",
    "local_site_name", "packet_timestamp", "packet_state", "in_reply_to"]

def ofInt64 (n : Int64) : Json := .int n.toInt

/-- The header as an object; parts that are not there are left out. -/
def toJson (h : PacketHeader) : Json :=
  (Fields.ofOptions [
    ("packet_rec_id", h.recordId.map ofInt64),
    ("packet_id", some (ofInt64 h.packetId)),
    ("transaction_id", some (ofInt64 h.transactionNumber)),
    ("originating_site_name", some (.str h.originatingSite)),
    ("remote_site_name", some (.str h.remoteSite)),
    ("local_site_name", some (.str h.localSite)),
    ("packet_timestamp", h.timestamp.map fun t => .str t.text),
    ("packet_state", h.state.map .str),
    ("in_reply_to", h.inReplyTo.map ofInt64)]).toJson

def ofJson? (a : Json) : Option PacketHeader := do
  let get ← a.record? fieldNames
  let recordId ← Json.optional? Json.int64? (get "packet_rec_id")
  let packetId ← (get "packet_id").bind Json.int64?
  let transactionNumber ← (get "transaction_id").bind Json.int64?
  let originatingSite ← (get "originating_site_name").bind Json.str?
  let remoteSite ← (get "remote_site_name").bind Json.str?
  let localSite ← (get "local_site_name").bind Json.str?
  let timestamp ← Json.optional? (fun a => a.str?.bind Instant.parse?) (get "packet_timestamp")
  let state ← Json.optional? Json.str? (get "packet_state")
  let inReplyTo ← Json.optional? Json.int64? (get "in_reply_to")
  some { recordId, packetId, transactionNumber, originatingSite, remoteSite, localSite, timestamp,
         state, inReplyTo }

end PacketHeader

namespace Packet

def fieldNames : List String := ["type", "header", "body"]

def toJson (p : Packet) : Json :=
  .obj [("body", p.body.toJson), ("header", p.header.toJson), ("type", .str p.type.name)]

/-- A packet without a body has an empty one. -/
def ofJson? (a : Json) : Option Packet := do
  let get ← a.record? fieldNames
  let name ← (get "type").bind Json.str?
  let header ← (get "header").bind PacketHeader.ofJson?
  let body ← match get "body" with
    | none => some ∅
    | some b => Fields.ofJson? b
  some ⟨.ofName name, header, body⟩

end Packet

end SiteBroker

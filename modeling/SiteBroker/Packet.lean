import SiteBroker.Fields
import SiteBroker.Instant
import SiteBroker.PacketType
import SiteBroker.Text.Blank
import SiteBroker.TransactionId

/-! Packets: the messages exchanged with the remote service, and the replies built from them. -/

namespace SiteBroker

structure PacketHeader where
  recordId : Option Int64
  packetId : Int64
  transactionNumber : Int64
  originatingSite : String
  remoteSite : String
  localSite : String
  timestamp : Option Instant
  state : Option String
  inReplyTo : Option Int64
  deriving DecidableEq

structure Packet where
  type : PacketType
  header : PacketHeader
  body : Fields

namespace Packet

/-- Equality of packets, with numbers in their bodies compared as numbers. -/
def same (p q : Packet) : Bool :=
  p.type == q.type && p.header == q.header && Fields.same p.body q.body

def numberText (n : Int64) : String := toString n.toInt

def transactionId (p : Packet) : TransactionId :=
  ⟨p.header.originatingSite, p.header.remoteSite, p.header.localSite,
    numberText p.header.transactionNumber⟩

/-- The id under which the local service knows the work for a packet: its record at the remote
service. -/
def jobId? (p : Packet) : Option String := p.header.recordId.map numberText

def packetId (p : Packet) : String := numberText p.header.packetId

def label (p : Packet) : String :=
  p.type.name ++ ":" ++ p.transactionId.text ++ ":" ++ p.packetId

def isAddressedTo (p : Packet) (site : String) : Bool := p.header.remoteSite == site

def expectsReply (p : Packet) : Bool := !p.type.expectedReplies.isEmpty

def get? (p : Packet) (name : String) : Option Json := p.body.present? name

def set (p : Packet) (name : String) (value : Json) : Packet :=
  { p with body := p.body.insert name value }

/-- Same sites, transaction, record and type. -/
def sameIdentity (p q : Packet) : Bool :=
  p.header.originatingSite == q.header.originatingSite &&
    p.header.localSite == q.header.localSite && p.header.remoteSite == q.header.remoteSite &&
    p.header.transactionNumber == q.header.transactionNumber &&
    p.header.recordId == q.header.recordId && p.type == q.type

/-- Whether a packet is the remote service's copy of one that was sent. -/
def isEchoOf (p sent : Packet) : Bool :=
  p.type == sent.type && p.header.originatingSite == sent.header.originatingSite &&
    p.header.transactionNumber == sent.header.transactionNumber &&
    p.header.packetId == sent.header.packetId

/-- Whether a field counts as filled in: null, blank text and an empty list do not. -/
def isFilled : Option Json → Bool
  | none | some .null => false
  | some (.str s) => !Text.blank s
  | some (.arr items) => !items.isEmpty
  | some _ => true

/-- The required parts of a packet that are not there. -/
def missingFields (p : Packet) : List String :=
  (if p.header.recordId.isNone then ["packet_rec_id"] else []) ++
    p.type.requiredFields.filter fun name => !isFilled p.body[name]?

/-- Checks that a packet carries what its type requires. -/
def validate (p : Packet) : Except ValidationError Unit :=
  match p.missingFields with
  | [] => .ok ()
  | missing => .error (.incompletePacket missing)

/-- What is added to the id of a packet for the id of its reply, to keep the ids that the two
sides give apart. -/
def replyOffset : Int64 := 1000

def replyHeader (p : Packet) : PacketHeader :=
  { p.header with
    recordId := none
    packetId := p.header.packetId + replyOffset
    timestamp := none
    state := none
    inReplyTo := p.header.recordId }

/-- The packet that closes a transaction, with the outcome it reports. -/
def closing (header : PacketHeader) (status : String) (detail : Int) (message : String) : Packet :=
  ⟨.informTransactionComplete, header, Fields.ofList
    [("StatusCode", .str status), ("DetailCode", .int detail), ("Message", .str message)]⟩

/-- The reply the exchange lays down. Types without one are answered by closing the transaction
with success. -/
def reply (p : Packet) : Packet :=
  match p.type.expectedReplies with
  | t :: _ =>
    if t.closes then closing p.replyHeader "Success" 1 "Success" else ⟨t, p.replyHeader, ∅⟩
  | [] => closing p.replyHeader "Success" 1 "Success"

/-- The reply that reports failure and closes the transaction. -/
def failureReply (p : Packet) (message : String) : Packet :=
  closing p.replyHeader "Failed" 2 message

end Packet

end SiteBroker

import SiteBroker.Http.Url
import SiteBroker.Json.Parser
import SiteBroker.Packet.Wire
import SiteBroker.Settings
import SiteBroker.World

/-! The services over HTTP: the request that a call becomes, and what the answer to it means. -/

namespace SiteBroker

/-- Where the services are, and who asks. -/
structure Endpoints where
  localBase : String
  remoteBase : String
  siteName : String
  apiKey : String

def Endpoints.ofSettings (settings : Settings) (apiKey : String) : Endpoints where
  localBase := settings.localSide.baseUrl
  remoteBase := settings.remote.baseUrl
  siteName := settings.remote.siteName
  apiKey

namespace Http

inductive Method where
  | get
  | post
  deriving DecidableEq

structure Request where
  method : Method
  url : Url
  headers : List (String × String) := []
  body : Option Json := none

/-- What comes back for a request. -/
inductive Outcome where
  | response (status : Nat) (body : String)
  /-- Nobody accepted the connection. -/
  | refused
  /-- The connection was closed without a response. -/
  | closed
  /-- The response took too long. -/
  | timedOut

def trimSlashes (s : String) : String :=
  String.ofList ((s.toList.reverse.dropWhile (· == '/')).reverse)

/-- Whether a text can be the value of a header. -/
def isHeaderValue (s : String) : Bool :=
  s.toList.all fun c => c == '\t' || (0x20 ≤ c.toNat && c.toNat != 0x7F)

/-- The address under a base, and the names and values in its query. -/
def address (e : Endpoints) : Call → String × List (String × String)
  | .getTasks active wait since =>
    (trimSlashes e.localBase ++ "/tasks",
      [("active", if active then "true" else "false"), ("wait", toString wait)] ++
        since.toList.map fun t => ("since", toString t.millis))
  | .clear id => (trimSlashes e.localBase ++ "/transactions/" ++ id.text ++ "/clear", [])
  | .lookup r => (trimSlashes e.localBase ++ "/lookup/" ++ r.kind.name, [])
  | .submit r => (trimSlashes e.localBase ++ "/tasks/" ++ r.operation.name, [])
  | .listPackets since =>
    (trimSlashes e.remoteBase ++ "/packets/" ++ e.siteName ++ "/",
      since.toList.map fun t => ("update_time_start", t.secondText))
  | .sendPacket _ => (trimSlashes e.remoteBase ++ "/packets/" ++ e.siteName ++ "/", [])

/-- What a call has to say beside its address. -/
def content? : Call → Option Json
  | .lookup r => some r.toJson
  | .submit r => some r.toJson
  | .sendPacket p => some p.toJson
  | .getTasks .. | .clear _ | .listPackets _ => none

def method : Call → Method
  | .getTasks .. | .listPackets _ => .get
  | .clear _ | .lookup _ | .submit _ | .sendPacket _ => .post

/-- The headers that tell the remote service who asks. -/
def identification (e : Endpoints) : Side → List (String × String)
  | .local => []
  | .remote => [("xa-site", e.siteName), ("xa-api-key", e.apiKey)]

/-- The request that a call becomes, if there is an address for it. -/
def request? (e : Endpoints) (call : Call) : Option Request :=
  let (base, entries) := address e call
  let identity := identification e call.side
  let body := content? call
  if identity.all fun (_, value) => isHeaderValue value then
    (Url.parse? base).map fun url => {
      method := method call
      url := if entries.isEmpty then url else url.withQuery entries
      headers := identity ++ body.toList.map fun _ => ("content-type", "application/json")
      body }
  else none

/-- The packets in the answer to a listing; there may be none. -/
def listing? (a : Json) : Option (List Packet) := do
  let get ← a.record? ["result"]
  match get "result" with
  | none => some []
  | some packets => packets.listOf? Packet.ofJson?

/-- Reads the answer to a call. -/
def reading? : (call : Call) → (body : String) → Option call.Answer
  | .getTasks .., body => (Json.parse? body).bind (Json.listOf? TaskRecord.ofJson?)
  | .clear _, _ => some ()
  | .lookup _, body => (Json.parse? body).map fun a => if a.isNull then none else some a
  | .submit _, body => (Json.parse? body).bind TaskRecord.ofJson?
  | .listPackets _, body => (Json.parse? body).bind listing?
  | .sendPacket _, _ => some ()

/-- The text of a response without a mark of its byte order. -/
def textOf (body : String) : String :=
  match body.toList with
  | c :: cs => if c.toNat = 0xFEFF then String.ofList cs else body
  | [] => body

/-- What a response to a call means by its status. A response with status 204 or 304 has no
body. -/
def judge (call : Call) (status : Nat) (body : String) : Except ServiceError call.Answer :=
  let body := if status = 204 ∨ status = 304 then "" else body
  if 200 ≤ status ∧ status < 300 then
    match reading? call body with
    | some a => .ok a
    | none => .error (.internal "Undecodable response: error decoding response body")
  else .error (.ofStatus status (textOf body))

/-- What a response to a call means. A lookup finds nothing if the address is not known. -/
def meaning (call : Call) (status : Nat) (body : String) : Except ServiceError call.Answer :=
  match call with
  | .lookup r => if status = 404 then .ok none else judge (.lookup r) status body
  | call => judge call status body

/-- What the outcome of a request means for its call. -/
def interpret (call : Call) (url : Url) : Outcome → Except ServiceError call.Answer
  | .response status body => meaning call status body
  | .refused | .timedOut =>
    .error (.connection ("error sending request for url (" ++ url.text ++ ")"))
  | .closed => .error (.temporary ("error sending request for url (" ++ url.text ++ ")"))

/-- A call over HTTP, by something that exchanges a request for its outcome. -/
def answer {σ : Type} (e : Endpoints) (exchange : Request → σ → Outcome × σ) (call : Call)
    (s : σ) : Except ServiceError call.Answer × σ :=
  match request? e call with
  | none => (.error (.temporary "builder error"), s)
  | some request =>
    let (outcome, s) := exchange request s
    (interpret call request.url outcome, s)

/-- The services over HTTP as an environment. -/
def environment {σ : Type} (e : Endpoints) (clock : Clock σ)
    (exchange : Request → σ → Outcome × σ) : Environment σ where
  clock
  answer := answer e exchange

end Http

end SiteBroker

import SiteBroker.Packet
import SiteBroker.Request
import SiteBroker.Retry

/-! The services outside: what they can be asked, what is known of their answers, and how a call
reaches them. -/

namespace SiteBroker

/-- The two sides that the broker stands between. -/
inductive Side where
  | local
  | remote
  deriving DecidableEq

def Side.name : Side → String
  | .local => "local"
  | .remote => "remote"

/-- A call of one of the two services. -/
inductive Call where
  /-- The tasks that changed since a time, waiting so many seconds for a change. -/
  | getTasks (active : Bool) (wait : Nat) (since : Option Instant)
  /-- Drop the records of a finished transaction. -/
  | clear (id : TransactionId)
  | lookup (request : LookupRequest)
  | submit (request : TaskRequest)
  /-- The packets that changed since a time. -/
  | listPackets (since : Option Instant)
  | sendPacket (packet : Packet)

namespace Call

def side : Call → Side
  | getTasks .. | clear _ | lookup _ | submit _ => .local
  | listPackets _ | sendPacket _ => .remote

/-- What a call that succeeds returns. -/
def Answer : Call → Type
  | getTasks .. => List TaskRecord
  | clear _ => Unit
  | lookup _ => Option Json
  | submit _ => TaskRecord
  | listPackets _ => List Packet
  | sendPacket _ => Unit

end Call

/-- The services and the clock as states of some type that only they understand. -/
structure Environment (σ : Type) where
  clock : Clock σ
  answer : (call : Call) → σ → Except ServiceError call.Answer × σ

/-- What has happened between the broker and the world. -/
inductive Event where
  | slept (duration : Duration)
  | called (call : Call) (outcome : Except ServiceError call.Answer)
  | attended (job : String)
  | stored (key : String) (record : Fields) (outcome : Except FileError Bool)

/-- The services as the broker uses them. -/
structure Services (σ : Type) where
  environment : Environment σ
  localPolicy : RetryPolicy
  remotePolicy : RetryPolicy
  /-- The name of the site for the task of an operation, if it supports the operation. -/
  taskName? : Operation → Option String

/-- The state of the services, the failures of the two lines to them, and all events so far. -/
structure World (σ : Type) where
  outside : σ
  localEpisode : Option Episode := none
  remoteEpisode : Option Episode := none
  log : List Event := []

namespace World

variable {σ : Type}

def note (w : World σ) (e : Event) : World σ := { w with log := w.log ++ [e] }

def episode (w : World σ) : Side → Option Episode
  | .local => w.localEpisode
  | .remote => w.remoteEpisode

def setEpisode (w : World σ) (episode : Option Episode) : Side → World σ
  | .local => { w with localEpisode := episode }
  | .remote => { w with remoteEpisode := episode }

end World

namespace Services

variable {σ : Type} (s : Services σ)

def policy : Side → RetryPolicy
  | .local => s.localPolicy
  | .remote => s.remotePolicy

/-- The clock of the environment; waiting on it is an event. -/
def clock : Clock (World σ) where
  read w :=
    let (now, outside) := s.environment.clock.read w.outside
    (now, { w with outside })
  sleep d w := { w with outside := s.environment.clock.sleep d w.outside }.note (.slept d)

/-- Puts a call to the environment. -/
def ask (call : Call) (w : World σ) : Except ServiceError call.Answer × World σ :=
  let (outcome, outside) := s.environment.answer call w.outside
  (outcome, { w with outside }.note (.called call outcome))

/-- One attempt at a call, over the line to its side. -/
def call (call : Call) : EStateM ServiceError (World σ) call.Answer := fun w =>
  let (outcome, episode, w) :=
    (s.policy call.side).attempt s.clock (s.ask call) (w.episode call.side) w
  match outcome with
  | .ok a => .ok a (w.setEpisode episode call.side)
  | .error e => .error e (w.setEpisode episode call.side)

def now {ε : Type} : EStateM ε (World σ) Instant := fun w =>
  let (now, w) := s.clock.read w
  .ok now w

end Services

end SiteBroker

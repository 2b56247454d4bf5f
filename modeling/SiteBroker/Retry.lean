import SiteBroker.Error
import SiteBroker.Instant

/-! Calls that fail for a while: each further attempt waits first, and in the end a failure is
final. -/

namespace SiteBroker

/-- How the calls of one service are repeated. -/
structure RetryPolicy where
  name : String
  minDelay : Duration := 60000
  maxDelay : Duration := 3600000
  timeMax : Duration := 14400000

/-- A series of transient failures: the wait before the next attempt, and the time after which a
further failure is final. -/
structure Episode where
  delay : Duration
  deadline : Instant
  deriving DecidableEq

/-- A clock inside a world: reading it and waiting both may change the world. -/
structure Clock (ω : Type) where
  read : ω → Instant × ω
  sleep : Duration → ω → ω

namespace RetryPolicy

/-- A transient failure seen from outside. -/
def transient (policy : RetryPolicy) : ServiceError → ServiceError
  | .temporary detail => .temporary detail
  | e => .temporary (policy.name ++ ": " ++ e.message)

/-- What a transient failure at a time is reported as, and the episode after it. -/
def onFailure (policy : RetryPolicy) (episode : Option Episode) (now : Instant)
    (e : ServiceError) : ServiceError × Option Episode :=
  match episode with
  | none => (policy.transient e, some ⟨policy.minDelay, now.after policy.timeMax⟩)
  | some ep =>
    if ep.deadline < now then (.timeout (policy.name ++ ": " ++ e.message), none)
    else (policy.transient e, some { ep with delay := min (2 * ep.delay) policy.maxDelay })

/-- One attempt at a call, after the wait that the episode asks for. Success ends the episode;
failures that are not transient leave it alone. -/
def attempt {ω α : Type} (policy : RetryPolicy) (clock : Clock ω)
    (call : ω → Except ServiceError α × ω) (episode : Option Episode) (w : ω) :
    Except ServiceError α × Option Episode × ω :=
  let w := match episode with
    | some ep => clock.sleep ep.delay w
    | none => w
  match call w with
  | (.ok a, w) => (.ok a, none, w)
  | (.error e, w) =>
    if e.isTransient then
      let (now, w) := clock.read w
      let (e, episode) := policy.onFailure episode now e
      (.error e, episode, w)
    else (.error e, episode, w)

end RetryPolicy

end SiteBroker

import Std.Data.ExtTreeMap
import SiteBroker.Operation
import SiteBroker.Retry
import SiteBroker.Text.Blank
import SiteBroker.Timer

/-! What can be set about the broker, and the defaults. -/

namespace SiteBroker

/-- A time of so many seconds. -/
def seconds (n : Nat) : Duration := 1000 * n

/-- The delays of repeated calls, in seconds. -/
structure RetrySettings where
  minDelay : Nat := 60
  maxDelay : Nat := 3600
  timeMax : Nat := 14400

/-- How the calls of a service are repeated. -/
def RetrySettings.policy (r : RetrySettings) (name : String) : RetryPolicy :=
  ⟨name, seconds r.minDelay, seconds r.maxDelay, seconds r.timeMax⟩

/-- What is set about the remote service. Delays are in seconds. -/
structure RemoteSettings where
  /-- The site the broker works for; packets for others are left alone. -/
  siteName : String := ""
  baseUrl : String := "https://amieclient.xsede.org/v0.10"
  /-- The environment variable that holds the API key. -/
  apiKeyVariable : String := "AMIE_API_KEY"
  timeoutMs : Nat := 60000
  retry : RetrySettings := {}
  idleDelay : Nat := 3600
  busyDelay : Nat := 60
  replyDelay : Nat := 10

/-- What is set about the local service. Delays are in seconds. -/
structure LocalSettings where
  baseUrl : String := "http://localhost:8080/amie"
  timeoutMs : Nat := 60000
  retry : RetrySettings := {}
  absentTaskDelay : Nat := 21600
  queuedTaskDelay : Nat := 600
  busyTaskDelay : Nat := 60
  /-- The names of the site for its tasks, by operation, where they differ. -/
  taskNames : Std.ExtTreeMap String String := ∅
  /-- The names of the operations that the site does not support. -/
  unsupported : List String := []

structure Settings where
  remote : RemoteSettings := {}
  localSide : LocalSettings := {}
  snapshotFolder : String := "/tmp/amiemediator"
  logLevel : Option String := none

/-- What makes it impossible to start. -/
inductive SetupError where
  | noSiteName
  | noApiKey (name : String)
  | variableNotSet (name : String)
  deriving DecidableEq

def SetupError.message : SetupError → String
  | .noSiteName => "amie.site-name must be set"
  | .noApiKey name =>
    "AMIE API key not found. Set the " ++ name ++ " environment variable."
  | .variableNotSet name => "Environment variable " ++ name ++ " not set"

/-- The values of the environment variables that are set. -/
abbrev Variables : Type := String → Option String

namespace RemoteSettings

def waits (r : RemoteSettings) : WaitTimes :=
  ⟨seconds r.replyDelay, seconds r.busyDelay, seconds r.idleDelay⟩

def apiKey (r : RemoteSettings) (vars : Variables) : Except SetupError String :=
  match vars r.apiKeyVariable with
  | some key => .ok key
  | none => .error (.variableNotSet r.apiKeyVariable)

end RemoteSettings

namespace LocalSettings

def waits (l : LocalSettings) : WaitTimes :=
  ⟨seconds l.busyTaskDelay, seconds l.queuedTaskDelay, seconds l.absentTaskDelay⟩

/-- The name of the site for the task of an operation, if it supports the operation. -/
def taskName? (l : LocalSettings) (o : Operation) : Option String :=
  if l.unsupported.contains o.name then none
  else some (l.taskNames.getD o.name o.name)

end LocalSettings

/-- Checks what has to be there before a start: a site name that is not blank, and an API key. -/
def Settings.validate (s : Settings) (vars : Variables) : Except SetupError Unit :=
  if Text.blank s.remote.siteName then .error .noSiteName
  else if (vars s.remote.apiKeyVariable).isNone then .error (.noApiKey s.remote.apiKeyVariable)
  else .ok ()

end SiteBroker

import SiteBroker.Fields
import SiteBroker.Settings
import SiteBroker.Settings.Format

/-! Settings as they are written in files. A field that is left out keeps its default, and
further fields are ignored. -/

namespace SiteBroker

open SettingsFormat

namespace RemoteSettings

def fieldNames : List String :=
  ["site-name", "base-url", "api-key-env", "timeout-ms", "min-retry-delay", "max-retry-delay",
    "retry-time-max", "idle-loop-delay", "busy-loop-delay", "reply-delay"]

def toJson (r : RemoteSettings) : Json :=
  (Fields.ofList [
    ("site-name", .str r.siteName),
    ("base-url", .str r.baseUrl),
    ("api-key-env", .str r.apiKeyVariable),
    ("timeout-ms", .int r.timeoutMs),
    ("min-retry-delay", .int r.retry.minDelay),
    ("max-retry-delay", .int r.retry.maxDelay),
    ("retry-time-max", .int r.retry.timeMax),
    ("idle-loop-delay", .int r.idleDelay),
    ("busy-loop-delay", .int r.busyDelay),
    ("reply-delay", .int r.replyDelay)]).toJson

def read? {α : Type} (format : SettingsFormat α) (a : α) : Option RemoteSettings := do
  let get ← format.record fieldNames a
  let text := orDefault format.text
  let natural := orDefault format.natural
  let d : RemoteSettings := {}
  some {
    siteName := ← text d.siteName (get "site-name")
    baseUrl := ← text d.baseUrl (get "base-url")
    apiKeyVariable := ← text d.apiKeyVariable (get "api-key-env")
    timeoutMs := ← natural d.timeoutMs (get "timeout-ms")
    retry := {
      minDelay := ← natural d.retry.minDelay (get "min-retry-delay")
      maxDelay := ← natural d.retry.maxDelay (get "max-retry-delay")
      timeMax := ← natural d.retry.timeMax (get "retry-time-max") }
    idleDelay := ← natural d.idleDelay (get "idle-loop-delay")
    busyDelay := ← natural d.busyDelay (get "busy-loop-delay")
    replyDelay := ← natural d.replyDelay (get "reply-delay") }

end RemoteSettings

namespace LocalSettings

def fieldNames : List String :=
  ["base-url", "timeout-ms", "min-retry-delay", "max-retry-delay", "retry-time-max",
    "absent-task-loop-delay", "queued-task-loop-delay", "busy-task-loop-delay", "task-names",
    "unsupported"]

def toJson (l : LocalSettings) : Json :=
  (Fields.ofList [
    ("base-url", .str l.baseUrl),
    ("timeout-ms", .int l.timeoutMs),
    ("min-retry-delay", .int l.retry.minDelay),
    ("max-retry-delay", .int l.retry.maxDelay),
    ("retry-time-max", .int l.retry.timeMax),
    ("absent-task-loop-delay", .int l.absentTaskDelay),
    ("queued-task-loop-delay", .int l.queuedTaskDelay),
    ("busy-task-loop-delay", .int l.busyTaskDelay),
    ("task-names", Fields.toJson (l.taskNames.map fun _ name => .str name)),
    ("unsupported", .arr (l.unsupported.map .str))]).toJson

def read? {α : Type} (format : SettingsFormat α) (a : α) : Option LocalSettings := do
  let get ← format.record fieldNames a
  let natural := orDefault format.natural
  let d : LocalSettings := {}
  some {
    baseUrl := ← orDefault format.text d.baseUrl (get "base-url")
    timeoutMs := ← natural d.timeoutMs (get "timeout-ms")
    retry := {
      minDelay := ← natural d.retry.minDelay (get "min-retry-delay")
      maxDelay := ← natural d.retry.maxDelay (get "max-retry-delay")
      timeMax := ← natural d.retry.timeMax (get "retry-time-max") }
    absentTaskDelay := ← natural d.absentTaskDelay (get "absent-task-loop-delay")
    queuedTaskDelay := ← natural d.queuedTaskDelay (get "queued-task-loop-delay")
    busyTaskDelay := ← natural d.busyTaskDelay (get "busy-task-loop-delay")
    taskNames := ← orDefault format.textsByName d.taskNames (get "task-names")
    unsupported := ← orDefault format.texts d.unsupported (get "unsupported") }

def ofJson? : Json → Option LocalSettings := read? Json.settingsFormat

end LocalSettings

namespace Settings

def fieldNames : List String := ["amie", "local", "snapshot-dir", "log-level"]

def toJson (s : Settings) : Json :=
  (Fields.ofList [
    ("amie", s.remote.toJson),
    ("local", s.localSide.toJson),
    ("snapshot-dir", .str s.snapshotFolder),
    ("log-level", Json.ofOption .str s.logLevel)]).toJson

def read? {α : Type} (format : SettingsFormat α) (a : α) : Option Settings := do
  let get ← format.record fieldNames a
  let d : Settings := {}
  some {
    remote := ← orDefault (RemoteSettings.read? format) d.remote (get "amie")
    localSide := ← orDefault (LocalSettings.read? format) d.localSide (get "local")
    snapshotFolder := ← orDefault format.text d.snapshotFolder (get "snapshot-dir")
    logLevel := ← orDefault format.optionalText d.logLevel (get "log-level") }

/-- The settings in the text of a file. -/
def ofText? (text : String) : Option Settings := do read? Yaml.settingsFormat (← Yaml.parse? text)

/-- The texts of the files that settings are looked for in; one that is not there has none. -/
structure Files where
  /-- The file in the working folder. -/
  project : Option String := none
  /-- The file of the user. -/
  user : Option String := none

/-- The settings of the file that was asked for, or else of the first file that holds settings,
or else the defaults. -/
def load (files : Files) (named : Option (Option String)) : Option Settings :=
  match named with
  | some text => text.bind ofText?
  | none => some (((files.project.bind ofText?) <|> (files.user.bind ofText?)).getD {})

end Settings

end SiteBroker

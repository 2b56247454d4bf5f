import SiteBroker.Http
import SiteBroker.Session
import SiteBroker.Startup
import Std.Time.DateTime.Timestamp

/-! The program: it reads the files that an invocation needs, carries it out, and tells how that
went. Where there is no line to the services, every request is refused. -/

namespace SiteBroker.Program

/-- The text of a file that can be read. -/
def textOf? (path : String) : IO (Option String) := do
  try return some (← IO.FS.readFile path)
  catch _ => return none

/-- The files at some paths. -/
def filesAt (paths : List String) : IO (List (String × String)) := do
  paths.filterMapM fun path => do return (← textOf? path).map (path, ·)

/-- The files of a folder. One that cannot be read counts as empty. -/
def filesIn (folder : String) : IO (List (String × String)) := do
  try
    let entries ← (← IO.FS.realPath folder).readDir
    entries.toList.mapM fun entry => do
      let path := Session.inside folder entry.fileName
      return (path, (← textOf? path).getD "")
  catch _ => filesAt [folder]

/-- A folder of the user: the one that a variable names, or the usual one. -/
def userFolder (name usual : String) : IO String := do
  match ← IO.getEnv name with
  | some folder => if folder.startsWith "/" then return folder
  | none => pure ()
  return ((← IO.getEnv "HOME").getD "") ++ "/" ++ usual

/-- The time of day of the system. -/
def now : IO Instant := do
  let nanos := (← Std.Time.Timestamp.now).toNanosecondsSinceUnixEpoch.val
  return .ofNanos (nanos / 1000000000) (nanos % 1000000000).toNat

/-- A clock that only waiting moves. -/
def clock : Clock Instant where
  read t := (t, t)
  sleep d t := t.after d

/-- The services where there is no line to them. -/
def services (settings : Settings) (apiKey : String) : Environment Instant :=
  Http.environment (.ofSettings settings apiKey) clock fun _ t => (.refused, t)

/-- The parts of a path from the root. -/
def wayOf (path : String) : List String := (SnapshotFolder.parts path).filter (· != "")

/-- The snapshots in a folder that exists, if its path leaves room for names. What is around it is
not looked at. -/
def snapshotsIn (folder : String) : IO SnapshotFolder := do
  let way := wayOf (← IO.FS.realPath folder).toString
  match SnapshotFolder.Address.ofPath? way folder with
  | none => throw (.userError "File name too long")
  | some address =>
    let files ← filesIn folder
    let start := (Session.inside folder "").length
    let named := files.map fun (path, text) => ((path.drop start).toString, text)
    return { files := some (.ofList named), address }

/-- The path of a file outside of the folder of snapshots. -/
def pathOf (names : List String) : String := "/" ++ "/".intercalate names

/-- Writes what has changed in the snapshots, wherever they are. -/
def store (folder : String) (before after : SnapshotFolder) : IO Unit := do
  let old := before.files.getD ∅
  let new := after.files.getD ∅
  for (name, text) in new.toList do
    if old[name]? != some text then IO.FS.writeFile (Session.inside folder name) text
  for name in old.keys do
    if !new.contains name then IO.FS.removeFile (Session.inside folder name)
  for (names, neighbour) in after.around.toList do
    if let some text := neighbour.text? then
      if before.around[names]?.bind (·.text?) != some text then
        IO.FS.writeFile (pathOf names) text
  for names in before.around.keys do
    if !after.around.contains names then IO.FS.removeFile (pathOf names)

/-- Brings the files and the time up to date with what a broker has done. -/
def keepPace (folder : String) (before after : Broker Instant) : IO Unit := do
  store folder before.office.book.folder after.office.book.folder
  IO.sleep (after.office.world.outside.millis - before.office.world.outside.millis).toNat.toUInt32

/-- Runs cycles until an error that waiting cannot mend. -/
partial def keepRunning (folder : String) (setup : Setup Instant) (b : Broker Instant) :
    IO Unit := do
  match Broker.runPersistently setup 1 b with
  | .ok () b' =>
    keepPace folder b b'
    keepRunning folder setup b'
  | .error _ b' => keepPace folder b b'

def mediate (settings : Settings) (vars : Variables) (persistent : Bool) : IO Report := do
  match Setup.ofSettings settings vars (services settings) with
  | .error _ => return .failure "Failed to start mediator"
  | .ok setup =>
    let folder := settings.snapshotFolder
    let opened? ← try
      IO.FS.createDirAll folder
      let found ← snapshotsIn folder
      let b := Broker.start settings.remote.waits found { outside := ← now }
      store folder found b.office.book.folder
      pure (some b)
    catch _ => pure none
    let some b := opened? | return .failure "Failed to start mediator"
    if persistent then
      IO.println ("amd mediating for " ++ settings.remote.siteName)
      keepRunning folder setup b
      return .failure "Mediator loop stopped"
    else
      match Broker.runOnce setup b with
      | .ok () b' =>
        keepPace folder b b'
        return Session.passed b'.docket.size
      | .error _ b' =>
        keepPace folder b b'
        return .failure "Mediator pass failed"

def versionOf (folder : String) : IO Nat := do
  match ← textOf? (Session.inside folder SnapshotFolder.versionName) with
  | some text => return (SnapshotFolder.number? text).getD 0
  | none => return 0

/-- Looks at a folder again and again until it has changed or so many quarters of a second have
passed. -/
def await (folder : String) (since : Nat) : (quarters : Nat) → IO (Option Nat)
  | 0 => return none
  | n + 1 => do
    let version ← versionOf folder
    if version != since then return some version
    if n = 0 then return none
    IO.sleep 250
    await folder since n

def usage : String :=
  "Mediates AMIE transactions with a local resource-management service\n\n" ++
  "Usage: amd [OPTIONS] <COMMAND>\n\n" ++
  "Commands:\n" ++
  "  run        Run the mediator loop, restarting it after service outages\n" ++
  "  once       Make one pass over tasks, packets and replies, then exit\n" ++
  "  snapshots  Inspect the monitoring snapshots\n" ++
  "  help       Print this message or the help of the given subcommand(s)\n\n" ++
  "Options:\n" ++
  "  -c, --config <CONFIG>        Path to config file\n" ++
  "  -l, --log-level <LOG_LEVEL>  Log level (TRACE, DEBUG, INFO, WARN, ERROR)\n" ++
  "  -h, --help                   Print help\n" ++
  "  -V, --version                Print version\n"

/-- What surrounds an invocation: the files that it may need. -/
def surroundings (i : Invocation) : IO Surroundings := do
  let projectFile := ".amiemediator.yml"
  let userFile :=
    (← userFolder "XDG_CONFIG_HOME" ".config") ++ "/amiemediator/amiemediator.yml"
  let logFile :=
    (← userFolder "XDG_DATA_HOME" ".local/share") ++ "/amiemediator/logs/amiemediator.log"
  let texts ← filesAt (i.settingsFile.toList ++ [projectFile, userFile])
  let around : Surroundings :=
    { tree := .ofList texts, vars := fun _ => none, projectFile, userFile, logFile }
  match Session.settings? around i with
  | none => return around
  | some settings =>
    let name := settings.remote.apiKeyVariable
    let key ← IO.getEnv name
    let further ← match i.command with
      | .snapshots folder command => do
        let folder := folder.getD settings.snapshotFolder
        let named ← match command with
          | .print key => filesAt [Session.inside folder (SnapshotFolder.fileName key)]
          | .list | .watch _ => pure []
        pure (named ++ (← filesIn folder))
      | .run | .once => pure []
    return { around with
      tree := .ofList (texts ++ further)
      vars := fun asked => if asked = name then key else none }

/-- Carries out a command line and returns the exit code. -/
def perform (arguments : List String) : IO UInt32 := do
  match Invocation.ofArguments arguments with
  | .error .helpAsked =>
    IO.print usage
    return 0
  | .error .versionAsked =>
    IO.println "amd 0.1.0"
    return 0
  | .error _ =>
    (← IO.getStderr).putStr usage
    return 2
  | .ok i =>
    let around ← surroundings i
    let report ← Session.run around
      { mediate := fun settings persistent => mediate settings around.vars persistent
        await := fun folder timeout => do
          await folder (← versionOf folder) (4 * timeout + 1) } i
    for notice in report.notices do (← IO.getStderr).putStrLn notice
    IO.print report.output
    return report.exitCode.toUInt32

end SiteBroker.Program

def main (arguments : List String) : IO UInt32 := SiteBroker.Program.perform arguments

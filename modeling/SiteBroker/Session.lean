import SiteBroker.CommandLine
import SiteBroker.FileTree
import SiteBroker.Settings.Wire
import SiteBroker.Snapshot.Folder

/-! What an invocation of the program does with the files around it, and what it tells. -/

namespace SiteBroker

/-- The end of a program: its exit code, its output, and what it tells beside it. -/
structure Report where
  exitCode : Nat := 0
  output : String := ""
  notices : List String := []
  deriving DecidableEq

namespace Report

def failure (message : String) : Report := { exitCode := 1, notices := ["Error: " ++ message] }

def lines (ls : List String) : Report := { output := String.join (ls.map (· ++ "\n")) }

end Report

/-- What the program finds around it. -/
structure Surroundings where
  tree : FileTree
  vars : Variables
  /-- The settings file of the working folder. -/
  projectFile : String
  /-- The settings file of the user. -/
  userFile : String
  logFile : String

namespace Session

/-- The names of the log levels. -/
def logLevels : List String := ["TRACE", "DEBUG", "INFO", "WARN", "WARNING", "ERROR"]

/-- A character in capitals, as far as that can give a letter of a log level: a small letter of
ASCII or an i without its dot. -/
def capital (c : Char) : Char := if c.toNat = 0x131 then 'I' else c.toUpper

def isLogLevel (s : String) : Bool := logLevels.contains (s.map capital)

/-- What is told of a log level that is not known. -/
def levelNotice (s : String) : String :=
  "Warning: Unknown log-level '" ++ s ++ "', defaulting to INFO"

/-- The settings that an invocation works with. -/
def settings? (around : Surroundings) (i : Invocation) : Option Settings :=
  Settings.load {
      project := (around.tree.text around.projectFile).toOption
      user := (around.tree.text around.userFile).toOption }
    (i.settingsFile.map fun path => (around.tree.text path).toOption)

/-- A path inside a folder; one from the root stays as it is. -/
def inside (folder path : String) : String :=
  if path.startsWith "/" || folder.isEmpty then path else folder ++ "/" ++ path

/-- The keys of the snapshots in a folder, one a line. -/
def list (tree : FileTree) (folder : String) : Report :=
  let found := match tree.entries folder with
    | .error .notFound => Except.ok []
    | x => x
  match found with
  | .error _ => .failure "Failed to list snapshots"
  | .ok names =>
    match (names.filterMap SnapshotFolder.key?).mergeSort fun a b => (compare a b).isLE with
    | [] => .lines ["No snapshots in " ++ folder]
    | keys => .lines keys

/-- The snapshot of a key. -/
def print (tree : FileTree) (folder key : String) : Report :=
  match tree.text (inside folder (SnapshotFolder.fileName key)) with
  | .error .notFound => .failure ("No snapshot named '" ++ key ++ "'")
  | .error _ => .failure "Failed to read snapshot"
  | .ok text =>
    match (Json.parse? text).bind Fields.ofJson? with
    | some record => .lines [Json.pretty 0 (Fields.toJson record)]
    | none => .failure "Failed to read snapshot"

/-- What is told after waiting for a change, of which there was none if nothing is known of
one. -/
def watched (timeout : Nat) : (changed : Option Nat) → Report
  | none => .lines ["… no change within " ++ toString timeout ++ "s"]
  | some version => .lines ["✓ snapshots changed (version " ++ toString version ++ ")"]

/-- What a pass of the broker tells. -/
def passed (inFlight : Nat) : Report :=
  .lines ["✓ " ++ toString inFlight ++ " transaction(s) in flight"]

/-- What takes time: running the broker, and waiting for a change of a folder. -/
structure Activities (m : Type → Type) where
  mediate : Settings → (persistent : Bool) → m Report
  await : (folder : String) → (timeout : Nat) → m (Option Nat)

variable {m : Type → Type} [Monad m]

/-- Carries out a command. The broker starts only if its settings are in order. -/
def command (around : Surroundings) (activities : Activities m) (settings : Settings) :
    Command → m Report
  | .run => brokered true
  | .once => brokered false
  | .snapshots folder c =>
    let folder := folder.getD settings.snapshotFolder
    match c with
    | .list => pure (list around.tree folder)
    | .print key => pure (print around.tree folder key)
    | .watch timeout => watched timeout <$> activities.await folder timeout
where
  brokered (persistent : Bool) : m Report :=
    match settings.validate around.vars with
    | .error e => pure (.failure e.message)
    | .ok () => activities.mediate settings persistent

/-- The notice of an unknown log level, if one is asked for. -/
def notices (i : Invocation) (settings : Option Settings) : List String :=
  match i.logLevel <|> settings.bind (·.logLevel) with
  | none => []
  | some level => if isLogLevel level then [] else [levelNotice level]

/-- What an invocation does: it opens its log, loads its settings and carries out its command. -/
def run (around : Surroundings) (activities : Activities m) (i : Invocation) : m Report := do
  if around.tree.canWrite around.logFile then
    let settings := settings? around i
    let report ← match settings with
      | none => pure (.failure "Failed to load configuration")
      | some settings => command around activities settings i.command
    return { report with notices := notices i settings ++ report.notices }
  else return .failure "Failed to setup logging"

end Session

end SiteBroker

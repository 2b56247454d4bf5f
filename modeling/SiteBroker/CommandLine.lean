import SiteBroker.Text.Digits

/-! The command line: what it asks for, and what can be wrong with it. -/

namespace SiteBroker

inductive SnapshotCommand where
  | list
  | print (key : String)
  /-- Wait for a change, so many seconds at most. -/
  | watch (timeout : Nat)
  deriving DecidableEq

inductive Command where
  | run
  | once
  /-- Look at the snapshots in a folder; by default in the one that is set. -/
  | snapshots (folder : Option String) (command : SnapshotCommand)
  deriving DecidableEq

/-- What a command line asks for. -/
structure Invocation where
  settingsFile : Option String
  logLevel : Option String
  command : Command
  deriving DecidableEq

/-- Why a command line is not carried out. -/
inductive ArgumentError where
  | helpAsked
  | versionAsked
  /-- There are no arguments where a command is needed. -/
  | nothingGiven
  | noCommand
  | unknownCommand
  | unknownArgument
  | noKey
  /-- An option has no value, or an empty one where a path is needed. -/
  | noValue
  | badValue
  | givenTwice
  /-- A flag has a value. -/
  | surplusValue
  deriving DecidableEq

namespace CommandLine

/-- The options that take a value. -/
inductive Opt where
  | config
  | logLevel
  | folder
  | timeout
  deriving DecidableEq

def Opt.long : Opt → String
  | config => "config"
  | logLevel => "log-level"
  | folder => "dir"
  | timeout => "timeout"

def Opt.short : Opt → Char
  | config => 'c'
  | logLevel => 'l'
  | folder => 'd'
  | timeout => 't'

/-- The commands and the places where they are given: each has options and commands of its
own. -/
inductive Level where
  | top
  | run
  | once
  | snapshots
  | list
  | print
  | watch
  deriving DecidableEq

namespace Level

/-- The options of a level. The first two can be given on any. -/
def options : Level → List Opt
  | snapshots => [.config, .logLevel, .folder]
  | watch => [.config, .logLevel, .timeout]
  | top | run | once | list | print => [.config, .logLevel]

/-- The commands of a level by name. -/
def commands : Level → List (String × Level)
  | top => [("run", run), ("once", once), ("snapshots", snapshots)]
  | snapshots => [("list", list), ("show", print), ("watch", watch)]
  | run | once | list | print | watch => []

/-- Whether an argument that is neither option nor command is taken. -/
def takesKey : Level → Bool
  | print => true
  | _ => false

/-- Whether a flag asks for the version. -/
def tellsVersion : Level → Bool
  | top => true
  | _ => false

end Level

/-- What an argument or the value of an option is given for. -/
inductive Slot where
  | opt (o : Opt)
  | key
  deriving DecidableEq

/-- What has been given on a level. The last slot stays open until the next argument shows that
it is complete. -/
structure Given where
  values : List (Slot × String) := []
  pending : Option (Slot × Option String) := none

/-- Checks a value: paths are not empty, and a time is a number of seconds. -/
def check : Slot → String → Except ArgumentError Unit
  | .opt .config, v | .opt .folder, v => if v.isEmpty then .error .noValue else .ok ()
  | .opt .timeout, v => if (Text.natural64? v).isNone then .error .badValue else .ok ()
  | .opt .logLevel, _ | .key, _ => .ok ()

namespace Given

/-- Puts a value in its slot, which must be free. -/
def fill (g : Given) (slot : Slot) (value : String) : Except ArgumentError Given :=
  if g.values.any (·.1 == slot) then .error .givenTwice
  else
    match check slot value with
    | .ok () => .ok { g with values := g.values ++ [(slot, value)] }
    | .error e => .error e

/-- Completes the slot that is open. -/
def settle (g : Given) : Except ArgumentError Given :=
  match g.pending with
  | none => .ok g
  | some (_, none) => .error .noValue
  | some (slot, some value) => { g with pending := none }.fill slot value

def value? (g : Given) (slot : Slot) : Option String := g.values.lookup slot

/-- Whether the open slot waits for a value. -/
def awaitsValue (g : Given) : Bool :=
  match g.pending with
  | some (_, none) => true
  | _ => false

end Given

/-- An option with the value that is written with it, if there is one. -/
def takeOption (g : Given) (o : Opt) (attached : Option String) : Except ArgumentError Given :=
  match g.settle with
  | .error e => .error e
  | .ok g =>
    match attached with
    | some value => g.fill (.opt o) value
    | none => .ok { g with pending := some (.opt o, none) }

/-- A flag that ends everything. -/
def takeFlag (g : Given) (e : ArgumentError) : Except ArgumentError Given :=
  match g.settle with
  | .error e => .error e
  | .ok _ => .error e

/-- An argument that starts with two dashes, without them. -/
def takeLong (level : Level) (g : Given) (cs : List Char) : Except ArgumentError Given :=
  let name := String.ofList (cs.takeWhile (· != '='))
  let attached := match cs.dropWhile (· != '=') with
    | [] => none
    | _ :: value => some (String.ofList value)
  let isFlag := name == "help" || (name == "version" && level.tellsVersion)
  match level.options.find? (·.long == name) with
  | some o => takeOption g o attached
  | none =>
    if !isFlag then .error .unknownArgument
    else if attached.isSome then .error .surplusValue
    else takeFlag g (if name == "help" then .helpAsked else .versionAsked)

/-- An argument that starts with one dash, without it. The first letter decides. -/
def takeShort (level : Level) (g : Given) (c : Char) (cs : List Char) :
    Except ArgumentError Given :=
  match level.options.find? (·.short == c) with
  | some o =>
    takeOption g o (match cs with
      | [] => none
      | '=' :: value => some (String.ofList value)
      | value => some (String.ofList value))
  | none =>
    if c == 'h' then takeFlag g .helpAsked
    else if c == 'V' && level.tellsVersion then takeFlag g .versionAsked
    else .error .unknownArgument

/-- An argument that is neither option nor command. -/
def takeKey (level : Level) (dashed : Bool) (g : Given) (a : String) :
    Except ArgumentError Given :=
  if level.takesKey && !(g.values.any (·.1 == .key)) && !(g.pending.any (·.1 == .key)) then
    match g.settle with
    | .error e => .error e
    | .ok g => .ok { g with pending := some (.key, some a) }
  else if dashed && (level.commands.lookup a).isSome then .error .unknownArgument
  else if dashed && a == "help" && !level.commands.isEmpty then .error .unknownArgument
  else if level.commands.isEmpty then .error .unknownArgument
  else .error .unknownCommand

/-- The commands after which help is asked for. -/
def helpFor : Level → List String → ArgumentError
  | _, [] => .helpAsked
  | level, a :: rest =>
    match level.commands.lookup a with
    | some next => helpFor next rest
    | none =>
      if a == "help" && !level.commands.isEmpty && rest.isEmpty then .helpAsked
      else .unknownCommand

/-- What a level lacks. -/
def complete (level : Level) (g : Given) : Except ArgumentError Given :=
  match g.settle with
  | .error e => .error e
  | .ok g =>
    if level.commands.isEmpty then
      if level.takesKey && (g.value? .key).isNone then .error .noKey else .ok g
    else if g.values.isEmpty then .error .nothingGiven
    else .error .noCommand

/-- Reads the arguments of a level and of the commands below it. What is given comes with its
level, from the top down. -/
def readLevel : (level : Level) → (dashed : Bool) → Given → List String →
    Except ArgumentError (List (Level × Given))
  | level, _, g, [] => (complete level g).map fun g => [(level, g)]
  | level, dashed, g, a :: rest =>
    let goOn := fun (x : Except ArgumentError Given) =>
      match x with
      | .ok g => readLevel level dashed g rest
      | .error e => .error e
    if dashed then goOn (takeKey level dashed g a)
    else
      match if g.awaitsValue then none else level.commands.lookup a with
      | some next =>
        match readLevel next false {} rest with
        | .error e => .error e
        | .ok below => g.settle.map fun g => (level, g) :: below
      | none =>
        if a == "help" && !level.commands.isEmpty && !g.awaitsValue then .error (helpFor level rest)
        else
          match a.toList with
          | ['-', '-'] => readLevel level true g rest
          | '-' :: '-' :: cs => goOn (takeLong level g cs)
          | '-' :: c :: cs => goOn (takeShort level g c cs)
          | _ =>
            match g.pending with
            | some (slot, none) => goOn (.ok { g with pending := some (slot, some a) })
            | _ => goOn (takeKey level dashed g a)

/-- The value of an option that can be given on any level: the lowest counts. -/
def deepest (o : Opt) (levels : List (Level × Given)) : Option String :=
  levels.reverse.findSome? fun (_, g) => g.value? (.opt o)

/-- The value given on a level. -/
def valueOn (level : Level) (slot : Slot) (levels : List (Level × Given)) : Option String :=
  (levels.lookup level).bind (·.value? slot)

/-- The command that the levels lead to. -/
def commandOf? (levels : List (Level × Given)) : Option Command :=
  let folder := valueOn .snapshots (.opt .folder) levels
  match levels.getLast? with
  | some (.run, _) => some .run
  | some (.once, _) => some .once
  | some (.list, _) => some (.snapshots folder .list)
  | some (.print, g) => some (.snapshots folder (.print ((g.value? .key).getD "")))
  | some (.watch, g) =>
    some (.snapshots folder (.watch (((g.value? (.opt .timeout)).bind Text.natural64?).getD 60)))
  | some (.top, _) | some (.snapshots, _) | none => none

end CommandLine

/-- What the arguments of a command line ask for. -/
def Invocation.ofArguments (arguments : List String) : Except ArgumentError Invocation :=
  match CommandLine.readLevel .top false {} arguments with
  | .error e => .error e
  | .ok levels =>
    match CommandLine.commandOf? levels with
    | none => .error .noCommand
    | some command => .ok {
        settingsFile := CommandLine.deepest .config levels
        logLevel := CommandLine.deepest .logLevel levels
        command }

end SiteBroker

import SiteBroker.Error
import SiteBroker.Fields
import SiteBroker.Json.Parser
import SiteBroker.Text.Blank
import SiteBroker.Text.Digits

/-! The folder of snapshots: a file for each, and one that holds the number of changes so far. The
name of a file is a path that starts at the folder. A slash in it leads to other folders, and dots
stay or lead back, so that one file may have several names and some files are not in the folder. -/

namespace SiteBroker

/-- What is outside of the folder under a name. -/
inductive Neighbour where
  | folder
  | file (text : String)

namespace Neighbour

def isFolder : Neighbour → Bool
  | .folder => true
  | .file _ => false

def text? : Neighbour → Option String
  | .folder => none
  | .file text => some text

end Neighbour

/-- Where a file is: the folders on the way to it from the root, and its name in the last one. -/
structure FilePlace where
  way : List String
  name : String
  deriving DecidableEq

def FilePlace.path (place : FilePlace) : List String := place.way ++ [place.name]

namespace SnapshotFolder

/-- The number of bytes a file name may have. -/
def nameLimit : Nat := 255

/-- The number of bytes a path may have. -/
def pathLimit : Nat := 4095

/-- The folders on the way to the folder and itself, from the root, and the number of bytes that its
path puts before a name. -/
structure Address where
  way : List String
  lead : Nat
  room : lead + nameLimit ≤ pathLimit

/-- The address of `/tmp/snapshots`. -/
def Address.temporary : Address := ⟨["tmp", "snapshots"], 15, by decide⟩

/-- The address of a folder with such a path, if there is room for names after that. -/
def Address.ofPath? (way : List String) (path : String) : Option Address :=
  if room : path.utf8ByteSize + 1 + nameLimit ≤ pathLimit then
    some ⟨way, path.utf8ByteSize + 1, room⟩
  else none

end SnapshotFolder

/-- The files of the folder and their texts, if the folder exists, and what is around it. There are
no folders in it, and no links anywhere. -/
structure SnapshotFolder where
  files : Option (Std.ExtTreeMap String String) := none
  address : SnapshotFolder.Address := .temporary
  around : Std.ExtTreeMap (List String) Neighbour := ∅

namespace SnapshotFolder

def versionName : String := ".version"

def fileName (key : String) : String := key ++ ".json"

/-- Whether a folder is there: besides those that are known, the root and, if the folder of the
snapshots exists, those on the way to it. -/
def isFolder (folder : SnapshotFolder) (way : List String) : Bool :=
  if way = folder.address.way then folder.files.isSome
  else way.isEmpty || (folder.files.isSome && way.isPrefixOf folder.address.way) ||
    (way.dropLast != folder.address.way && folder.around[way]?.any (·.isFolder))

/-- The text of the file at a place, if there is one. -/
def text? (folder : SnapshotFolder) (place : FilePlace) : Option String :=
  if place.way = folder.address.way then folder.files.bind (·[place.name]?)
  else folder.around[place.path]?.bind (·.text?)

def put (folder : SnapshotFolder) (place : FilePlace) (text : String) : SnapshotFolder :=
  if place.way = folder.address.way then
    { folder with files := folder.files.map (·.insert place.name text) }
  else { folder with around := folder.around.insert place.path (.file text) }

def remove (folder : SnapshotFolder) (place : FilePlace) : SnapshotFolder :=
  if place.way = folder.address.way then
    { folder with files := folder.files.map (·.erase place.name) }
  else { folder with around := folder.around.erase place.path }

/-- The way that a part of a path leads from a folder. -/
def next (way : List String) (part : String) : List String :=
  if part = "" || part = "." then way
  else if part = ".." then way.dropLast
  else way ++ [part]

/-- Goes into the folder that a part of a path leads to. -/
def enter (folder : SnapshotFolder) (way : List String) (part : String) :
    Except FileError (List String) :=
  if nameLimit < part.utf8ByteSize then .error .invalidFilename
  else if folder.isFolder (next way part) then .ok (next way part)
  else if (folder.text? ⟨way, part⟩).isSome then .error .notADirectory
  else .error .notFound

/-- The parts of a name, which slashes separate. -/
def parts (name : String) : List String := (name.toList.splitOn '/').map String.ofList

/-- Whether a name starts at the root and not at the folder. -/
def isAbsolute (name : String) : Bool := name.toList.head? == some '/'

/-- Where a name starts. -/
def startOf (folder : SnapshotFolder) (name : String) : List String :=
  if isAbsolute name then [] else folder.address.way

/-- The number of bytes of the path that a name makes. -/
def pathSize (folder : SnapshotFolder) (name : String) : Nat :=
  (if isAbsolute name then 0 else folder.address.lead) + name.utf8ByteSize

/-- The place of the file that has a name, whether or not there is one. -/
def locate (folder : SnapshotFolder) (name : String) : Except FileError FilePlace :=
  let last := (parts name).getLastD ""
  if name.toList.contains '\x00' then .error .invalidInput
  else if pathLimit < folder.pathSize name then .error .invalidFilename
  else if !folder.isFolder (folder.startOf name) then .error .notFound
  else
    match (parts name).dropLast.foldlM folder.enter (folder.startOf name) with
    | .error e => .error e
    | .ok way =>
      if ["", ".", ".."].contains last then .error .isADirectory
      else if nameLimit < last.utf8ByteSize then .error .invalidFilename
      else if folder.isFolder (way ++ [last]) then .error .isADirectory
      else .ok ⟨way, last⟩

def fileText (folder : SnapshotFolder) (name : String) : Except FileError String :=
  match folder.locate name with
  | .error e => .error e
  | .ok place =>
    match folder.text? place with
    | some text => .ok text
    | none => .error .notFound

def putFile (folder : SnapshotFolder) (name text : String) : Except FileError SnapshotFolder :=
  match folder.locate name with
  | .error e => .error e
  | .ok place => .ok (folder.put place text)

/-- The number of changes that a text tells. -/
def number? (text : String) : Option Nat := Text.natural64? (Text.trim text)

/-- How often the snapshots have changed; a folder that does not tell has not changed yet. -/
def version (folder : SnapshotFolder) : Nat :=
  match folder.fileText versionName with
  | .ok text => (number? text).getD 0
  | .error _ => 0

/-- Counts a change, if the folder exists. -/
def bump (folder : SnapshotFolder) : SnapshotFolder :=
  match folder.putFile versionName (Nat.repr (folder.version + 1)) with
  | .ok folder => folder
  | .error _ => folder

/-- The key of a snapshot file. -/
def key? (name : String) : Option String :=
  let cs := name.toList
  if ".json".toList.isSuffixOf cs then some (.ofList (cs.take (cs.length - 5))) else none

/-- The keys of the snapshots, sorted. -/
def keys (folder : SnapshotFolder) : List String :=
  match folder.files with
  | none => []
  | some files => (files.keys.filterMap key?).mergeSort fun a b => (compare a b).isLE

/-- The folder, made if need be, without the snapshots of an earlier run. -/
def reopen (folder : SnapshotFolder) : SnapshotFolder :=
  bump { folder with
    files := some ((folder.files.getD ∅).filter fun name _ => (key? name).isNone) }

/-- The record of a snapshot, if there is one. -/
def read (folder : SnapshotFolder) (key : String) : Except FileError (Option Fields) :=
  match folder.fileText (fileName key) with
  | .error .notFound => .ok none
  | .error e => .error e
  | .ok text =>
    match (Json.parse? text).bind Fields.ofJson? with
    | some record => .ok (some record)
    | none => .error .invalidData

/-- Lays a record over the snapshot of a key. Returns whether that changed it. -/
def update (folder : SnapshotFolder) (key : String) (record : Fields) :
    Except FileError (SnapshotFolder × Bool) :=
  match folder.read key with
  | .error e => .error e
  | .ok existing =>
    let merged := Fields.overlay (existing.getD ∅) record
    if existing.any (Fields.same merged) then .ok (folder, false)
    else
      match folder.putFile (fileName key) (Json.pretty 0 (Fields.toJson merged)) with
      | .error e => .error e
      | .ok folder => .ok (folder.bump, true)

/-- Deletes the snapshot of a key. Returns whether there was one. -/
def delete (folder : SnapshotFolder) (key : String) : Except FileError (SnapshotFolder × Bool) :=
  match folder.locate (fileName key) with
  | .error .notFound => .ok (folder, false)
  | .error e => .error e
  | .ok place =>
    match folder.text? place with
    | some _ => .ok ((folder.remove place).bump, true)
    | none => .ok (folder, false)

/-- The number of changes, if it is another than before. -/
def changedSince (folder : SnapshotFolder) (version : Nat) : Option Nat :=
  if folder.version = version then none else some folder.version

end SnapshotFolder

end SiteBroker

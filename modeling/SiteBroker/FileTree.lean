import SiteBroker.Error

/-! Folders and files below a working folder, by their paths. -/

namespace SiteBroker

/-- The texts of files. A folder is there if a file is somewhere in it. -/
structure FileTree where
  files : List (List String × String) := []

namespace FileTree

/-- The names on the way to a file. A path from the root starts with a slash of its own, and dots
lead nowhere or back. -/
def names (path : String) : List String :=
  let parts := path.splitOn "/"
  let below := parts.foldl (fun done part =>
    if part = "" || part = "." then done
    else if part = ".." && !done.isEmpty then done.drop 1
    else part :: done) []
  if path.startsWith "/" then "/" :: below.reverse else below.reverse

def ofList (files : List (String × String)) : FileTree :=
  ⟨files.map fun (path, text) => (names path, text)⟩

def isFolder (tree : FileTree) (place : List String) : Bool :=
  place.isEmpty || tree.files.any fun (file, _) => place.isPrefixOf file && place != file

def isFile (tree : FileTree) (place : List String) : Bool :=
  tree.files.any fun (file, _) => file == place

/-- Whether a file stands where a folder is needed on the way to a place. -/
def isBlocked (tree : FileTree) (place : List String) : Bool :=
  tree.files.any fun (file, _) => file.isPrefixOf place && file != place

/-- Why nothing is found at a place. -/
def absence (tree : FileTree) (place : List String) : FileError :=
  if place.any fun name => name.toList.contains '\x00' then .invalidInput
  else if place.any fun name => 255 < name.utf8ByteSize then .invalidFilename
  else if tree.isBlocked place then .notADirectory
  else .notFound

/-- The text of a file. -/
def text (tree : FileTree) (path : String) : Except FileError String :=
  let place := names path
  match tree.files.lookup place with
  | some text => .ok text
  | none =>
    if path = "" then .error .notFound
    else if tree.isFolder place then .error .isADirectory
    else .error (tree.absence place)

/-- The names of the files and folders in a folder, each once. -/
def entries (tree : FileTree) (path : String) : Except FileError (List String) :=
  let place := names path
  if path = "" then .error .notFound
  else if tree.isFile place then .error .notADirectory
  else if tree.isFolder place then
    .ok (tree.files.filterMap fun (file, _) =>
      if place.isPrefixOf file then (file.drop place.length).head? else none).eraseDups
  else .error (tree.absence place)

/-- Whether a file can be written at a path, and the folders on the way to it made. -/
def canWrite (tree : FileTree) (path : String) : Bool :=
  let place := names path
  !tree.isBlocked place && !tree.isFolder place

end FileTree

end SiteBroker

import Ostinato.Disk.Path
import Ostinato.Text.Quoted

/-!
# File trees

Files and directories, found from the working directory or from the root. Looking something up
follows a path name by name, and each name but the last must be that of a directory. The directories
above the working directory are known only by the way up to them.
-/

namespace Ostinato

/-- What stands under a name. -/
inductive Entry
  | directory
  | file (data : List UInt8)
  deriving DecidableEq, Repr

/-- The way to an entry from the root or from the working directory. -/
structure Place where
  absolute : Bool
  names : List String
  deriving DecidableEq, Repr

/-- The entries of a tree, each with its place. The root, the working directory and the directories
above it are always there. -/
structure FileTree where
  entries : List (Place × Entry)
  deriving Repr

/-- Why the file system refuses a request. -/
inductive DiskFault
  | notFound
  | notADirectory
  | isADirectory
  | taken
  /-- A name that no file can have. -/
  | badName
  /-- A name or a path that is longer than any can be. -/
  | tooLong
  deriving DecidableEq, Repr

/-- What is wrong when a request for a path is refused. -/
def DiskFault.message (path : Path) : DiskFault → String
  | notFound => "[Errno 2] No such file or directory: " ++ Text.quoted path.text
  | notADirectory => "[Errno 20] Not a directory: " ++ Text.quoted path.text
  | isADirectory => "[Errno 21] Is a directory: " ++ Text.quoted path.text
  | taken => "[Errno 17] File exists: " ++ Text.quoted path.text
  | badName => "embedded null byte"
  | tooLong => "[Errno 36] File name too long: " ++ Text.quoted path.text

namespace FileTree

/-- Nothing but the directories that are always there. -/
def empty : FileTree := ⟨[]⟩

/-- Whether a place is the root, the working directory or a directory above it. -/
def isBase (place : Place) : Bool := place.names.all (· = "..")

/-- What stands at a place. -/
def get? (t : FileTree) (place : Place) : Option Entry :=
  if isBase place then some .directory else t.entries.lookup place

/-- Sets an entry in a list of entries. -/
def setEntry (place : Place) (e : Entry) : List (Place × Entry) → List (Place × Entry)
  | [] => [(place, e)]
  | (p, old) :: rest => if p = place then (p, e) :: rest else (p, old) :: setEntry place e rest

/-- Puts an entry at a place. -/
def set (t : FileTree) (place : Place) (e : Entry) : FileTree := ⟨setEntry place e t.entries⟩

/-! ## Finding a place -/

/-- The place above a place. The root is above itself. -/
def above (place : Place) : Place :=
  if isBase place && !place.absolute then { place with names := place.names ++ [".."] }
  else { place with names := place.names.dropLast }

/-- The most bytes of a name. -/
def maxNameSize : Nat := 255

/-- The most bytes of a path. -/
def maxPathSize : Nat := 4095

/-- Follows names from a place that must be a directory. The last name need not exist. -/
def follow (t : FileTree) : Place → List String → Except DiskFault Place
  | here, [] => .ok here
  | here, name :: names =>
    match t.get? here with
    | none => .error .notFound
    | some (.file _) => .error .notADirectory
    | some .directory =>
      if name = ".." then follow t (above here) names
      else if maxNameSize < name.utf8ByteSize then .error .tooLong
      else follow t { here with names := here.names ++ [name] } names

/-- Where a path leads. -/
def find (t : FileTree) (p : Path) : Except DiskFault Place :=
  if p.parts.any fun name => name.contains '\x00' then .error .badName
  else if maxPathSize < p.text.utf8ByteSize then .error .tooLong
  else t.follow ⟨decide (p.root ≠ .working), []⟩ p.parts

/-- What a path leads to. -/
def look (t : FileTree) (p : Path) : Except DiskFault Entry :=
  match t.find p with
  | .error fault => .error fault
  | .ok place =>
    match t.get? place with
    | some e => .ok e
    | none => .error .notFound

/-- Whether a path leads to a directory. A path that is too long is not looked up. -/
def isDirectory (t : FileTree) (p : Path) : Except DiskFault Bool :=
  match t.look p with
  | .ok e => .ok (e = .directory)
  | .error .tooLong => .error .tooLong
  | .error _ => .ok false

/-- Whether a path leads to a regular file. A path that is too long is not looked up. -/
def isFile (t : FileTree) (p : Path) : Except DiskFault Bool :=
  match t.look p with
  | .ok e => .ok (e ≠ .directory)
  | .error .tooLong => .error .tooLong
  | .error _ => .ok false

/-! ## Reading -/

/-- The name of an entry, if it stands directly below a place. -/
def nameBelow? (parent place : Place) : Option String :=
  if place.absolute = parent.absolute ∧ place.names.dropLast = parent.names then
    place.names.getLast?
  else none

/-- The names of all that stands directly in a directory, in the order of the entries. -/
def namesIn (t : FileTree) (p : Path) : List String :=
  match t.find p with
  | .error _ => []
  | .ok place => t.entries.filterMap fun e => nameBelow? place e.1

/-- The content of the file at a path. -/
def read (t : FileTree) (p : Path) : Except DiskFault (List UInt8) :=
  match t.look p with
  | .ok (.file data) => .ok data
  | .ok .directory => .error .isADirectory
  | .error fault => .error fault

/-! ## Writing -/

/-- Makes one directory, whose parent must be there; a directory that is there already stays. -/
def makeDirectory (t : FileTree) (p : Path) : Except DiskFault FileTree :=
  match t.find p with
  | .error fault => .error fault
  | .ok place =>
    match t.get? place with
    | some .directory => .ok t
    | some (.file _) => .error .taken
    | none => .ok (t.set place .directory)

/-- Makes one directory in a tree, which stays as it is if that is refused. -/
def addDirectory (t : FileTree) (p : Path) : Except DiskFault Unit × FileTree :=
  match t.makeDirectory p with
  | .error fault => (.error fault, t)
  | .ok t => (.ok (), t)

/-- Makes a directory and whatever is missing above it, from the names of its path in reverse. What
was made above it stays, even if the directory itself is refused then. -/
def makeDirectories (t : FileTree) (root : PathRoot) :
    List String → Except DiskFault Unit × FileTree
  | [] => t.addDirectory ⟨root, []⟩
  | name :: names =>
    let p : Path := ⟨root, (name :: names).reverse⟩
    match t.addDirectory p with
    | (.error .notFound, _) =>
      match makeDirectories t root names with
      | (.error fault, t) => (.error fault, t)
      | (.ok (), t) => t.addDirectory p
    | result => result

/-- Makes a directory and whatever is missing above it: how that ends, and the tree that is left. -/
def makeWay (t : FileTree) (p : Path) : Except DiskFault Unit × FileTree :=
  t.makeDirectories p.root p.parts.reverse

/-- Makes a directory and whatever is missing above it. -/
def ensureDirectory (t : FileTree) (p : Path) : Except DiskFault FileTree :=
  match t.makeWay p with
  | (.error fault, _) => .error fault
  | (.ok (), t) => .ok t

/-- Opens a file for writing, which empties it: its place, and the tree with it empty. -/
def openForWriting (t : FileTree) (p : Path) : Except DiskFault (Place × FileTree) :=
  match t.find p with
  | .error fault => .error fault
  | .ok place =>
    match t.get? place with
    | some .directory => .error .isADirectory
    | _ => .ok (place, t.set place (.file []))

/-- Puts an entry at a path, and directories above it. -/
def plant (t : FileTree) (p : Path) (e : Entry) : Except DiskFault FileTree :=
  match t.ensureDirectory p.parent with
  | .error fault => .error fault
  | .ok t =>
    match t.find p with
    | .ok place => .ok (t.set place e)
    | .error fault => .error fault

end FileTree

end Ostinato

import SchemaTypes.Assoc
import SchemaTypes.Path
import SchemaTypes.Program

/-! Files and directories, and what programs may do with them. -/
namespace SchemaTypes

inductive Entry where
  | directory
  | file (content : ByteArray)

/-- Files and directories by their places below the root. The root itself is always there. -/
structure Disk where
  entries : List (List String × Entry)

namespace Disk

def find? (disk : Disk) (place : List String) : Option Entry :=
  if place.isEmpty then some .directory else disk.entries.lookup place

def put (disk : Disk) (place : List String) (entry : Entry) : Disk :=
  ⟨(place, entry) :: disk.entries.filter (·.1 != place)⟩

/-- The most bytes that the name of an entry may have. -/
def maxNameSize : Nat := 255

/-- Goes on from a directory along the parts of a path. Only the last part may be a file. -/
def walk (disk : Disk) : List String → List String → Except SystemError (List String × Entry)
  | place, [] => .ok (place, .directory)
  | place, part :: rest =>
    if part = "" ∨ part = "." then walk disk place rest
    else if part = ".." then walk disk place.dropLast rest
    else if maxNameSize < part.utf8ByteSize then .error .nameTooLong
    else
      match disk.find? (place ++ [part]) with
      | none => .error .notFound
      | some .directory => walk disk (place ++ [part]) rest
      | some (.file content) =>
        if rest.isEmpty then .ok (place ++ [part], .file content) else .error .notDirectory

/-- The parts of a place given by an absolute path. -/
def placeOf (path : String) : List String := (Path.split path).filter (· != "")

/-- The place a path starts from. -/
def start (directory path : String) : List String :=
  if Path.isAbsolute path then [] else placeOf directory

/-- The most bytes that a path may have. -/
def maxPathSize : Nat := 4095

/-- What is wrong with a path before anything is looked up. -/
def pathFault? (path : String) : Option SystemError :=
  if path.contains '\x00' then some .nulInPath
  else if maxPathSize < path.utf8ByteSize then some .nameTooLong
  else if path = "" then some .notFound
  else none

/-- What a path leads to, seen from `directory`. -/
def lookup (disk : Disk) (directory path : String) : Except SystemError (List String × Entry) :=
  match pathFault? path with
  | some error => .error error
  | none => disk.walk (start directory path) (Path.split path)

def isDirectory (disk : Disk) (directory path : String) : Bool :=
  match disk.lookup directory path with
  | .ok (_, .directory) => true
  | _ => false

def isPresent (disk : Disk) (directory path : String) : Bool :=
  match disk.lookup directory path with
  | .ok _ => true
  | .error _ => false

def read (disk : Disk) (directory path : String) : Except SystemError ByteArray :=
  match disk.lookup directory path with
  | .ok (_, .file content) => .ok content
  | .ok (_, .directory) => .error .isDirectory
  | .error error => .error error

def readText (disk : Disk) (directory path : String) : Except SystemError String :=
  match disk.read directory path with
  | .ok content =>
    match Text.ofUtf8 content with
    | .ok text => .ok text
    | .error _ => .error .invalidText
  | .error error => .error error

/-- Where a new entry may go. -/
inductive Spot where
  /-- The name stands for a directory that is there. -/
  | fixed
  /-- A name in a directory, and whether a slash follows it. -/
  | named (place : List String) (slash : Bool)

/-- The spot that a path names. Everything in front of its last part must be a directory. -/
def spot (disk : Disk) (directory path : String) : Except SystemError Spot :=
  let parts := Path.split path
  let core := (parts.reverse.dropWhile (· == "")).reverse
  match pathFault? path, core.reverse with
  | some error, _ => .error error
  | none, [] => .ok .fixed
  | none, name :: front =>
    match disk.walk (start directory path) front.reverse with
    | .error error => .error error
    | .ok (_, .file _) => .error .notDirectory
    | .ok (place, .directory) =>
      if name = "." ∨ name = ".." then .ok .fixed
      else if maxNameSize < name.utf8ByteSize then .error .nameTooLong
      else .ok (.named (place ++ [name]) (parts.length != core.length))

def makeDirectory (disk : Disk) (directory path : String) : Except SystemError Disk :=
  match disk.spot directory path with
  | .error error => .error error
  | .ok .fixed => .error .exists
  | .ok (.named place _) =>
    match disk.find? place with
    | some _ => .error .exists
    | none => .ok (disk.put place .directory)

/-- Makes a directory and the missing ones above it, `steps` of them at most. What was made before
an error stays. -/
def makeDirectories (disk : Disk) (directory : String) :
    Nat → String → Except SystemError Unit × Disk
  | 0, _ => (.ok (), disk)
  | steps + 1, path =>
    match Path.parent? path with
    | none => (.ok (), disk)
    | some parent =>
      match disk.makeDirectory directory path with
      | .ok disk => (.ok (), disk)
      | .error .notFound =>
        match makeDirectories disk directory steps parent with
        | (.error error, disk) => (.error error, disk)
        | (.ok (), disk) =>
          match disk.makeDirectory directory path with
          | .ok disk => (.ok (), disk)
          | .error error =>
            (if disk.isDirectory directory path then .ok () else .error error, disk)
      | .error error => (if disk.isDirectory directory path then .ok () else .error error, disk)

/-- Writes a file, new or in place of an old one. -/
def write (disk : Disk) (directory path : String) (content : ByteArray) :
    Except SystemError Disk :=
  match disk.spot directory path with
  | .error error => .error error
  | .ok .fixed => .error .isDirectory
  | .ok (.named place slash) =>
    match slash, disk.find? place with
    | true, _ | _, some .directory => .error .isDirectory
    | _, _ => .ok (disk.put place (.file content))

end Disk

/-- Where something takes place. -/
structure Place where
  disk : Disk
  /-- An absolute path. -/
  directory : String
  /-- What a program is told that asks for the directory. -/
  currentDirectory : Except SystemError String := .ok directory

namespace Place

/-- What a path leads to. -/
def entry? (place : Place) (path : String) : Option Entry :=
  match place.disk.lookup place.directory path with
  | .ok (_, entry) => some entry
  | .error _ => none

def read (place : Place) (path : String) : Except SystemError ByteArray :=
  place.disk.read place.directory path

end Place
end SchemaTypes

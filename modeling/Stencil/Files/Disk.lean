import Stencil.Files.Path
import Stencil.Text.Utf8

/-! A file system without links, with times taken from a clock that advances with every change. -/

namespace Stencil.Files

inductive IoError where
  | notFound
  | notDirectory
  | isDirectory
  | alreadyExists
  | invalidText
  deriving DecidableEq, Repr

def IoError.message : IoError → String
  | .notFound => "No such file or directory (os error 2)"
  | .notDirectory => "Not a directory (os error 20)"
  | .isDirectory => "Is a directory (os error 21)"
  | .alreadyExists => "File exists (os error 17)"
  | .invalidText => "stream did not contain valid UTF-8"

inductive Content where
  | text (content : Text)
  | binary (bytes : List UInt8)
  deriving DecidableEq, Repr

namespace Content

def ofBytes (bytes : ByteArray) : Content :=
  match String.fromUTF8? bytes with
  | some s => .text s.toList
  | none => .binary bytes.toList

def read : Content → Except IoError Text
  | .text content => .ok content
  | .binary _ => .error .invalidText

def readLossy : Content → Text
  | .text content => content
  | .binary bytes => Text.ofBytesLossy bytes

end Content

inductive Entry where
  | file (content : Content) (modified : Nat)
  | directory (modified : Nat)
  deriving DecidableEq, Repr

namespace Entry

def modified : Entry → Nat
  | .file _ time | .directory time => time

def isFile : Entry → Bool
  | .file _ _ => true
  | .directory _ => false

def isDirectory : Entry → Bool
  | .file _ _ => false
  | .directory _ => true

def setModified (time : Nat) : Entry → Entry
  | .file content _ => .file content time
  | .directory _ => .directory time

end Entry

/-- The place of an entry: the names on the way to it from the root. -/
abbrev Key := List Text

def Key.path (key : Key) : Text :=
  '/' :: Text.intercalate ['/'] key

structure Disk where
  entries : List (Key × Entry)
  clock : Nat
  deriving Repr

namespace Disk

def empty (clock : Nat) : Disk := ⟨[], clock⟩

def entry? (d : Disk) (key : Key) : Option Entry :=
  if key = [] then some (.directory 0) else d.entries.lookup key

def put (d : Disk) (key : Key) (entry : Entry) : Disk :=
  { d with entries := (key, entry) :: d.entries.filter fun e => e.1 ≠ key }

def tick (d : Disk) : Disk :=
  { d with clock := d.clock + 1 }

def step (key : Key) (name : Text) : Key :=
  if name = ['.'] then key
  else if name = ['.', '.'] then key.dropLast
  else key ++ [name]

def follow (d : Disk) : Key → List Text → Except IoError Key
  | key, [] => .ok key
  | key, name :: rest =>
    match d.entry? key with
    | none => .error .notFound
    | some (.file _ _) => .error .notDirectory
    | some (.directory _) => d.follow (step key name) rest

def followDirectory (d : Disk) (parts : List Text) : Except IoError Key :=
  d.follow [] (parts ++ [['.']])

/-- The place that an absolute path leads to, whether or not something is there. A slash at the end
asks for a directory. -/
def locate (d : Disk) (path : Text) : Except IoError Key :=
  if path.isEmpty then .error .notFound
  else if path.getLast? = some '/' then d.followDirectory (Path.segments path)
  else d.follow [] (Path.segments path)

def find (d : Disk) (path : Text) : Except IoError (Key × Entry) :=
  match d.locate path with
  | .error e => .error e
  | .ok key =>
    match d.entry? key with
    | some entry => .ok (key, entry)
    | none => .error .notFound

def present (d : Disk) (path : Text) : Bool :=
  match d.find path with
  | .ok _ => true
  | .error _ => false

def isFile (d : Disk) (path : Text) : Bool :=
  match d.find path with
  | .ok (_, entry) => entry.isFile
  | .error _ => false

def isDirectory (d : Disk) (path : Text) : Bool :=
  match d.find path with
  | .ok (_, entry) => entry.isDirectory
  | .error _ => false

def modified (d : Disk) (path : Text) : Except IoError Nat :=
  match d.find path with
  | .ok (_, entry) => .ok entry.modified
  | .error e => .error e

def content (d : Disk) (path : Text) : Except IoError Content :=
  match d.find path with
  | .ok (_, .file content _) => .ok content
  | .ok (_, .directory _) => .error .isDirectory
  | .error e => .error e

def readText (d : Disk) (path : Text) : Except IoError Text :=
  match d.content path with
  | .ok content => content.read
  | .error e => .error e

def makeDirectory (d : Disk) (parts : List Text) : Except IoError Disk :=
  match parts.getLast? with
  | none => .error .alreadyExists
  | some name =>
    match d.followDirectory parts.dropLast with
    | .error e => .error e
    | .ok parent =>
      if name = ['.'] ∨ name = ['.', '.'] ∨ (d.entry? (parent ++ [name])).isSome then
        .error .alreadyExists
      else .ok (d.put (parent ++ [name]) (.directory d.clock)).tick

def ensureDirectory (d : Disk) (parts : List Text) : Except IoError Disk :=
  match d.makeDirectory parts with
  | .ok next => .ok next
  | .error e => if d.isDirectory (Key.path parts) then .ok d else .error e

/-- Makes a directory with those above it. Directories made before a failure stay. -/
def makeDirectories (d : Disk) (parts : List Text) : Except IoError Unit × Disk :=
  match parts with
  | [] => (.ok (), d)
  | first :: rest =>
    match d.ensureDirectory (first :: rest) with
    | .ok next => (.ok (), next)
    | .error .notFound =>
      match d.makeDirectories (((first :: rest).filter fun part => part ≠ ['.']).dropLast) with
      | (.error e, next) => (.error e, next)
      | (.ok _, next) =>
        match next.ensureDirectory (first :: rest) with
        | .ok last => (.ok (), last)
        | .error e => (.error e, next)
    | .error e => (.error e, d)
termination_by parts.length
decreasing_by
  have := (first :: rest).length_filter_le (fun part => decide (part ≠ ['.']))
  simp only [List.length_dropLast, List.length_cons] at this ⊢
  omega

def filePlace (d : Disk) (path : Text) : Except IoError Key :=
  match (Path.segments path).getLast? with
  | none => .error (if path.isEmpty then .notFound else .isDirectory)
  | some name =>
    match d.followDirectory (Path.segments path).dropLast with
    | .error e => .error e
    | .ok parent =>
      match d.entry? (step parent name) with
      | some (.directory _) => .error .isDirectory
      | _ =>
        if path.getLast? = some '/' then .error .isDirectory
        else .ok (step parent name)

def store (d : Disk) (key : Key) (text : Text) : Disk :=
  (d.put key (.file (.text text) d.clock)).tick

def writeFile (d : Disk) (path text : Text) : Except IoError Disk :=
  match d.filePlace path with
  | .error e => .error e
  | .ok key => .ok (d.store key text)

def erase (d : Disk) (key : Key) : Disk :=
  { d with entries := d.entries.filter fun e => e.1 ≠ key }

/-- A name that is longer than every name on the disk. -/
def newName (d : Disk) : Text :=
  let lengths := d.entries.map fun e => (e.1.getLast?.getD []).length
  ['.', 't', 'm', 'p'] ++ List.replicate (lengths.max?.getD 0) '0'

def makeTemporary (d : Disk) (directory : Text) : Except IoError (Key × Disk) :=
  match d.followDirectory (Path.segments directory) with
  | .error e => .error e
  | .ok parent => .ok (parent ++ [d.newName], d.store (parent ++ [d.newName]) [])

def moveFile (d : Disk) (key : Key) (path : Text) : Except IoError Disk :=
  match d.filePlace path, d.entry? key with
  | .error e, _ => .error e
  | .ok _, none => .error .notFound
  | .ok target, some entry => .ok ((d.erase key).put target entry)

def install (d : Disk) (path : Text) (content : Content) (time : Nat) : Disk :=
  let next := (d.makeDirectories (Path.segments path).dropLast).2
  match next.locate path with
  | .ok key => next.put key (.file content time)
  | .error _ => next

def touch (d : Disk) (path : Text) (time : Nat) : Disk :=
  match d.find path with
  | .ok (key, entry) => d.put key (entry.setModified time)
  | .error _ => d

def remove (d : Disk) (path : Text) : Disk :=
  match d.locate path with
  | .ok key => { d with entries := d.entries.filter fun e => !key.isPrefixOf e.1 }
  | .error _ => d

def below (d : Disk) (key : Key) : List (Key × Entry) :=
  d.entries.filterMap fun (k, entry) =>
    if key.isPrefixOf k ∧ key.length < k.length then some (k.drop key.length, entry) else none

end Disk

end Stencil.Files

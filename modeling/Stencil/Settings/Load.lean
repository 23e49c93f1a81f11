import Stencil.Files.Disk
import Stencil.Settings
import Stencil.Settings.Toml

/-!
The user's file counts least; the table `extra.tplc` of `composer.json`, `.tplc.toml` and `tplc.toml`
follow.
-/

namespace Stencil.Settings

open Stencil.Files

inductive LoadError where
  | invalid
  | composerUnreadable (e : IoError)
  | composerMalformed
  deriving DecidableEq, Repr

def LoadError.message : LoadError → String
  | .invalid => "Configuration build/deserialize error"
  | .composerUnreadable _ => "Failed to read composer.json"
  | .composerMalformed => "Failed to parse composer.json"

def isSubscript (cs : Text) : Bool :=
  let body := Text.trimBy Toml.isBlank cs
  let negative := body.head? == some '-'
  let digits := if negative then body.drop 1 else body
  !digits.isEmpty && digits.all Char.isDigit &&
    decide (Text.digitsValue 10 digits < if negative then 0x8000000000000001 else 0x8000000000000000)

def pathPart? (part : Text) : Option (Text × Bool) :=
  let word := part.takeWhile Toml.isBare
  match (Text.split ']' (part.dropWhile Toml.isBare)).reverse with
  | [] :: subscripts =>
    if !word.isEmpty && subscripts.all fun s => s.head? == some '[' && isSubscript (s.drop 1) then
      some (word, !subscripts.isEmpty)
    else none
  | _ => none

/-- The field that a path sets. A subscript makes a list, whose items no setting reads. -/
def pathField (value : Value) : Text × Bool → List (Text × Bool) → Text × Value
  | (word, true), _ => (word, .list [])
  | (word, false), [] => (word, value)
  | (word, false), next :: rest => (word, .table [pathField value next rest])

/-- The field that an entry at the top of a document sets: a key that spells a path stands for it. -/
def topField (key : Text) (value : Value) : Text × Value :=
  match (Text.split '.' key).mapM pathPart? with
  | some (first :: rest) => pathField value first rest
  | _ => (key, value)

def addTable (fields table : Fields) : Fields :=
  table.foldl (fun found e => Value.mergeFields found [topField e.1 e.2]) fields

def ofTables? (tables : List Fields) : Option Settings :=
  ofFields? (tables.foldl addTable [])

def tomlTable? (d : Disk) (path : Text) : Option (Option Fields) :=
  match [path, path ++ ".toml".toList].find? d.isFile with
  | none => some none
  | some path =>
    match d.content path with
    | .error _ => none
    | .ok content =>
      let text := content.readLossy
      let text := if text.head? = some '\ufeff' then text.drop 1 else text
      (Toml.read? text).map some

def composerTable (d : Disk) (path : Text) : Except LoadError (Option Fields) :=
  if d.present path then
    match d.readText path with
    | .error e => .error (.composerUnreadable e)
    | .ok text =>
      match Json.read? text with
      | none => .error .composerMalformed
      | some document =>
        let extra := (Fields.get? "extra".toList document.fields).getD .null
        match Fields.get? "tplc".toList extra.fields with
        | some (.table fields) => .ok (some fields)
        | _ => .ok none
  else .ok none

inductive Source where
  | user
  | composer
  | hidden
  | visible
  deriving DecidableEq, Repr

/-- Loads the settings of the project in the directory `root`. The entries of a source have no order of
their own; they are taken in the one that `arrange` gives them. -/
def loadArranged (arrange : Source → Fields → Fields) (d : Disk) (user root : Text) :
    Except LoadError Settings := do
  let composer ← composerTable d (Path.join root "composer.json".toList)
  let tables := do
    let user ← tomlTable? d user
    let hidden ← tomlTable? d (Path.join root ".tplc.toml".toList)
    let visible ← tomlTable? d (Path.join root "tplc.toml".toList)
    some [user.map (arrange .user), composer.map (arrange .composer),
      hidden.map (arrange .hidden), visible.map (arrange .visible)]
  match tables.bind fun tables => ofTables? (tables.filterMap id) with
  | some settings => .ok settings
  | none => .error .invalid

def load (d : Disk) (user root : Text) : Except LoadError Settings :=
  loadArranged (fun _ table => table) d user root

end Stencil.Settings

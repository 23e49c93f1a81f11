import Stencil.CommandLine

/-!
The program records the files that a command may look at, runs it on the record, and stores what
changed.
-/

namespace Stencil.Program

open Stencil.Files

def modifiedAt (info : IO.FS.Metadata) : Nat :=
  info.modified.sec.toNat * 1000000000 + info.modified.nsec.toNat

partial def record (path : String) (d : Disk) : IO Disk := do
  let real ← IO.FS.realPath path
  let info ← real.metadata
  let key := Path.segments real.toString.toList
  let d := (d.makeDirectories key.dropLast).2
  match info.type with
  | .dir =>
    let mut found := d.put key (.directory (modifiedAt info))
    for entry in ← real.readDir do
      match (← entry.path.symlinkMetadata).type with
      | .symlink => pure ()
      | _ =>
        let path := entry.path.toString
        if entry.fileName != ".git" then found ← record path found
        else found ← (try record (path ++ "/info/exclude") found catch _ => pure found)
    return found
  | .file => return d.put key (.file (.ofBytes (← IO.FS.readBinFile real)) (modifiedAt info))
  | _ => return d

def recordIfThere (d : Disk) (path : Text) : IO Disk := do
  try record (String.ofList path) d catch _ => return d

def ignoreFilesAbove (key : Key) : List Text :=
  (List.range key.length).flatMap fun count =>
    Ignore.ruleFiles.map fun file => Key.path (key.take count ++ file)

def wind (d : Disk) : Disk :=
  { d with clock := d.entries.foldl (fun time e => max time (e.2.modified + 1)) d.clock }

def store (before after : Disk) : IO Unit := do
  for (key, entry) in after.entries.reverse do
    if before.entry? key ≠ some entry then
      let path := String.ofList (Key.path key)
      match entry with
      | .directory _ => IO.FS.createDir path
      | .file (.text content) _ =>
        IO.FS.writeFile (path ++ ".new") (String.ofList content)
        IO.FS.rename (path ++ ".new") path
      | .file (.binary _) _ => pure ()

def userFile : IO Text := do
  let directory ← match ← IO.getEnv "XDG_CONFIG_HOME" with
    | some directory => pure directory
    | none => pure (((← IO.getEnv "HOME").getD "") ++ "/.config")
  return Path.join directory.toList "tplc/tplc.toml".toList

def survey (user root : Text) (arguments : List Text) : IO Disk := do
  let operands := arguments.map (Path.join root)
  let above := ignoreFilesAbove (Path.segments root)
  let d ← ([user, root] ++ operands ++ above).foldlM recordIfThere (.empty 0)
  match Settings.load d user root with
  | .error _ => return wind d
  | .ok settings =>
    let c := Cache.ofSettings root settings
    return wind (← [c.templateDir, c.cacheDir].foldlM recordIfThere d)

end Stencil.Program

def main (args : List String) : IO UInt32 := do
  let arguments := args.map String.toList
  let root := (← IO.currentDir).toString.toList
  let user ← Stencil.Program.userFile
  let stdin ← if arguments.contains ['-'] then (← IO.getStdin).readBinToEnd else pure .empty
  let before ← Stencil.Program.survey user root arguments
  let (outcome, after) := Stencil.CommandLine.run user root (.ofBytes stdin) arguments before
  Stencil.Program.store before after
  IO.print (String.ofList outcome.stdout)
  IO.eprint (String.ofList outcome.stderr)
  return outcome.code.toUInt32

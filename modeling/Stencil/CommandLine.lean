import Stencil.Cache
import Stencil.CommandLine.Arguments
import Stencil.Files.Ignore
import Stencil.Files.Selection
import Stencil.Settings.Load
import Stencil.Settings.Printer

/-!
The command line as a function of a disk, the standard input and the arguments. What is logged is left
out.
-/

namespace Stencil.CommandLine

open Stencil.Files

structure Outcome where
  code : Nat
  stdout : Text
  stderr : Text
  deriving DecidableEq, Repr

namespace Outcome

def success (stdout : Text) : Outcome := ⟨0, stdout, []⟩

def failure (quiet : Bool) (stdout : Text) (message : String) : Outcome :=
  if quiet then ⟨1, [], []⟩ else ⟨1, stdout, message.toList ++ ['\n']⟩

def error (message : String) (causes : List String) : Outcome :=
  let lines := ("Error: " ++ message) :: causes.map ("Caused by: " ++ ·)
  ⟨1, [], lines.flatMap fun line => line.toList ++ ['\n']⟩

/-- The program breaks off. What that says is not looked at. -/
def broken (stdout : Text) : Outcome := ⟨101, stdout, []⟩

end Outcome

structure Project where
  root : Text
  settings : Settings
  deriving Repr

def Project.resolve (p : Project) (path : Text) : Text :=
  if path.isEmpty then [] else Path.join p.root path

def isStdin (file : Text) : Bool := file == ['-']

def compileFile (p : Project) (quiet : Bool) (stdin : Content) (file : Text)
    (output : Option Text) (d : Disk) : Outcome × Disk :=
  let source := if isStdin file then stdin.read else d.readText (p.resolve file)
  match source with
  | .error e =>
    let name := if isStdin file then "stdin" else String.ofList file
    (.error ("Failed to read " ++ name) [e.message], d)
  | .ok source =>
    match (Template.Compiler.ofOptions p.settings.compiler).parse source with
    | (.error e, _) =>
      let name := if isStdin file then "<stdin>" else String.ofList file
      if e.cause.breaksOff then (.broken [], d)
      else (.failure quiet [] (name ++ ": " ++ e.message), d)
    | (.ok _, compiler) =>
      let code := compiler.output?.getD []
      match output with
      | none => (.success code, d)
      | some target =>
        match d.writeFile (p.resolve target) code with
        | .ok next => (.success [], next)
        | .error e => (.error ("Failed to write " ++ String.ofList target) [e.message], d)

def fileError? (o : Template.Options) (d : Disk) (key : Key) : Option Template.FileError :=
  match (Template.Compiler.ofOptions o).parseFile d (Key.path key) with
  | (.ok _, _) => none
  | (.error e, _) => some e

def displayPath (root key : Key) : Text :=
  if root.isPrefixOf key then Text.intercalate ['/'] (key.drop root.length) else Key.path key

def failureLine (root key : Key) : Template.FileError → Text
  | .io e => displayPath root key ++ (": " ++ (Template.FileError.io e).message ++ "\n").toList
  | .refused e =>
    displayPath root key ++
      (":" ++ toString e.line ++ ": " ++ e.cause.message?.getD "" ++ "\n").toList

def failures (o : Template.Options) (d : Disk) (keys : List Key) :
    List (Key × Template.FileError) :=
  keys.filterMap fun key => (fileError? o d key).map (key, ·)

def checkRoots (p : Project) (paths : List Text) : List Text :=
  if paths.isEmpty then [(Cache.ofSettings p.root p.settings).templateDir]
  else paths.map (Path.join p.root)

def countMessage (count : Nat) : String :=
  let ending := if count = 1 then "" else "s"
  "Found " ++ toString count ++ " error" ++ ending ++ " in " ++ toString count ++ " file" ++
    ending ++ "."

/-- The files are checked side by side before anything is said, so one that breaks off takes the
verdicts on the others with it. -/
def checkFiles (walk : Walk) (p : Project) (quiet : Bool) (paths : List Text) (d : Disk) : Outcome :=
  let keys := templateFiles walk d p.settings.cache.extension (checkRoots p paths)
  let found := failures p.settings.compiler d keys
  let root := Path.segments p.root
  if found.any fun f => f.2.breaksOff then .broken []
  else if found.isEmpty then .success []
  else
    .failure quiet (found.flatMap fun (key, e) => failureLine root key e)
      (countMessage found.length)

def cacheAll (c : Cache) (force : Bool) :
    List Text → Disk → (List Text × Option Cache.Error) × Disk
  | [], d => (([], none), d)
  | name :: rest, d =>
    match if force then c.compile d name else c.check d name with
    | (.error e, next) => (([], some e), next)
    | (.ok path, next) =>
      let ((paths, error?), last) := cacheAll c force rest next
      ((path :: paths, error?), last)

def cacheNames (p : Project) (quiet force : Bool) (names : List Text) (d : Disk) :
    Outcome × Disk :=
  let ((paths, error?), next) := cacheAll (Cache.ofSettings p.root p.settings) force names d
  let stdout := if quiet then [] else paths.flatMap fun path => path ++ ['\n']
  match error? with
  | none => (.success stdout, next)
  | some e =>
    if e.breaksOff then (.broken stdout, next) else (.failure quiet stdout e.message, next)

def execute (walk : Walk) (p : Project) (stdin : Content) (i : Invocation) (d : Disk) :
    Outcome × Disk :=
  match i.command with
  | .compile file output => compileFile p i.quiet stdin file output d
  | .check paths => (checkFiles walk p i.quiet paths d, d)
  | .cache force names => cacheNames p i.quiet force names d
  | .config => (.success p.settings.toToml, d)

def usage : String :=
  "Usage: tplc [-q|--quiet] [-v|--verbose]... <COMMAND>\n\n" ++
    "Commands:\n" ++
    "  compile FILE [-o|--output FILE]  Compile one template and print the result\n" ++
    "  check [PATH]...                  Check templates for syntax errors\n" ++
    "  cache [--force] NAME...          Bring cached templates up to date and print their paths\n" ++
    "  config                           Print the effective settings for this project\n"

def Stop.outcome : Stop → Outcome
  | .version => .success "tplc 0.1.0\n".toList
  | .help => .success usage.toList
  | .invalid => ⟨2, [], usage.toList⟩

def loadCauses (e : Settings.LoadError) : List String :=
  match e with
  | .composerUnreadable io => [e.message, io.message]
  | _ => [e.message]

def run (user root : Text) (stdin : Content) (arguments : List Text) (d : Disk) :
    Outcome × Disk :=
  match parse arguments with
  | .error stop => (stop.outcome, d)
  | .ok invocation =>
    match Settings.load d user root with
    | .error e => (.error "Failed to load settings" (loadCauses e), d)
    | .ok settings => execute Ignore.walk ⟨root, settings⟩ stdin invocation d

end Stencil.CommandLine

import Stencil.Settings
import Stencil.Template.File

/-! Compiled templates, kept in files of their own until their templates change. -/

namespace Stencil

open Stencil.Files

structure Cache where
  templateDir : Text
  cacheDir : Text
  extension : Text
  precompiled : Bool
  options : Template.Options
  deriving Repr

namespace Cache

inductive Error where
  | read (path : Text) (e : IoError)
  | write (path : Text) (e : IoError)
  | refused (path : Text) (e : Template.SyntaxError)
  deriving DecidableEq, Repr

def Error.message : Error → String
  | .read path e => "Failed to read " ++ String.ofList path ++ ": " ++ e.message
  | .write path e => "Failed to write " ++ String.ofList path ++ ": " ++ e.message
  | .refused path e => String.ofList path ++ ": " ++ e.message

def Error.line? : Error → Option Nat
  | .refused _ e => some e.line
  | _ => none

def Error.breaksOff : Error → Bool
  | .refused _ e => e.cause.breaksOff
  | _ => false

def ofSettings (root : Text) (s : Settings) : Cache where
  templateDir := Path.join root s.cache.templateDir
  cacheDir := Path.join root s.cache.cacheDir
  extension := s.cache.extension
  precompiled := s.cache.precompiled
  options := s.compiler

def templatePath (c : Cache) (name : Text) : Text :=
  Path.join c.templateDir (name ++ '.' :: c.extension)

def fileStem (name : Text) : Text :=
  name.map fun ch => if ch.isAlphanum || ch == '_' then ch else '_'

def cachePath (c : Cache) (name : Text) : Text :=
  Path.join c.cacheDir ("tpl_".toList ++ fileStem name ++ ".php".toList)

structure Faults where
  making : Option IoError := none
  writing : Option IoError := none
  moving : Option IoError := none
  deriving DecidableEq, Repr

/-- Writes a compiled form to a temporary file, and moves that to its path. -/
def replace (c : Cache) (d : Disk) (cached code : Text) (faults : Faults) :
    Except Error Unit × Disk :=
  match faults.making.elim (d.makeTemporary c.cacheDir) .error with
  | .error e => (.error (.write c.cacheDir e), d)
  | .ok (temporary, made) =>
    match faults.writing with
    | some e => (.error (.write cached e), made.erase temporary)
    | none =>
      let written := made.store temporary code
      match faults.moving.elim (written.moveFile temporary cached) .error with
      | .error e => (.error (.write cached e), written.erase temporary)
      | .ok next => (.ok (), next)

def write (c : Cache) (d : Disk) (template cached : Text) (faults : Faults) :
    Except Error Unit × Disk :=
  match d.readText template with
  | .error e => (.error (.read template e), d)
  | .ok source =>
    match (Template.Compiler.ofOptions c.options).parse source with
    | (.error e, _) => (.error (.refused template e), d)
    | (.ok _, compiler) =>
      match d.makeDirectories (Path.segments c.cacheDir) with
      | (.error e, next) => (.error (.write c.cacheDir e), next)
      | (.ok _, next) => c.replace next cached (compiler.output?.getD []) faults

def isStale (d : Disk) (template cached : Text) : Except Error Bool :=
  match d.modified cached with
  | .error _ => .ok true
  | .ok cachedAt =>
    match d.modified template with
    | .error e => .error (.read template e)
    | .ok templateAt => .ok (cachedAt < templateAt)

def compile (c : Cache) (d : Disk) (name : Text) (faults : Faults := {}) :
    Except Error Text × Disk :=
  match c.write d (c.templatePath name) (c.cachePath name) faults with
  | (.ok _, next) => (.ok (c.cachePath name), next)
  | (.error e, next) => (.error e, next)

def check (c : Cache) (d : Disk) (name : Text) (faults : Faults := {}) :
    Except Error Text × Disk :=
  if c.precompiled then (.ok (c.cachePath name), d)
  else
    match isStale d (c.templatePath name) (c.cachePath name) with
    | .error e => (.error e, d)
    | .ok true => c.compile d name faults
    | .ok false => (.ok (c.cachePath name), d)

end Cache

end Stencil

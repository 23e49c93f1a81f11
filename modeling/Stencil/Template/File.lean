import Stencil.Files.Disk
import Stencil.Template.Compiler

namespace Stencil.Template

inductive FileError where
  | io (e : Files.IoError)
  | refused (e : SyntaxError)
  deriving DecidableEq, Repr

namespace FileError

def message : FileError → String
  | .io e => "IO error: " ++ e.message
  | .refused e => e.message

def line? : FileError → Option Nat
  | .io _ => none
  | .refused e => some e.line

def breaksOff : FileError → Bool
  | .io _ => false
  | .refused e => e.cause.breaksOff

end FileError

def Compiler.parseFile (c : Compiler) (d : Files.Disk) (path : Text) :
    Except FileError Unit × Compiler :=
  match d.readText path with
  | .error e => (.error (.io e), c)
  | .ok source =>
    match c.parse source with
    | (.ok _, next) => (.ok (), next)
    | (.error e, next) => (.error (.refused e), next)

end Stencil.Template

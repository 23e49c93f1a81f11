import Stencil.Text

namespace Stencil.Files.Path

def isAbsolute (path : Text) : Bool :=
  path.head? == some '/'

def join (base path : Text) : Text :=
  if isAbsolute path then path
  else if base.isEmpty || base.getLast? == some '/' then base ++ path
  else base ++ '/' :: path

def segments (path : Text) : List Text :=
  (Text.split '/' path).filter fun part => !part.isEmpty

def extension? (name : Text) : Option Text :=
  let after := name.reverse.takeWhile (· ≠ '.')
  let before := name.reverse.drop (after.length + 1)
  if after.length < name.length ∧ before ≠ [] then some after.reverse else none

end Stencil.Files.Path

import Stencil.Files.Disk

namespace Stencil.Files

def hasExtension (extension : Text) (key : Key) : Bool :=
  (key.getLast?.bind Path.extension?) == some extension

abbrev Walk := Disk → Key → List Key

def selectedBy (walk : Walk) (d : Disk) (extension path : Text) : List Key :=
  match d.find path with
  | .ok (key, .file _ _) => if hasExtension extension key then [key] else []
  | .ok (root, .directory _) => (walk d root).filter (hasExtension extension)
  | .error _ => []

def insertKey (key : Key) : List Key → List Key
  | [] => [key]
  | first :: rest =>
    if key < first then key :: first :: rest
    else if key = first then first :: rest
    else first :: insertKey key rest

def templateFiles (walk : Walk) (d : Disk) (extension : Text) (paths : List Text) : List Key :=
  (paths.flatMap (selectedBy walk d extension)).foldr insertKey []

end Stencil.Files

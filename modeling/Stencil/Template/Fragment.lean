import Stencil.Text

namespace Stencil.Template

inductive Fragment where
  | ifOpen (condition : Text)
  | elseIfOpen (condition : Text)
  | elseOpen
  | foreachOpen (clause : Text)
  | escapedEcho (value : Text)
  | rawEcho (value : Text)
  | statement (source : Text)
  deriving DecidableEq, Repr

namespace Fragment

def escapeFlags : String :=
  "\\ENT_QUOTES|\\ENT_SUBSTITUTE|\\ENT_DISALLOWED|\\ENT_HTML5"

def code : Fragment → Text
  | .ifOpen condition => "if(".toList ++ condition ++ ")\x7b".toList
  | .elseIfOpen condition => "elseif(".toList ++ condition ++ ")\x7b".toList
  | .elseOpen => "else\x7b".toList
  | .foreachOpen clause => "foreach(".toList ++ clause ++ ")\x7b".toList
  | .escapedEcho value =>
    "echo \\htmlspecialchars(".toList ++ value ++ ", ".toList ++ escapeFlags.toList ++
      ", 'UTF-8');".toList
  | .rawEcho value => "echo ".toList ++ value ++ ";".toList
  | .statement source => source ++ ";".toList

def blockClose : Text :=
  "\x7d".toList

end Fragment

structure Table (α : Type) where
  entries : List α
  deriving DecidableEq, Repr

namespace Table

variable {α : Type}

def empty : Table α := ⟨[]⟩

def size (t : Table α) : Nat :=
  t.entries.length

def lastId : Nat := 0xffffffff

/-- Adds an entry, and returns its number; past `lastId` all entries share that number. -/
def register (entry : α) (t : Table α) : Nat × Table α :=
  (min t.size lastId, ⟨t.entries ++ [entry]⟩)

def get? (t : Table α) (id : Nat) : Option α :=
  t.entries[id]?

end Table

end Stencil.Template

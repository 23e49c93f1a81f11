import Stencil.Text

namespace Stencil.Markup

structure LineIndex where
  starts : List Nat
  deriving DecidableEq, Repr

namespace LineIndex

def startsAfter (offset : Nat) : Text → List Nat
  | [] => []
  | c :: cs =>
    let next := offset + c.utf8Size
    if c = '\n' then next :: startsAfter next cs else startsAfter next cs

def ofText (source : Text) : LineIndex :=
  ⟨0 :: startsAfter 0 source⟩

def line (index : LineIndex) (offset : Nat) : Nat :=
  (index.starts.takeWhile (· ≤ offset)).length

end LineIndex

end Stencil.Markup

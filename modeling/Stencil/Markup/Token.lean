import Stencil.Text

namespace Stencil.Markup

structure Tag where
  name : Text
  attributes : List (Text × Text)
  selfClosing : Bool
  deriving DecidableEq, Repr

inductive Token where
  | startTag (tag : Tag) (start : Nat)
  | endTag (name : Text) (start : Nat)
  | text (content : Text) (start : Nat)
  | comment (content : Text) (start : Nat)
  | doctype (name : Text)
  deriving DecidableEq, Repr

end Stencil.Markup

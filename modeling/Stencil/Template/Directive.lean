import Stencil.Markup.Node

namespace Stencil.Template

structure Options where
  directivePrefix : Text := []
  dotAccess : Bool := true
  deriving DecidableEq, Repr

structure Directives where
  ifName : Text
  elseIfName : Text
  elseName : Text
  forName : Text
  preName : Text
  deriving DecidableEq, Repr

namespace Directives

def withPrefix (start : Text) : Directives where
  ifName := start ++ "if".toList
  elseIfName := start ++ "else-if".toList
  elseName := start ++ "else".toList
  forName := start ++ "for".toList
  preName := start ++ "pre".toList

def nameOf (d : Directives) : Markup.PlaceholderKind → Text
  | .conditional => d.ifName
  | .alternative => d.elseIfName
  | .otherwise => d.elseName
  | .loop => d.forName
  | .tag => "mustache".toList

end Directives

def Options.directives (o : Options) : Directives :=
  .withPrefix o.directivePrefix

end Stencil.Template

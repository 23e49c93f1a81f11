import Stencil.Markup.Node
import Stencil.Template.Fragment

namespace Stencil.Template

open Markup

variable (table : Table Fragment)

def lookup? (id : Nat) : Option Text :=
  (table.get? id).map Fragment.code

def expandAttribute? (a : Attribute) : Option Attribute :=
  match a.value with
  | .expression id => (lookup? table id).map fun code => ⟨a.name, .code code⟩
  | _ => some a

mutual

def expandNode? : Node → Option (List Node)
  | .placeholder id kind children => do
    let code ← lookup? table id
    let inner ← expand? children
    return .code code :: inner ++ (if kind.opensBlock then [.code Fragment.blockClose] else [])
  | .element name attributes children line => do
    let attributes ← attributes.mapM (expandAttribute? table)
    let inner ← expand? children
    return [.element name attributes inner line]
  | node => some [node]

def expand? : List Node → Option (List Node)
  | [] => some []
  | node :: rest => do
    let first ← expandNode? node
    let others ← expand? rest
    return first ++ others

end

def mergeInto : Node → List Node → List Node
  | .code first, .code second :: rest => .code (first ++ second) :: rest
  | node, rest => node :: rest

mutual

def mergeNode : Node → Node
  | .element name attributes children line => .element name attributes (merge children) line
  | node => node

def merge : List Node → List Node
  | [] => []
  | node :: rest => mergeInto (mergeNode node) (merge rest)

end

def emit? (document : List Node) : Option (List Node) :=
  (expand? table document).map merge

end Stencil.Template

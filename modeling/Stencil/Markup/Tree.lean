import Stencil.Markup.LineIndex
import Stencil.Markup.Token.Lexer

namespace Stencil.Markup

structure OpenElement where
  name : Text
  attributes : List Attribute
  line : Nat
  children : List Node
  deriving Repr

/-- The open elements, innermost first, and the nodes outside of them, last one first. -/
structure Builder where
  elements : List OpenElement
  roots : List Node
  deriving Repr

namespace OpenElement

def close (e : OpenElement) : Node :=
  .element e.name e.attributes e.children.reverse e.line

end OpenElement

namespace Builder

def empty : Builder := ⟨[], []⟩

def mapSiblings (f : List Node → List Node) (b : Builder) : Builder :=
  match b.elements with
  | [] => { b with roots := f b.roots }
  | e :: outer => { b with elements := { e with children := f e.children } :: outer }

def add (node : Node) (b : Builder) : Builder :=
  b.mapSiblings (node :: ·)

def addText (content : Text) (line : Nat) (b : Builder) : Builder :=
  b.mapSiblings fun siblings =>
    match siblings with
    | .text before l :: others => .text (before ++ content) l :: others
    | _ => .text content line :: siblings

def openElement (e : OpenElement) (b : Builder) : Builder :=
  { b with elements := e :: b.elements }

def closeElement (b : Builder) : Builder :=
  match b.elements with
  | [] => b
  | e :: outer => add e.close { b with elements := outer }

def closeElements : Nat → Builder → Builder
  | 0, b => b
  | n + 1, b => closeElements n b.closeElement

def closeNamed (name : Text) (b : Builder) : Builder :=
  match b.elements.findIdx? fun e => e.name == name with
  | some i => closeElements (i + 1) b
  | none => b

def step (lines : LineIndex) (b : Builder) : Token → Builder
  | .startTag tag start =>
    let attributes := tag.attributes.map fun (name, value) => ⟨name, .text value⟩
    let line := lines.line start
    if tag.selfClosing || isVoid tag.name then b.add (.element tag.name attributes [] line)
    else b.openElement ⟨tag.name, attributes, line, []⟩
  | .endTag name _ => b.closeNamed name
  | .text content start => b.addText content (lines.line start)
  | .comment content start =>
    let line := lines.line start
    if content.head? = some '?' then b.add (.instruction content line)
    else b.add (.comment content line)
  | .doctype name => b.add (.doctype name)

def finish (b : Builder) : List Node :=
  (closeElements b.elements.length b).roots.reverse

end Builder

def buildTree (lines : LineIndex) (tokens : List Token) : List Node :=
  (tokens.foldl (Builder.step lines) .empty).finish

def parse (source : Text) : List Node :=
  buildTree (.ofText source) (tokenize source)

end Stencil.Markup

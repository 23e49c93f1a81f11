import Stencil.Text

namespace Stencil.Markup

def voidElements : List String :=
  ["area", "base", "br", "col", "embed", "hr", "img", "input", "link", "meta", "param", "source",
   "track", "wbr"]

def rawTextElements : List String :=
  ["script", "style"]

def isVoid (name : Text) : Bool :=
  voidElements.any fun n => n.toList == name

def isRawText (name : Text) : Bool :=
  rawTextElements.any fun n => n.toList == name

inductive PlaceholderKind where
  | conditional
  | alternative
  | otherwise
  | loop
  | tag
  deriving DecidableEq, Repr

namespace PlaceholderKind

def label : PlaceholderKind → String
  | .conditional => "if"
  | .alternative => "else-if"
  | .otherwise => "else"
  | .loop => "for"
  | .tag => "mustache"

def opensBlock (kind : PlaceholderKind) : Bool :=
  kind != .tag

def continuesChain (kind : PlaceholderKind) : Bool :=
  kind == .conditional || kind == .alternative

end PlaceholderKind

inductive AttributeValue where
  | text (content : Text)
  | expression (id : Nat)
  | code (content : Text)
  deriving DecidableEq, Repr

structure Attribute where
  name : Text
  value : AttributeValue
  deriving DecidableEq, Repr

inductive Node where
  | element (name : Text) (attributes : List Attribute) (children : List Node) (line : Nat)
  | text (content : Text) (line : Nat)
  | comment (content : Text) (line : Nat)
  | doctype (name : Text)
  | instruction (content : Text) (line : Nat)
  | placeholder (id : Nat) (kind : PlaceholderKind) (children : List Node)
  | code (content : Text)
  deriving Repr

namespace Node

def isBlankText : Node → Bool
  | .text content _ => Text.isBlank content
  | _ => false

end Node

structure Element where
  name : Text
  attributes : List Attribute := []
  children : List Node := []
  line : Nat
  deriving Repr

namespace Element

def toNode (e : Element) : Node :=
  .element e.name e.attributes e.children e.line

def addAttribute (e : Element) (a : Attribute) : Element :=
  { e with attributes := e.attributes ++ [a] }

def addChild (e : Element) (child : Node) : Element :=
  { e with children := e.children ++ [child] }

def attribute? (e : Element) (name : Text) : Option Attribute :=
  e.attributes.find? fun a => a.name == name

end Element

def AttributeValue.literal : AttributeValue → Text
  | .text content => content
  | .expression _ | .code _ => []

def takeAttribute (name : Text) : List Attribute → Option Text × List Attribute
  | [] => (none, [])
  | a :: rest =>
    if a.name = name then (some a.value.literal, rest)
    else
      let (value, others) := takeAttribute name rest
      (value, a :: others)

namespace Element

def take (e : Element) (name : Text) : Option Text × Element :=
  let (value, attributes) := takeAttribute name e.attributes
  (value, { e with attributes := attributes })

end Element

end Stencil.Markup

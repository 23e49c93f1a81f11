import Stencil.Proofs.Execution
import Stencil.Template.Resolve
import Mathlib.Tactic.Common

/-! The meaning of a template, read off its tree as it is written. -/

namespace Stencil.Template

open Markup

def Options.code (o : Options) (raw : Text) : Text :=
  let trimmed := Text.trim raw
  if o.dotAccess then Expression.DotAccess.expand trimmed else trimmed

def Directives.names (d : Directives) : List Text :=
  [d.ifName, d.elseIfName, d.elseName, d.forName, d.preName]

def valueOf? (name : Text) (attributes : List Attribute) : Option Text :=
  (attributes.find? fun a => a.name == name).map fun a => a.value.literal

def without (name : Text) (attributes : List Attribute) : List Attribute :=
  attributes.eraseP fun a => a.name == name

def Directives.others (d : Directives) (attributes : List Attribute) : List Attribute :=
  d.names.foldl (fun others name => without name others) attributes

inductive Branch where
  | plain
  | first (condition : Text)
  | next (condition : Text)
  | last
  deriving DecidableEq, Repr

variable {S : Type} (I : Interpretation S) (o : Options)

def branchOf : Node → Branch
  | .element _ attributes _ _ =>
    match valueOf? o.directives.ifName attributes, valueOf? o.directives.elseIfName attributes,
      valueOf? o.directives.elseName attributes with
    | some condition, _, _ => .first (o.code condition)
    | none, some condition, _ => .next (o.code condition)
    | none, none, some _ => .last
    | none, none, none => .plain
  | _ => .plain

def isLink (node : Node) : Bool :=
  match branchOf o node with
  | .next _ | .last => true
  | .first _ | .plain => false

def continues (siblings : List Node) : Bool :=
  (siblings.dropWhile Node.isBlankText).head?.any (isLink o)

def boundName (a : Attribute) : Text :=
  match Resolve.binding? a with
  | some (name, _) => name
  | none => a.name

def bindingOf? (attributes : List Attribute) (name : Text) : Option Text :=
  (attributes.filterMap Resolve.binding?).reverse.lookup name

def literalOf? (attributes : List Attribute) (name : Text) : Option Text :=
  (attributes.find? fun a => (Resolve.binding? a).isNone && a.name == name).map fun a => a.value.literal

def valueBehaviour (attributes : List Attribute) (name : Text) : Behaviour S :=
  match bindingOf? attributes name with
  | some value => I.perform (.escapedEcho (o.code value))
  | none => .write (escapeAttribute ((literalOf? attributes name).getD []))

def attributeBehaviour (attributes : List Attribute) (name : Text) : Behaviour S :=
  (Behaviour.write (attributeOpening name)).andThen
    ((valueBehaviour I o attributes name).andThen (.write ['"']))

def attributesBehaviour (attributes : List Attribute) : Behaviour S :=
  (attributes.map boundName).eraseDups.foldr
    (fun name rest => (attributeBehaviour I o attributes name).andThen rest) (.write [])

/-- What the code of a tag is made into, by the braces of the tag and whether the code is a statement.
A tag of another form is refused. -/
def tagForms : List ((Modifier × Bool) × (Text → Fragment)) :=
  [((.escaped, false), .escapedEcho), ((.escaped, true), .statement), ((.raw, false), .rawEcho),
    ((.noEcho, true), .statement)]

def tagCode? (t : Tag) : Option Fragment :=
  match Expression.accept .tag (o.code t.expression) with
  | .ok e => (tagForms.lookup (t.modifier, e.isStatement)).map fun form => form (o.code t.expression)
  | .error _ => none

def tagBehaviour (t : Tag) : Behaviour S :=
  ((tagCode? o t).map I.perform).getD (Behaviour.write [])

def textBehaviour (raw : Bool) (content : Text) : Behaviour S :=
  match _h : Tag.next? content with
  | .ok (some t) =>
    (Behaviour.write (printedText raw t.before)).andThen
      ((tagBehaviour I o t).andThen (textBehaviour raw t.after))
  | _ => .write (printedText raw content)
termination_by content.length
decreasing_by exact Tag.after_length _h

def elementBehaviour (name : Text) (attributes children : Behaviour S) : Behaviour S :=
  let start := (Behaviour.write (startOpening name)).andThen (attributes.andThen (.write ['>']))
  if isVoid name then start else start.andThen (children.andThen (.write (endTag name)))

def loopBehaviour (clause : Option Text) (body : Behaviour S) : Behaviour S :=
  match clause with
  | some clause => fun s => body.repeated (I.rounds (o.code clause) s) s
  | none => body

mutual

def nodeBehaviour (raw : Bool) : Node → Behaviour S
  | .element name attributes children _ =>
    let inner :=
      if (valueOf? o.directives.preName attributes).isSome then
        .write ((Node.printAll? (isRawText name) children).getD [])
      else siblingsBehaviour (isRawText name) none children
    loopBehaviour I o (valueOf? o.directives.forName attributes)
      (elementBehaviour name (attributesBehaviour I o (o.directives.others attributes)) inner)
  | .text content _ => textBehaviour I o raw content
  | node => .write ((node.print? raw).getD [])

def siblingsBehaviour (raw : Bool) (taken : Option Bool) : List Node → Behaviour S
  | [] => .write []
  | node :: rest =>
    if node.isBlankText && continues o rest then siblingsBehaviour raw taken rest
    else
      let body := nodeBehaviour raw node
      match branchOf o node, taken with
      | .plain, _ => body.andThen (siblingsBehaviour raw none rest)
      | .first condition, _ | .next condition, some false =>
        .branch (I.condition condition) body (siblingsBehaviour raw (some true) rest)
          (siblingsBehaviour raw (some false) rest)
      | .next _, taken => siblingsBehaviour raw taken rest
      | .last, some false => body.andThen (siblingsBehaviour raw none rest)
      | .last, _ => siblingsBehaviour raw none rest

end

/-- What a document writes. -/
def meaning (document : List Node) : Behaviour S :=
  siblingsBehaviour I o false none document

end Stencil.Template

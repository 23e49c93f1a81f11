import Stencil.Expression.DotAccess
import Stencil.Template.Directive
import Stencil.Template.Error
import Stencil.Template.Fragment

/-!
Directives, bindings and tags become references to a table of code. Siblings that are done are held last
one first.
-/

namespace Stencil.Template

open Markup

structure Stop where
  error : SyntaxError
  table : Table Fragment
  deriving DecidableEq, Repr

abbrev Resolve := StateT (Table Fragment) (Except Stop)

namespace Resolve

def fail {α : Type} (line : Nat) (cause : Cause) : Resolve α := do
  throw ⟨⟨cause, line⟩, ← get⟩

def register (fragment : Fragment) : Resolve Nat :=
  modifyGet (Table.register fragment)

variable (o : Options)

def expression (site : Site) (line : Nat) (raw : Text) : Resolve Expression :=
  let trimmed := Text.trim raw
  let source := if o.dotAccess then Expression.DotAccess.expand trimmed else trimmed
  match Expression.accept site source with
  | .ok e => pure e
  | .error refusal => fail line (.refused source refusal)

/-- The fragment for an expression in a tag. Only a value can be echoed, only work can be silent. -/
def tagFragment? (modifier : Modifier) (e : Expression) : Option Fragment :=
  match modifier, e.isStatement with
  | .escaped, true | .noEcho, true => some (.statement e.source)
  | .escaped, false => some (.escapedEcho e.source)
  | .raw, false => some (.rawEcho e.source)
  | .raw, true | .noEcho, false => none

def tag (line : Nat) (t : Tag) : Resolve Nat := do
  let e ← expression o .tag line t.expression
  if e.isEmpty then fail line .emptyTag
  else
    match tagFragment? t.modifier e with
    | some fragment => register fragment
    | none => fail line (.modifierMismatch e.source t.modifier)

def addText (content : Text) (line : Nat) (done : List Node) : List Node :=
  if content.isEmpty then done else .text content line :: done

def text (line : Nat) (content : Text) (done : List Node) : Resolve (List Node) :=
  match _h : Tag.next? content with
  | .error fault =>
    fail (line + Text.lineBreaksBefore fault.position content) (.tag fault)
  | .ok none => pure (addText content line done)
  | .ok (some t) => do
    let tagLine := line + Text.lineBreaks t.before
    let id ← tag o tagLine t
    text (tagLine + Text.lineBreaks t.source) t.after
      (.placeholder id .tag [] :: addText t.before line done)
termination_by content.length
decreasing_by exact Tag.after_length _h

/-- The siblings that an alternative continues, with blank text at the end dropped. `taken` is the
conditional directive that the element already has. -/
def chain (line : Nat) (name : Text) (taken : Option PlaceholderKind) (done : List Node) :
    Resolve (List Node) :=
  let names := o.directives
  match taken with
  | some kind => fail line (.conflictingDirective (names.nameOf kind) name)
  | none =>
    let done := done.dropWhile Node.isBlankText
    match done with
    | .placeholder _ kind _ :: _ =>
      if kind.continuesChain then pure done
      else fail line (.badChain names.ifName names.elseIfName)
    | .element _ _ _ _ :: _ => fail line (.badChain names.ifName names.elseIfName)
    | _ => fail line .previousSiblingNotElement

structure Scope where
  conditional : Option (Nat × PlaceholderKind)
  attributes : List Attribute
  done : List Node

def ifDirective (line : Nat) (s : Scope) : Resolve Scope := do
  let name := o.directives.ifName
  match takeAttribute name s.attributes with
  | (none, _) => return s
  | (some value, attributes) =>
    if Text.isBlank value then fail line (.missingValue name)
    else
      let e ← expression o .condition line value
      let id ← register (.ifOpen e.source)
      return ⟨some (id, .conditional), attributes, s.done⟩

def elseIfDirective (line : Nat) (s : Scope) : Resolve Scope := do
  let name := o.directives.elseIfName
  match takeAttribute name s.attributes with
  | (none, _) => return s
  | (some value, attributes) =>
    if Text.isBlank value then fail line (.missingValue name)
    else
      let done ← chain o line name (s.conditional.map Prod.snd) s.done
      let e ← expression o .condition line value
      let id ← register (.elseIfOpen e.source)
      return ⟨some (id, .alternative), attributes, done⟩

def elseDirective (line : Nat) (s : Scope) : Resolve Scope := do
  let name := o.directives.elseName
  match takeAttribute name s.attributes with
  | (none, _) => return s
  | (some value, attributes) =>
    if Text.isBlank value then
      let done ← chain o line name (s.conditional.map Prod.snd) s.done
      let id ← register .elseOpen
      return ⟨some (id, .otherwise), attributes, done⟩
    else fail line (.unexpectedValue name)

def forDirective (line : Nat) (attributes : List Attribute) :
    Resolve (Option Nat × List Attribute) := do
  let name := o.directives.forName
  match takeAttribute name attributes with
  | (none, _) => return (none, attributes)
  | (some value, others) =>
    if Text.isBlank value then fail line (.missingValue name)
    else
      let e ← expression o .loop line value
      let id ← register (.foreachOpen e.source)
      return (some id, others)

def preDirective (line : Nat) (attributes : List Attribute) :
    Resolve (Bool × List Attribute) := do
  let name := o.directives.preName
  match takeAttribute name attributes with
  | (none, _) => return (false, attributes)
  | (some value, others) =>
    if Text.isBlank value then return (true, others)
    else fail line (.unexpectedValue name)

def binding? (a : Attribute) : Option (Text × Text) :=
  match a.name, a.value with
  | ':' :: name, .text value => some (name, value)
  | _, _ => none

def replaceOrAdd (a : Attribute) (attributes : List Attribute) : List Attribute :=
  if attributes.any fun b => b.name == a.name then
    attributes.map fun b => if b.name = a.name then a else b
  else attributes ++ [a]

/-- Binds attributes one by one after those in `bound`. A binding replaces a literal attribute of
the same name, before or after it. -/
def bindAttributes (line : Nat) : (bound rest : List Attribute) → Resolve (List Attribute)
  | bound, [] => pure bound
  | bound, a :: rest =>
    match binding? a with
    | none =>
      if bound.any fun b => b.name == a.name then bindAttributes line bound rest
      else bindAttributes line (bound ++ [a]) rest
    | some (name, value) => do
      let e ← expression o .binding line value
      if e.isEmpty then fail line .emptyAttribute
      else
        let id ← register (.escapedEcho e.source)
        bindAttributes line (replaceOrAdd ⟨name, .expression id⟩ bound) rest

def wrap (conditional : Option (Nat × PlaceholderKind)) (loop : Option Nat) (node : Node) : Node :=
  let looped :=
    match loop with
    | some id => .placeholder id .loop [node]
    | none => node
  match conditional with
  | some (id, kind) => .placeholder id kind [looped]
  | none => looped

mutual

def node (done : List Node) : Node → Resolve (List Node)
  | .instruction _ line => fail line .instructionNotAllowed
  | .text content line => text o line content done
  -- No attributes, no directives.
  | .element name [] children line => do
    return .element name [] (← nodes [] children) line :: done
  | .element name attributes children line => do
    let s ← ifDirective o line ⟨none, attributes, done⟩
    let s ← elseIfDirective o line s
    let s ← elseDirective o line s
    let (loop, attributes) ← forDirective o line s.attributes
    let (pre, attributes) ← preDirective o line attributes
    let attributes ← bindAttributes o line [] attributes
    let children ← if pre then pure children else nodes [] children
    return wrap s.conditional loop (.element name attributes children line) :: s.done
  | .comment content line => pure (.comment content line :: done)
  | .doctype name => pure (.doctype name :: done)
  | .placeholder id kind children => pure (.placeholder id kind children :: done)
  | .code content => pure (.code content :: done)

def nodes (done : List Node) : List Node → Resolve (List Node)
  | [] => pure done.reverse
  | first :: rest => do nodes (← node done first) rest

end

end Resolve

def resolve (o : Options) (document : List Node) : Except Stop (List Node × Table Fragment) :=
  (Resolve.nodes o [] document).run .empty

end Stencil.Template

import Stencil.Expression
import Stencil.Template.Tag

namespace Stencil.Template

inductive Cause where
  | missingValue (directive : Text)
  | unexpectedValue (directive : Text)
  | conflictingDirective (first second : Text)
  | previousSiblingNotElement
  | badChain (ifName elseIfName : Text)
  | tag (fault : TagFault)
  | emptyTag
  | modifierMismatch (expression : Text) (modifier : Modifier)
  | emptyAttribute
  | instructionNotAllowed
  | refused (expression : Text) (refusal : Expression.Refusal)
  deriving DecidableEq, Repr

structure SyntaxError where
  cause : Cause
  line : Nat
  deriving DecidableEq, Repr

namespace TagFault

def message? : TagFault → Option String
  | .unclosed position =>
    some ("Opening mustache tag at position " ++ toString position ++ ", but it was never closed")
  | .unopened position =>
    some ("Closing mustache tag at position " ++ toString position ++ ", but it was never opened")
  | .nested position opened =>
    some ("Opening mustache tag at position " ++ toString position ++
      ", but a tag was already open at position " ++ toString opened)
  | .splitCharacter _ => none

end TagFault

namespace Cause

/-- Nothing is said where the program breaks off. -/
def message? : Cause → Option String
  | .missingValue directive =>
    some ("Attribute " ++ String.ofList directive ++ " must not be empty")
  | .unexpectedValue directive =>
    some ("Attribute " ++ String.ofList directive ++ " must be empty")
  | .conflictingDirective first second =>
    some ("Do not put " ++ String.ofList second ++ " on the same element that already has " ++
      String.ofList first)
  | .previousSiblingNotElement => some "Previous sibling must be an element"
  | .badChain ifName elseIfName =>
    some ("Previous sibling element must have " ++ String.ofList ifName ++ " or " ++
      String.ofList elseIfName)
  | .tag fault => fault.message?
  | .emptyTag => some "Mustache tag is empty"
  | .modifierMismatch expression modifier =>
    some ("Mustache tag \"" ++ String.ofList expression ++ "\" cannot use the " ++
      modifier.opening ++ " modifier")
  | .emptyAttribute => some "Attribute is empty"
  | .instructionNotAllowed => some "Processing instructions are not allowed in templates"
  | .refused expression refusal => some (refusal.message expression)

def breaksOff : Cause → Bool
  | .tag (.splitCharacter _) => true
  | _ => false

theorem message?_eq_none {cause : Cause} : cause.message? = none ↔ cause.breaksOff = true := by
  cases cause with
  | tag fault => cases fault <;> simp [message?, TagFault.message?, breaksOff]
  | _ => simp [message?, breaksOff]

end Cause

def SyntaxError.message (e : SyntaxError) : String :=
  match e.cause.message? with
  | some message => message ++ " on line " ++ toString e.line
  | none => ""

end Stencil.Template

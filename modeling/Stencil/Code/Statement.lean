import Stencil.Code.Fault

/-!
The statements that an expression is embedded in, checked by precedence climbing over any source of
tokens. No tree is built: an operand yields what it can be used for.
-/

namespace Stencil.Code.Statement

inductive Shape where
  | writable
  | callable
  | literal
  | value
  deriving DecidableEq, Repr

/-- A binary operator binds operands that bind tighter than `left` on its left, `right` on its right. -/
structure Binding where
  left : Nat
  right : Nat
  deriving DecidableEq, Repr

def Binding.leftAssoc (power : Nat) : Binding := ⟨power, power⟩

def Binding.rightAssoc (power : Nat) : Binding := ⟨power, power - 1⟩

def assignmentPower : Nat := 13
def ternaryPower : Nat := 16
def notPower : Nat := 42
def instanceofPower : Nat := 44
def unaryPower : Nat := 46
def postfixPower : Nat := 60

def maxDepth : Nat := 256

def binary? : Kind → Option Binding
  | .keyword .kwOr => some (.leftAssoc 10)
  | .keyword .kwXor => some (.leftAssoc 11)
  | .keyword .kwAnd => some (.leftAssoc 12)
  | .symbol .coalesce => some (.rightAssoc 18)
  | .symbol .booleanOr => some (.leftAssoc 20)
  | .symbol .booleanAnd => some (.leftAssoc 22)
  | .symbol .pipe => some (.leftAssoc 24)
  | .symbol .caret => some (.leftAssoc 26)
  | .symbol .ampersand => some (.leftAssoc 28)
  | .symbol .equal | .symbol .notEqual | .symbol .identical | .symbol .notIdentical
  | .symbol .spaceship => some (.leftAssoc 30)
  | .symbol .less | .symbol .lessEqual | .symbol .greater | .symbol .greaterEqual =>
    some (.leftAssoc 32)
  | .symbol .dot => some (.leftAssoc 34)
  | .symbol .shiftLeft | .symbol .shiftRight => some (.leftAssoc 36)
  | .symbol .plus | .symbol .minus => some (.leftAssoc 38)
  | .symbol .star | .symbol .slash | .symbol .percent => some (.leftAssoc 40)
  | .symbol .pow => some (.rightAssoc 48)
  | _ => none

/-- What the grammar asks of the tokens that it reads. -/
class TokenSource (m : Type → Type) where
  peek : m (Option Kind)
  skip : m Unit
  refuse : {α : Type} → Option String → m α
  seesArgumentName : m Bool
  iterate : {α : Type} → (α → m (ForInStep α)) → α → m α

export TokenSource (peek skip refuse seesArgumentName iterate)

section

variable {m : Type → Type} [Monad m] [TokenSource m]

def unexpected {α : Type} : m α :=
  refuse none

def sees (kind : Kind) : m Bool := do
  return (← peek) == some kind

def seesSymbol (s : Symbol) : m Bool :=
  sees (.symbol s)

def eat (kind : Kind) : m Bool := do
  if ← sees kind then
    skip
    return true
  else return false

def eatSymbol (s : Symbol) : m Bool :=
  eat (.symbol s)

def expectSpelled (kind : Kind) (spelling : String) : m Unit := do
  if ← eat kind then return ()
  else refuse (some spelling)

def expect (s : Symbol) : m Unit :=
  expectSpelled (.symbol s) s.spelling

def expectKeyword (k : Keyword) : m Unit :=
  expectSpelled (.keyword k) k.spelling

def expectKind (kind : Kind) : m Unit := do
  if ← eat kind then return ()
  else unexpected

variable (nested : Nat → m Shape)

def enclosed (close : Symbol) : m Unit := do
  discard (nested 0)
  expect close

def memberName : m Unit := do
  match ← peek with
  | some .identifier | some .variableName => skip
  | some (.symbol .openBrace) =>
    skip
    enclosed nested .closeBrace
  | _ => unexpected

def indirectRound : m (ForInStep Unit) := do
  match ← peek with
  | some .variableName =>
    skip
    return .done ()
  | some (.symbol .dollar) =>
    skip
    return .yield ()
  | some (.symbol .openBrace) =>
    skip
    enclosed nested .closeBrace
    return .done ()
  | _ => unexpected

def indirectName : m Unit :=
  iterate (fun _ => indirectRound nested) ()

def classMembers : m Unit :=
  iterate (fun _ => do
    if (← eatSymbol .arrow) then
      memberName nested
      return .yield ()
    else if (← eatSymbol .nullsafeArrow) then
      memberName nested
      return .yield ()
    else if (← eatSymbol .doubleColon) then
      expectKind .variableName
      return .yield ()
    else if (← eatSymbol .openBracket) then
      enclosed nested .closeBracket
      return .yield ()
    else return .done ()) ()

def classReference : m Unit := do
  match ← peek with
  | some .identifier | some .qualifiedName | some .fullyQualifiedName | some .relativeName
  | some (.keyword .kwStatic) => skip
  | some .variableName =>
    skip
    classMembers nested
  | some (.symbol .openParen) =>
    skip
    enclosed nested .closeParen
  | _ => unexpected

def argumentList : m Unit :=
  iterate (fun _ => do
    if ← eatSymbol .closeParen then return .done ()
    else
      unless ← eatSymbol .ellipsis do
        if ← seesArgumentName then
          skip
          skip
      discard (nested 0)
      if ← eatSymbol .comma then return .yield ()
      else
        expect .closeParen
        return .done ()) ()

def arguments : m Unit := do
  if ← eatSymbol .ellipsis then
    if ← eatSymbol .closeParen then return ()
    else
      discard (nested 0)
      if ← eatSymbol .comma then argumentList nested
      else expect .closeParen
  else argumentList nested

def arrayItem : m Unit := do
  if ← eatSymbol .ellipsis then discard (nested 0)
  else
    discard (eatSymbol .ampersand)
    discard (nested 0)
    if ← eatSymbol .doubleArrow then
      discard (eatSymbol .ampersand)
      discard (nested 0)

def arrayItems (close : Symbol) : m Unit :=
  iterate (fun _ => do
    if ← eatSymbol close then return .done ()
    else if ← eatSymbol .comma then return .yield ()
    else
      arrayItem nested
      if ← eatSymbol .comma then return .yield ()
      else
        expect close
        return .done ()) ()

def writableList : m Unit :=
  iterate (fun _ => do
    if (← nested 0) = .writable then
      if ← eatSymbol .comma then
        if ← seesSymbol .closeParen then
          expect .closeParen
          return .done ()
        else return .yield ()
      else
        expect .closeParen
        return .done ()
    else unexpected) ()

def typeName : m Unit := do
  match ← peek with
  | some .identifier | some .qualifiedName | some .fullyQualifiedName | some (.keyword .kwArray)
  | some (.keyword .kwCallable) | some (.keyword .kwStatic) => skip
  | _ => unexpected

def typeDeclaration : m Unit := do
  discard (eatSymbol .question)
  iterate (fun _ => do
    typeName
    if ← eatSymbol .pipe then return .yield ()
    else return .done ()) ()

def parameter : m Unit := do
  match ← peek with
  | some .variableName | some (.symbol .ampersand) | some (.symbol .ellipsis) => pure ()
  | _ => typeDeclaration
  discard (eatSymbol .ampersand)
  discard (eatSymbol .ellipsis)
  expectKind .variableName
  if ← eatSymbol .assign then discard (nested 0)

def parameterList : m Unit :=
  iterate (fun _ => do
    if ← eatSymbol .closeParen then return .done ()
    else
      parameter nested
      if ← eatSymbol .comma then return .yield ()
      else
        expect .closeParen
        return .done ()) ()

def arrowFunction : m Unit := do
  discard (eatSymbol .ampersand)
  expect .openParen
  parameterList nested
  if ← eatSymbol .colon then typeDeclaration
  expect .doubleArrow
  discard (nested 0)

def armConditions : m Unit :=
  iterate (fun _ => do
    discard (nested 0)
    if ← eatSymbol .comma then
      if ← seesSymbol .doubleArrow then return .done ()
      else return .yield ()
    else return .done ()) ()

def matchArm : m Unit := do
  if ← eat (.keyword .kwDefault) then discard (eatSymbol .comma)
  else armConditions nested
  expect .doubleArrow
  discard (nested 0)

def matchBody : m Unit := do
  expect .openParen
  enclosed nested .closeParen
  expect .openBrace
  iterate (fun _ => do
    if ← eatSymbol .closeBrace then return .done ()
    else
      matchArm nested
      if ← eatSymbol .comma then return .yield ()
      else
        expect .closeBrace
        return .done ()) ()

def heredocRest : m Unit := do
  iterate (fun _ => do
    if ← eat .heredocBody then return .yield ()
    else return .done ()) ()
  expectKind .endHeredoc

def operand : m Shape := do
  match ← peek with
  | some .variableName =>
    skip
    return .writable
  | some (.symbol .dollar) =>
    skip
    indirectName nested
    return .writable
  | some .identifier | some .qualifiedName | some .fullyQualifiedName | some .relativeName
  | some .string | some .interpolatedString =>
    skip
    return .callable
  | some .integer | some .float =>
    skip
    return .literal
  | some .startHeredoc =>
    skip
    heredocRest
    return .value
  | some (.symbol .openParen) =>
    skip
    enclosed nested .closeParen
    return .callable
  | some (.symbol .openBracket) =>
    skip
    arrayItems nested .closeBracket
    return .writable
  | some (.keyword .kwArray) =>
    skip
    expect .openParen
    arrayItems nested .closeParen
    return .value
  | some (.keyword .kwList) =>
    skip
    expect .openParen
    arrayItems nested .closeParen
    return .writable
  | some (.keyword .kwIsset) =>
    skip
    expect .openParen
    writableList nested
    return .value
  | some (.keyword .kwEmpty) =>
    skip
    expect .openParen
    enclosed nested .closeParen
    return .value
  | some (.keyword .kwFn) =>
    skip
    arrowFunction nested
    return .callable
  | some (.keyword .kwStatic) =>
    skip
    if ← eat (.keyword .kwFn) then
      arrowFunction nested
      return .callable
    else if ← seesSymbol .doubleColon then return .callable
    else unexpected
  | some (.keyword .kwNew) =>
    skip
    classReference nested
    if ← eatSymbol .openParen then arguments nested
    return .value
  | some (.keyword .kwClone) =>
    skip
    discard (nested (postfixPower - 1))
    return .value
  | some (.keyword .kwPrint) =>
    skip
    discard (nested assignmentPower)
    return .value
  | some (.keyword .kwMatch) =>
    skip
    matchBody nested
    return .value
  | some (.cast _) | some (.symbol .minus) | some (.symbol .plus) | some (.symbol .tilde)
  | some (.symbol .atSign) =>
    skip
    discard (nested unaryPower)
    return .value
  | some (.symbol .bang) =>
    skip
    discard (nested notPower)
    return .value
  | some (.symbol .increment) | some (.symbol .decrement) =>
    skip
    if (← nested unaryPower) = .writable then return .value
    else unexpected
  | _ => unexpected

def access? (shape : Shape) : m (Option Shape) := do
  if shape = .literal then return none
  else
    match ← peek with
    | some (.symbol .openBracket) =>
      skip
      unless ← eatSymbol .closeBracket do enclosed nested .closeBracket
      return some .writable
    | some (.symbol .openParen) =>
      skip
      arguments nested
      return some .callable
    | some (.symbol .arrow) | some (.symbol .nullsafeArrow) =>
      skip
      memberName nested
      return some .writable
    | some (.symbol .doubleColon) =>
      skip
      if ← eat .variableName then return some .writable
      else
        memberName nested
        return some .callable
    | some (.symbol .increment) | some (.symbol .decrement) =>
      if shape = .writable then
        skip
        return some .value
      else return none
    | _ => return none

/-- Reads `kind` as an operator that binds looser than a postfix step but tighter than `power`. -/
def looseOperator (power : Nat) (shape : Shape) (kind : Kind) : m (ForInStep Shape) := do
  match kind with
  | .symbol .question =>
    if ternaryPower ≤ power then return .done shape
    else
      skip
      unless ← eatSymbol .colon do enclosed nested .colon
      discard (nested ternaryPower)
      return .yield .value
  | .keyword .kwInstanceof =>
    if instanceofPower ≤ power then return .done shape
    else
      skip
      classReference nested
      return .yield .value
  | _ =>
    match binary? kind with
    | none => return .done shape
    | some binding =>
      if binding.left ≤ power then return .done shape
      else
        skip
        discard (nested binding.right)
        return .yield .value

def isAssignment : Kind → Bool
  | .symbol s => s.isAssignment
  | _ => false

def assignment (shape : Shape) (kind : Kind) : m Shape := do
  if shape = .writable then
    skip
    if kind = .symbol .assign then discard (eatSymbol .ampersand)
    discard (nested assignmentPower)
    return .value
  else unexpected

def operator (power : Nat) (shape : Shape) : m (ForInStep Shape) := do
  match ← peek with
  | none => return .done shape
  | some kind =>
    if isAssignment kind then return .yield (← assignment nested shape kind)
    else if power < postfixPower then
      match ← access? nested shape with
      | some next => return .yield next
      | none => looseOperator nested power shape kind
    else looseOperator nested power shape kind

def expressionOver (power : Nat) : m Shape := do
  iterate (operator nested power) (← operand nested)

def loopTarget : m Unit := do
  discard (eatSymbol .ampersand)
  if (← nested assignmentPower) = .writable then return ()
  else unexpected

def loopClause : m Unit := do
  discard (nested 0)
  expectKeyword .kwAs
  loopTarget nested
  if ← eatSymbol .doubleArrow then loopTarget nested
  expect .closeParen

def unsetClause : m Unit := do
  expectKeyword .kwUnset
  expect .openParen
  writableList nested

inductive Site where
  | binding
  | condition
  | loop
  | tag
  deriving DecidableEq, Repr

namespace Site

def keyword? : Site → Option Keyword
  | .condition => some .kwIf
  | .loop => some .kwForeach
  | .binding | .tag => none

end Site

def clause : Site → m Unit
  | .binding => discard (nested 0)
  | .tag => do
    if ← sees (.keyword .kwUnset) then unsetClause nested
    else discard (nested 0)
  | .condition => do
    expectKeyword .kwIf
    expect .openParen
    discard (nested 0)
    expect .closeParen
  | .loop => do
    expectKeyword .kwForeach
    expect .openParen
    loopClause nested

def statement (site : Site) : m Unit := do
  clause nested site
  expect .semicolon
  match ← peek with
  | none => return ()
  | some _ => unexpected

end

abbrev Reader := StateT (List Token) (Except Fault)

/-- Repeats `round` until it is done, in no more rounds than `bound` has members, and one. -/
def rounds {α : Type} (round : α → Reader (ForInStep α)) : List Token → α → Reader α
  | [], a => do
    match ← round a with
    | .done b => return b
    | .yield _ => throw .stalled
  | _ :: fewer, a => do
    match ← round a with
    | .done b => return b
    | .yield b => rounds round fewer b

instance : TokenSource Reader where
  peek := do return (← get).head?.map Token.kind
  skip := modify List.tail
  refuse expected := do throw (.unexpected (← get).head? expected)
  seesArgumentName := do
    match ← get with
    | first :: second :: _ => return first.kind == .identifier && second.kind == .symbol .colon
    | _ => return false
  -- A round that goes on has read a token.
  iterate round a := do rounds round (← get) a

def expression : Nat → Nat → Reader Shape
  | 0, _ => throw .nestingTooDeep
  | levels + 1, power => expressionOver (expression levels) power

def check (site : Site) (tokens : List Token) : Except Fault Unit :=
  match statement (expression maxDepth) site (tokens.filter fun t => !t.isTrivia) with
  | .ok _ => .ok ()
  | .error fault => .error fault

end Stencil.Code.Statement

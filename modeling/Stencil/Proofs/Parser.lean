import Stencil.Code.Statement

/-! The grammar on a parser with a cursor and a depth, which no failed action takes back. -/

namespace Stencil.Code

structure Counters where
  cursor : Nat
  depth : Nat
  deriving DecidableEq, Repr

/-- A call of `expression` that has come to its end. -/
structure Call where
  start : Counters
  stop : Counters
  succeeded : Bool
  deriving DecidableEq, Repr

structure Parser extends Counters where
  tokens : List Token
  trail : List Counters
  calls : List Call
  deriving DecidableEq, Repr

namespace Parser

open Statement

def ofTokens (tokens : List Token) : Parser where
  cursor := 0
  depth := 0
  tokens := tokens.filter fun t => !t.isTrivia
  trail := []
  calls := []

def history (p : Parser) : List Counters :=
  p.toCounters :: p.trail

def current (p : Parser) : Option Token :=
  p.tokens[p.cursor]?

def moved (p : Parser) (next : Counters) : Parser :=
  { p with toCounters := next, trail := p.history }

def recorded (p : Parser) (start : Counters) (succeeded : Bool) : Parser :=
  { p with calls := ⟨start, p.toCounters, succeeded⟩ :: p.calls }

abbrev Machine := ExceptT Fault (StateT Parser Option)

def Action (_budget : Nat) : Type → Type := Machine

instance (budget : Nat) : Monad (Action budget) :=
  inferInstanceAs (Monad Machine)

instance (budget : Nat) : LawfulMonad (Action budget) :=
  inferInstanceAs (LawfulMonad Machine)

def spent {budget : Nat} {α : Type} : Action budget α := fun _ => none

def rounds {budget : Nat} {α : Type} (round : α → Action budget (ForInStep α)) :
    Nat → α → Action budget α
  | 0, _ => spent
  | fewer + 1, a => do
    match ← round a with
    | .done b => return b
    | .yield b => rounds round fewer b

def sees? : Machine (Option Kind) := do
  return (← get).current.map Token.kind

def advance : Machine Unit :=
  modify fun p => p.moved ⟨p.cursor + 1, p.depth⟩

def blame {α : Type} (expected : Option String) : Machine α := do
  throw (.unexpected (← get).current expected)

def seesName : Machine Bool := do
  let p ← get
  return p.current.map Token.kind == some .identifier &&
    p.tokens[p.cursor + 1]?.map Token.kind == some (.symbol .colon)

instance (budget : Nat) : TokenSource (Action budget) where
  peek := sees?
  skip := advance
  refuse := blame
  seesArgumentName := seesName
  iterate round a := rounds round budget a

def called {budget : Nat} (body : Action budget Shape) : Action budget Shape := ExceptT.mk do
  let start := (← get).toCounters
  if start.depth = maxDepth then
    modify fun p => p.recorded start false
    return .error .nestingTooDeep
  else
    modify fun p => p.moved ⟨p.cursor, p.depth + 1⟩
    let result ← ExceptT.run body
    modify fun p => p.moved ⟨p.cursor, p.depth - 1⟩
    modify fun p => p.recorded start result.isOk
    return result

def expression (budget : Nat) : Nat → Nat → Action budget Shape
  | 0, _ => spent
  | calls + 1, power => called (expressionOver (expression budget calls) power)

/-- The verdict and the parser at its end, if the budget is enough. -/
def parse (budget : Nat) (site : Site) (tokens : List Token) : Option (Except Fault Unit × Parser) :=
  statement (expression budget budget) site (ofTokens tokens)

end Parser

end Stencil.Code

import Stencil.Code.Statement
import Stencil.Code.Token.Lexer

/-!
An expression is admitted at a site if, in the statement of that site, it lexes, holds allowed tokens
only, and makes exactly that statement.
-/

namespace Stencil

open Code

export Code.Statement (Site)

namespace Expression

inductive Refusal where
  | parseFailure (fault : Fault)
  /-- It took part of the statement around it. -/
  | misparsed
  | disallowedToken (kind : Kind)
  deriving DecidableEq, Repr

def opening : Site → Text
  | .binding | .tag => "<?php ".toList
  | .condition => "<?php if(".toList
  | .loop => "<?php foreach(".toList

def closing : Site → Text
  | .binding | .tag => ";".toList
  | .condition | .loop => ");".toList

def wrap (site : Site) (source : Text) : Text :=
  opening site ++ source ++ closing site

def allowedKeywords : List Keyword :=
  [.kwFn, .kwStatic, .kwIsset, .kwEmpty, .kwArray, .kwList, .kwInstanceof, .kwNew, .kwClone,
   .kwMatch, .kwDefault, .kwAnd, .kwOr, .kwXor, .kwPrint]

def allows (site : Site) (leading : Bool) : Kind → Bool
  | .whitespace | .variableName | .identifier | .qualifiedName | .fullyQualifiedName
  | .relativeName | .integer | .float | .string | .interpolatedString | .cast _ => true
  | .symbol s => s != .backslash
  | .keyword k =>
    allowedKeywords.contains k || (leading && site.keyword? == some k) ||
      (site == .loop && k == .kwAs) || (leading && site == .tag && k == .kwUnset)
  | .openTag | .openTagWithEcho | .closeTag | .inlineHtml | .comment | .docComment
  | .startHeredoc | .heredocBody | .endHeredoc | .backtick | .attributeStart => false

def disallowed? (site : Site) : Bool → List Token → Option Kind
  | _, [] => none
  | leading, t :: ts =>
    if allows site leading t.kind then disallowed? site (leading && t.isTrivia) ts
    else some t.kind

end Expression

structure Expression where
  source : Text
  tokens : List Token
  deriving DecidableEq, Repr

namespace Expression

def isEmpty (e : Expression) : Bool :=
  e.tokens.isEmpty

/-- Whether the expression does work instead of yielding a value: it starts with `unset`, or
assigns anywhere. -/
def isStatement (e : Expression) : Bool :=
  e.tokens.head?.any (fun t => t.kind == .keyword .kwUnset) ||
    e.tokens.any fun t => Statement.isAssignment t.kind

def unwrap (site : Site) (tokens : List Token) : List Token :=
  let body := tokens.filter fun t => !t.isTrivia
  match site.keyword? with
  | some _ => body.dropLast.drop 2
  | none => body

def isLed (site : Site) (tokens : List Token) : Bool :=
  match site.keyword? with
  | some k => (tokens.find? fun t => !t.isTrivia).any fun t => t.kind == .keyword k
  | none => true

def acceptTokens (site : Site) (source : Text) (tokens : List Token) :
    Except Refusal Expression :=
  if !isLed site tokens then .error .misparsed
  else
    match disallowed? site true tokens with
    | some kind => .error (.disallowedToken kind)
    | none =>
      if tokens.getLast?.any fun t => t.kind == .symbol .semicolon then
        match Statement.check site tokens with
        | .error fault => .error (.parseFailure fault)
        | .ok _ => .ok ⟨source, unwrap site tokens.dropLast⟩
      else .error .misparsed

def accept (site : Site) (source : Text) : Except Refusal Expression :=
  if Text.isBlank source then .ok ⟨source, []⟩
  else
    match tokenize (wrap site source) with
    | .error fault => .error (.parseFailure fault)
    | .ok [] => .error .misparsed
    | .ok (first :: tokens) =>
      if first.kind = .openTag then acceptTokens site source tokens
      else .error .misparsed

def Refusal.message (source : Text) : Refusal → String
  | .parseFailure fault =>
    "Expression \"" ++ String.ofList source ++ "\" failed to parse: " ++ fault.message
  | .misparsed => "Expression \"" ++ String.ofList source ++ "\" was misparsed"
  | .disallowedToken kind =>
    "Token " ++ kind.name ++ " is disallowed in expression \"" ++ String.ofList source ++ "\""

end Expression

end Stencil

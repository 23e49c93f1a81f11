import Stencil.Code.Fault

/-!
Every reader says how many characters belong to the token beside its first one, so no token is empty.
-/

namespace Stencil.Code

namespace Lexer

def isNameStart (c : Char) : Bool :=
  c.isAlpha || c == '_' || 0x80 ≤ c.toNat

def isNameChar (c : Char) : Bool :=
  isNameStart c || c.isDigit

def isBlank (c : Char) : Bool :=
  c == ' ' || c == '\t'

def isWhitespace (c : Char) : Bool :=
  c == ' ' || c == '\t' || c == '\n' || c == '\r'

inductive Mode where
  | markup
  /-- Code; `member` says that the last token was a member operator. -/
  | code (member : Bool)
  | heredoc (label : Text)
  deriving DecidableEq, Repr

structure Lexeme where
  kind : Kind
  width : Nat
  next : Mode
  deriving DecidableEq, Repr

def lineBreakWidth : Text → Nat
  | '\r' :: '\n' :: _ => 2
  | '\n' :: _ => 1
  | _ => 0

def openTag? (cs : Text) : Option (Kind × Nat) :=
  if "<?=".toList.isPrefixOf cs then some (.openTagWithEcho, 3)
  else if Text.lower (cs.take 5) = "<?php".toList then
    match cs.drop 5 with
    | [] => some (.openTag, 5)
    | '\r' :: '\n' :: _ => some (.openTag, 7)
    | c :: _ => if isWhitespace c then some (.openTag, 6) else none
  else none

def inlineWidth : Text → Nat
  | [] => 0
  | c :: cs => if (openTag? (c :: cs)).isSome then 0 else inlineWidth cs + 1

def lineCommentWidth : Text → Nat
  | [] => 0
  | '\n' :: _ => 0
  | '?' :: '>' :: _ => 0
  | _ :: cs => lineCommentWidth cs + 1

def blockCommentWidth : Text → Nat
  | [] => 0
  | '*' :: '/' :: _ => 2
  | _ :: cs => blockCommentWidth cs + 1

def quotedWidth? (quote : Char) : Text → Option Nat
  | [] => none
  | '\\' :: [] => none
  | '\\' :: _ :: cs => (quotedWidth? quote cs).map (· + 2)
  | c :: cs => if c = quote then some 1 else (quotedWidth? quote cs).map (· + 1)

def interpolates : Text → Bool
  | [] => false
  | '\\' :: [] => false
  | '\\' :: _ :: cs => interpolates cs
  | '"' :: _ => false
  | '$' :: c :: cs => isNameStart c || c == '{' || interpolates (c :: cs)
  | '{' :: '$' :: _ => true
  | _ :: cs => interpolates cs

def heredocStart (cs : Text) : Except Fault (Nat × Text) :=
  let blanks := Text.run isBlank cs
  let afterBlanks := cs.drop blanks
  match afterBlanks with
  | quote :: labelled =>
    if quote = '\'' ∨ quote = '"' then
      let label := labelled.takeWhile isNameChar
      match labelled.drop label.length with
      | [] => .error .truncatedHeredoc
      | _ :: after => .ok (blanks + 1 + label.length + 1 + lineBreakWidth after, label)
    else
      let label := afterBlanks.takeWhile isNameChar
      .ok (blanks + label.length + lineBreakWidth (afterBlanks.drop label.length), label)
  | [] => .ok (blanks, [])

def heredocEnd? (label cs : Text) : Option Nat :=
  let blanks := Text.run isBlank cs
  let rest := cs.drop blanks
  if label ≠ [] ∧ label.isPrefixOf rest ∧ !(rest.drop label.length).head?.any isNameChar then
    some (blanks + label.length)
  else none

def heredocBodyWidth (label : Text) : Text → Nat
  | [] => 0
  | '\n' :: cs => if (heredocEnd? label cs).isSome then 1 else heredocBodyWidth label cs + 1
  | _ :: cs => heredocBodyWidth label cs + 1

def cast? (cs : Text) : Option (Cast × Nat) :=
  let inner := cs.takeWhile (· ≠ ')')
  if inner.length < cs.length then
    (Cast.ofTypeName? (Text.trimBy isBlank inner)).map fun c => (c, inner.length + 1)
  else none

def isDecimal (c : Char) : Bool :=
  c.isDigit || c == '_'

def isHexadecimal (c : Char) : Bool :=
  c.isDigit || ('a' ≤ c && c ≤ 'f') || ('A' ≤ c && c ≤ 'F') || c == '_'

def isBinary (c : Char) : Bool :=
  c == '0' || c == '1' || c == '_'

def isOctal (c : Char) : Bool :=
  ('0' ≤ c && c ≤ '7') || c == '_'

def baseDigits? (c : Char) : Option (Char → Bool) :=
  if c = 'x' ∨ c = 'X' then some isHexadecimal
  else if c = 'b' ∨ c = 'B' then some isBinary
  else if c = 'o' ∨ c = 'O' then some isOctal
  else none

/-- The point and the digits after it, unless the point starts another operator. -/
def fractionWidth : Text → Nat
  | '.' :: cs =>
    match cs with
    | '.' :: _ => 0
    | '=' :: _ => 0
    | _ => 1 + Text.run isDecimal cs
  | _ => 0

def exponentWidth : Text → Nat
  | e :: cs =>
    if e = 'e' ∨ e = 'E' then
      match cs with
      | sign :: digits =>
        if sign = '+' ∨ sign = '-' then
          if digits.head?.any Char.isDigit then 2 + Text.run isDecimal digits else 0
        else if sign.isDigit then 1 + Text.run isDecimal cs
        else 0
      | [] => 0
    else 0
  | [] => 0

def decimal (cs : Text) : Kind × Nat :=
  let whole := Text.run isDecimal cs
  let fraction := fractionWidth (cs.drop whole)
  let exponent := exponentWidth (cs.drop (whole + fraction))
  (if fraction + exponent = 0 then .integer else .float, whole + fraction + exponent)

def number : Text → Kind × Nat
  | '0' :: c :: cs =>
    match baseDigits? c with
    | some digits => (.integer, 2 + Text.run digits cs)
    | none => decimal ('0' :: c :: cs)
  | cs => decimal cs

def segmentsWidth (cs : Text) : Nat :=
  match cs with
  | '\\' :: c :: rest =>
    if isNameStart c then
      let tail := Text.run isNameChar rest
      2 + tail + segmentsWidth (rest.drop tail)
    else 0
  | _ => 0
termination_by cs.length
decreasing_by
  simp only [List.length_drop, List.length_cons]
  omega

def name (member : Bool) (c : Char) (cs : Text) : Kind × Nat :=
  let head := Text.run isNameChar cs
  let segments := segmentsWidth (cs.drop head)
  let word := c :: cs.take head
  let kind :=
    if segments ≠ 0 then
      if Text.lower word = "namespace".toList then Kind.relativeName else Kind.qualifiedName
    else if member then .identifier
    else
      match Keyword.ofWord? word with
      | some k => .keyword k
      | none => .identifier
  (kind, head + segments)

def codeLexeme (member : Bool) (c : Char) (cs : Text) : Except Fault Lexeme :=
  let token (kind : Kind) (width : Nat) : Except Fault Lexeme :=
    .ok ⟨kind, width, .code kind.isMemberOperator⟩
  let next := cs.head?
  if isWhitespace c then .ok ⟨.whitespace, Text.run isWhitespace cs, .code member⟩
  else if c = '#' ∧ next = some '[' then token .attributeStart 1
  else if c = '#' ∨ (c = '/' ∧ next = some '/') then token .comment (lineCommentWidth cs)
  else if c = '/' ∧ next = some '*' then
    let doc := (cs.drop 1).head? = some '*' ∧ (cs.drop 2).head?.any isWhitespace
    .ok ⟨if doc then .docComment else .comment, 1 + blockCommentWidth (cs.drop 1), .code member⟩
  else if c = '$' ∧ next.any isNameStart then token .variableName (Text.run isNameChar cs)
  else if c = '\'' then
    match quotedWidth? c cs with
    | some width => token .string width
    | none => .error .unterminatedString
  else if c = '"' then
    match quotedWidth? c cs with
    | some width => token (if interpolates cs then .interpolatedString else .string) width
    | none => .error .unterminatedString
  else if c = '\x60' then token .backtick 0
  else if c = '?' ∧ next = some '>' then
    .ok ⟨.closeTag, 1 + lineBreakWidth (cs.drop 1), .markup⟩
  else if c = '<' ∧ "<<".toList.isPrefixOf cs then
    match heredocStart (cs.drop 2) with
    | .ok (width, label) => .ok ⟨.startHeredoc, 2 + width, .heredoc label⟩
    | .error fault => .error fault
  else if c = '(' then
    match cast? cs with
    | some (type, width) => token (.cast type) width
    | none => token (.symbol .openParen) 0
  else if c.isDigit ∨ (c = '.' ∧ next.any Char.isDigit) then
    let (kind, length) := number (c :: cs)
    token kind (length - 1)
  else if c = '\\' ∧ next.any isNameStart then
    let head := Text.run isNameChar cs
    token .fullyQualifiedName (head + segmentsWidth (cs.drop head))
  else if isNameStart c then
    let (kind, width) := name member c cs
    token kind width
  else
    match Symbol.read? (c :: cs) with
    | some (spelling, s) => token (.symbol s) (spelling.length - 1)
    | none => .error (.unexpectedCharacter c)

def lexeme (mode : Mode) (c : Char) (cs : Text) : Except Fault Lexeme :=
  match mode with
  | .markup =>
    match openTag? (c :: cs) with
    | some (kind, length) => .ok ⟨kind, length - 1, .code false⟩
    | none => .ok ⟨.inlineHtml, inlineWidth cs, .markup⟩
  | .code member => codeLexeme member c cs
  | .heredoc label =>
    match heredocEnd? label (c :: cs) with
    | some length => .ok ⟨.endHeredoc, length - 1, .code false⟩
    | none => .ok ⟨.heredocBody, heredocBodyWidth label (c :: cs) - 1, .heredoc label⟩

def tokensFrom (mode : Mode) (source : Text) : Except Fault (List Token) :=
  match source with
  | [] => .ok []
  | c :: cs =>
    match lexeme mode c cs with
    | .error fault => .error fault
    | .ok l =>
      match tokensFrom l.next (cs.drop l.width) with
      | .error fault => .error fault
      | .ok tokens => .ok (⟨l.kind, c :: cs.take l.width⟩ :: tokens)
termination_by source.length
decreasing_by
  simp only [List.length_drop, List.length_cons]
  omega

end Lexer

def tokenize (source : Text) : Except Fault (List Token) :=
  Lexer.tokensFrom .markup source

end Stencil.Code

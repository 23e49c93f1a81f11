import Stencil.Code.Cast
import Stencil.Code.Keyword
import Stencil.Code.Symbol

namespace Stencil.Code

inductive Kind where
  | openTag | openTagWithEcho | closeTag | inlineHtml
  | whitespace | comment | docComment
  | variableName | identifier | qualifiedName | fullyQualifiedName | relativeName
  | integer | float | string | interpolatedString
  | startHeredoc | heredocBody | endHeredoc
  | backtick | attributeStart
  | cast (type : Cast) | keyword (word : Keyword) | symbol (sign : Symbol)
  deriving DecidableEq, Repr

namespace Kind

def name : Kind → String
  | .openTag => "T_OPEN_TAG"
  | .openTagWithEcho => "T_OPEN_TAG_WITH_ECHO"
  | .closeTag => "T_CLOSE_TAG"
  | .inlineHtml => "T_INLINE_HTML"
  | .whitespace => "T_WHITESPACE"
  | .comment => "T_COMMENT"
  | .docComment => "T_DOC_COMMENT"
  | .variableName => "T_VARIABLE"
  | .identifier => "T_STRING"
  | .qualifiedName => "T_NAME_QUALIFIED"
  | .fullyQualifiedName => "T_NAME_FULLY_QUALIFIED"
  | .relativeName => "T_NAME_RELATIVE"
  | .integer => "T_LNUMBER"
  | .float => "T_DNUMBER"
  | .string => "T_CONSTANT_ENCAPSED_STRING"
  | .interpolatedString => "T_ENCAPSED_AND_WHITESPACE"
  | .startHeredoc => "T_START_HEREDOC"
  | .heredocBody => "T_ENCAPSED_AND_WHITESPACE"
  | .endHeredoc => "T_END_HEREDOC"
  | .backtick => "`"
  | .attributeStart => "T_ATTRIBUTE"
  | .cast c => c.name
  | .keyword k => k.name
  | .symbol s => s.name

def isTrivia : Kind → Bool
  | .whitespace | .comment | .docComment => true
  | _ => false

def isMemberOperator : Kind → Bool
  | .symbol .arrow | .symbol .nullsafeArrow | .symbol .doubleColon => true
  | _ => false

end Kind

structure Token where
  kind : Kind
  text : Text
  deriving DecidableEq, Repr

namespace Token

def isTrivia (t : Token) : Bool :=
  t.kind.isTrivia

def unquoted (cs : Text) : Text :=
  if 2 ≤ cs.length then cs.tail.dropLast else cs

def describe (t : Token) : String :=
  let named (what : String) (cs : Text) : String := what ++ " \"" ++ String.ofList cs ++ "\""
  match t.kind with
  | .variableName => named "variable" t.text
  | .identifier => named "identifier" t.text
  | .qualifiedName => named "qualified name" t.text
  | .fullyQualifiedName => named "fully qualified name" t.text
  | .relativeName => named "namespace-relative name" t.text
  | .integer => named "integer" t.text
  | .float => named "floating-point number" t.text
  | .string =>
    if t.text.head? == some '\'' then named "single-quoted string" (unquoted t.text)
    else named "double-quoted string" (unquoted t.text)
  | .interpolatedString => named "double-quoted string" (unquoted t.text)
  | _ => named "token" (Text.trim t.text)

end Token

end Stencil.Code

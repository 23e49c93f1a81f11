import Stencil.Text

namespace Stencil.Code

inductive Symbol where
  | ellipsis | powEqual | coalesceEqual | identical | notIdentical | spaceship | shiftLeftEqual
  | shiftRightEqual | nullsafeArrow | equal | notEqual | lessEqual | greaterEqual | booleanAnd
  | booleanOr | coalesce | plusEqual | minusEqual | mulEqual | divEqual | concatEqual | modEqual
  | andEqual | orEqual | xorEqual | pow | shiftLeft | shiftRight | increment | decrement | arrow
  | doubleArrow | doubleColon | semicolon | comma | openParen | closeParen | openBracket
  | closeBracket | openBrace | closeBrace | assign | plus | minus | star | slash | percent | dot
  | bang | question | colon | less | greater | ampersand | pipe | caret | tilde | atSign | dollar
  | backslash
  deriving DecidableEq, Repr

namespace Symbol

def all : List Symbol :=
  [.ellipsis, .powEqual, .coalesceEqual, .identical, .notIdentical, .spaceship,
   .shiftLeftEqual, .shiftRightEqual, .nullsafeArrow, .equal, .notEqual, .lessEqual,
   .greaterEqual, .booleanAnd, .booleanOr, .coalesce, .plusEqual, .minusEqual, .mulEqual,
   .divEqual, .concatEqual, .modEqual, .andEqual, .orEqual, .xorEqual, .pow, .shiftLeft,
   .shiftRight, .increment, .decrement, .arrow, .doubleArrow, .doubleColon, .semicolon,
   .comma, .openParen, .closeParen, .openBracket, .closeBracket, .openBrace, .closeBrace,
   .assign, .plus, .minus, .star, .slash, .percent, .dot, .bang, .question, .colon, .less,
   .greater, .ampersand, .pipe, .caret, .tilde, .atSign, .dollar, .backslash]

def spelling : Symbol → String
  | .ellipsis => "..."
  | .powEqual => "**="
  | .coalesceEqual => "??="
  | .identical => "==="
  | .notIdentical => "!=="
  | .spaceship => "<=>"
  | .shiftLeftEqual => "<<="
  | .shiftRightEqual => ">>="
  | .nullsafeArrow => "?->"
  | .equal => "=="
  | .notEqual => "!="
  | .lessEqual => "<="
  | .greaterEqual => ">="
  | .booleanAnd => "&&"
  | .booleanOr => "||"
  | .coalesce => "??"
  | .plusEqual => "+="
  | .minusEqual => "-="
  | .mulEqual => "*="
  | .divEqual => "/="
  | .concatEqual => ".="
  | .modEqual => "%="
  | .andEqual => "&="
  | .orEqual => "|="
  | .xorEqual => "^="
  | .pow => "**"
  | .shiftLeft => "<<"
  | .shiftRight => ">>"
  | .increment => "++"
  | .decrement => "--"
  | .arrow => "->"
  | .doubleArrow => "=>"
  | .doubleColon => "::"
  | .semicolon => ";"
  | .comma => ","
  | .openParen => "("
  | .closeParen => ")"
  | .openBracket => "["
  | .closeBracket => "]"
  | .openBrace => "\x7b"
  | .closeBrace => "\x7d"
  | .assign => "="
  | .plus => "+"
  | .minus => "-"
  | .star => "*"
  | .slash => "/"
  | .percent => "%"
  | .dot => "."
  | .bang => "!"
  | .question => "?"
  | .colon => ":"
  | .less => "<"
  | .greater => ">"
  | .ampersand => "&"
  | .pipe => "|"
  | .caret => "^"
  | .tilde => "~"
  | .atSign => "@"
  | .dollar => "$"
  | .backslash => "\\"

def name : Symbol → String
  | .ellipsis => "T_ELLIPSIS"
  | .powEqual => "T_POW_EQUAL"
  | .coalesceEqual => "T_COALESCE_EQUAL"
  | .identical => "T_IS_IDENTICAL"
  | .notIdentical => "T_IS_NOT_IDENTICAL"
  | .spaceship => "T_SPACESHIP"
  | .shiftLeftEqual => "T_SL_EQUAL"
  | .shiftRightEqual => "T_SR_EQUAL"
  | .nullsafeArrow => "T_NULLSAFE_OBJECT_OPERATOR"
  | .equal => "T_IS_EQUAL"
  | .notEqual => "T_IS_NOT_EQUAL"
  | .lessEqual => "T_IS_SMALLER_OR_EQUAL"
  | .greaterEqual => "T_IS_GREATER_OR_EQUAL"
  | .booleanAnd => "T_BOOLEAN_AND"
  | .booleanOr => "T_BOOLEAN_OR"
  | .coalesce => "T_COALESCE"
  | .plusEqual => "T_PLUS_EQUAL"
  | .minusEqual => "T_MINUS_EQUAL"
  | .mulEqual => "T_MUL_EQUAL"
  | .divEqual => "T_DIV_EQUAL"
  | .concatEqual => "T_CONCAT_EQUAL"
  | .modEqual => "T_MOD_EQUAL"
  | .andEqual => "T_AND_EQUAL"
  | .orEqual => "T_OR_EQUAL"
  | .xorEqual => "T_XOR_EQUAL"
  | .pow => "T_POW"
  | .shiftLeft => "T_SL"
  | .shiftRight => "T_SR"
  | .increment => "T_INC"
  | .decrement => "T_DEC"
  | .arrow => "T_OBJECT_OPERATOR"
  | .doubleArrow => "T_DOUBLE_ARROW"
  | .doubleColon => "T_PAAMAYIM_NEKUDOTAYIM"
  | .backslash => "T_NS_SEPARATOR"
  | s => s.spelling

/-- Every spelling, longer ones first; `<>` is a second spelling of `!=`. -/
def spellings : List (Text × Symbol) :=
  let long := all.filter fun s => 3 ≤ s.spelling.length
  let short := all.filter fun s => s.spelling.length < 3
  long.map (fun s => (s.spelling.toList, s)) ++ ("<>".toList, notEqual) ::
    short.map fun s => (s.spelling.toList, s)

def read? (cs : Text) : Option (Text × Symbol) :=
  spellings.find? fun entry => entry.1.isPrefixOf cs

def isAssignment : Symbol → Bool
  | .assign | .plusEqual | .minusEqual | .mulEqual | .divEqual | .concatEqual | .modEqual
  | .powEqual | .andEqual | .orEqual | .xorEqual | .shiftLeftEqual | .shiftRightEqual
  | .coalesceEqual => true
  | _ => false

end Symbol

end Stencil.Code

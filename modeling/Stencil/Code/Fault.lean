import Stencil.Code.Token

namespace Stencil.Code

inductive Fault where
  | unterminatedString
  | unexpectedCharacter (c : Char)
  | truncatedHeredoc
  | unexpected (found : Option Token) (expected : Option String)
  | nestingTooDeep
  /-- A repetition went on without reading a token. -/
  | stalled
  deriving DecidableEq, Repr

namespace Fault

def message : Fault → String
  | .unterminatedString => "syntax error, unterminated string"
  | .unexpectedCharacter c => "syntax error, unexpected character \"" ++ c.toString ++ "\""
  | .truncatedHeredoc => "syntax error, unterminated heredoc label"
  | .unexpected found expected =>
    "syntax error, unexpected " ++
      (match found with
        | some t => t.describe
        | none => "end of file") ++
      (match expected with
        | some word => ", expecting \"" ++ word ++ "\""
        | none => "")
  | .nestingTooDeep => "syntax error, nesting too deep"
  | .stalled => "syntax error, no progress"

end Fault

end Stencil.Code

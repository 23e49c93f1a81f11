import Stencil.Text

namespace Stencil.Code

inductive Keyword where
  | kwAbstract | kwAnd | kwArray | kwAs | kwBreak | kwCallable | kwCase | kwCatch | kwClass
  | kwClone | kwConst | kwContinue | kwDeclare | kwDefault | kwDie | kwDo | kwEcho | kwElse
  | kwElseIf | kwEmpty | kwEndDeclare | kwEndFor | kwEndForeach | kwEndIf | kwEndSwitch
  | kwEndWhile | kwEval | kwExit | kwExtends | kwFinal | kwFinally | kwFn | kwFor | kwForeach
  | kwFunction | kwGlobal | kwGoto | kwHaltCompiler | kwIf | kwImplements | kwInclude
  | kwIncludeOnce | kwInstanceof | kwInsteadof | kwInterface | kwIsset | kwList | kwMatch
  | kwNamespace | kwNew | kwOr | kwPrint | kwPrivate | kwProtected | kwPublic | kwReadonly
  | kwRequire | kwRequireOnce | kwReturn | kwStatic | kwSwitch | kwThrow | kwTrait | kwTry
  | kwUnset | kwUse | kwVar | kwWhile | kwXor | kwYield
  deriving DecidableEq, Repr

namespace Keyword

def all : List Keyword :=
  [.kwAbstract, .kwAnd, .kwArray, .kwAs, .kwBreak, .kwCallable, .kwCase, .kwCatch, .kwClass,
   .kwClone, .kwConst, .kwContinue, .kwDeclare, .kwDefault, .kwDie, .kwDo, .kwEcho, .kwElse,
   .kwElseIf, .kwEmpty, .kwEndDeclare, .kwEndFor, .kwEndForeach, .kwEndIf, .kwEndSwitch,
   .kwEndWhile, .kwEval, .kwExit, .kwExtends, .kwFinal, .kwFinally, .kwFn, .kwFor, .kwForeach,
   .kwFunction, .kwGlobal, .kwGoto, .kwHaltCompiler, .kwIf, .kwImplements, .kwInclude,
   .kwIncludeOnce, .kwInstanceof, .kwInsteadof, .kwInterface, .kwIsset, .kwList, .kwMatch,
   .kwNamespace, .kwNew, .kwOr, .kwPrint, .kwPrivate, .kwProtected, .kwPublic, .kwReadonly,
   .kwRequire, .kwRequireOnce, .kwReturn, .kwStatic, .kwSwitch, .kwThrow, .kwTrait, .kwTry,
   .kwUnset, .kwUse, .kwVar, .kwWhile, .kwXor, .kwYield]

def spelling : Keyword → String
  | .kwAbstract => "abstract"
  | .kwAnd => "and"
  | .kwArray => "array"
  | .kwAs => "as"
  | .kwBreak => "break"
  | .kwCallable => "callable"
  | .kwCase => "case"
  | .kwCatch => "catch"
  | .kwClass => "class"
  | .kwClone => "clone"
  | .kwConst => "const"
  | .kwContinue => "continue"
  | .kwDeclare => "declare"
  | .kwDefault => "default"
  | .kwDie => "die"
  | .kwDo => "do"
  | .kwEcho => "echo"
  | .kwElse => "else"
  | .kwElseIf => "elseif"
  | .kwEmpty => "empty"
  | .kwEndDeclare => "enddeclare"
  | .kwEndFor => "endfor"
  | .kwEndForeach => "endforeach"
  | .kwEndIf => "endif"
  | .kwEndSwitch => "endswitch"
  | .kwEndWhile => "endwhile"
  | .kwEval => "eval"
  | .kwExit => "exit"
  | .kwExtends => "extends"
  | .kwFinal => "final"
  | .kwFinally => "finally"
  | .kwFn => "fn"
  | .kwFor => "for"
  | .kwForeach => "foreach"
  | .kwFunction => "function"
  | .kwGlobal => "global"
  | .kwGoto => "goto"
  | .kwHaltCompiler => "__halt_compiler"
  | .kwIf => "if"
  | .kwImplements => "implements"
  | .kwInclude => "include"
  | .kwIncludeOnce => "include_once"
  | .kwInstanceof => "instanceof"
  | .kwInsteadof => "insteadof"
  | .kwInterface => "interface"
  | .kwIsset => "isset"
  | .kwList => "list"
  | .kwMatch => "match"
  | .kwNamespace => "namespace"
  | .kwNew => "new"
  | .kwOr => "or"
  | .kwPrint => "print"
  | .kwPrivate => "private"
  | .kwProtected => "protected"
  | .kwPublic => "public"
  | .kwReadonly => "readonly"
  | .kwRequire => "require"
  | .kwRequireOnce => "require_once"
  | .kwReturn => "return"
  | .kwStatic => "static"
  | .kwSwitch => "switch"
  | .kwThrow => "throw"
  | .kwTrait => "trait"
  | .kwTry => "try"
  | .kwUnset => "unset"
  | .kwUse => "use"
  | .kwVar => "var"
  | .kwWhile => "while"
  | .kwXor => "xor"
  | .kwYield => "yield"

def name : Keyword → String
  | .kwAnd => "T_LOGICAL_AND"
  | .kwOr => "T_LOGICAL_OR"
  | .kwXor => "T_LOGICAL_XOR"
  | .kwDie => "T_EXIT"
  | .kwHaltCompiler => "T_HALT_COMPILER"
  | k => "T_" ++ k.spelling.toUpper

def ofWord? (word : Text) : Option Keyword :=
  all.find? fun k => k.spelling.toList == Text.lower word

end Keyword

end Stencil.Code

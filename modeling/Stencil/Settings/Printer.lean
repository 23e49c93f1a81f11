import Stencil.Settings

namespace Stencil.Settings

def hexByte (n : Nat) : Text :=
  [Nat.digitChar (n / 16), Nat.digitChar (n % 16)].map Char.toUpper

def escapeChar (c : Char) : Text :=
  match c with
  | '"' => "\\\"".toList
  | '\\' => "\\\\".toList
  | '\x08' => "\\b".toList
  | '\t' => "\\t".toList
  | '\n' => "\\n".toList
  | '\x0c' => "\\f".toList
  | '\r' => "\\r".toList
  | c => if c.toNat < 0x20 ∨ c.toNat = 0x7f then "\\u00".toList ++ hexByte c.toNat else [c]

def isControl (c : Char) : Bool :=
  c.toNat < 0x20 || c.toNat == 0x7f

def printText (content : Text) : Text :=
  if content.any (fun c => c == '"' || c == '\\') && !content.contains '\'' &&
      !content.any isControl then
    '\'' :: content ++ ['\'']
  else '"' :: content.flatMap escapeChar ++ ['"']

def printBoolean (b : Bool) : Text :=
  (if b then "true" else "false").toList

def printEntry (name : String) (value : Text) : Text :=
  name.toList ++ " = ".toList ++ value ++ ['\n']

def toToml (s : Settings) : Text :=
  printEntry "debug" (printBoolean s.debug) ++
    "\n[compiler]\n".toList ++
    printEntry "directive_prefix" (printText s.compiler.directivePrefix) ++
    printEntry "dot_access" (printBoolean s.compiler.dotAccess) ++
    "\n[cache]\n".toList ++
    printEntry "template_dir" (printText s.cache.templateDir) ++
    printEntry "cache_dir" (printText s.cache.cacheDir) ++
    printEntry "extension" (printText s.cache.extension) ++
    printEntry "precompiled" (printBoolean s.cache.precompiled)

end Stencil.Settings

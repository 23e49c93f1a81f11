import Stencil.Markup.Node

namespace Stencil.Markup

def escapeText : Text → Text
  | [] => []
  | '&' :: cs => "&amp;".toList ++ escapeText cs
  | '<' :: cs => "&lt;".toList ++ escapeText cs
  | '>' :: cs => "&gt;".toList ++ escapeText cs
  | c :: cs => c :: escapeText cs

def escapeAttribute : Text → Text
  | [] => []
  | '&' :: cs => "&amp;".toList ++ escapeAttribute cs
  | '"' :: cs => "&quot;".toList ++ escapeAttribute cs
  | '<' :: cs => "&lt;".toList ++ escapeAttribute cs
  | '>' :: cs => "&gt;".toList ++ escapeAttribute cs
  | c :: cs => c :: escapeAttribute cs

def codeOpen : Text := "<?php ".toList

def codeClose : Text := "?>".toList

namespace AttributeValue

def print? : AttributeValue → Option Text
  | .text content => some (escapeAttribute content)
  | .code content => some (codeOpen ++ content ++ ' ' :: codeClose)
  | .expression _ => none

end AttributeValue

def printAttributes? : List Attribute → Option Text
  | [] => some []
  | a :: rest => do
    let value ← a.value.print?
    let others ← printAttributes? rest
    return ' ' :: a.name ++ "=\"".toList ++ value ++ '"' :: others

namespace Node

mutual

def print? (raw : Bool) : Node → Option Text
  | .element name attributes children _ => do
    let printed ← printAttributes? attributes
    let start := '<' :: name ++ printed ++ ['>']
    if isVoid name then return start
    else
      let inner ← printAll? (isRawText name) children
      return start ++ inner ++ "</".toList ++ name ++ ['>']
  | .text content _ => some (if raw then content else escapeText content)
  | .comment content _ => some ("<!--".toList ++ content ++ "-->".toList)
  | .doctype name => some ("<!DOCTYPE ".toList ++ name ++ ['>'])
  | .instruction content _ => some ('<' :: content ++ ['>'])
  | .code content => some (codeOpen ++ content ++ codeClose)
  | .placeholder _ _ _ => none

def printAll? (raw : Bool) : List Node → Option Text
  | [] => some []
  | node :: rest => do
    let first ← print? raw node
    let others ← printAll? raw rest
    return first ++ others

end

end Node

def print? (nodes : List Node) : Option Text :=
  Node.printAll? false nodes

end Stencil.Markup

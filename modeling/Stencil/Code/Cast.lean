import Stencil.Text

namespace Stencil.Code

inductive Cast where
  | int | float | string | bool | array | object
  deriving DecidableEq, Repr

namespace Cast

def name : Cast → String
  | .int => "T_INT_CAST"
  | .float => "T_DOUBLE_CAST"
  | .string => "T_STRING_CAST"
  | .bool => "T_BOOL_CAST"
  | .array => "T_ARRAY_CAST"
  | .object => "T_OBJECT_CAST"

def typeNames : List (String × Cast) :=
  [("int", .int), ("integer", .int), ("float", .float), ("double", .float), ("real", .float),
   ("string", .string), ("binary", .string), ("bool", .bool), ("boolean", .bool),
   ("array", .array), ("object", .object)]

def ofTypeName? (word : Text) : Option Cast :=
  (typeNames.find? fun entry => entry.1.toList == Text.lower word).map Prod.snd

end Cast

end Stencil.Code

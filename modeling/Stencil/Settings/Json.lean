import Stencil.Settings.Value

namespace Stencil.Settings.Json

def isBlank (c : Char) : Bool :=
  c == ' ' || c == '\t' || c == '\n' || c == '\r'

def skip (cs : Text) : Text :=
  cs.dropWhile isBlank

def hexCode? : (count : Nat) → (code : Nat) → Text → Option (Nat × Text)
  | 0, code, rest => some (code, rest)
  | _ + 1, _, [] => none
  | count + 1, code, c :: cs =>
    match Text.hexDigit? c with
    | some digit => hexCode? count (code * 16 + digit) cs
    | none => none

theorem hexCode?_length {count code value : Nat} {cs rest : Text}
    (h : hexCode? count code cs = some (value, rest)) : rest.length ≤ cs.length := by
  fun_induction hexCode? count code cs with
  | case1 => simp_all
  | case2 => simp at h
  | case3 count code c cs digit hd ih =>
    have := ih h
    simp
    omega
  | case4 => simp at h

def escapeOf? : Char → Option Char
  | '"' => some '"'
  | '\\' => some '\\'
  | '/' => some '/'
  | 'b' => some '\x08'
  | 'f' => some '\x0c'
  | 'n' => some '\n'
  | 'r' => some '\r'
  | 't' => some '\t'
  | _ => none

def isHighSurrogate (code : Nat) : Bool := 0xd800 ≤ code && code ≤ 0xdbff

def isLowSurrogate (code : Nat) : Bool := 0xdc00 ≤ code && code ≤ 0xdfff

def pairWith? (high : Nat) : Text → Option (Char × Text)
  | '\\' :: 'u' :: cs =>
    match hexCode? 4 0 cs with
    | some (low, rest) =>
      if isLowSurrogate low then
        some (Char.ofNat (0x10000 + (high - 0xd800) * 0x400 + (low - 0xdc00)), rest)
      else none
    | none => none
  | _ => none

def escape? : Text → Option (Char × Text)
  | [] => none
  | c :: cs =>
    if c = 'u' then
      match hexCode? 4 0 cs with
      | none => none
      | some (code, rest) =>
        if isHighSurrogate code then pairWith? code rest
        else if isLowSurrogate code then none
        else some (Char.ofNat code, rest)
    else (escapeOf? c).map (·, cs)

theorem pairWith?_length {high : Nat} {cs rest : Text} {c : Char}
    (h : pairWith? high cs = some (c, rest)) : rest.length ≤ cs.length := by
  unfold pairWith? at h
  repeat' split at h
  case h_1 cs _ low rest' hc _ =>
    have := hexCode?_length hc
    simp only [Option.some.injEq, Prod.mk.injEq] at h
    obtain ⟨_, rfl⟩ := h
    simp only [List.length_cons]
    omega
  all_goals simp at h

theorem escape?_length {cs rest : Text} {c : Char} (h : escape? cs = some (c, rest)) :
    rest.length < cs.length := by
  unfold escape? at h
  repeat' split at h
  · simp at h
  · simp at h
  · rename_i hc _
    have := hexCode?_length hc
    have := pairWith?_length h
    simp only [List.length_cons]
    omega
  · simp at h
  · rename_i hc _ _
    have := hexCode?_length hc
    simp only [Option.some.injEq, Prod.mk.injEq] at h
    obtain ⟨_, rfl⟩ := h
    simp only [List.length_cons]
    omega
  · obtain ⟨_, _, h⟩ := Option.map_eq_some_iff.mp h
    simp_all

def string? (cs : Text) : Option (Text × Text) :=
  match cs with
  | [] => none
  | c :: cs =>
    if c = '"' then some ([], cs)
    else if c = '\\' then
      match _h : escape? cs with
      | none => none
      | some (d, rest) => (string? rest).map fun (content, after) => (d :: content, after)
    else if c.toNat < 0x20 then none
    else (string? cs).map fun (content, after) => (c :: content, after)
termination_by cs.length
decreasing_by
  · have := escape?_length _h
    simp
    omega
  · simp

def part? (isMark : Char → Bool) (signed : Bool) (cs : Text) : Option (Option (Bool × Text) × Text) :=
  match cs with
  | [] => some (none, [])
  | c :: rest =>
    if isMark c then
      let negative := signed && rest.head? == some '-'
      let rest := if negative || (signed && rest.head? == some '+') then rest.drop 1 else rest
      let digits := rest.takeWhile Char.isDigit
      if digits.isEmpty then none else some (some (negative, digits), rest.drop digits.length)
    else some (none, c :: rest)

def fraction? (negative : Bool) (whole places : Text) (exponent : Bool × Text) : Option Fraction :=
  let size : Int := Text.digitsValue 10 exponent.2
  let size := if exponent.1 then -size else size
  match Fraction.ofDecimal negative (Text.digitsValue 10 (whole ++ places)) (size - places.length) with
  | .finite negative mantissa exponent => some (.finite negative mantissa exponent)
  | _ => none

def number? (cs : Text) : Option (Value × Text) := do
  let negative := cs.head? == some '-'
  let body := if negative then cs.drop 1 else cs
  let digits := body.takeWhile Char.isDigit
  if digits.isEmpty || (digits.head? == some '0' && 1 < digits.length) then none
  let (places, rest) ← part? (· == '.') false (body.drop digits.length)
  let (exponent, rest) ← part? (fun c => c == 'e' || c == 'E') true rest
  let n := Text.digitsValue 10 digits
  let fits := if negative then n != 0 && n ≤ 0x8000000000000000 else n ≤ 0x7fffffffffffffff
  if places.isNone && exponent.isNone && fits then
    some (.integer (if negative then -n else n), rest)
  else
    let x ← fraction? negative digits ((places.map Prod.snd).getD []) (exponent.getD (false, []))
    some (.fraction x, rest)

def items? (value? : Text → Option (Value × Text)) :
    (count : Nat) → Text → Option (List Value × Text)
  | 0, _ => none
  | count + 1, cs => do
    let (value, rest) ← value? cs
    match skip rest with
    | ',' :: more =>
      let (values, after) ← items? value? count more
      some (value :: values, after)
    | ']' :: after => some ([value], after)
    | _ => none

def fields? (value? : Text → Option (Value × Text)) : (count : Nat) → Text → Option (Fields × Text)
  | 0, _ => none
  | count + 1, cs =>
    match skip cs with
    | '"' :: cs => do
      let (name, rest) ← string? cs
      match skip rest with
      | ':' :: rest =>
        let (value, rest) ← value? rest
        match skip rest with
        | ',' :: more =>
          let (fields, after) ← fields? value? count more
          some ((name, value) :: fields, after)
        | '}' :: after => some ([(name, value)], after)
        | _ => none
      | _ => none
    | _ => none

def word? (word : String) (value : Value) (cs : Text) : Option (Value × Text) :=
  if word.toList.isPrefixOf cs then some (value, cs.drop word.length) else none

def value? (levels : Nat) (cs : Text) : Option (Value × Text) :=
  match levels, skip cs with
  | _, '"' :: rest => (string? rest).map fun (content, after) => (.text content, after)
  | 0, '[' :: _ => none
  | levels + 1, '[' :: rest =>
    match skip rest with
    | ']' :: after => some (.list [], after)
    | _ => (items? (value? levels) rest.length rest).map fun (values, after) => (.list values, after)
  | 0, '{' :: _ => none
  | levels + 1, '{' :: rest =>
    match skip rest with
    | '}' :: after => some (.table [], after)
    | _ =>
      (fields? (value? levels) rest.length rest).map fun (fields, after) =>
        (.table (fields.foldl (fun found (name, value) => Fields.set name value found) []), after)
  | _, 't' :: rest => word? "true" (.boolean true) ('t' :: rest)
  | _, 'f' :: rest => word? "false" (.boolean false) ('f' :: rest)
  | _, 'n' :: rest => word? "null" .null ('n' :: rest)
  | _, rest => number? rest

def read? (cs : Text) : Option Value :=
  match value? 127 cs with
  | some (value, rest) => if (skip rest).isEmpty then some value else none
  | none => none

end Stencil.Settings.Json

import Stencil.Settings.Json

/-!
A document is read into statements first; putting them together refuses what is defined twice. A date or
a time is read as its text.
-/

namespace Stencil.Settings.Toml

def isBlank (c : Char) : Bool :=
  c == ' ' || c == '\t'

def isPrintable (c : Char) : Bool :=
  c == '\t' || (0x20 ≤ c.toNat && c.toNat != 0x7f)

def isBare (c : Char) : Bool :=
  c.isAlphanum || c == '_' || c == '-'

def skipBlanks (cs : Text) : Text :=
  cs.dropWhile isBlank

def skipLines (cs : Text) : Text :=
  match cs with
  | [] => []
  | c :: rest =>
    if c = '#' then skipLines (rest.dropWhile isPrintable)
    else if isBlank c ∨ c = '\n' ∨ (c = '\r' ∧ rest.head? = some '\n') then skipLines rest
    else c :: rest
termination_by cs.length
decreasing_by
  · have := (List.dropWhile_sublist isPrintable (l := rest)).length_le
    simp
    omega
  · simp

def lineBreak? : Text → Option Text
  | [] => some []
  | '\n' :: rest => some rest
  | '\r' :: '\n' :: rest => some rest
  | _ => none

def endLine? (cs : Text) : Option Text :=
  match skipBlanks cs with
  | '#' :: rest => lineBreak? (rest.dropWhile isPrintable)
  | rest => lineBreak? rest

def escapeOf? : Char → Option Char
  | '"' => some '"'
  | '\\' => some '\\'
  | 'b' => some '\x08'
  | 't' => some '\t'
  | 'n' => some '\n'
  | 'f' => some '\x0c'
  | 'r' => some '\r'
  | _ => none

def coded? (count : Nat) (cs : Text) : Option (Char × Text) :=
  match Json.hexCode? count 0 cs with
  | some (code, rest) => if code.isValidChar then some (Char.ofNat code, rest) else none
  | none => none

def escape? : Text → Option (Char × Text)
  | [] => none
  | c :: cs =>
    if c = 'u' then coded? 4 cs
    else if c = 'U' then coded? 8 cs
    else (escapeOf? c).map (·, cs)

theorem coded?_length {count : Nat} {cs rest : Text} {c : Char}
    (h : coded? count cs = some (c, rest)) : rest.length ≤ cs.length := by
  unfold coded? at h
  repeat' split at h
  case isTrue hc _ =>
    have := Json.hexCode?_length hc
    simp_all
  all_goals simp at h

theorem escape?_length {cs rest : Text} {c : Char} (h : escape? cs = some (c, rest)) :
    rest.length < cs.length := by
  unfold escape? at h
  repeat' split at h
  · simp at h
  · have := coded?_length h
    simp
    omega
  · have := coded?_length h
    simp
    omega
  · obtain ⟨_, _, h⟩ := Option.map_eq_some_iff.mp h
    simp_all

def basicString? (cs : Text) : Option (Text × Text) :=
  match cs with
  | [] => none
  | c :: cs =>
    if c = '"' then some ([], cs)
    else if c = '\\' then
      match _h : escape? cs with
      | none => none
      | some (d, rest) => (basicString? rest).map fun (content, after) => (d :: content, after)
    else if isPrintable c then
      (basicString? cs).map fun (content, after) => (c :: content, after)
    else none
termination_by cs.length
decreasing_by
  · have := escape?_length _h
    simp
    omega
  · simp

def literalString? : Text → Option (Text × Text)
  | [] => none
  | c :: cs =>
    if c = '\'' then some ([], cs)
    else if isPrintable c then
      (literalString? cs).map fun (content, after) => (c :: content, after)
    else none

def skipSpace : Text → Text
  | [] => []
  | c :: cs =>
    if isBlank c ∨ c = '\n' ∨ (c = '\r' ∧ cs.head? = some '\n') then skipSpace cs else c :: cs

theorem skipSpace_length (cs : Text) : (skipSpace cs).length ≤ cs.length := by
  induction cs with
  | nil => simp [skipSpace]
  | cons c cs ih =>
    rw [skipSpace]
    split
    · exact Nat.le_succ_of_le ih
    · exact Nat.le_refl _

/-- The quotes at the end of a string over several lines: the last three close it, and up to two
before them belong to it. -/
def closing? (quote : Char) (cs : Text) : Option (Text × Text) :=
  let count := (cs.takeWhile (· == quote)).length
  if count < 3 then none
  else
    let kept := min (count - 3) 2
    some (List.replicate kept quote, cs.drop (kept + 3))

def linesString? (quote : Char) (escapes : Bool) (cs : Text) : Option (Text × Text) :=
  match closing? quote cs, cs with
  | some found, _ => some found
  | none, [] => none
  | none, c :: cs =>
    if c = '\\' ∧ escapes then
      if (skipBlanks cs).head? = some '\n' ∨ ['\r', '\n'].isPrefixOf (skipBlanks cs) then
        linesString? quote escapes (skipSpace cs)
      else
        match _h : escape? cs with
        | none => none
        | some (d, rest) =>
          (linesString? quote escapes rest).map fun (content, after) => (d :: content, after)
    else if c = '\r' ∧ cs.head? = some '\n' then linesString? quote escapes cs
    else if isPrintable c ∨ c = '\n' then
      (linesString? quote escapes cs).map fun (content, after) => (c :: content, after)
    else none
termination_by cs.length
decreasing_by
  · exact Nat.lt_succ_of_le (skipSpace_length cs)
  · exact Nat.lt_succ_of_lt (escape?_length _h)
  · exact Nat.lt_succ_self _
  · exact Nat.lt_succ_self _

def dropFirstBreak : Text → Text
  | '\n' :: rest => rest
  | '\r' :: '\n' :: rest => rest
  | cs => cs

def key? : Text → Option (Text × Text)
  | '"' :: rest => basicString? rest
  | '\'' :: rest => literalString? rest
  | cs =>
    if (cs.takeWhile isBare).isEmpty then none else some (cs.takeWhile isBare, cs.dropWhile isBare)

def keyPath? : (count : Nat) → Text → Option (List Text × Text)
  | 0, _ => none
  | count + 1, cs => do
    let (key, rest) ← key? cs
    match skipBlanks rest with
    | '.' :: more =>
      let (keys, after) ← keyPath? count (skipBlanks more)
      some (key :: keys, after)
    | after => some ([key], after)

def digits? (base : Nat) (cs : Text) : Option Nat :=
  let parts := Text.split '_' cs
  if parts.any List.isEmpty then none
  else parts.flatten.foldlM (fun n c =>
    match Text.hexDigit? c with
    | some digit => if digit < base then some (n * base + digit) else none
    | none => none) 0

def decimal? (cs : Text) : Option Nat :=
  if cs.head? = some '0' ∧ 1 < cs.length then none else digits? 10 cs

def unsigned (cs : Text) : Text :=
  if cs.head? = some '+' ∨ cs.head? = some '-' then cs.drop 1 else cs

def integer? (cs : Text) : Option Int :=
  let found : Option Int :=
    match cs with
    | '0' :: 'x' :: rest => (digits? 16 rest).map Int.ofNat
    | '0' :: 'o' :: rest => (digits? 8 rest).map Int.ofNat
    | '0' :: 'b' :: rest => (digits? 2 rest).map Int.ofNat
    | '-' :: rest => (decimal? rest).map fun n => -Int.ofNat n
    | _ => (decimal? (unsigned cs)).map Int.ofNat
  found.filter fun n => -0x8000000000000000 ≤ n ∧ n ≤ 0x7fffffffffffffff

def fraction? (cs : Text) : Option Fraction :=
  let negative := cs.head? == some '-'
  let body := unsigned cs
  let mantissa := body.takeWhile fun c => c != 'e' && c != 'E'
  let exponent := (body.drop mantissa.length).drop 1
  let whole := mantissa.takeWhile (· ≠ '.')
  let places := (mantissa.drop whole.length).drop 1
  if body = "inf".toList then some (.infinite negative)
  else if body = "nan".toList then some .undefined
  else if mantissa.length = body.length ∧ whole.length = mantissa.length then none
  else do
    let _ ← decimal? whole
    let _ ← if whole.length = mantissa.length then some 0 else digits? 10 places
    let size ← if mantissa.length = body.length then some 0 else digits? 10 (unsigned exponent)
    let size : Int := if exponent.head? = some '-' then -size else size
    let places := places.filter (· ≠ '_')
    let digits := Text.digitsValue 10 (whole.filter (· ≠ '_') ++ places)
    match Fraction.ofDecimal negative digits (size - places.length) with
    | .finite negative mantissa exponent => some (.finite negative mantissa exponent)
    | _ => none

def counted? (count low high : Nat) (cs : Text) : Option (Text × Text) :=
  let digits := cs.take count
  let n := Text.digitsValue 10 digits
  if digits.length = count ∧ digits.all Char.isDigit ∧ low ≤ n ∧ n ≤ high then
    some (digits, cs.drop count)
  else none

def mark? (mark : Char) : Text → Option Text
  | c :: cs => if c = mark then some cs else none
  | [] => none

def daysIn (year month : Nat) : Nat :=
  if month = 2 then
    if year % 4 = 0 ∧ (year % 100 ≠ 0 ∨ year % 400 = 0) then 29 else 28
  else if [4, 6, 9, 11].contains month then 30
  else 31

def date? (cs : Text) : Option (Text × Text) := do
  let (year, rest) ← counted? 4 0 9999 cs
  let (month, rest) ← counted? 2 1 12 (← mark? '-' rest)
  let days := daysIn (Text.digitsValue 10 year) (Text.digitsValue 10 month)
  let (day, rest) ← counted? 2 1 days (← mark? '-' rest)
  some (year ++ '-' :: month ++ '-' :: day, rest)

def time? (cs : Text) : Option (Text × Text) := do
  let (hour, rest) ← counted? 2 0 23 cs
  let (minute, rest) ← counted? 2 0 59 (← mark? ':' rest)
  let (second, rest) ← counted? 2 0 60 (← mark? ':' rest)
  let text := hour ++ ':' :: minute ++ ':' :: second
  match mark? '.' rest with
  | none => some (text, rest)
  | some rest =>
    let digits := rest.takeWhile Char.isDigit
    let places := ((digits.take 9).reverse.dropWhile (· == '0')).reverse
    if digits.isEmpty then none
    else some (if places.isEmpty then text else text ++ '.' :: places, rest.drop digits.length)

def offset? (cs : Text) : Option (Text × Text) :=
  match cs with
  | [] => some ([], [])
  | sign :: rest =>
    if sign = 'Z' ∨ sign = 'z' then some (['Z'], rest)
    else if sign = '+' ∨ sign = '-' then do
      let (hours, rest) ← counted? 2 0 23 rest
      let (minutes, rest) ← counted? 2 0 59 (← mark? ':' rest)
      let sign := if (hours ++ minutes).all (· == '0') then '+' else sign
      some (sign :: hours ++ ':' :: minutes, rest)
    else some ([], cs)

def moment? (cs : Text) : Option (Text × Text) :=
  match date? cs with
  | none => time? cs
  | some (date, rest) =>
    match rest with
    | [] => some (date, [])
    | divider :: more =>
      if divider = 'T' ∨ divider = 't' ∨ (divider = ' ' ∧ more.head?.any Char.isDigit) then do
        let (time, rest) ← time? more
        let (offset, rest) ← offset? rest
        some (date ++ 'T' :: time ++ offset, rest)
      else some (date, rest)

/-- How a table came up: on the way to another, by its header, or by a key of several parts. -/
inductive Origin where
  | implicit
  | header
  | dotted
  deriving DecidableEq, Repr

inductive Item where
  | value (v : Value)
  | table (origin : Origin) (items : List (Text × Item))
  -- The tables of one header in brackets, of which the last is still open.
  | tables (earlier : List Value) (items : List (Text × Item))

abbrev Items := List (Text × Item)

def update (key : Text) (change : Option Item → Option Item) : Items → Option Items
  | [] => (change none).map fun item => [(key, item)]
  | (k, item) :: rest =>
    if k = key then (change (some item)).map fun next => (k, next) :: rest
    else (update key change rest).map ((k, item) :: ·)

def assign (value : Value) : (path : List Text) → Items → Option Items
  | [], _ => none
  | [key], items =>
    update key (fun found => if found.isSome then none else some (.value value)) items
  | key :: next :: path, items =>
    update key
      (fun found =>
        match found with
        | none => (assign value (next :: path) []).map (.table .dotted)
        | some (.table origin inner) =>
          if origin = .header ∨ (path = [] ∧ origin ≠ .dotted) then none
          else (assign value (next :: path) inner).map (.table origin)
        | some (.tables _ _) | some (.value _) => none)
      items

def openAt (change : Option Item → Option Item) : (path : List Text) → Items → Option Items
  | [], _ => none
  | [key], items => update key change items
  | key :: next :: path, items =>
    update key
      (fun found =>
        match found with
        | none => (openAt change (next :: path) []).map (.table .implicit)
        | some (.table origin inner) => (openAt change (next :: path) inner).map (.table origin)
        | some (.tables earlier last) => (openAt change (next :: path) last).map (.tables earlier)
        | some (.value _) => none)
      items

def within (change : Items → Option Items) : (path : List Text) → Items → Option Items
  | [], items => change items
  | key :: path, items =>
    update key
      (fun found =>
        match found with
        | some (.table origin inner) => (within change path inner).map (.table origin)
        | some (.tables earlier last) => (within change path last).map (.tables earlier)
        | _ => none)
      items

mutual

def Item.toValue : Item → Value
  | .value v => v
  | .table _ items => .table (itemFields items)
  | .tables earlier items => .list (earlier ++ [.table (itemFields items)])

def itemFields : Items → Fields
  | [] => []
  | (key, item) :: rest => (key, item.toValue) :: itemFields rest

end

def openTable : Option Item → Option Item
  | none => some (.table .header [])
  | some (.table .implicit inner) => some (.table .header inner)
  | _ => none

def openNext : Option Item → Option Item
  | none => some (.tables [] [])
  | some (.tables earlier last) => some (.tables (earlier ++ [.table (itemFields last)]) [])
  | _ => none

def list? (value? : Text → Option (Value × Text)) :
    (count : Nat) → Text → Option (List Value × Text)
  | 0, _ => none
  | count + 1, cs =>
    match skipLines cs with
    | ']' :: after => some ([], after)
    | cs => do
      let (value, rest) ← value? cs
      match skipLines rest with
      | ',' :: more =>
        let (values, after) ← list? value? count more
        some (value :: values, after)
      | ']' :: after => some ([value], after)
      | _ => none

def inline? (value? : Text → Option (Value × Text)) :
    (count : Nat) → Items → Text → Option (Items × Text)
  | 0, _, _ => none
  | count + 1, items, cs => do
    let (path, rest) ← keyPath? cs.length (skipBlanks cs)
    match rest with
    | '=' :: rest =>
      let (value, rest) ← value? (skipBlanks rest)
      let items ← assign value path items
      match skipBlanks rest with
      | ',' :: more => inline? value? count items more
      | '}' :: after => some (items, after)
      | _ => none
    | _ => none

def isWord (c : Char) : Bool :=
  isBare c || c == '+' || c == '.'

def word? (cs : Text) : Option (Value × Text) :=
  let word := cs.takeWhile isWord
  let rest := cs.dropWhile isWord
  if word = "true".toList then some (.boolean true, rest)
  else if word = "false".toList then some (.boolean false, rest)
  else
    match integer? word with
    | some n => some (.integer n, rest)
    | none => (fraction? word).map fun x => (.fraction x, rest)

def value? (levels : Nat) (cs : Text) : Option (Value × Text) :=
  match levels, cs with
  | _, '"' :: '"' :: '"' :: rest =>
    (linesString? '"' true (dropFirstBreak rest)).map fun (content, after) => (.text content, after)
  | _, '\'' :: '\'' :: '\'' :: rest =>
    (linesString? '\'' false (dropFirstBreak rest)).map fun (content, after) => (.text content, after)
  | _, '"' :: rest => (basicString? rest).map fun (content, after) => (.text content, after)
  | _, '\'' :: rest => (literalString? rest).map fun (content, after) => (.text content, after)
  | 0, '[' :: _ => none
  | levels + 1, '[' :: rest =>
    (list? (value? levels) cs.length rest).map fun (values, after) => (.list values, after)
  | 0, '{' :: _ => none
  | levels + 1, '{' :: rest =>
    match skipBlanks rest with
    | '}' :: after => some (.table [], after)
    | _ =>
      (inline? (value? levels) cs.length [] rest).map fun (items, after) =>
        (.table (itemFields items), after)
  | _, rest =>
    match moment? rest with
    | some (text, after) => some (.text text, after)
    | none => word? rest

inductive Statement where
  | header (path : List Text)
  | nextHeader (path : List Text)
  | entry (path : List Text) (value : Value)

def statement? : Text → Option (Statement × Text)
  | '[' :: '[' :: rest => do
    let (path, rest) ← keyPath? rest.length (skipBlanks rest)
    match rest with
    | ']' :: ']' :: rest => (endLine? rest).map (.nextHeader path, ·)
    | _ => none
  | '[' :: rest => do
    let (path, rest) ← keyPath? rest.length (skipBlanks rest)
    match rest with
    | ']' :: rest => (endLine? rest).map (.header path, ·)
    | _ => none
  | cs => do
    let (path, rest) ← keyPath? cs.length cs
    match rest with
    | '=' :: rest =>
      let (value, rest) ← value? 80 (skipBlanks rest)
      (endLine? rest).map (.entry path value, ·)
    | _ => none

def statements? : (count : Nat) → Text → Option (List Statement)
  | count, cs =>
    match count, skipLines cs with
    | _, [] => some []
    | 0, _ => none
    | count + 1, cs => do
      let (first, rest) ← statement? cs
      let more ← statements? count rest
      some (first :: more)

def build? : (table : List Text) → Items → List Statement → Option Items
  | _, items, [] => some items
  | _, items, .header path :: rest => do build? path (← openAt openTable path items) rest
  | _, items, .nextHeader path :: rest => do build? path (← openAt openNext path items) rest
  | table, items, .entry path value :: rest => do
    build? table (← within (assign value path) table items) rest

def read? (cs : Text) : Option Fields := do
  let statements ← statements? cs.length cs
  (build? [] [] statements).map itemFields

end Stencil.Settings.Toml

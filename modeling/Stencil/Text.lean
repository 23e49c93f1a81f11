namespace Stencil

abbrev Text := List Char

namespace Text

def byteSize : Text → Nat
  | [] => 0
  | c :: cs => c.utf8Size + byteSize cs

def lineBreaks (cs : Text) : Nat :=
  cs.count '\n'

def lineBreaksBefore : (bytes : Nat) → Text → Nat
  | _, [] => 0
  | 0, _ :: _ => 0
  | bytes + 1, c :: cs =>
    (if c = '\n' then 1 else 0) + lineBreaksBefore (bytes + 1 - c.utf8Size) cs

def run (p : Char → Bool) (cs : Text) : Nat :=
  (cs.takeWhile p).length

def isSpace (c : Char) : Bool :=
  let n := c.toNat
  (0x09 ≤ n && n ≤ 0x0D) || n == 0x20 || n == 0x85 || n == 0xA0 || n == 0x1680 ||
    (0x2000 ≤ n && n ≤ 0x200A) || n == 0x2028 || n == 0x2029 || n == 0x202F || n == 0x205F ||
    n == 0x3000

def trimBy (p : Char → Bool) (cs : Text) : Text :=
  ((cs.dropWhile p).reverse.dropWhile p).reverse

def trim (cs : Text) : Text :=
  trimBy isSpace cs

def isBlank (cs : Text) : Bool :=
  cs.all isSpace

def lower (cs : Text) : Text :=
  cs.map Char.toLower

def hexDigit? (c : Char) : Option Nat :=
  if c.isDigit then some (c.toNat - '0'.toNat)
  else if 'a' ≤ c ∧ c ≤ 'f' then some (c.toNat - 'a'.toNat + 10)
  else if 'A' ≤ c ∧ c ≤ 'F' then some (c.toNat - 'A'.toNat + 10)
  else none

def digitsValue (base : Nat) (digits : Text) : Nat :=
  digits.foldl (fun n c => n * base + (hexDigit? c).getD 0) 0

def split (separator : Char) : Text → List Text
  | [] => [[]]
  | c :: cs =>
    if c = separator then [] :: split separator cs
    else
      match split separator cs with
      | first :: rest => (c :: first) :: rest
      | [] => [[c]]

def intercalate (separator : Text) : List Text → Text
  | [] => []
  | [part] => part
  | part :: rest => part ++ separator ++ intercalate separator rest

@[simp] theorem byteSize_nil : byteSize [] = 0 := rfl

@[simp] theorem byteSize_cons (c : Char) (cs : Text) :
    byteSize (c :: cs) = c.utf8Size + byteSize cs := rfl

@[simp] theorem byteSize_append (cs ds : Text) :
    byteSize (cs ++ ds) = byteSize cs + byteSize ds := by
  induction cs with
  | nil => simp
  | cons c cs ih => simp [ih, Nat.add_assoc]

theorem run_le_length (p : Char → Bool) (cs : Text) : run p cs ≤ cs.length :=
  (List.takeWhile_sublist p).length_le

theorem take_run (p : Char → Bool) (cs : Text) : cs.take (run p cs) = cs.takeWhile p := by
  induction cs with
  | nil => rfl
  | cons c cs ih => by_cases h : p c <;> simp_all [run]

theorem drop_run (p : Char → Bool) (cs : Text) : cs.drop (run p cs) = cs.dropWhile p := by
  induction cs with
  | nil => rfl
  | cons c cs ih => by_cases h : p c <;> simp_all [run]

theorem toLower_eq_self {c : Char} (h : ¬c.isUpper = true) : c.toLower = c :=
  dif_neg fun hu => h (decide_eq_true hu)

theorem lower_eq_self {cs : Text} (h : ∀ c ∈ cs, ¬c.isUpper = true) : lower cs = cs := by
  induction cs with
  | nil => rfl
  | cons c cs ih =>
    rw [lower, List.map_cons, toLower_eq_self (h c List.mem_cons_self)]
    exact congrArg (c :: ·) (ih fun d hd => h d (List.mem_cons_of_mem _ hd))

end Text

end Stencil

import Stencil.Markup.CharacterReference.Names

namespace Stencil.Markup.CharacterReference

def replacement : Char := Char.ofNat 0xFFFD

def legacyCodes : List (Nat × Nat) :=
  [(0x80, 0x20AC), (0x82, 0x201A), (0x83, 0x0192), (0x84, 0x201E), (0x85, 0x2026), (0x86, 0x2020),
   (0x87, 0x2021), (0x88, 0x02C6), (0x89, 0x2030), (0x8A, 0x0160), (0x8B, 0x2039), (0x8C, 0x0152),
   (0x8E, 0x017D), (0x91, 0x2018), (0x92, 0x2019), (0x93, 0x201C), (0x94, 0x201D), (0x95, 0x2022),
   (0x96, 0x2013), (0x97, 0x2014), (0x98, 0x02DC), (0x99, 0x2122), (0x9A, 0x0161), (0x9B, 0x203A),
   (0x9C, 0x0153), (0x9E, 0x017E), (0x9F, 0x0178)]

def ofCode (n : Nat) : Char :=
  if n = 0 ∨ 0x10FFFF < n ∨ (0xD800 ≤ n ∧ n ≤ 0xDFFF) then replacement
  else Char.ofNat ((legacyCodes.lookup n).getD n)

structure Meaning where
  first : Char
  second : Option Char := none
  deriving DecidableEq, Repr

def numeric? (base lead : Nat) (digits rest : Text) : Option (Meaning × Nat) :=
  if digits.isEmpty then none
  else
    let width := lead + digits.length + (if rest.head? = some ';' then 1 else 0)
    some (⟨ofCode (Text.digitsValue base digits), none⟩, width)

def ofName? : Text → Option Meaning
  | [] => none
  | c :: rest =>
    match (namesFrom c).find? fun entry => entry.1.toList == rest with
    | some (_, first) => some ⟨first, none⟩
    | none =>
      (pairNames.find? fun entry => entry.1.toList == c :: rest).map fun (_, first, second) =>
        ⟨first, some second⟩

def bareName? (word : Text) : Option Text :=
  -- The names are in order, so a longer one comes after those that it starts with.
  ((bareNames.map String.toList).filter fun name => name.isPrefixOf word).getLast?

/-- A named reference. In an attribute, one without a semicolon does not count before an equals
sign, a letter or a digit. -/
def named? (inAttribute : Bool) (cs : Text) : Option (Meaning × Nat) :=
  let word := cs.takeWhile Char.isAlphanum
  let closed := (cs.drop word.length).head? == some ';'
  match if closed then ofName? word else none with
  | some meaning => some (meaning, word.length + 1)
  | none =>
    match bareName? word with
    | none => none
    | some name =>
      let follows := (cs.drop name.length).head?.any fun d => d == '=' || d.isAlphanum
      if inAttribute ∧ follows then none else (ofName? name).map (·, name.length)

def read? (inAttribute : Bool) (cs : Text) : Option (Meaning × Nat) :=
  match cs with
  | '#' :: 'x' :: rest | '#' :: 'X' :: rest =>
    let digits := rest.takeWhile fun c => (Text.hexDigit? c).isSome
    numeric? 16 2 digits (rest.drop digits.length)
  | '#' :: rest =>
    let digits := rest.takeWhile Char.isDigit
    numeric? 10 1 digits (rest.drop digits.length)
  | _ => named? inAttribute cs

def decode (inAttribute : Bool) (cs : Text) : Text :=
  match cs with
  | [] => []
  | c :: rest =>
    if c = '&' then
      match read? inAttribute rest with
      | some (meaning, width) =>
        meaning.first :: (meaning.second.toList ++ decode inAttribute (rest.drop width))
      | none => c :: decode inAttribute rest
    else c :: decode inAttribute rest
termination_by cs.length
decreasing_by
  all_goals simp only [List.length_drop, List.length_cons]
  all_goals omega

end Stencil.Markup.CharacterReference

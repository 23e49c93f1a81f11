import Stencil.Code.Token.Lexer

/-!
The dot shorthand for offsets: `$a.b`, `$a.0` and `$a.$b` stand for `$a['b']`, `$a[0]` and `$a[$b]`.
-/

namespace Stencil.Expression.DotAccess

open Code.Lexer (isNameStart isNameChar quotedWidth?)

def literalWidth (quote : Char) (cs : Text) : Nat :=
  (quotedWidth? quote cs).getD cs.length

def groupWidth (depth : Nat) (cs : Text) : Nat :=
  match cs with
  | [] => 0
  | c :: rest =>
    if c = '\'' ∨ c = '"' then
      let width := literalWidth c rest
      1 + width + groupWidth depth (rest.drop width)
    else if c = '[' then 1 + groupWidth (depth + 1) rest
    else if c = ']' then
      if depth ≤ 1 then 1 else 1 + groupWidth (depth - 1) rest
    else 1 + groupWidth depth rest
termination_by cs.length
decreasing_by
  all_goals simp only [List.length_drop, List.length_cons]
  all_goals omega

/-- The offset that `cs` spells after a dot: the text that replaces it, and the length read. -/
def member? : Text → Option (Text × Nat)
  | '$' :: c :: cs =>
    if isNameStart c then
      let name := '$' :: c :: cs.takeWhile isNameChar
      some ('[' :: name ++ [']'], name.length)
    else none
  | c :: cs =>
    if c.isDigit then
      let digits := c :: cs.takeWhile Char.isDigit
      some ('[' :: digits ++ [']'], digits.length)
    else if isNameStart c then
      let name := c :: cs.takeWhile isNameChar
      some ('[' :: '\'' :: name ++ ['\'', ']'], name.length)
    else none
  | [] => none

def accesses (cs : Text) : Text × Text :=
  match cs with
  | '[' :: rest =>
    let width := groupWidth 1 rest
    let (out, left) := accesses (rest.drop width)
    ('[' :: rest.take width ++ out, left)
  | '.' :: rest =>
    match member? rest with
    | some (offset, width) =>
      let (out, left) := accesses (rest.drop width)
      (offset ++ out, left)
    | none => ([], '.' :: rest)
  | cs => ([], cs)
termination_by cs.length
decreasing_by
  all_goals simp only [List.length_drop, List.length_cons]
  all_goals omega

theorem accesses_left_length (cs : Text) : (accesses cs).2.length ≤ cs.length := by
  fun_induction accesses cs with
  | case1 rest width out left h ih =>
    rw [h] at ih
    simp only [List.length_drop, List.length_cons] at ih ⊢
    omega
  | case2 rest offset width hm out left h ih =>
    rw [h] at ih
    simp only [List.length_drop, List.length_cons] at ih ⊢
    omega
  | case3 => simp
  | case4 => simp

def endsInMemberOperator : Text → Bool
  | '>' :: '-' :: _ => true
  | ':' :: ':' :: _ => true
  | _ => false

/-- Expands `cs` after `written`, which is held last character first. -/
def expandAfter (written cs : Text) : Text :=
  match cs with
  | [] => written.reverse
  | c :: rest =>
    if c = '\'' ∨ c = '"' then
      let width := literalWidth c rest
      expandAfter ((rest.take width).reverse ++ c :: written) (rest.drop width)
    else if c = '$' ∧ rest.head?.any isNameStart then
      let width := Text.run isNameChar rest
      let name := c :: rest.take width
      if endsInMemberOperator written then
        expandAfter (name.reverse ++ written) (rest.drop width)
      else
        let offsets := accesses (rest.drop width)
        expandAfter (offsets.1.reverse ++ (name.reverse ++ written)) offsets.2
    else expandAfter (c :: written) rest
termination_by cs.length
decreasing_by
  all_goals simp only [List.length_drop, List.length_cons]
  · omega
  · omega
  · have := accesses_left_length (rest.drop (Text.run isNameChar rest))
    simp only [List.length_drop] at this
    omega
  · omega

def expand (source : Text) : Text :=
  expandAfter [] source

end Stencil.Expression.DotAccess

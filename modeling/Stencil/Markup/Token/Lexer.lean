import Stencil.Markup.CharacterReference
import Stencil.Markup.Node
import Stencil.Markup.Token

/-! Nothing is refused: malformed markup is read the way a browser would. -/

namespace Stencil.Markup

namespace Lexer

def isSpace (c : Char) : Bool :=
  c == ' ' || c == '\t' || c == '\n' || c == '\x0c' || c == '\r'

def unifyLineBreaks : Text → Text
  | [] => []
  | '\r' :: '\n' :: cs => '\n' :: unifyLineBreaks cs
  | '\r' :: cs => '\n' :: unifyLineBreaks cs
  | c :: cs => c :: unifyLineBreaks cs

def replaceNull (cs : Text) : Text :=
  cs.map fun c => if c = '\x00' then CharacterReference.replacement else c

def clean (cs : Text) : Text :=
  replaceNull (unifyLineBreaks cs)

inductive Content where
  | data
  | escapable (name : Text)
  | script (name : Text) (start : Nat)
  deriving DecidableEq, Repr

def Content.after (tag : Tag) (start : Nat) : Content :=
  if tag.selfClosing || isVoid tag.name then .data
  else if isRawText tag.name then .script tag.name start
  else if tag.name = "textarea".toList ∨ tag.name = "title".toList then .escapable tag.name
  else .data

def attributeNameWidth (cs : Text) : Nat :=
  Text.run (fun c => !(isSpace c || c == '/' || c == '>' || c == '=')) cs

def attributeValue? (cs : Text) : Option (Text × Nat) :=
  let blanks := Text.run isSpace cs
  match cs.drop blanks with
  | [] => none
  | c :: rest =>
    if c = '"' ∨ c = '\'' then
      let value := rest.takeWhile (· ≠ c)
      if value.length < rest.length then some (value, blanks + 1 + value.length + 1) else none
    else
      let value := (c :: rest).takeWhile fun d => !(isSpace d || d == '>')
      some (value, blanks + value.length)

def attribute? (c : Char) (cs : Text) : Option ((Text × Text) × Nat) :=
  let width := attributeNameWidth cs
  let name := Text.lower (clean (c :: cs.take width))
  let blanks := Text.run isSpace (cs.drop width)
  match cs.drop (width + blanks) with
  | '=' :: rest =>
    match attributeValue? rest with
    | some (value, length) =>
      some ((name, CharacterReference.decode true (clean value)), width + blanks + 1 + length)
    | none => none
  | _ => some ((name, []), width + blanks)

def tagRest? (cs : Text) : Option (List (Text × Text) × Bool × Text) :=
  match cs with
  | [] => none
  | '>' :: rest => some ([], false, rest)
  | '/' :: '>' :: rest => some ([], true, rest)
  | c :: rest =>
    if isSpace c ∨ c = '/' then tagRest? rest
    else
      match attribute? c rest with
      | none => none
      | some (a, width) =>
        match tagRest? (rest.drop width) with
        | none => none
        | some (others, selfClosing, left) => some (a :: others, selfClosing, left)
termination_by cs.length
decreasing_by
  all_goals simp only [List.length_drop, List.length_cons]
  all_goals omega

def keepFirst : List (Text × Text) → List (Text × Text)
  | [] => []
  | a :: rest => a :: (keepFirst rest).filter fun b => b.1 ≠ a.1

def nameLe (a b : Text) : Bool :=
  !decide (b < a)

def arrange (attributes : List (Text × Text)) : List (Text × Text) :=
  (keepFirst attributes).mergeSort fun a b => nameLe a.1 b.1

def tag? (cs : Text) : Option (Tag × Text) :=
  let name := cs.takeWhile fun c => !(isSpace c || c == '/' || c == '>')
  match tagRest? (cs.drop name.length) with
  | none => none
  | some (attributes, selfClosing, left) =>
    some (⟨Text.lower (clean name), arrange attributes, selfClosing⟩, left)

def commentEnd? : Text → Option (Nat × Nat)
  | [] => none
  | '-' :: '-' :: '>' :: _ => some (0, 3)
  | '-' :: '-' :: '!' :: '>' :: _ => some (0, 4)
  | _ :: cs => (commentEnd? cs).map fun (width, mark) => (width + 1, mark)

def withoutOpenMark (cs : Text) : Text :=
  match cs.reverse with
  | '!' :: '-' :: '-' :: rest => rest.reverse
  | '-' :: '-' :: rest => rest.reverse
  | '-' :: rest => rest.reverse
  | _ => cs

def comment (cs : Text) : Text × Text :=
  match cs with
  | '>' :: rest => ([], rest)
  | '-' :: '>' :: rest => ([], rest)
  | _ =>
    match commentEnd? cs with
    | some (width, mark) => (clean (cs.take width), cs.drop (width + mark))
    | none => (clean (withoutOpenMark cs), [])

def upToBracket (cs : Text) : Text × Text :=
  let inner := cs.takeWhile (· ≠ '>')
  (inner, cs.drop (inner.length + 1))

def doctype (cs : Text) : Text × Text :=
  let (inner, left) := upToBracket cs
  let name := (inner.dropWhile isSpace).takeWhile fun c => !isSpace c
  (Text.lower (clean name), left)

def declaration (start : Nat) (cs : Text) : Token × Text :=
  if "--".toList.isPrefixOf cs then
    let (content, left) := comment (cs.drop 2)
    (.comment content start, left)
  else if Text.lower (cs.take 7) = "doctype".toList then
    let (name, left) := doctype (cs.drop 7)
    (.doctype name, left)
  else
    let (content, left) := upToBracket cs
    (.comment (clean content) start, left)

def opensMarkup : Text → Bool
  | '/' :: [] => false
  | '/' :: _ => true
  | c :: _ => c.isAlpha || c == '!' || c == '?'
  | [] => false

def dataWidth : Text → Nat
  | [] => 0
  | c :: cs => if c = '<' ∧ opensMarkup cs then 0 else dataWidth cs + 1

def startsWithName (name cs : Text) : Bool :=
  Text.lower (cs.take name.length) == name &&
    (cs.drop name.length).head?.any fun c => isSpace c || c == '/' || c == '>'

def startsWithEndTag (name : Text) : Text → Bool
  | '<' :: '/' :: cs => startsWithName name cs
  | _ => false

def escapableWidth (name : Text) : Text → Nat
  | [] => 0
  | c :: cs => if startsWithEndTag name (c :: cs) then 0 else escapableWidth name cs + 1

inductive ScriptState where
  | plain
  | escaped (dashes : Nat)
  /-- Inside a `script` element of the comment, whose end tag ends nothing else. -/
  | doubled (dashes : Nat)
  deriving DecidableEq, Repr

def afterDash (inside : Nat → ScriptState) (dashes : Nat) (c : Char) : ScriptState :=
  if c = '-' then inside (min 2 (dashes + 1))
  else if c = '>' ∧ dashes = 2 then .plain
  else inside 0

def scriptWidth (name : Text) (state : ScriptState) (cs : Text) : Nat :=
  let word := "script".toList
  match cs with
  | [] => 0
  | c :: rest =>
    match state with
    | .plain =>
      if startsWithEndTag name (c :: rest) then 0
      else if c = '<' ∧ "!--".toList.isPrefixOf rest then
        4 + scriptWidth name (.escaped 2) (rest.drop 3)
      else 1 + scriptWidth name .plain rest
    | .escaped dashes =>
      if startsWithEndTag name (c :: rest) then 0
      else if c = '<' ∧ startsWithName word rest then
        8 + scriptWidth name (.doubled 0) (rest.drop 7)
      else 1 + scriptWidth name (afterDash .escaped dashes c) rest
    | .doubled dashes =>
      if startsWithEndTag word (c :: rest) then
        9 + scriptWidth name (.escaped 0) (rest.drop 8)
      else 1 + scriptWidth name (afterDash .doubled dashes c) rest
termination_by cs.length
decreasing_by
  all_goals simp only [List.length_drop, List.length_cons]
  all_goals omega

def construct (start : Nat) (cs : Text) : Option Token × Text :=
  match cs with
  | '!' :: rest =>
    let (token, left) := declaration start rest
    (some token, left)
  | '/' :: '>' :: rest => (none, rest)
  | '/' :: rest =>
    if rest.head?.any Char.isAlpha then
      match tag? rest with
      | some (tag, left) => (some (.endTag tag.name start), left)
      | none => (none, [])
    else
      let (content, left) := upToBracket rest
      (some (.comment (clean content) start), left)
  | '?' :: _ =>
    let (content, left) := upToBracket cs
    (some (.comment (clean content) start), left)
  | _ =>
    match tag? cs with
    | some (tag, left) => (some (.startTag tag start), left)
    | none => (none, [])

theorem tagRest?_length {cs left : Text} {attributes : List (Text × Text)} {selfClosing : Bool}
    (h : tagRest? cs = some (attributes, selfClosing, left)) : left.length ≤ cs.length := by
  fun_induction tagRest? cs generalizing attributes selfClosing with
  | case1 => simp at h
  | case2 rest => simp at h; simp [h]
  | case3 rest => simp at h; simp [h]; omega
  | case4 c rest _ _ hc ih => have := ih h; simp; omega
  | case5 => simp at h
  | case6 => simp at h
  | case7 c rest _ _ hc a width ha others closing left' hr ih =>
    simp only [Option.some.injEq, Prod.mk.injEq] at h
    obtain ⟨_, _, rfl⟩ := h
    have := ih hr
    simp at this ⊢
    omega

theorem tag?_length {cs left : Text} {tag : Tag} (h : tag? cs = some (tag, left)) :
    left.length ≤ cs.length := by
  simp only [tag?] at h
  split at h
  · simp at h
  · rename_i attributes closing left' hr
    simp only [Option.some.injEq, Prod.mk.injEq] at h
    obtain ⟨_, rfl⟩ := h
    have := tagRest?_length hr
    simp at this
    omega

theorem upToBracket_length (cs : Text) : (upToBracket cs).2.length ≤ cs.length := by
  simp [upToBracket]

theorem comment_length (cs : Text) : (comment cs).2.length ≤ cs.length := by
  unfold comment
  split
  · simp
  · simp; omega
  · split <;> simp

theorem declaration_length (start : Nat) (cs : Text) :
    (declaration start cs).2.length ≤ cs.length := by
  unfold declaration
  split
  · have := comment_length (cs.drop 2)
    simp at this ⊢
    omega
  · split
    · have := upToBracket_length (cs.drop 7)
      simp [doctype] at this ⊢
      omega
    · exact upToBracket_length cs

theorem construct_length (start : Nat) (cs : Text) :
    (construct start cs).2.length ≤ cs.length := by
  unfold construct
  split
  · rename_i rest
    have := declaration_length start rest
    simp
    omega
  · simp; omega
  · rename_i rest _
    split
    · split
      · rename_i ht
        have := tag?_length ht
        simp
        omega
      · simp
    · have := upToBracket_length rest
      simp
      omega
  · exact upToBracket_length _
  · split
    · rename_i ht
      exact tag?_length ht
    · simp

theorem dataWidth_pos {c : Char} {cs : Text} (h : ¬(c = '<' ∧ opensMarkup cs = true)) :
    0 < dataWidth (c :: cs) := by
  simp [dataWidth, h]

/-- Reads the tokens of `cs`, which stands at `offset`. Text that has been read since the last token
starts at `pending`. -/
def tokensFrom (content : Content) (offset : Nat) (pending : Option Nat) (cs : Text) : List Token :=
  match content, cs with
  | _, [] => []
  | .data, c :: rest =>
    if _h : c = '<' ∧ opensMarkup rest = true then
      let read := construct offset rest
      let next := offset + (Text.byteSize (c :: rest) - Text.byteSize read.2)
      match read.1 with
      | none => tokensFrom .data next pending read.2
      | some (.startTag tag start) =>
        .startTag tag start :: tokensFrom (.after tag (pending.getD start)) next none read.2
      | some token => token :: tokensFrom .data next none read.2
    else
      let width := dataWidth (c :: rest)
      let raw := (c :: rest).take width
      .text (CharacterReference.decode false (unifyLineBreaks raw)) offset ::
        tokensFrom .data (offset + Text.byteSize raw) (some (pending.getD offset))
          ((c :: rest).drop width)
  | .escapable name, c :: rest =>
    let raw := (c :: rest).take (escapableWidth name (c :: rest))
    let left := tokensFrom .data (offset + Text.byteSize raw) none ((c :: rest).drop raw.length)
    if raw.isEmpty then left
    else .text (CharacterReference.decode false (clean raw)) offset :: left
  | .script name start, c :: rest =>
    let raw := (c :: rest).take (scriptWidth name .plain (c :: rest))
    let left := tokensFrom .data (offset + Text.byteSize raw) none ((c :: rest).drop raw.length)
    if raw.isEmpty then left
    else .text (clean raw) start :: left
termination_by 2 * cs.length + if content = .data then 0 else 1
decreasing_by
  · have := construct_length offset rest
    simp only [List.length_cons, if_true]
    omega
  · have := construct_length offset rest
    simp only [List.length_cons, if_true]
    split <;> omega
  · have := construct_length offset rest
    simp only [List.length_cons, if_true]
    omega
  · have := dataWidth_pos _h
    simp only [List.length_drop, List.length_cons, if_true]
    omega
  · simp only [List.length_drop, List.length_cons, if_true, if_false]
    omega
  · simp only [List.length_drop, List.length_cons, if_true, if_false]
    omega

end Lexer

def tokenize (source : Text) : List Token :=
  Lexer.tokensFrom .data 0 none source

end Stencil.Markup

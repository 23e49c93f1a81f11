import Stencil.Text

/-! Tags in text. Positions are byte offsets. -/

namespace Stencil.Template

inductive Modifier where
  | escaped
  | raw
  | noEcho
  deriving DecidableEq, Repr

namespace Modifier

def opening : Modifier → String
  | .escaped => "\x7b\x7b"
  | .raw => "\x7b\x7b\x7b"
  | .noEcho => "\x7b\x7b="

end Modifier

structure Tag where
  before : Text
  source : Text
  modifier : Modifier
  expression : Text
  after : Text
  deriving DecidableEq, Repr

inductive TagFault where
  | unclosed (position : Nat)
  | unopened (position : Nat)
  | nested (position opened : Nat)
  -- The third closing brace of a raw tag is missing, and a wider character stands in its place. The
  -- tag cannot be cut out there, and the program breaks off.
  | splitCharacter (position : Nat)
  deriving DecidableEq, Repr

namespace TagFault

def position : TagFault → Nat
  | .unclosed position | .unopened position | .nested position _ | .splitCharacter position =>
    position

end TagFault

namespace Tag

def opensPair : Text → Bool
  | '{' :: '{' :: _ => true
  | _ => false

def closesPair : Text → Bool
  | '}' :: '}' :: _ => true
  | _ => false

/-- The length of a tag from here to its last brace, which ends the pair number `pairs` of closing
braces; pairs may overlap. The text stands at `position` in a tag opened at `opened`. -/
def closingWidth (opened : Nat) : (pairs position : Nat) → Text → Except TagFault Nat
  | _, _, [] => .error (.unclosed opened)
  | pairs, position, c :: cs =>
    let next := position + c.utf8Size
    if opensPair (c :: cs) then .error (.nested position opened)
    else if closesPair (c :: cs) then
      if pairs ≤ 1 then .ok 2
      else (closingWidth opened (pairs - 1) next cs).map (· + 1)
    else (closingWidth opened pairs next cs).map (· + 1)

def width (opened : Nat) : Text → Except TagFault Nat
  | _ :: cs =>
    if opensPair cs then (closingWidth opened 2 (opened + 2) cs.tail).map (· + 2)
    else (closingWidth opened 1 (opened + 1) cs).map (· + 1)
  | [] => .error (.unclosed opened)

def span? (position : Nat) : Text → Except TagFault (Option (Nat × Nat))
  | [] => .ok none
  | c :: cs =>
    if closesPair (c :: cs) then .error (.unopened position)
    else if opensPair (c :: cs) then (width position (c :: cs)).map fun w => some (0, w)
    else
      (span? (position + c.utf8Size) cs).map fun found => found.map fun (before, w) => (before + 1, w)

/-- The modifier of a tag, and what stands between its braces. A raw tag gives up the last three
bytes, of which two are braces. -/
def body? (source : Text) : Option (Modifier × Text) :=
  match source.drop 2 with
  | '=' :: rest => some (.noEcho, rest.take (rest.length - 2))
  | '{' :: rest =>
    let inner := rest.take (rest.length - 3)
    match rest.drop (rest.length - 3) with
    | last :: _ => if last.utf8Size = 1 then some (.raw, inner) else none
    | [] => none
  | rest => some (.escaped, rest.take (rest.length - 2))

def next? (text : Text) : Except TagFault (Option Tag) :=
  match span? 0 text with
  | .error fault => .error fault
  | .ok none => .ok none
  | .ok (some (start, length)) =>
    let before := text.take start
    let source := (text.drop start).take length
    match body? source with
    | none => .error (.splitCharacter (Text.byteSize before))
    | some (modifier, body) =>
      .ok (some ⟨before, source, modifier, Text.trim body, text.drop (start + length)⟩)

theorem width_pos {opened w : Nat} {text : Text} (h : width opened text = .ok w) : 0 < w := by
  unfold width at h
  split at h
  · split at h
    · rename_i cs _
      cases hc : closingWidth opened 2 (opened + 2) cs.tail <;> simp [hc, Except.map] at h
      omega
    · rename_i cs _
      cases hc : closingWidth opened 1 (opened + 1) cs <;> simp [hc, Except.map] at h
      omega
  · simp at h

theorem span?_pos {position before w : Nat} {text : Text}
    (h : span? position text = .ok (some (before, w))) : 0 < w ∧ 0 < text.length := by
  induction text generalizing position before with
  | nil => simp [span?] at h
  | cons c cs ih =>
    unfold span? at h
    split at h
    · simp at h
    · split at h
      · cases hw : width position (c :: cs) <;> simp [hw, Except.map] at h
        obtain ⟨rfl, rfl⟩ := h
        exact ⟨width_pos hw, by simp⟩
      · cases hs : span? (position + c.utf8Size) cs with
        | error e => simp [hs, Except.map] at h
        | ok found =>
          cases found with
          | none => simp [hs, Except.map] at h
          | some pair =>
            simp [hs, Except.map] at h
            obtain ⟨rfl, rfl⟩ := h
            exact ⟨(ih hs).1, by simp⟩

theorem after_length {text : Text} {tag : Tag} (h : next? text = .ok (some tag)) :
    tag.after.length < text.length := by
  unfold next? at h
  split at h
  · simp at h
  · simp at h
  · rename_i start length hs
    simp only at h
    split at h
    · simp at h
    · simp at h
      subst h
      have := span?_pos hs
      simp
      omega

end Tag

end Stencil.Template

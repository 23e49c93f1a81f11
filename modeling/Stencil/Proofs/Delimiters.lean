import Stencil.Proofs.Encoding
import Stencil.Proofs.Outcome
import Stencil.Template.Tag
import Mathlib.Tactic.Common

/-!
A scan counts pairs of closing braces, which need not touch, and a raw tag gives up three bytes at its
end. Nothing is lost iff these are its braces.
-/

namespace Stencil.Template

open Text Outcome

def Modifier.closing : Modifier → Text
  | .escaped | .noEcho => ['}', '}']
  | .raw => ['}', '}', '}']

lemma Modifier.opening_toList (modifier : Modifier) : modifier.opening.toList =
    match modifier with
    | .escaped => ['{', '{']
    | .raw => ['{', '{', '{']
    | .noEcho => ['{', '{', '='] := by
  cases modifier <;> decide

namespace Tag

/-- The tag is the text between two others, and its expression is all that its braces enclose. -/
structure Lossless (text : Text) (tag : Tag) : Prop where
  whole : text = tag.before ++ tag.source ++ tag.after
  enclosed : ∃ body, tag.source = tag.modifier.opening.toList ++ body ++ tag.modifier.closing ∧
    tag.expression = trim body

lemma closingWidth_ok {opened pairs position w : Nat} {cs : Text}
    (h : closingWidth opened pairs position cs = .ok w) :
    ∃ inner, cs.take w = inner ++ ['}', '}'] ∧ pairs ≤ inner.length + 1 := by
  induction cs generalizing pairs position w with
  | nil => cases h
  | cons c cs ih =>
    have hstep : ∀ {n : Nat}, (closingWidth opened n (position + c.utf8Size) cs).map (· + 1) = .ok w →
        ∃ inner, (c :: cs).take w = c :: inner ++ ['}', '}'] ∧ n ≤ inner.length + 1 := by
      intro n hn
      obtain ⟨v, hv, rfl⟩ := map_ok.mp hn
      obtain ⟨inner, hinner, hlength⟩ := ih hv
      exact ⟨inner, by rw [List.take_succ_cons, hinner, List.cons_append], hlength⟩
    rw [closingWidth] at h
    split at h
    · cases h
    · split at h
      · rename_i hcloses
        split at h
        · cases h
          refine ⟨[], ?_, by simpa⟩
          unfold closesPair at hcloses
          split at hcloses
          · rename_i heq
            cases heq
            rfl
          · cases hcloses
        · obtain ⟨inner, hinner, hlength⟩ := hstep h
          exact ⟨c :: inner, hinner, by simp only [List.length_cons]; omega⟩
      · obtain ⟨inner, hinner, hlength⟩ := hstep h
        exact ⟨c :: inner, hinner, by simp only [List.length_cons]; omega⟩

inductive Cut : Text → Prop
  | pair {inner : Text} : inner.head? ≠ some '=' → inner.head? ≠ some '{' →
      Cut (['{', '{'] ++ inner ++ ['}', '}'])
  | silent (body : Text) : Cut (['{', '{', '='] ++ body ++ ['}', '}'])
  | triple (body : Text) (last : Char) : Cut (['{', '{', '{'] ++ body ++ [last, '}', '}'])

lemma closingWidth_brace {opened pairs position w : Nat} {cs : Text}
    (h : closingWidth opened pairs position ('{' :: cs) = .ok w) :
    ∃ v inner, w = v + 1 ∧ cs.take v = inner ++ ['}', '}'] ∧ pairs ≤ inner.length + 1 ∧
      inner.head? ≠ some '{' := by
  have hcloses : closesPair ('{' :: cs) = false := rfl
  rw [closingWidth, hcloses] at h
  split at h
  · cases h
  · rename_i hopens
    simp only [Bool.false_eq_true, if_false] at h
    obtain ⟨v, hv, rfl⟩ := map_ok.mp h
    obtain ⟨inner, hinner, hlength⟩ := closingWidth_ok hv
    refine ⟨v, inner, rfl, hinner, hlength, ?_⟩
    intro hhead
    obtain ⟨rest, rfl⟩ : ∃ rest, inner = '{' :: rest := List.head?_eq_some_iff.mp hhead
    have hfirst : (cs.take v).head? = some '{' := by rw [hinner]; rfl
    obtain ⟨more, rfl⟩ : ∃ more, cs = '{' :: more := by
      rw [List.head?_take] at hfirst
      split at hfirst
      · cases hfirst
      · exact List.head?_eq_some_iff.mp hfirst
    exact hopens rfl

lemma width_cut {opened w : Nat} {text : Text} (ho : opensPair text = true)
    (h : width opened text = .ok w) : Cut (text.take w) := by
  obtain ⟨rest, rfl⟩ : ∃ rest, text = '{' :: '{' :: rest := by
    unfold opensPair at ho
    split at ho
    · exact ⟨_, rfl⟩
    · cases ho
  rw [width] at h
  by_cases htriple : opensPair ('{' :: rest) = true
  · obtain ⟨rest', rfl⟩ : ∃ rest', rest = '{' :: rest' := by
      unfold opensPair at htriple
      split at htriple
      · rename_i heq
        cases heq
        exact ⟨_, rfl⟩
      · cases htriple
    rw [if_pos htriple, List.tail_cons] at h
    obtain ⟨_, hc, rfl⟩ := map_ok.mp h
    obtain ⟨v, inner, rfl, hinner, hlength, -⟩ := closingWidth_brace hc
    -- Two pairs close the tag, so a character stands before the last one.
    rcases List.eq_nil_or_concat inner with rfl | ⟨body, last, rfl⟩
    · simp at hlength
    · have hcut := Cut.triple body last
      simpa [List.take_succ_cons, hinner] using hcut
  · rw [if_neg htriple] at h
    obtain ⟨_, hc, rfl⟩ := map_ok.mp h
    obtain ⟨v, inner, rfl, hinner, -, hhead⟩ := closingWidth_brace hc
    rw [List.take_succ_cons, List.take_succ_cons, hinner]
    by_cases hsilent : inner.head? = some '='
    · obtain ⟨body, rfl⟩ : ∃ body, inner = '=' :: body := List.head?_eq_some_iff.mp hsilent
      exact Cut.silent body
    · exact Cut.pair hsilent hhead

lemma span?_cut {position before w : Nat} {text : Text}
    (h : span? position text = .ok (some (before, w))) : Cut ((text.drop before).take w) := by
  induction text generalizing position before with
  | nil => cases h
  | cons c cs ih =>
    rw [span?] at h
    split at h
    · cases h
    · split at h
      · rename_i hopens
        obtain ⟨v, hw, hv⟩ := map_ok.mp h
        cases hv
        exact width_cut hopens hw
      · obtain ⟨found, hs, hfound⟩ := map_ok.mp h
        cases found with
        | none => cases hfound
        | some pair =>
          cases hfound
          exact ih hs

lemma next?_of_span {text : Text} {start length : Nat}
    (h : span? 0 text = .ok (some (start, length))) :
    next? text =
      (body? ((text.drop start).take length)).elim
        (.error (.splitCharacter (byteSize (text.take start)))) fun found =>
        .ok (some ⟨text.take start, (text.drop start).take length, found.1, trim found.2,
          text.drop (start + length)⟩) := by
  simp only [next?, h]
  cases body? ((text.drop start).take length) <;> rfl

lemma take_append_drop_drop (text : Text) (start length : Nat) :
    text = text.take start ++ (text.drop start).take length ++ text.drop (start + length) := by
  rw [List.append_assoc, ← List.drop_drop, List.take_append_drop, List.take_append_drop]

inductive Scanned (text : Text) : Except TagFault (Option Tag) → Prop
  | fault {fault : TagFault} : span? 0 text = .error fault → Scanned text (.error fault)
  | plain : span? 0 text = .ok none → Scanned text (.ok none)
  | split {start length : Nat} : span? 0 text = .ok (some (start, length)) →
      Scanned text (.error (.splitCharacter (byteSize (text.take start))))
  | tag {start length : Nat} {modifier : Modifier} {expression : Text} :
      span? 0 text = .ok (some (start, length)) →
      Scanned text (.ok (some ⟨text.take start, (text.drop start).take length, modifier, expression,
        text.drop (start + length)⟩))

lemma next?_scanned (text : Text) : Scanned text (next? text) := by
  cases hs : span? 0 text with
  | error fault =>
    rw [next?, hs]
    exact .fault hs
  | ok found =>
    cases found with
    | none =>
      rw [next?, hs]
      exact .plain hs
    | some span =>
      obtain ⟨start, length⟩ := span
      rw [next?_of_span hs]
      cases body? ((text.drop start).take length) with
      | none => exact .split hs
      | some found => exact .tag hs

lemma next?_some {text : Text} {tag : Tag} (h : next? text = .ok (some tag)) :
    ∃ start length, span? 0 text = .ok (some (start, length)) ∧ tag.before = text.take start ∧
      tag.source = (text.drop start).take length ∧ tag.after = text.drop (start + length) := by
  have hscanned := next?_scanned text
  rw [h] at hscanned
  cases hscanned with
  | tag hs => exact ⟨_, _, hs, rfl, rfl, rfl⟩

lemma next?_whole {text : Text} {tag : Tag} (h : next? text = .ok (some tag)) :
    text = tag.before ++ tag.source ++ tag.after := by
  obtain ⟨start, length, -, hbefore, hsource, hafter⟩ := next?_some h
  rw [hbefore, hsource, hafter]
  exact take_append_drop_drop text start length

lemma body?_pair {inner : Text} (hsilent : inner.head? ≠ some '=') (htriple : inner.head? ≠ some '{') :
    body? (['{', '{'] ++ inner ++ ['}', '}']) = some (.escaped, inner) := by
  have hdrop : (['{', '{'] ++ inner ++ ['}', '}']).drop 2 = inner ++ ['}', '}'] := rfl
  rw [body?, hdrop]
  split
  · rename_i heq
    cases inner with
    | nil => cases heq
    | cons c cs =>
      cases heq
      exact absurd rfl hsilent
  · rename_i heq
    cases inner with
    | nil => cases heq
    | cons c cs =>
      cases heq
      exact absurd rfl htriple
  · simp

lemma body?_silent (body : Text) :
    body? (['{', '{', '='] ++ body ++ ['}', '}']) = some (.noEcho, body) := by
  have hdrop : (['{', '{', '='] ++ body ++ ['}', '}']).drop 2 = '=' :: (body ++ ['}', '}']) := rfl
  rw [body?, hdrop]
  simp

lemma body?_triple (body : Text) (last : Char) :
    body? (['{', '{', '{'] ++ body ++ [last, '}', '}']) =
      if last.utf8Size = 1 then some (.raw, body) else none := by
  have hdrop : (['{', '{', '{'] ++ body ++ [last, '}', '}']).drop 2 =
      '{' :: (body ++ [last, '}', '}']) := rfl
  rw [body?, hdrop]
  simp

def slice? (start stop : Nat) (cs : Text) : Option Text :=
  (takeBytes? stop cs).bind (dropBytes? start)

/-- The body of a tag, cut out of its bytes. -/
def slicedBody? (source : Text) : Option (Modifier × Text) :=
  let size := byteSize source
  if (bytes source)[2]? = some '=' then (slice? 3 (size - 2) source).map (.noEcho, ·)
  else if (bytes source)[2]? = some '{' ∧ (bytes source)[size - 2]? = some '}' then
    (slice? 3 (size - 3) source).map (.raw, ·)
  else (slice? 2 (size - 2) source).map (.escaped, ·)

lemma dropBytes?_append (cs ds : Text) (n : Nat) :
    dropBytes? (byteSize cs + n) (cs ++ ds) = dropBytes? n ds := by
  induction cs with
  | nil => simp
  | cons c cs ih => rw [byteSize_cons, Nat.add_assoc, List.cons_append, dropBytes?_cons, ih]

lemma slice?_between (front middle back : Text) :
    slice? (byteSize front) (byteSize (front ++ middle)) (front ++ middle ++ back) = some middle := by
  have htake := takeBytes?_take (front ++ middle ++ back) (front ++ middle).length
  rw [List.take_left] at htake
  have hdrop := dropBytes?_append front middle 0
  rw [slice?, htake, Option.bind_some, ← Nat.add_zero (byteSize front), hdrop, dropBytes?]

lemma slice?_inside {front : Text} {c : Char} {start n : Nat} (back : Text) (hpos : 0 < n)
    (hlt : n < c.utf8Size) : slice? start (byteSize front + n) (front ++ c :: back) = none := by
  obtain ⟨m, rfl⟩ : ∃ m, n = m + 1 := ⟨n - 1, by omega⟩
  rw [slice?, takeBytes?, dropBytes?_append, dropBytes?, if_neg (by omega)]
  rfl

lemma third_byte {x : Char} (hx : x.toNat < 128) (cs : Text) :
    (bytes ('{' :: '{' :: cs))[2]? = some x ↔ cs.head? = some x := by
  have hbrace : '{'.toNat < 128 := by decide
  rw [bytes_ascii hbrace, bytes_ascii hbrace, List.getElem?_cons_succ, List.getElem?_cons_succ,
    ← List.head?_eq_getElem?, head?_bytes hx]

lemma byteSize_closed (front : Text) : byteSize (front ++ ['}', '}']) = byteSize front + 2 := by
  rw [byteSize_append]
  rfl

lemma closing_byte (front : Text) :
    (bytes (front ++ ['}', '}']))[byteSize (front ++ ['}', '}']) - 2]? = some '}' := by
  rw [byteSize_closed, Nat.add_sub_cancel, bytes_append, ← length_bytes,
    List.getElem?_append_right (Nat.le_refl _), Nat.sub_self]
  rfl

lemma slicedBody?_eq {source : Text} (h : Cut source) : slicedBody? source = body? source := by
  have hequals : '='.toNat < 128 := by decide
  have hbrace : '{'.toNat < 128 := by decide
  cases h with
  | @pair inner hsilent htriple =>
    have hthird : ∀ x : Char, x.toNat < 128 → x ≠ '}' → inner.head? ≠ some x →
        (bytes (['{', '{'] ++ inner ++ ['}', '}']))[2]? ≠ some x := by
      intro x hx hne hhead hbyte
      have hfirst : (inner ++ ['}', '}']).head? = some x := (third_byte hx _).mp hbyte
      cases inner with
      | nil =>
        cases hfirst
        exact hne rfl
      | cons c cs => exact hhead hfirst
    have hslice := slice?_between ['{', '{'] inner ['}', '}']
    rw [slicedBody?, if_neg (hthird '=' hequals (by decide) hsilent),
      if_neg fun hboth => hthird '{' hbrace (by decide) htriple hboth.1, byteSize_closed,
      Nat.add_sub_cancel, body?_pair hsilent htriple]
    change (slice? (byteSize ['{', '{']) _ _).map _ = _
    rw [hslice]
    rfl
  | silent body =>
    have hslice := slice?_between ['{', '{', '='] body ['}', '}']
    have hthird : (bytes (['{', '{', '='] ++ body ++ ['}', '}']))[2]? = some '=' :=
      (third_byte hequals _).mpr rfl
    rw [slicedBody?, if_pos hthird, byteSize_closed, Nat.add_sub_cancel, body?_silent]
    change (slice? (byteSize ['{', '{', '=']) _ _).map _ = _
    rw [hslice]
    rfl
  | triple body last =>
    have hshape : ['{', '{', '{'] ++ body ++ [last, '}', '}'] =
        ['{', '{', '{'] ++ body ++ [last] ++ ['}', '}'] := by simp
    have hsize : byteSize (['{', '{', '{'] ++ body ++ [last, '}', '}']) - 3 =
        byteSize (['{', '{', '{'] ++ body) + (last.utf8Size - 1) := by
      have := last.utf8Size_pos
      rw [hshape, byteSize_closed, byteSize_append, byteSize_cons, byteSize_nil]
      omega
    have hclosing := closing_byte (['{', '{', '{'] ++ body ++ [last])
    rw [← hshape] at hclosing
    have hnot : ¬ (bytes (['{', '{', '{'] ++ body ++ [last, '}', '}']))[2]? = some '=' := by
      intro hthird
      cases (third_byte hequals _).mp hthird
    rw [slicedBody?, if_neg hnot, if_pos ⟨(third_byte hbrace _).mpr rfl, hclosing⟩, hsize,
      body?_triple]
    split
    · rename_i hone
      have hslice := slice?_between ['{', '{', '{'] body [last, '}', '}']
      rw [hone, Nat.sub_self, Nat.add_zero]
      change (slice? (byteSize ['{', '{', '{']) _ _).map _ = _
      rw [hslice]
      rfl
    · rename_i hwide
      have := last.utf8Size_pos
      rw [slice?_inside _ (by omega) (by omega)]
      rfl

def opensTriple (source : Text) : Bool :=
  ['{', '{', '{'].isPrefixOf source

def closesTriple (source : Text) : Bool :=
  ['}', '}', '}'].isSuffixOf source

/-- A scanned tag is found with all that its braces enclose iff it closes with as many braces as it
opens with. Its body is what the slices of its bytes give, and none where they cut a character. -/
theorem lossless_iff_closed {text : Text} {start length : Nat}
    (h : span? 0 text = .ok (some (start, length))) :
    slicedBody? ((text.drop start).take length) = body? ((text.drop start).take length) ∧
      ((∃ tag, next? text = .ok (some tag) ∧ Lossless text tag) ↔
        (opensTriple ((text.drop start).take length) = true →
          closesTriple ((text.drop start).take length) = true)) := by
  have hcut := span?_cut h
  have hwhole := take_append_drop_drop text start length
  refine ⟨slicedBody?_eq hcut, ?_⟩
  rw [next?_of_span h]
  generalize (text.drop start).take length = source at hcut hwhole ⊢
  cases hcut with
  | @pair inner hsilent htriple =>
    rw [body?_pair hsilent htriple]
    refine iff_of_true ⟨_, rfl, hwhole, inner, by rw [Modifier.opening_toList]; rfl, rfl⟩ ?_
    intro hopens
    cases inner with
    | nil => cases hopens
    | cons c cs =>
      obtain ⟨rest, hrest⟩ := List.isPrefixOf_iff_prefix.mp hopens
      cases hrest
      exact absurd rfl htriple
  | silent body =>
    rw [body?_silent]
    refine iff_of_true ⟨_, rfl, hwhole, body, by rw [Modifier.opening_toList]; rfl, rfl⟩ ?_
    intro hopens
    cases hopens
  | triple body last =>
    rw [body?_triple]
    by_cases hlast : last = '}'
    · subst hlast
      refine iff_of_true ⟨_, rfl, hwhole, body, by rw [Modifier.opening_toList]; rfl, rfl⟩ ?_
      exact fun _ => List.isSuffixOf_iff_suffix.mpr (List.suffix_append _ _)
    · have hends : ∀ front : Text, ['{', '{', '{'] ++ body ++ [last, '}', '}'] ≠
          front ++ ['}', '}', '}'] := by
        intro front heq
        have hsame := (List.append_inj' heq rfl).2
        exact hlast (List.cons.inj hsame).1
      refine iff_of_false ?_ ?_
      · rintro ⟨tag, htag, -, inner, hsource, -⟩
        split at htag
        · cases htag
          exact hends _ hsource
        · cases htag
      · intro hcloses
        obtain ⟨front, hfront⟩ := List.isSuffixOf_iff_suffix.mp (hcloses rfl)
        exact hends front hfront.symm

def enclosedTag : Text :=
  "a \x7b\x7b\x7b $é \x7d\x7d\x7d b".toList

theorem lossless_iff_closed_raw : span? 0 enclosedTag = .ok (some (2, 10)) ∧
    ∃ tag, next? enclosedTag = .ok (some tag) ∧ Lossless enclosedTag tag := by
  have hspan : span? 0 enclosedTag = .ok (some (2, 10)) := by decide
  exact ⟨hspan, (lossless_iff_closed hspan).2.mpr (by decide)⟩

def looseTag : Text :=
  "\x7b\x7b\x7b '\x7d\x7d' b\x7d\x7d".toList

def wideTag : Text :=
  "\x7b\x7b\x7b $a \x7d\x7dé\x7d\x7d".toList

theorem raw_tag_loses_character :
    (∃ tag, next? looseTag = .ok (some tag) ∧ tag.modifier = .raw ∧
      tag.expression = "'\x7d\x7d'".toList ∧ ¬ Lossless looseTag tag) ∧
    next? wideTag = .error (.splitCharacter 0) := by
  have hfound : next? looseTag = .ok (some ⟨[], looseTag, .raw, "'\x7d\x7d'".toList, []⟩) := by
    decide +kernel
  have hwide : next? wideTag = .error (.splitCharacter 0) := by decide +kernel
  refine ⟨⟨_, hfound, rfl, rfl, ?_⟩, hwide⟩
  rintro ⟨-, body, hsource, -⟩
  have hends : closesTriple looseTag = true :=
    List.isSuffixOf_iff_suffix.mpr ⟨_, hsource.symm⟩
  revert hends
  decide +kernel

end Tag

end Stencil.Template

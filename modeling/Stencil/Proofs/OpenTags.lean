import Stencil.Proofs.Reading
import Stencil.Proofs.Regions
import Stencil.Proofs.Verbatim
import Mathlib.Tactic.Common

namespace Stencil.Template

open Code Code.Lexer
open Markup (Node Attribute codeOpen codeClose siblings_induction arePrintable isRawText isVoid
  escapeText_no_bracket escapeAttribute_no_bracket)

def openTags : List Text :=
  "<?=".toList :: [' ', '\t', '\n', '\r'].map fun c => "<?php".toList ++ [c]

def startsOpenTag (cs : Text) : Bool :=
  openTags.any fun tag => tag.isPrefixOf (Text.lower cs)

def holdsOpenTag : Text → Bool
  | [] => false
  | c :: cs => startsOpenTag (c :: cs) || holdsOpenTag cs

lemma startsOpenTag_iff {cs : Text} :
    startsOpenTag cs = true ↔ ∃ tag ∈ openTags, tag <+: Text.lower cs := by
  simp [startsOpenTag, List.any_eq_true, List.isPrefixOf_iff_prefix]

lemma startsOpenTag_mono {s cs : Text} (h : s <+: cs) (hs : startsOpenTag s = true) :
    startsOpenTag cs = true := by
  rw [startsOpenTag_iff] at hs ⊢
  obtain ⟨tag, hm, hp⟩ := hs
  exact ⟨tag, hm, hp.trans (h.map _)⟩

lemma holdsOpenTag_iff {cs : Text} :
    holdsOpenTag cs = true ↔ ∃ s, s <:+ cs ∧ startsOpenTag s = true := by
  induction cs with
  | nil =>
    constructor
    · intro h
      cases h
    · rintro ⟨s, hs, hstarts⟩
      rw [List.suffix_nil.mp hs] at hstarts
      cases hstarts
  | cons c cs ih =>
    rw [holdsOpenTag, Bool.or_eq_true, ih]
    constructor
    · rintro (h | ⟨s, hs, hstarts⟩)
      · exact ⟨_, List.suffix_rfl, h⟩
      · exact ⟨s, hs.trans (List.suffix_cons _ _), hstarts⟩
    · rintro ⟨s, hs, hstarts⟩
      rcases List.suffix_cons_iff.mp hs with rfl | hs
      · exact Or.inl hstarts
      · exact Or.inr ⟨s, hs, hstarts⟩

lemma holdsOpenTag_of_piece {part whole : Text} (h : part <:+: whole) (hw : holdsOpenTag whole = false) :
    holdsOpenTag part = false := by
  rw [Bool.eq_false_iff] at hw ⊢
  intro hp
  obtain ⟨s, ⟨front, rfl⟩, hs⟩ := holdsOpenTag_iff.mp hp
  obtain ⟨before, after, rfl⟩ := h
  refine hw (holdsOpenTag_iff.mpr ⟨s ++ after, ⟨before ++ front, by simp⟩, ?_⟩)
  exact startsOpenTag_mono (List.prefix_append _ _) hs

def tagLetters : List Char :=
  ['?', '=', 'p', 'h']

lemma openTags_shape : ∀ tag ∈ openTags, ∃ rest, tag = '<' :: rest ∧
    (∀ c ∈ rest.dropLast, c ∈ tagLetters) ∧ ∀ c ∈ rest, c ∈ tagLetters ∨ isWhitespace c = true := by
  intro tag h
  refine ⟨tag.tail, ?_⟩
  revert tag
  decide

lemma startsOpenTag_cons {c : Char} {cs : Text} (h : startsOpenTag (c :: cs) = true) :
    c.toLower = '<' ∧ ∃ rest, '<' :: rest ∈ openTags ∧ rest <+: Text.lower cs := by
  obtain ⟨tag, hm, hp⟩ := startsOpenTag_iff.mp h
  obtain ⟨rest, rfl, -, -⟩ := openTags_shape tag hm
  obtain ⟨hc, hrest⟩ := List.cons_prefix_cons.mp hp
  exact ⟨hc.symm, rest, hm, hrest⟩

lemma startsOpenTag_until {c d : Char} {s rest : Text} (hc : c.toLower ∉ tagLetters)
    (h : startsOpenTag (d :: s ++ c :: rest) = true) : startsOpenTag (d :: s ++ [c]) = true := by
  obtain ⟨hd, tail, hm, hp⟩ := startsOpenTag_cons h
  obtain ⟨_, ⟨⟩, hinner, -⟩ := openTags_shape _ hm
  refine startsOpenTag_iff.mpr ⟨_, hm, ?_⟩
  have hstop : tail <+: Text.lower s ++ [c.toLower] := by
    have hall : Text.lower s ++ [c.toLower] <+: Text.lower (s ++ c :: rest) :=
      ⟨Text.lower rest, by simp [Text.lower]⟩
    rcases List.prefix_or_prefix_of_prefix hp hall with hshort | ⟨more, rfl⟩
    · exact hshort
    · cases more with
      | nil => exact ⟨[], by simp⟩
      | cons e more =>
        have hmem : c.toLower ∈ (Text.lower s ++ [c.toLower] ++ e :: more).dropLast := by simp
        exact absurd (hinner _ hmem) hc
  have hlower : Text.lower (d :: s ++ [c]) = '<' :: (Text.lower s ++ [c.toLower]) := by
    simp [Text.lower, hd]
  rw [hlower]
  exact List.cons_prefix_cons.mpr ⟨rfl, hstop⟩

lemma startsOpenTag_concat {c d : Char} {s : Text} (hc : c.toLower ∉ tagLetters)
    (hw : isWhitespace c.toLower = false) (h : startsOpenTag (d :: s ++ [c]) = true) :
    startsOpenTag (d :: s) = true := by
  rw [List.cons_append] at h
  obtain ⟨hd, tail, hm, hp⟩ := startsOpenTag_cons h
  obtain ⟨_, ⟨⟩, -, hall⟩ := openTags_shape _ hm
  refine startsOpenTag_iff.mpr ⟨_, hm, ?_⟩
  have hlower : Text.lower (s ++ [c]) = Text.lower s ++ [c.toLower] := by simp [Text.lower]
  rw [hlower] at hp
  rcases List.prefix_concat_iff.mp hp with rfl | hp
  · rcases hall c.toLower (by simp) with hin | hin
    · exact absurd hin hc
    · rw [hw] at hin
      cases hin
  · exact List.cons_prefix_cons.mpr ⟨hd.symm, hp⟩

lemma openTag?_isSome {cs : Text} (h : (openTag? cs).isSome = true) :
    startsOpenTag cs = true ∨ Text.lower cs = "<?php".toList := by
  have hlower : ∀ a b : Text, Text.lower (a ++ b) = Text.lower a ++ Text.lower b := by
    simp [Text.lower]
  rw [startsOpenTag_iff]
  unfold openTag? at h
  split at h
  · rename_i hecho
    obtain ⟨rest, rfl⟩ := List.isPrefixOf_iff_prefix.mp hecho
    rw [hlower]
    exact Or.inl ⟨_, List.mem_cons_self .., List.prefix_append _ _⟩
  split at h
  swap
  · cases h
  rename_i hphp
  have hall : Text.lower cs = "<?php".toList ++ Text.lower (cs.drop 5) := by
    rw [← hphp, ← hlower, List.take_append_drop]
  have hblank : ∀ c rest, cs.drop 5 = c :: rest → c ∈ [' ', '\t', '\n', '\r'] → c.toLower = c →
      ∃ tag ∈ openTags, tag <+: Text.lower cs := by
    intro c rest hdrop hc hsame
    refine ⟨"<?php".toList ++ [c], List.mem_cons_of_mem _ (List.mem_map_of_mem hc), Text.lower rest, ?_⟩
    have hrest : Text.lower (c :: rest) = c :: Text.lower rest := by simp [Text.lower, hsame]
    rw [hall, hdrop, hrest, List.append_assoc]
    rfl
  split at h
  · rename_i hdrop
    rw [hdrop] at hall
    exact Or.inr hall
  · rename_i rest hdrop
    exact Or.inl (hblank _ _ hdrop (by decide) (by decide))
  · rename_i c rest _ hdrop
    split at h
    · rename_i hw
      simp only [isWhitespace, Bool.or_eq_true, beq_iff_eq] at hw
      have hcases : c ∈ [' ', '\t', '\n', '\r'] := by simpa [or_assoc] using hw
      have hsame : ∀ x ∈ [' ', '\t', '\n', '\r'], Char.toLower x = x := by decide
      exact Or.inl (hblank c rest hdrop hcases (hsame c hcases))
    · cases h

def Silent : Text → Text → Prop
  | [], _ => True
  | c :: l, after => openTag? (c :: l ++ after) = none ∧ Silent l after

lemma Silent.append {a b after : Text} (ha : Silent a (b ++ after)) (hb : Silent b after) :
    Silent (a ++ b) after := by
  induction a with
  | nil => exact hb
  | cons c a ih =>
    refine ⟨?_, ih ha.2⟩
    have hhead := ha.1
    rwa [← List.append_assoc] at hhead

lemma Silent.drop {l after : Text} (h : Silent l after) (n : Nat) : Silent (l.drop n) after := by
  induction n generalizing l with
  | zero => exact h
  | succ n ih =>
    cases l with
    | nil => exact h
    | cons c l => exact ih h.2

lemma openTag?_eq_none {cs : Text} (h : startsOpenTag cs = false)
    (hend : Text.lower cs ≠ "<?php".toList) : openTag? cs = none := by
  rw [← Option.not_isSome_iff_eq_none]
  intro hsome
  rcases openTag?_isSome hsome with hs | hs
  · rw [h] at hs
    cases hs
  · exact hend hs

lemma silent_of_no_bracket {l : Text} (after : Text) (h : '<' ∉ l) : Silent l after := by
  induction l with
  | nil => trivial
  | cons c l ih =>
    rw [List.mem_cons, not_or] at h
    exact ⟨openTag?_of_head (Ne.symm h.1), ih h.2⟩

lemma silent_of_not_holds {l rest : Text} {c : Char} (hc : c.toLower ∉ tagLetters)
    (h : holdsOpenTag (l ++ [c]) = false) : Silent l (c :: rest) := by
  induction l with
  | nil => trivial
  | cons d l ih =>
    rw [List.cons_append, holdsOpenTag, Bool.or_eq_false_iff] at h
    refine ⟨openTag?_eq_none ?_ ?_, ih h.2⟩
    · rw [Bool.eq_false_iff]
      intro hs
      have hstop := startsOpenTag_until hc hs
      rw [List.cons_append, h.1] at hstop
      cases hstop
    · -- the text would end with the open tag, so `c` would stand inside it
      intro heq
      have hmem : c.toLower ∈ "<?php".toList.tail := by
        rw [← heq]
        simp [Text.lower]
      have hletters : ∀ x ∈ "<?php".toList.tail, x ∈ tagLetters := by decide
      exact hc (hletters _ hmem)

lemma silent_before {l rest : Text} {c : Char} (hc : c.toLower ∉ tagLetters)
    (hw : isWhitespace c.toLower = false) (h : holdsOpenTag l = false) : Silent l (c :: rest) := by
  apply silent_of_not_holds hc
  rw [Bool.eq_false_iff] at h ⊢
  intro hholds
  obtain ⟨s, hs, hstarts⟩ := holdsOpenTag_iff.mp hholds
  rcases List.suffix_concat_iff.mp hs with rfl | ⟨t, rfl, ht⟩
  · cases hstarts
  · cases t with
    | nil =>
      obtain ⟨-, tail, hm, hp⟩ := startsOpenTag_cons hstarts
      rw [List.prefix_nil.mp hp] at hm
      revert hm
      decide
    | cons d t => exact h (holdsOpenTag_iff.mpr ⟨_, ht, startsOpenTag_concat hc hw hstarts⟩)

lemma silent_bracket {d : Char} {l : Text} (after : Text) (hd : d.toLower ≠ '?') (h : '<' ∉ d :: l) :
    Silent ('<' :: d :: l) after := by
  have hne : '?' ≠ d.toLower := hd.symm
  refine ⟨openTag?_eq_none ?_ ?_, silent_of_no_bracket after h⟩
  · simp [startsOpenTag, openTags, Text.lower, List.isPrefixOf, hne]
  · simp [Text.lower, hd]

def printed (ps : List (Chunk Text)) : Text :=
  ps.flatMap Chunk.print

def Calm (after : Text) : List (Chunk Text) → Prop
  | [] => True
  | .literal content :: ps => Silent content (printed ps ++ after) ∧ Calm after ps
  | .code _ :: ps | .attributeCode _ :: ps => Calm after ps

lemma printed_append (ps qs : List (Chunk Text)) : printed (ps ++ qs) = printed ps ++ printed qs :=
  List.flatMap_append

lemma calm_append {after : Text} {ps qs : List (Chunk Text)} (hp : Calm (printed qs ++ after) ps)
    (hq : Calm after qs) : Calm after (ps ++ qs) := by
  induction ps with
  | nil => exact hq
  | cons p ps ih =>
    cases p with
    | literal content =>
      rw [List.cons_append]
      refine ⟨?_, ih hp.2⟩
      rw [printed_append, List.append_assoc]
      exact hp.1
    | code | attributeCode => exact ih hp

lemma calm_literal {content after : Text} (h : Silent content after) : Calm after [.literal content] :=
  ⟨h, trivial⟩

def NoOpenTag (part : Text) : Prop :=
  holdsOpenTag part = false

lemma enclosed_silent {d c : Char} {opening part closing : Text} (after : Text)
    (hd : d.toLower ≠ '?') (ho : '<' ∉ d :: opening) (hc : c.toLower ∉ tagLetters)
    (hw : isWhitespace c.toLower = false) (hcl : '<' ∉ c :: closing) (h : NoOpenTag part) :
    Silent ('<' :: d :: opening ++ part ++ c :: closing) after := by
  rw [List.append_assoc]
  refine (silent_bracket _ hd ho).append (Silent.append ?_ ?_)
  · exact silent_before hc hw h
  · exact silent_of_no_bracket _ hcl

lemma attributes_calm {attributes : List Attribute}
    (h : ∀ a ∈ attributes, NoOpenTag (a.name ++ ['='])) (after : Text) :
    Calm after (attributes.flatMap attributeChunks) := by
  induction attributes with
  | nil => trivial
  | cons a rest ih =>
    rw [List.flatMap_cons]
    refine calm_append ?_ (ih fun b hb => h b (List.mem_cons_of_mem _ hb))
    have hname : ∀ after, Silent (attributeOpening a.name) after := by
      intro after
      have hopening : attributeOpening a.name = [' '] ++ ((a.name ++ ['=']) ++ ['"']) := by
        simp [attributeOpening]
      rw [hopening]
      refine (silent_of_no_bracket _ (by decide)).append (Silent.append ?_ ?_)
      · exact silent_before (by decide) (by decide) (h a (List.mem_cons_self ..))
      · exact silent_of_no_bracket _ (by decide)
    have hquote : ∀ after, Calm after [.literal ['"']] := fun after =>
      calm_literal (silent_of_no_bracket _ (by decide))
    obtain ⟨name, value⟩ := a
    cases value with
    | text content =>
      exact ⟨hname _, silent_of_no_bracket _ (escapeAttribute_no_bracket content), hquote _⟩
    | code content => exact ⟨hname _, hquote _⟩
    | expression id => trivial

lemma attributes_head {attributes : List Attribute}
    (h : (attributes.all fun a => a.value.isPrintable) = true) (after : Text) :
    ∃ c rest, printed (attributes.flatMap attributeChunks) ++ '>' :: after = c :: rest ∧
      (c = ' ' ∨ c = '>') := by
  cases attributes with
  | nil => exact ⟨_, _, rfl, Or.inr rfl⟩
  | cons a rest =>
    obtain ⟨name, value⟩ := a
    cases value with
    | text content => exact ⟨_, _, rfl, Or.inl rfl⟩
    | code content => exact ⟨_, _, rfl, Or.inl rfl⟩
    | expression id => cases h

lemma nodeChunks_head {node : Node} (raw : Bool) (ht : isText node = false)
    (hp : node.isPrintable = true) : ∃ rest, printed (nodeChunks raw node) = '<' :: rest := by
  cases node with
  | element name attributes children line =>
    rw [nodeChunks]
    split <;> exact ⟨_, rfl⟩
  | comment | doctype | instruction | code => exact ⟨_, rfl⟩
  | placeholder => cases hp
  | text => cases ht

lemma element_calm {name after : Text} {attributes : List Attribute} {inner : List (Chunk Text)}
    (hp : (attributes.all fun a => a.value.isPrintable) = true)
    (hn : NoOpenTag ('<' :: name ++ [' '])) (ha : ∀ a ∈ attributes, NoOpenTag (a.name ++ ['=']))
    (hi : Calm (endTag name ++ after) inner) :
    Calm after (.literal (startOpening name) :: attributes.flatMap attributeChunks ++
      [.literal ['>']]) ∧
    Calm after (.literal (startOpening name) :: attributes.flatMap attributeChunks ++
      [.literal ['>']] ++ inner ++ [.literal (endTag name)]) := by
  have hstart : ∀ after, Calm after (.literal (startOpening name) ::
      attributes.flatMap attributeChunks ++ [.literal ['>']]) := by
    intro after
    refine calm_append ⟨?_, attributes_calm ha _⟩
      (calm_literal (silent_of_no_bracket _ (by decide)))
    obtain ⟨c, rest, hrest, hc⟩ := attributes_head hp after
    have hafter : printed (attributes.flatMap attributeChunks) ++ (printed [.literal ['>']] ++ after) =
        c :: rest := hrest
    rw [hafter]
    rcases hc with rfl | rfl
    · exact silent_of_not_holds (by decide) hn
    · exact silent_before (by decide) (by decide) (holdsOpenTag_of_piece ⟨[], [' '], by rfl⟩ hn)
  have hend : Silent (endTag name) after := by
    have hname : NoOpenTag name := holdsOpenTag_of_piece ⟨['<'], [' '], by rfl⟩ hn
    exact enclosed_silent _ (by decide) (by decide) (by decide) (by decide) (by decide) hname
  refine ⟨hstart after, calm_append (calm_append (hstart _) ?_) (calm_literal hend)⟩
  simpa [printed, Chunk.print] using hi

lemma chunks_calm {nodes : List Node} : ∀ {raw : Bool} {after : Text}, Tidy NoOpenTag raw nodes →
    arePrintable nodes = true → (raw = true → ∃ rest, after = '<' :: rest) →
    Calm after (chunks raw nodes) := by
  induction nodes using siblings_induction with
  | nil => exact fun _ _ _ => trivial
  | cons node rest ihc ih =>
    intro raw after ht hp hraw
    obtain ⟨hnode, hapart, hrest⟩ := ht
    simp only [arePrintable, Bool.and_eq_true] at hp
    refine calm_append ?_ (ih hrest hp.2 hraw)
    have hprintable := hp.1
    cases node with
    | element name attributes children line =>
      obtain ⟨hname, hattributes, hchildren, -⟩ := hnode
      simp only [Markup.Node.isPrintable, Bool.and_eq_true] at hprintable
      have hinner : Calm (endTag name ++ (printed (chunks raw rest) ++ after))
          (chunks (isRawText name) children) :=
        ihc hchildren hprintable.2 fun _ => ⟨_, rfl⟩
      obtain ⟨hvoid, hfull⟩ := element_calm hprintable.1 hname hattributes hinner
      rw [nodeChunks]
      split
      · exact hvoid
      · exact hfull
    | text content line =>
      apply calm_literal
      cases raw with
      | false => exact silent_of_no_bracket _ (escapeText_no_bracket content)
      | true =>
        have hnext : ∃ more, printed (chunks true rest) ++ after = '<' :: more := by
          cases rest with
          | nil => exact hraw rfl
          | cons next others =>
            have hother : isText next = false := by
              rw [Bool.eq_false_iff]
              exact hapart next rfl rfl
            simp only [arePrintable, Bool.and_eq_true] at hp
            obtain ⟨more, hmore⟩ := nodeChunks_head true hother hp.2.1
            rw [chunks, printed_append, hmore]
            exact ⟨_, rfl⟩
        obtain ⟨more, hmore⟩ := hnext
        rw [hmore]
        exact silent_before (by decide) (by decide) (hnode rfl)
    | comment content line =>
      apply calm_literal
      exact enclosed_silent _ (by decide) (by decide) (by decide) (by decide) (by decide) hnode
    | doctype name =>
      apply calm_literal
      exact enclosed_silent _ (by decide) (by decide) (by decide) (by decide) (by decide) hnode
    | instruction content line =>
      apply calm_literal
      refine Silent.append ?_ (silent_of_no_bracket _ (by decide))
      exact silent_before (by decide) (by decide) hnode
    | code content => trivial
    | placeholder id kind children => trivial

def opensCode (t : Token) : Bool :=
  match t.kind with
  | .openTag | .openTagWithEcho => true
  | _ => false

def openOffsets (start : Nat) : List Token → List Nat
  | [] => []
  | t :: ts =>
    if opensCode t then start :: openOffsets (start + t.text.length) ts
    else openOffsets (start + t.text.length) ts

def Chunk.isCode {α : Type} : Chunk α → Bool
  | .literal _ => false
  | .code _ | .attributeCode _ => true

def regionOffsets (start : Nat) : List (Chunk Text) → List Nat
  | [] => []
  | p :: ps =>
    if p.isCode then start :: regionOffsets (start + p.print.length) ps
    else regionOffsets (start + p.print.length) ps

lemma openOffsets_append {as : List Token} (h : ∀ t ∈ as, opensCode t = false) (start : Nat)
    (bs : List Token) :
    openOffsets start (as ++ bs) = openOffsets (start + (as.flatMap Token.text).length) bs := by
  induction as generalizing start with
  | nil => rfl
  | cons a as ih =>
    obtain ⟨ha, has⟩ := List.forall_mem_cons.mp h
    simp [openOffsets, ha, ih has, Nat.add_assoc]

lemma opensCode_of_isPlain {t : Token} (h : Kind.isPlain t.kind = true) : opensCode t = false := by
  obtain ⟨kind, text⟩ := t
  cases kind <;> first | rfl | cases h

lemma attributeChunks_compiled {table : Table Fragment} {a : Attribute}
    (h : ∀ r ∈ attributeRegions a, Compiled table r) : ∀ r ∈ attributeChunks a, Compiled table r := by
  obtain ⟨name, value⟩ := a
  cases value with
  | text content => simp [attributeChunks, Compiled]
  | code content =>
    have hcode := h _ (List.mem_cons_self ..)
    simpa [attributeChunks, Compiled] using hcode
  | expression id => simp [attributeChunks]

lemma chunks_compiled {table : Table Fragment} {nodes : List Node} :
    (∀ r ∈ regions nodes, Compiled table r) → ∀ raw, ∀ r ∈ chunks raw nodes, Compiled table r := by
  induction nodes using siblings_induction with
  | nil =>
    intro _ raw r hr
    cases hr
  | cons node rest ihc ih =>
    intro h raw r hr
    rw [regions, List.forall_mem_append] at h
    rcases List.mem_append.mp hr with hr | hr
    swap
    · exact ih h.2 raw r hr
    cases node with
    | element name attributes children line =>
      rw [nodeRegions, List.forall_mem_append] at h
      obtain ⟨⟨hattributes, hchildren⟩, -⟩ := h
      have hbound : ∀ r ∈ attributes.flatMap attributeChunks, Compiled table r := by
        intro r hr
        obtain ⟨a, ha, hr⟩ := List.mem_flatMap.mp hr
        exact attributeChunks_compiled (fun r hr => hattributes r (List.mem_flatMap.mpr ⟨a, ha, hr⟩)) r hr
      have hinner := ihc hchildren (isRawText name)
      rw [nodeChunks] at hr
      split at hr <;>
        simp only [List.cons_append, List.mem_cons, List.mem_append, List.not_mem_nil, or_false] at hr
      · rcases hr with rfl | hr | rfl
        · trivial
        · exact hbound r hr
        · trivial
      · rcases hr with rfl | ((hr | rfl) | hr) | rfl
        · trivial
        · exact hbound r hr
        · trivial
        · exact hinner r hr
        · trivial
    | text | comment | doctype | instruction =>
      obtain rfl := List.mem_singleton.mp hr
      trivial
    | code content => exact h.1 r hr
    | placeholder => cases hr

lemma lineBreakWidth_le (cs : Text) : lineBreakWidth cs ≤ cs.length := by
  fun_cases lineBreakWidth cs <;> simp

lemma lineBreak_no_bracket (cs : Text) : '<' ∉ cs.take (lineBreakWidth cs) := by
  fun_cases lineBreakWidth cs <;> simp

lemma inlineWidth_append {s after : Text} (h : Silent s after) :
    inlineWidth (s ++ after) = s.length + inlineWidth after := by
  induction s with
  | nil => simp
  | cons c s ih =>
    have hhead : openTag? (c :: (s ++ after)) = none := h.1
    rw [List.cons_append, inlineWidth, hhead, ih h.2, List.length_cons]
    simp only [Option.isSome_none, Bool.false_eq_true, if_false]
    omega

def inlineText (ts : List Token) : Text :=
  (ts.filter fun t => t.kind == .inlineHtml).flatMap Token.text

lemma inlineText_append (as bs : List Token) :
    inlineText (as ++ bs) = inlineText as ++ inlineText bs := by
  simp [inlineText]

lemma scans_silent {s after : Text} (h : Silent s after) (ha : inlineWidth after = 0) :
    ∃ ts, Scans .markup (s ++ after) ts .markup after ∧ (∀ t ∈ ts, opensCode t = false) ∧
      inlineText ts = s := by
  cases s with
  | nil => exact ⟨[], .done, by simp, rfl⟩
  | cons c s =>
    have hhead : openTag? (c :: (s ++ after)) = none := h.1
    have hlexeme : lexeme .markup c (s ++ after) = .ok ⟨.inlineHtml, s.length, .markup⟩ := by
      simp [lexeme, hhead, inlineWidth_append h.2, ha]
    have hs : Scans .markup (c :: (s ++ after)) _ .markup ((s ++ after).drop s.length) :=
      .step hlexeme .done
    rw [List.drop_left] at hs
    refine ⟨_, hs, List.forall_mem_singleton.mpr rfl, ?_⟩
    simp [inlineText]

section

variable {o : Options} {table : Table Fragment}

lemma inlineText_region {parts ending : List Token} (hp : ∀ t ∈ parts, Kind.isPlain t.kind = true)
    (he : inlineText ending = []) : inlineText (⟨.openTag, codeOpen⟩ :: (parts ++ ending)) = [] := by
  have hparts : (parts.filter fun t => t.kind == .inlineHtml) = [] := by
    rw [List.filter_eq_nil_iff]
    intro t hm hkind
    have hplain := hp t hm
    rw [beq_iff_eq.mp hkind] at hplain
    cases hplain
  have hsplit : inlineText (⟨.openTag, codeOpen⟩ :: (parts ++ ending)) =
      inlineText parts ++ inlineText ending := inlineText_append parts ending
  rw [hsplit, he, inlineText, hparts]
  rfl

lemma code_scans {p : Chunk Text} (ht : ∀ f ∈ table.entries, Admitted o f) (hp : p.isCode = true)
    (hc : Compiled table p) (rest : Text) :
    ∃ ts, Scans .markup (p.print ++ rest) (⟨.openTag, codeOpen⟩ :: ts) .markup
      (rest.drop (lineBreakWidth rest)) ∧ (∀ t ∈ ts, opensCode t = false) ∧
      inlineText (⟨.openTag, codeOpen⟩ :: ts) = [] := by
  cases p with
  | literal content => cases hp
  | code content =>
    obtain ⟨commands, hx, rfl⟩ := hc
    obtain ⟨parts, -, hplain, hscan⟩ := region_scans hx ht
    have hs := hscan (scans_closeTag false rest)
    rw [← List.append_assoc] at hs
    refine ⟨_, hs, List.forall_mem_append.mpr ⟨fun t hm => opensCode_of_isPlain (hplain t hm), ?_⟩,
      inlineText_region hplain rfl⟩
    simp [opensCode]
  | attributeCode content =>
    obtain ⟨f, hf, rfl⟩ := hc
    have hx : ∀ x ∈ [Command.fragment f], x.IsFrom table := List.forall_mem_singleton.mpr hf
    obtain ⟨parts, -, hplain, hscan⟩ := region_scans hx ht
    have hs := hscan (scans_blank_closeTag rest)
    rw [← List.append_assoc, List.flatMap_singleton] at hs
    refine ⟨_, hs, List.forall_mem_append.mpr ⟨fun t hm => opensCode_of_isPlain (hplain t hm), ?_⟩,
      inlineText_region hplain rfl⟩
    simp [opensCode]

end

lemma code_print {p : Chunk Text} (hp : p.isCode = true) (rest : Text) :
    ∃ more, p.print ++ rest = codeOpen ++ more := by
  cases p with
  | literal content => cases hp
  | code content => exact ⟨content ++ codeClose ++ rest, by simp [Chunk.print]⟩
  | attributeCode content => exact ⟨content ++ ' ' :: codeClose ++ rest, by simp [Chunk.print]⟩

lemma inlineWidth_codeOpen (rest : Text) : inlineWidth (codeOpen ++ rest) = 0 := by
  have htag : openTag? (codeOpen ++ rest) = some (.openTag, 6) := rfl
  have hcons : codeOpen ++ rest = '<' :: ("?php ".toList ++ rest) := rfl
  rw [hcons] at htag ⊢
  rw [inlineWidth, htag]
  rfl

lemma le_length_of_bracket {s rest : Text} {w : Nat} (h : '<' ∉ (s ++ '<' :: rest).take w) :
    w ≤ s.length := by
  by_contra hlt
  obtain ⟨k, hk⟩ : ∃ k, w - s.length = k + 1 := ⟨w - s.length - 1, by omega⟩
  apply h
  rw [List.take_append, hk]
  simp

lemma openOffsets_region {before region : List Token} (hb : ∀ t ∈ before, opensCode t = false)
    (hr : ∀ t ∈ region, opensCode t = false) (start : Nat) (more : List Token) :
    openOffsets start (before ++ (⟨.openTag, codeOpen⟩ :: region ++ more)) =
      (start + (before.flatMap Token.text).length) ::
        openOffsets (start + (before.flatMap Token.text).length + codeOpen.length +
          (region.flatMap Token.text).length) more := by
  have hopen : opensCode ⟨.openTag, codeOpen⟩ = true := rfl
  rw [openOffsets_append hb, List.cons_append, openOffsets, if_pos hopen, openOffsets_append hr]

/-- The literal text before the first region, after `s`, and that after each region. -/
def literalRuns (s : Text) : List (Chunk Text) → Text × List Text
  | [] => (s, [])
  | .literal content :: ps => literalRuns (s ++ content) ps
  | .code _ :: ps | .attributeCode _ :: ps => (s, (literalRuns [] ps).1 :: (literalRuns [] ps).2)

def withoutLineBreak (cs : Text) : Text :=
  cs.drop (lineBreakWidth cs)

lemma literalRuns_code {p : Chunk Text} (hp : p.isCode = true) (s : Text) (ps : List (Chunk Text)) :
    literalRuns s (p :: ps) = (s, (literalRuns [] ps).1 :: (literalRuns [] ps).2) := by
  cases p with
  | literal => cases hp
  | code | attributeCode => rfl

lemma lineBreakWidth_append (cs rest : Text) : lineBreakWidth (cs ++ '<' :: rest) = lineBreakWidth cs := by
  fun_cases lineBreakWidth cs with
  | case1 => rfl
  | case2 => rfl
  | case3 cs hpair hfeed =>
    rw [lineBreakWidth]
    · intro after heq
      cases cs with
      | nil => cases heq
      | cons c cs =>
        cases cs with
        | nil => cases heq
        | cons d cs =>
          cases heq
          exact hpair cs rfl
    · intro after heq
      cases cs with
      | nil => cases heq
      | cons c cs =>
        cases heq
        exact hfeed cs rfl

lemma lineBreakWidth_runs (s : Text) (ps : List (Chunk Text)) :
    lineBreakWidth (s ++ printed ps) = lineBreakWidth (literalRuns s ps).1 := by
  induction ps generalizing s with
  | nil =>
    rw [literalRuns]
    simp [printed]
  | cons p ps ih =>
    have hprinted : printed (p :: ps) = p.print ++ printed ps := List.flatMap_cons
    rw [hprinted]
    cases hp : p.isCode with
    | false =>
      cases p with
      | literal content =>
        rw [literalRuns, ← ih, List.append_assoc]
        rfl
      | code | attributeCode => cases hp
    | true =>
      obtain ⟨more, hmore⟩ := code_print hp (printed ps)
      rw [literalRuns_code hp, hmore]
      exact lineBreakWidth_append s _

lemma chunks_read {o : Options} {table : Table Fragment} (ht : ∀ f ∈ table.entries, Admitted o f)
    {ps : List (Chunk Text)} (hps : ∀ r ∈ ps, Compiled table r) (hcalm : Calm [] ps) :
    ∀ (s : Text) (w : Nat), Silent s (printed ps) → '<' ∉ (s ++ printed ps).take w →
      ∃ ts, Scans .markup ((s ++ printed ps).drop w) ts .markup [] ∧
        (∀ n, openOffsets (n + w) ts = regionOffsets (n + s.length) ps) ∧
        inlineText ts = (literalRuns s ps).1.drop w ++ (literalRuns s ps).2.flatMap withoutLineBreak := by
  induction ps with
  | nil =>
    intro s w hs _
    obtain ⟨ts, hts, hno, hinline⟩ := scans_silent (hs.drop w) rfl
    refine ⟨ts, by simpa [printed] using hts, fun n => ?_, ?_⟩
    · have hall := openOffsets_append hno (n + w) []
      rwa [List.append_nil] at hall
    · rw [hinline, literalRuns, List.flatMap_nil, List.append_nil]
  | cons p ps ih =>
    intro s w hs hbreak
    have hrest := ih fun r hr => hps r (List.mem_cons_of_mem _ hr)
    have hprinted : printed (p :: ps) = p.print ++ printed ps := List.flatMap_cons
    rw [hprinted] at hs hbreak ⊢
    cases hcode : p.isCode with
    | false =>
      -- Literal text goes to the text before it: the lexer does not see where chunks meet.
      cases p with
      | code | attributeCode => cases hcode
      | literal content =>
        obtain ⟨hcontent, hcalm⟩ := hcalm
        rw [List.append_nil] at hcontent
        rw [← List.append_assoc] at hbreak ⊢
        obtain ⟨ts, hts, hoffsets, hinline⟩ := hrest hcalm (s ++ content) w (hs.append hcontent) hbreak
        refine ⟨ts, hts, fun n => ?_, hinline⟩
        have hskip : regionOffsets (n + s.length) (.literal content :: ps) =
            regionOffsets (n + s.length + content.length) ps := rfl
        rw [hoffsets, hskip, List.length_append, Nat.add_assoc]
    | true =>
      have hcalm : Calm [] ps := by
        cases p with
        | literal => cases hcode
        | code | attributeCode => exact hcalm
      obtain ⟨region, hregion, hno, hcodeless⟩ :=
        code_scans ht hcode (hps p (List.mem_cons_self ..)) (printed ps)
      obtain ⟨more, hmore, hoffsets, hinline⟩ := hrest hcalm [] (lineBreakWidth (printed ps)) trivial
        (lineBreak_no_bracket _)
      obtain ⟨inside, hinside⟩ := code_print hcode (printed ps)
      -- A region starts with a bracket, so the line break taken along ends before it.
      have hwidth : w ≤ s.length := by
        rw [hinside] at hbreak
        exact le_length_of_bracket hbreak
      have hzero : inlineWidth (p.print ++ printed ps) = 0 := by
        rw [hinside, inlineWidth_codeOpen]
      obtain ⟨before, hbefore, hnone, htext⟩ := scans_silent (hs.drop w) hzero
      refine ⟨before ++ (⟨.openTag, codeOpen⟩ :: region ++ more), ?_, fun n => ?_, ?_⟩
      · rw [List.drop_append_of_le_length hwidth]
        exact hbefore.append (hregion.append hmore)
      · have hb : n + w + (before.flatMap Token.text).length = n + s.length := by
          have htext := congrArg List.length hbefore.text
          simp only [List.length_append, List.length_drop] at htext
          omega
        have hr : n + s.length + codeOpen.length + (region.flatMap Token.text).length =
            n + s.length + p.print.length + lineBreakWidth (printed ps) := by
          have htext := congrArg List.length hregion.text
          have hle := lineBreakWidth_le (printed ps)
          simp only [List.length_append, List.length_drop, List.flatMap_cons] at htext
          omega
        rw [openOffsets_region hnone hno, hb, hr, hoffsets, regionOffsets, if_pos hcode]
        rfl
      · have hbreaks : lineBreakWidth (printed ps) = lineBreakWidth (literalRuns [] ps).1 :=
          lineBreakWidth_runs [] ps
        rw [inlineText_append, inlineText_append, htext, hcodeless, hinline, hbreaks,
          literalRuns_code hcode]
        rfl

lemma chunks_scan {o : Options} {table : Table Fragment} (ht : ∀ f ∈ table.entries, Admitted o f)
    {ps : List (Chunk Text)} (hps : ∀ r ∈ ps, Compiled table r) (hcalm : Calm [] ps)
    (s : Text) (w : Nat) (hs : Silent s (printed ps)) (hbreak : '<' ∉ (s ++ printed ps).take w) :
    ∃ ts, Scans .markup ((s ++ printed ps).drop w) ts .markup [] ∧
      ∀ n, openOffsets (n + w) ts = regionOffsets (n + s.length) ps := by
  obtain ⟨ts, hts, hoffsets, -⟩ := chunks_read ht hps hcalm s w hs hbreak
  exact ⟨ts, hts, hoffsets⟩

/-- If no verbatim markup of the template holds an open tag, the open tags that the lexer finds in the
output are the starts of the regions written for it. -/
theorem open_tags_start_regions {c c' : Compiler} {source : Text} (h : c.parse source = (.ok (), c'))
    (hm : ∀ part ∈ verbatim false (Markup.parse source), NoOpenTag part) :
    ∃ nodes ts, emit? c'.table c'.document = some nodes ∧
      c'.output? = some (printed (chunks false nodes)) ∧
      Code.tokenize (printed (chunks false nodes)) = .ok ts ∧
      openOffsets 0 ts = regionOffsets 0 (chunks false nodes) := by
  obtain ⟨hadmitted, ps, hps⟩ := parse_ok h
  obtain ⟨nodes, hemit, hprintable, htidy⟩ := emit_tidy (fun _ _ => holdsOpenTag_of_piece)
    (Markup.parse_isWritten source) (parse_resolve h) hps (tidy_of_verbatim (parse_tidy source false) hm)
  have hcalm : Calm [] (chunks false nodes) := chunks_calm htidy hprintable (by simp)
  have hcompiled := chunks_compiled (emit_compiled hps hemit) false
  obtain ⟨ts, hts, hoffsets⟩ := chunks_scan hadmitted hcompiled hcalm [] 0 trivial (by simp)
  refine ⟨nodes, ts, hemit, ?_, ?_, ?_⟩
  · rw [Compiler.output?, hemit]
    exact printAll_chunks nodes false hprintable
  · have htokens := hts.tokensFrom_eq
    rw [tokensFrom] at htokens
    simpa [Code.tokenize, Except.map] using htokens
  · simpa using hoffsets 0

def taggedSource : Text :=
  "<p title=\"<?= 1\">&lt;?php \x7b\x7b $a \x7d\x7d</p>\n<style>a<b \x7b\x7b $c \x7d\x7d</style>".toList

theorem open_tags_start_regions_tagged :
    ∃ c', (Compiler.ofOptions {}).parse taggedSource = (.ok (), c') ∧
      (∀ part ∈ verbatim false (Markup.parse taggedSource), NoOpenTag part) ∧
      ∃ nodes ts, emit? c'.table c'.document = some nodes ∧
        c'.output? = some (printed (chunks false nodes)) ∧
        Code.tokenize (printed (chunks false nodes)) = .ok ts ∧
        openOffsets 0 ts = regionOffsets 0 (chunks false nodes) := by
  have h := parse_eq_of_isOk (.ofOptions {}) taggedSource (by decide +kernel)
  have hparts : ∀ part ∈ verbatim false (Markup.parse taggedSource), NoOpenTag part := by
    unfold NoOpenTag
    decide +kernel
  exact ⟨_, h, hparts, open_tags_start_regions h hparts⟩

/-- A template without code, what is written for it, and the place of an open tag in that. -/
structure Leak where
  source : Text
  output : Text
  offset : Nat

def Leak.Reaches (l : Leak) : Prop :=
  ∃ c' nodes ts, (Compiler.ofOptions {}).parse l.source = (.ok (), c') ∧
    emit? c'.table c'.document = some nodes ∧ c'.output? = some l.output ∧
    Code.tokenize l.output = .ok ts ∧ openOffsets 0 ts = [l.offset] ∧
    regionOffsets 0 (chunks false nodes) = []

lemma Leak.reaches {l : Leak} (hok : ((Compiler.ofOptions {}).parse l.source).1.isOk)
    (houtput : ((Compiler.ofOptions {}).parse l.source).2.output? = some l.output)
    (hregions : (emit? ((Compiler.ofOptions {}).parse l.source).2.table
      ((Compiler.ofOptions {}).parse l.source).2.document).map
        (fun nodes => regionOffsets 0 (chunks false nodes)) = some [])
    (htags : (Code.tokenize l.output).toOption.map (openOffsets 0) = some [l.offset]) :
    l.Reaches := by
  obtain ⟨nodes, hnodes, hnone⟩ := Option.map_eq_some_iff.mp hregions
  obtain ⟨ts, hts, hoffsets⟩ := Option.map_eq_some_iff.mp htags
  cases ht : Code.tokenize l.output with
  | error fault =>
    rw [ht] at hts
    cases hts
  | ok found =>
    rw [ht] at hts
    cases hts
    exact ⟨_, nodes, ts, parse_eq_of_isOk _ _ hok, hnodes, houtput, ht, hoffsets, hnone⟩

def leaks : List Leak :=
  [⟨"<!--<?= 1-->".toList, "<!--<?= 1-->".toList, 4⟩,
   ⟨"<script><?= 1</script>".toList, "<script><?= 1</script>".toList, 8⟩,
   ⟨"<!DOCTYPE a<?=>".toList, "<!DOCTYPE a<?=>".toList, 11⟩,
   ⟨"<a<?php x=\"1\">y</a>".toList, "<a<?php x=\"1\">y</a<?php>".toList, 2⟩,
   ⟨"<a b<?=\"1\">y</a>".toList, "<a b<?=\"1\">y</a>".toList, 4⟩,
   ⟨"<p pre><?= 1 ?></p>".toList, "<p><?= 1 ?></p>".toList, 3⟩]

theorem verbatim_open_tags_reach_output : leaks.Forall Leak.Reaches := by
  refine ⟨?_, ?_, ?_, ?_, ?_, ?_⟩ <;> apply Leak.reaches <;> decide +kernel

end Stencil.Template

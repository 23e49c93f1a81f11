import Stencil.Markup.Node.Printer
import Stencil.Proofs.Encoding
import Stencil.Proofs.Tree
import Mathlib.Data.List.Infix
import Mathlib.Data.List.TakeWhile
import Mathlib.Tactic.Common

namespace Stencil.Markup

open CharacterReference

def textEscapes : List (Char × Text) :=
  [('&', ['a', 'm', 'p', ';']), ('<', ['l', 't', ';']), ('>', ['g', 't', ';'])]

def attributeEscapes : List (Char × Text) :=
  ('"', ['q', 'u', 'o', 't', ';']) :: textEscapes

def escaped (escapes : List (Char × Text)) (c : Char) : Text :=
  match escapes.lookup c with
  | some name => '&' :: name
  | none => [c]

lemma escapeText_eq (cs : Text) : escapeText cs = cs.flatMap (escaped textEscapes) := by
  fun_induction escapeText cs with
  | case1 => rfl
  | case2 cs ih | case3 cs ih | case4 cs ih =>
    rw [List.flatMap_cons, ih]
    rfl
  | case5 c cs hamp hless hgreater ih =>
    have hnone : textEscapes.lookup c = none :=
      List.lookup_eq_none_iff.mpr (by simp_all [textEscapes])
    rw [List.flatMap_cons, escaped, hnone, ih, List.singleton_append]

lemma escapeAttribute_eq (cs : Text) :
    escapeAttribute cs = cs.flatMap (escaped attributeEscapes) := by
  fun_induction escapeAttribute cs with
  | case1 => rfl
  | case2 cs ih | case3 cs ih | case4 cs ih | case5 cs ih =>
    rw [List.flatMap_cons, ih]
    rfl
  | case6 c cs hamp hquote hless hgreater ih =>
    have hnone : attributeEscapes.lookup c = none :=
      List.lookup_eq_none_iff.mpr (by simp_all [attributeEscapes, textEscapes])
    rw [List.flatMap_cons, escaped, hnone, ih, List.singleton_append]

lemma decode_reference {c : Char} {name : Text} (h : (c, name) ∈ attributeEscapes)
    (inAttribute : Bool) (rest : Text) :
    decode inAttribute ('&' :: name ++ rest) = c :: decode inAttribute rest := by
  have hread : read? inAttribute (name ++ rest) = some (⟨c, none⟩, name.length) := by
    simp only [attributeEscapes, textEscapes, List.mem_cons, Prod.mk.injEq, List.not_mem_nil,
      or_false] at h
    rcases h with ⟨rfl, rfl⟩ | ⟨rfl, rfl⟩ | ⟨rfl, rfl⟩ | ⟨rfl, rfl⟩ <;> cases inAttribute <;> rfl
  rw [List.cons_append, decode, if_pos rfl, hread]
  dsimp only
  rw [List.drop_left]
  rfl

lemma mem_of_lookup {escapes : List (Char × Text)} {c : Char} {name : Text}
    (h : escapes.lookup c = some name) : (c, name) ∈ escapes := by
  obtain ⟨front, back, rfl, -⟩ := List.lookup_eq_some_iff.mp h
  exact List.mem_append_right front List.mem_cons_self

lemma decode_escaped {escapes : List (Char × Text)} (h : escapes ⊆ attributeEscapes)
    (hamp : escapes.lookup '&' ≠ none) (inAttribute : Bool) (cs : Text) :
    decode inAttribute (cs.flatMap (escaped escapes)) = cs := by
  induction cs with
  | nil => rw [List.flatMap_nil, decode]
  | cons c cs ih =>
    rw [List.flatMap_cons, escaped]
    cases hlookup : escapes.lookup c with
    | none =>
      have hc : c ≠ '&' := by
        rintro rfl
        exact hamp hlookup
      rw [List.singleton_append, decode, if_neg hc, ih]
    | some name =>
      rw [decode_reference (h (mem_of_lookup hlookup)), ih]

lemma decode_escapeText (inAttribute : Bool) (cs : Text) :
    decode inAttribute (escapeText cs) = cs := by
  rw [escapeText_eq]
  exact decode_escaped (List.subset_cons_self ..) (by decide) inAttribute cs

lemma decode_escapeAttribute (inAttribute : Bool) (cs : Text) :
    decode inAttribute (escapeAttribute cs) = cs := by
  rw [escapeAttribute_eq]
  exact decode_escaped (List.Subset.refl _) (by decide) inAttribute cs

def referenceLetters : List Char :=
  ['&', ';', 'a', 'g', 'l', 'm', 'o', 'p', 'q', 't', 'u']

lemma reference_letters : ∀ entry ∈ attributeEscapes, '&' :: entry.2 ⊆ referenceLetters := by
  decide

lemma mem_of_mem_escaped {escapes : List (Char × Text)} (h : escapes ⊆ attributeEscapes) {cs : Text}
    {d : Char} (hletter : d ∉ referenceLetters) (hd : d ∈ cs.flatMap (escaped escapes)) :
    d ∈ cs ∧ escapes.lookup d = none := by
  obtain ⟨c, hc, hmem⟩ := List.mem_flatMap.mp hd
  rw [escaped] at hmem
  cases hlookup : escapes.lookup c with
  | none =>
    rw [hlookup] at hmem
    obtain rfl := List.mem_singleton.mp hmem
    exact ⟨hc, hlookup⟩
  | some name =>
    rw [hlookup] at hmem
    exact absurd (reference_letters _ (h (mem_of_lookup hlookup)) hmem) hletter

lemma escapeText_no_bracket (cs : Text) : '<' ∉ escapeText cs := by
  rw [escapeText_eq]
  intro hmem
  have hnone := (mem_of_mem_escaped (List.subset_cons_self ..) (by decide) hmem).2
  exact absurd hnone (by decide)

lemma escapeAttribute_no_bracket (cs : Text) : '<' ∉ escapeAttribute cs := by
  rw [escapeAttribute_eq]
  intro hmem
  have hnone := (mem_of_mem_escaped (List.Subset.refl _) (by decide) hmem).2
  exact absurd hnone (by decide)

lemma escapeAttribute_no_quote (cs : Text) : '"' ∉ escapeAttribute cs := by
  rw [escapeAttribute_eq]
  intro hmem
  have hnone := (mem_of_mem_escaped (List.Subset.refl _) (by decide) hmem).2
  exact absurd hnone (by decide)

def isClean (cs : Text) : Bool :=
  cs.all fun c => c != '\r' && c != '\x00'

lemma isClean_iff {cs : Text} : isClean cs = true ↔ '\r' ∉ cs ∧ '\x00' ∉ cs := by
  simp only [isClean, List.all_eq_true, Bool.and_eq_true, bne_iff_ne]
  constructor
  · exact fun h => ⟨fun hm => (h _ hm).1 rfl, fun hm => (h _ hm).2 rfl⟩
  · rintro ⟨hr, hn⟩ c hc
    exact ⟨fun heq => hr (heq ▸ hc), fun heq => hn (heq ▸ hc)⟩

lemma isClean_escaped {escapes : List (Char × Text)} (h : escapes ⊆ attributeEscapes) {cs : Text}
    (hc : isClean cs = true) : isClean (cs.flatMap (escaped escapes)) = true := by
  rw [isClean_iff] at hc ⊢
  exact ⟨fun hmem => hc.1 (mem_of_mem_escaped h (by decide) hmem).1,
    fun hmem => hc.2 (mem_of_mem_escaped h (by decide) hmem).1⟩

namespace Lexer

lemma unifyLineBreaks_eq {cs : Text} (h : '\r' ∉ cs) : unifyLineBreaks cs = cs := by
  fun_induction unifyLineBreaks cs with
  | case1 => rfl
  | case2 | case3 => simp at h
  | case4 c cs _ _ ih => rw [ih fun hm => h (List.mem_cons_of_mem _ hm)]

lemma clean_eq {cs : Text} (h : isClean cs = true) : clean cs = cs := by
  rw [isClean_iff] at h
  rw [clean, unifyLineBreaks_eq h.1, replaceNull]
  conv_rhs => rw [← List.map_id cs]
  apply List.map_congr_left
  intro c hc
  rw [if_neg]
  · rfl
  · rintro rfl
    exact h.2 hc

lemma takeWhile_until {p : Char → Bool} {front rest : Text} (h : ∀ c ∈ front, p c = true)
    (hr : ∀ c ∈ rest.head?, p c = false) : (front ++ rest).takeWhile p = front := by
  rw [List.takeWhile_append_of_pos h]
  cases rest with
  | nil => rw [List.takeWhile_nil, List.append_nil]
  | cons c rest =>
    rw [List.takeWhile_cons_of_neg (by rw [hr c rfl]; exact Bool.false_ne_true), List.append_nil]

def isName (stops : List Char) (name : Text) : Bool :=
  !name.isEmpty && name.all fun c => !(isSpace c || stops.contains c || c == '\x00' || c.isUpper)

lemma isName_iff {stops : List Char} {name : Text} : isName stops name = true ↔ name ≠ [] ∧
    ∀ c ∈ name, isSpace c = false ∧ c ∉ stops ∧ c ≠ '\x00' ∧ ¬c.isUpper = true := by
  simp [isName, and_assoc]

lemma not_isSpace_return {c : Char} (h : isSpace c = false) : c ≠ '\r' := by
  rintro rfl
  exact absurd h (by decide)

lemma lower_clean {stops : List Char} {name : Text} (h : isName stops name = true) :
    Text.lower (clean name) = name := by
  obtain ⟨-, hall⟩ := isName_iff.mp h
  have hclean : isClean name = true := isClean_iff.mpr
    ⟨fun hm => not_isSpace_return (hall _ hm).1 rfl, fun hm => (hall _ hm).2.2.1 rfl⟩
  rw [clean_eq hclean, Text.lower_eq_self fun c hc => (hall c hc).2.2.2]

def isTagName (name : Text) : Bool :=
  isName ['/', '>'] name && name.head?.any Char.isLower

def isPlain : Attribute → Bool
  | ⟨name, .text value⟩ => isName ['/', '>', '='] name && isClean value
  | _ => false

lemma attributeValue?_quoted {value : Text} (h : '"' ∉ value) (rest : Text) :
    attributeValue? ('"' :: (value ++ '"' :: rest)) = some (value, value.length + 2) := by
  have hblank : Text.run isSpace ('"' :: (value ++ '"' :: rest)) = 0 := rfl
  have hvalue : (value ++ '"' :: rest).takeWhile (· ≠ '"') = value :=
    takeWhile_until (by grind) (by simp)
  rw [attributeValue?, hblank]
  simp only [List.drop_zero, true_or, if_true, hvalue]
  rw [if_pos (by simp)]
  simp only [Option.some.injEq, Prod.mk.injEq, true_and]
  omega

lemma attribute?_printed {c : Char} {name value : Text}
    (h : isPlain ⟨c :: name, .text value⟩ = true) (rest : Text) :
    attribute? c (name ++ '=' :: '"' :: (escapeAttribute value ++ '"' :: rest)) =
      some ((c :: name, value), name.length + ((escapeAttribute value).length + 3)) := by
  obtain ⟨hname, hvalue⟩ := Bool.and_eq_true_iff.mp h
  obtain ⟨-, hall⟩ := isName_iff.mp hname
  have hwidth : attributeNameWidth (name ++ '=' :: '"' :: (escapeAttribute value ++ '"' :: rest)) =
      name.length := by
    rw [attributeNameWidth, Text.run, takeWhile_until _ (by simp)]
    intro d hd
    have := hall d (List.mem_cons_of_mem c hd)
    simp_all
  rw [attribute?, hwidth]
  simp only [List.drop_left, List.take_left]
  have hblank : Text.run isSpace ('=' :: '"' :: (escapeAttribute value ++ '"' :: rest)) = 0 := rfl
  have hclean : clean (escapeAttribute value) = escapeAttribute value := by
    rw [escapeAttribute_eq]
    exact clean_eq (isClean_escaped (List.Subset.refl _) hvalue)
  simp only [hblank, Nat.add_zero, List.drop_left, attributeValue?_quoted
    (escapeAttribute_no_quote value), lower_clean hname, hclean, decode_escapeAttribute,
    Option.some.injEq, Prod.mk.injEq, true_and]
  omega

lemma tagRest?_space (rest : Text) : tagRest? (' ' :: rest) = tagRest? rest := by
  rw [tagRest?.eq_def]
  exact if_pos (.inl rfl)

lemma tagRest?_attribute {c : Char} {cs : Text} (hc : isSpace c = false) (hs : c ∉ ['/', '>'])
    {a : Text × Text} {width : Nat} (ha : attribute? c cs = some (a, width)) :
    tagRest? (c :: cs) = (tagRest? (cs.drop width)).map fun r => (a :: r.1, r.2) := by
  have hslash : c ≠ '/' := by grind
  have hbracket : c ≠ '>' := by grind
  conv_lhs => rw [tagRest?.eq_def]
  split
  · cases ‹_›
  · cases ‹_›
    exact absurd rfl hbracket
  · cases ‹_›
    exact absurd rfl hslash
  · rename_i c' rest _ _ heq
    cases heq
    rw [if_neg (by simp [hc, hslash]), ha]
    dsimp only
    cases tagRest? (cs.drop width) <;> rfl

def pairs (attributes : List Attribute) : List (Text × Text) :=
  attributes.map fun a => (a.name, a.value.literal)

lemma tagRest?_printed {attributes : List Attribute} (h : ∀ a ∈ attributes, isPlain a = true) :
    ∃ printed, printAttributes? attributes = some printed ∧ ∀ rest,
      (∀ c ∈ (printed ++ '>' :: rest).head?, (isSpace c || c == '>') = true) ∧
      tagRest? (printed ++ '>' :: rest) = some (pairs attributes, false, rest) := by
  induction attributes with
  | nil =>
    refine ⟨[], rfl, fun rest => ⟨by simp, ?_⟩⟩
    rw [List.nil_append, tagRest?]
    rfl
  | cons a attributes ih =>
    obtain ⟨ha, hothers⟩ := List.forall_mem_cons.mp h
    obtain ⟨others, hprint, hread⟩ := ih hothers
    obtain ⟨name, value⟩ := a
    cases value with
    | expression | code => cases ha
    | text value =>
      have hname := isName_iff.mp (Bool.and_eq_true_iff.mp ha).1
      obtain ⟨c, name, rfl⟩ := List.exists_cons_of_ne_nil hname.1
      obtain ⟨hspace, hstops, -⟩ := hname.2 c List.mem_cons_self
      refine ⟨' ' :: c :: (name ++ '=' :: '"' :: (escapeAttribute value ++ '"' :: others)), ?_, ?_⟩
      · rw [printAttributes?, hprint]
        simp [AttributeValue.print?]
      · intro rest
        have hfirst := attribute?_printed ha (others ++ '>' :: rest)
        refine ⟨by simp [isSpace], ?_⟩
        simp only [List.cons_append, List.append_assoc]
        rw [tagRest?_space, tagRest?_attribute hspace (by grind) hfirst,
          List.drop_length_add_append, List.drop_succ_cons, List.drop_succ_cons,
          List.drop_length_add_append, List.drop_succ_cons, List.drop_zero, (hread rest).2]
        rfl

lemma keepFirst_eq {attributes : List (Text × Text)} (h : (attributes.map Prod.fst).Nodup) :
    keepFirst attributes = attributes := by
  induction attributes with
  | nil => rfl
  | cons a attributes ih =>
    obtain ⟨hnew, hrest⟩ := List.nodup_cons.mp h
    rw [keepFirst, ih hrest, List.filter_eq_self.mpr]
    intro b hb
    have hne : b.1 ≠ a.1 := fun heq => hnew (heq ▸ List.mem_map_of_mem hb)
    simpa using hne

def areSorted (attributes : List Attribute) : Bool :=
  decide ((attributes.map fun a => Text.bytes a.name).Pairwise (· < ·))

lemma arrange_eq {attributes : List Attribute} (h : areSorted attributes = true) :
    arrange (pairs attributes) = pairs attributes := by
  have hbytes := List.pairwise_map.mp (of_decide_eq_true h)
  have hdistinct : ((pairs attributes).map Prod.fst).Nodup := by
    rw [pairs, List.map_map, List.Nodup, List.pairwise_map]
    refine hbytes.imp fun {a b} hlt heq => ?_
    rw [show a.name = b.name from heq] at hlt
    exact List.lt_irrefl _ hlt
  rw [arrange, keepFirst_eq hdistinct]
  apply List.mergeSort_of_pairwise
  rw [pairs, List.pairwise_map]
  refine hbytes.imp fun {a b} hlt => ?_
  rw [nameLe, Bool.not_eq_true', decide_eq_false_iff_not]
  exact fun hback => List.lt_asymm hlt (Text.bytes_lt hback)

lemma tag?_printed {name : Text} {attributes : List Attribute} (hn : isTagName name = true)
    (ha : ∀ a ∈ attributes, isPlain a = true) (hs : areSorted attributes = true) :
    ∃ printed, printAttributes? attributes = some printed ∧ ∀ rest,
      tag? (name ++ (printed ++ '>' :: rest)) = some (⟨name, pairs attributes, false⟩, rest) := by
  obtain ⟨printed, hprint, hread⟩ := tagRest?_printed ha
  refine ⟨printed, hprint, fun rest => ?_⟩
  obtain ⟨hend, hrest⟩ := hread rest
  have hname := (Bool.and_eq_true_iff.mp hn).1
  have hwidth : (name ++ (printed ++ '>' :: rest)).takeWhile
      (fun c => !(isSpace c || c == '/' || c == '>')) = name := by
    apply takeWhile_until
    · intro c hc
      have := (isName_iff.mp hname).2 c hc
      simp_all
    · intro c hc
      have := hend c hc
      grind
  rw [tag?, hwidth, List.drop_left, hrest]
  simp only [lower_clean hname, arrange_eq hs]

lemma isTagName_head {name : Text} (h : isTagName name = true) :
    ∃ c cs, name = c :: cs ∧ c.isLower = true := by
  cases name with
  | nil => cases h
  | cons c cs => exact ⟨c, cs, rfl, (Bool.and_eq_true_iff.mp h).2⟩

lemma isAlpha_of_isLower {c : Char} (h : c.isLower = true) : c.isAlpha = true :=
  Bool.or_eq_true_iff.mpr (.inr h)

lemma construct_tag {c : Char} {cs left : Text} {tag : Tag} (hc : c.isLower = true)
    (h : tag? (c :: cs) = some (tag, left)) (start : Nat) :
    opensMarkup (c :: cs) = true ∧ construct start (c :: cs) = (some (.startTag tag start), left) := by
  have hne : c ≠ '!' ∧ c ≠ '/' ∧ c ≠ '?' := by
    refine ⟨?_, ?_, ?_⟩ <;> rintro rfl <;> exact absurd hc (by decide)
  constructor
  · have halpha := isAlpha_of_isLower hc
    rw [opensMarkup.eq_def]
    split <;> simp_all
  · rw [construct.eq_def]
    split <;> simp_all

def ReadsStartTag (name printed : Text) (attributes : List Attribute) : Prop :=
  ∀ start rest, opensMarkup (name ++ (printed ++ '>' :: rest)) = true ∧
    construct start (name ++ (printed ++ '>' :: rest)) =
      (some (.startTag ⟨name, pairs attributes, false⟩ start), rest)

lemma construct_startTag {name : Text} {attributes : List Attribute} (hn : isTagName name = true)
    (ha : ∀ a ∈ attributes, isPlain a = true) (hs : areSorted attributes = true) :
    ∃ printed, printAttributes? attributes = some printed ∧ ReadsStartTag name printed attributes := by
  obtain ⟨printed, hprint, hread⟩ := tag?_printed hn ha hs
  obtain ⟨c, cs, rfl, hc⟩ := isTagName_head hn
  exact ⟨printed, hprint, fun start rest => construct_tag hc (hread rest) start⟩

lemma construct_endTag {name : Text} (h : isTagName name = true) (start : Nat) (rest : Text) :
    opensMarkup ('/' :: (name ++ '>' :: rest)) = true ∧
      construct start ('/' :: (name ++ '>' :: rest)) = (some (.endTag name start), rest) := by
  have hnone : ∀ a ∈ ([] : List Attribute), isPlain a = true := List.forall_mem_nil _
  obtain ⟨printed, hprint, hread⟩ := tag?_printed h hnone rfl
  cases hprint
  obtain ⟨c, cs, rfl, hc⟩ := isTagName_head h
  have htag : tag? (c :: (cs ++ '>' :: rest)) = some (⟨c :: cs, [], false⟩, rest) := hread rest
  refine ⟨rfl, ?_⟩
  rw [List.cons_append, construct.eq_def]
  split
  · cases ‹_›
  · cases ‹_›
    exact absurd hc (by decide)
  · rename_i heq
    cases heq
    have halpha : (c :: (cs ++ '>' :: rest)).head?.any Char.isAlpha = true := isAlpha_of_isLower hc
    rw [if_pos halpha, htag]
  · cases ‹_›
  · rename_i _ _ hslash _
    exact absurd rfl (hslash _)

lemma upToBracket_closed {content : Text} (h : '>' ∉ content) (rest : Text) :
    upToBracket (content ++ '>' :: rest) = (content, rest) := by
  have hinner : (content ++ '>' :: rest).takeWhile (· ≠ '>') = content :=
    takeWhile_until (by grind) (by simp)
  rw [upToBracket, hinner, List.drop_length_add_append]
  rfl

def isInstruction (content : Text) : Bool :=
  content.head? == some '?' && !content.contains '>' && isClean content

lemma construct_instruction {content : Text} (h : isInstruction content = true) (start : Nat)
    (rest : Text) : opensMarkup (content ++ '>' :: rest) = true ∧
      construct start (content ++ '>' :: rest) = (some (.comment content start), rest) := by
  obtain ⟨⟨hhead, hbracket⟩, hclean⟩ := by
    simpa only [isInstruction, Bool.and_eq_true] using h
  obtain ⟨cs, rfl⟩ := List.head?_eq_some_iff.mp (beq_iff_eq.mp hhead)
  refine ⟨rfl, ?_⟩
  have hmem : '>' ∉ '?' :: cs := by simpa using hbracket
  have hread := upToBracket_closed hmem rest
  rw [List.cons_append] at hread
  rw [List.cons_append, construct.eq_def]
  simp only [hread, clean_eq hclean]

def isComment (content : Text) : Bool :=
  isClean content && ["?", ">", "->"].all (fun opening => !opening.toList.isPrefixOf content) &&
    decide (¬['-'] <:+ content) && decide (¬['-', '-'] <:+: content)

def isEnclosed (content : Text) : Bool :=
  isClean content && [">", "->"].all (fun opening => !opening.toList.isPrefixOf content) &&
    decide (¬['-'] <:+ content) && decide (¬['-', '-'] <:+: content)

lemma isEnclosed_of_isComment {content : Text} (h : isComment content = true) :
    isEnclosed content = true := by
  simp only [isComment, List.all_cons, Bool.and_eq_true] at h
  simp only [isEnclosed, List.all_cons, Bool.and_eq_true]
  obtain ⟨⟨⟨hclean, -, hopening⟩, hlast⟩, hdouble⟩ := h
  exact ⟨⟨⟨hclean, hopening⟩, hlast⟩, hdouble⟩

lemma commentEnd?_closed {content : Text} (hlast : ¬['-'] <:+ content)
    (hdouble : ¬['-', '-'] <:+: content) (rest : Text) :
    commentEnd? (content ++ '-' :: '-' :: '>' :: rest) = some (content.length, 3) := by
  induction content with
  | nil => rfl
  | cons c cs ih =>
    have hstep := ih (fun h => hlast (h.trans (List.suffix_cons c cs)))
      (fun h => hdouble (h.trans (List.suffix_cons c cs).isInfix))
    have hhead : ∀ after, c :: (cs ++ '-' :: '-' :: '>' :: rest) ≠ '-' :: '-' :: after := by
      intro after heq
      obtain ⟨rfl, htail⟩ := List.cons.inj heq
      cases cs with
      | nil => exact hlast (List.suffix_refl _)
      | cons d ds =>
        obtain ⟨rfl, -⟩ := List.cons.inj htail
        exact hdouble ⟨[], ds, rfl⟩
    rw [List.cons_append, commentEnd?.eq_def]
    split
    · cases ‹_›
    · exact absurd ‹_› (hhead _)
    · exact absurd ‹_› (hhead _)
    · rename_i heq
      cases heq
      rw [hstep]
      rfl

lemma comment_closed {content : Text} (h : isEnclosed content = true) (rest : Text) :
    comment (content ++ '-' :: '-' :: '>' :: rest) = (content, rest) := by
  simp only [isEnclosed, Bool.and_eq_true, decide_eq_true_eq] at h
  obtain ⟨⟨⟨hclean, hopening⟩, hlast⟩, hdouble⟩ := h
  rw [comment.eq_def]
  split
  · rename_i heq
    cases content with
    | nil => cases heq
    | cons c cs =>
      cases heq
      exact absurd hopening (by simp)
  · rename_i heq
    cases content with
    | nil => cases heq
    | cons c cs =>
      cases cs with
      | nil => cases heq
      | cons d ds =>
        cases heq
        exact absurd hopening (by simp)
  · rw [commentEnd?_closed hlast hdouble]
    simp only [List.take_left, clean_eq hclean, List.drop_length_add_append]
    rfl

lemma construct_comment {content : Text} (h : isEnclosed content = true) (start : Nat) (rest : Text) :
    construct start ('!' :: '-' :: '-' :: (content ++ '-' :: '-' :: '>' :: rest)) =
      (some (.comment content start), rest) := by
  have hread : declaration start ('-' :: '-' :: (content ++ '-' :: '-' :: '>' :: rest)) =
      (.comment content start, rest) := by
    rw [declaration, if_pos (by simp)]
    simp only [List.drop_succ_cons, List.drop_zero, comment_closed h]
  rw [construct.eq_def]
  simp only [hread]

lemma doctype_closed {name : Text} (h : isName ['>'] name = true) (rest : Text) :
    doctype (' ' :: (name ++ '>' :: rest)) = (name, rest) := by
  obtain ⟨hne, hall⟩ := isName_iff.mp h
  have hinner : upToBracket (' ' :: name ++ '>' :: rest) = (' ' :: name, rest) :=
    upToBracket_closed (by grind) rest
  have hdrop : (' ' :: name).dropWhile isSpace = name := by
    rw [List.dropWhile_cons_of_pos rfl]
    obtain ⟨c, cs, rfl⟩ := List.exists_cons_of_ne_nil hne
    rw [List.dropWhile_cons_of_neg (by simp [hall c List.mem_cons_self])]
  have htake : name.takeWhile (fun c => !isSpace c) = name := by
    rw [List.takeWhile_eq_self_iff]
    intro c hc
    rw [(hall c hc).1]
    rfl
  rw [List.cons_append] at hinner
  simp only [doctype, hinner, hdrop, htake, lower_clean h]

lemma construct_doctype {name : Text} (h : isName ['>'] name = true) (start : Nat) (rest : Text) :
    construct start ("!DOCTYPE ".toList ++ (name ++ '>' :: rest)) = (some (.doctype name), rest) := by
  have hread : declaration start ("DOCTYPE ".toList ++ (name ++ '>' :: rest)) =
      (.doctype name, rest) := by
    have hdrop : ("DOCTYPE ".toList ++ (name ++ '>' :: rest)).drop 7 = ' ' :: (name ++ '>' :: rest) :=
      rfl
    rw [declaration, if_neg (by simp), if_pos (by rfl)]
    simp only [hdrop, doctype_closed h]
  change construct start ('!' :: ("DOCTYPE ".toList ++ (name ++ '>' :: rest))) = _
  rw [construct.eq_def]
  simp only [hread]

def contentAfter (pending : Option Nat) : Token → Content
  | .startTag tag start => .after tag (pending.getD start)
  | _ => .data

lemma tokensFrom_construct {cs left : Text} {token : Token} {offset : Nat}
    (ho : opensMarkup cs = true) (h : construct offset cs = (some token, left)) (pending : Option Nat) :
    ∃ next, tokensFrom .data offset pending ('<' :: cs) =
      token :: tokensFrom (contentAfter pending token) next none left := by
  refine ⟨offset + (Text.byteSize ('<' :: cs) - Text.byteSize left), ?_⟩
  rw [tokensFrom]
  simp only [ho, and_self, dif_pos, h]
  cases token <;> rfl

def Bounded (cs : Text) : Prop :=
  cs = [] ∨ ∃ rest, cs = '<' :: rest ∧ opensMarkup rest = true

lemma dataWidth_bounded {front rest : Text} (h : '<' ∉ front) (hr : Bounded rest) :
    dataWidth (front ++ rest) = front.length := by
  induction front with
  | nil =>
    rcases hr with rfl | ⟨rest, rfl, ho⟩
    · rfl
    · rw [List.nil_append, dataWidth, if_pos ⟨rfl, ho⟩, List.length_nil]
  | cons c front ih =>
    obtain ⟨hc, hfront⟩ := not_or.mp (mt List.mem_cons.mpr h)
    rw [List.cons_append, dataWidth, if_neg fun hopen => hc hopen.1.symm, ih hfront,
      List.length_cons]

lemma escapeText_clean {content : Text} (h : isClean content = true) :
    isClean (escapeText content) = true := by
  rw [escapeText_eq]
  exact isClean_escaped (List.subset_cons_self ..) h

lemma escapeText_ne_nil {content : Text} (h : content ≠ []) : escapeText content ≠ [] := by
  intro hnil
  have hdecode := decode_escapeText false content
  rw [hnil, decode] at hdecode
  exact h hdecode.symm

lemma tokensFrom_text {content rest : Text} (hne : content ≠ []) (hc : isClean content = true)
    (hr : Bounded rest) (offset : Nat) (pending : Option Nat) :
    ∃ next pending', tokensFrom .data offset pending (escapeText content ++ rest) =
      .text content offset :: tokensFrom .data next pending' rest := by
  have hwidth := dataWidth_bounded (escapeText_no_bracket content) hr
  have hbreaks := unifyLineBreaks_eq (isClean_iff.mp (escapeText_clean hc)).1
  have hdecode := decode_escapeText false content
  have hfirst := escapeText_no_bracket content
  obtain ⟨c, cs, hcs⟩ := List.exists_cons_of_ne_nil (escapeText_ne_nil hne)
  rw [hcs] at hwidth hbreaks hdecode hfirst ⊢
  refine ⟨offset + Text.byteSize (c :: cs), some (pending.getD offset), ?_⟩
  rw [List.cons_append, tokensFrom, dif_neg (by grind), ← List.cons_append]
  simp only [hwidth, List.take_left, List.drop_left, hbreaks, hdecode]

lemma startsWithEndTag_closing {name : Text} (h : isTagName name = true) (rest : Text) :
    startsWithEndTag name ('<' :: '/' :: (name ++ '>' :: rest)) = true := by
  have hlower := Text.lower_eq_self fun c hc =>
    ((isName_iff.mp (Bool.and_eq_true_iff.mp h).1).2 c hc).2.2.2
  rw [startsWithEndTag, startsWithName, List.take_left, List.drop_left, hlower]
  simp

lemma startsWithEndTag_of_head {c : Char} (h : c ≠ '<') (name cs : Text) :
    startsWithEndTag name (c :: cs) = false := by
  rw [startsWithEndTag.eq_def]
  split <;> simp_all

lemma escapableWidth_closed {name front rest : Text} (h : '<' ∉ front)
    (hr : startsWithEndTag name rest = true) : escapableWidth name (front ++ rest) = front.length := by
  induction front with
  | nil =>
    cases rest with
    | nil => rfl
    | cons c rest => rw [List.nil_append, escapableWidth, if_pos hr, List.length_nil]
  | cons c front ih =>
    obtain ⟨hc, hfront⟩ := not_or.mp (mt List.mem_cons.mpr h)
    have hno := startsWithEndTag_of_head (Ne.symm hc) name (front ++ rest)
    rw [List.cons_append, escapableWidth, if_neg (ne_true_of_eq_false hno), ih hfront,
      List.length_cons]

lemma scriptWidth_closed {name front rest : Text} (h : '<' ∉ front)
    (hr : startsWithEndTag name rest = true) :
    scriptWidth name .plain (front ++ rest) = front.length := by
  induction front with
  | nil =>
    cases rest with
    | nil => cases hr
    | cons c rest => rw [List.nil_append, scriptWidth, if_pos hr, List.length_nil]
  | cons c front ih =>
    obtain ⟨hc, hfront⟩ := not_or.mp (mt List.mem_cons.mpr h)
    have hno := startsWithEndTag_of_head (Ne.symm hc) name (front ++ rest)
    rw [List.cons_append, scriptWidth, if_neg (ne_true_of_eq_false hno),
      if_neg fun hopen => hc hopen.1.symm, ih hfront, List.length_cons, Nat.add_comm]

def textToken (content : Text) (start : Nat) : List Token :=
  if content.isEmpty then [] else [.text content start]

lemma closing_cons {name front rest : Text} (hr : startsWithEndTag name rest = true) :
    ∃ c cs, front ++ rest = c :: cs := by
  apply List.exists_cons_of_ne_nil
  intro hnil
  rw [(List.append_eq_nil_iff.mp hnil).2] at hr
  cases hr

lemma tokensFrom_escapable {name content rest : Text} (hc : isClean content = true)
    (hr : startsWithEndTag name rest = true) (offset : Nat) :
    ∃ next, tokensFrom (.escapable name) offset none (escapeText content ++ rest) =
      textToken content offset ++ tokensFrom .data next none rest := by
  refine ⟨offset + Text.byteSize (escapeText content), ?_⟩
  obtain ⟨c, cs, hcs⟩ := closing_cons hr
  rw [hcs, tokensFrom, ← hcs]
  simp only [escapableWidth_closed (escapeText_no_bracket content) hr, List.take_left, List.drop_left,
    clean_eq (escapeText_clean hc), decode_escapeText]
  cases content with
  | nil => rfl
  | cons d ds =>
    rw [if_neg (mt List.isEmpty_iff.mp (escapeText_ne_nil (List.cons_ne_nil d ds)))]
    rfl

lemma tokensFrom_script {name content rest : Text} (hb : '<' ∉ content) (hc : isClean content = true)
    (hr : startsWithEndTag name rest = true) (start offset : Nat) :
    ∃ next, tokensFrom (.script name start) offset none (content ++ rest) =
      textToken content start ++ tokensFrom .data next none rest := by
  refine ⟨offset + Text.byteSize content, ?_⟩
  obtain ⟨c, cs, hcs⟩ := closing_cons hr
  rw [hcs, tokensFrom, ← hcs]
  simp only [scriptWidth_closed hb hr, List.take_left, List.drop_left, clean_eq hc]
  cases content <;> rfl

end Lexer

end Stencil.Markup

import Stencil.Proofs.Reading
import Stencil.Proofs.Lines
import Mathlib.Tactic.Common

/-! The source under its tokens. -/

namespace Stencil.Markup

structure Segment where
  raw : Text
  token : Option Token
  deriving DecidableEq, Repr

namespace Lexer

lemma tagRest?_suffix {cs left : Text} {attributes : List (Text × Text)} {selfClosing : Bool}
    (h : tagRest? cs = some (attributes, selfClosing, left)) : left <:+ cs := by
  fun_induction tagRest? cs generalizing attributes selfClosing with
  | case1 => cases h
  | case2 rest =>
    cases h
    exact List.suffix_cons _ _
  | case3 rest =>
    cases h
    exact (List.suffix_cons _ _).trans (List.suffix_cons _ _)
  | case4 c rest _ _ hc ih => exact (ih h).trans (List.suffix_cons _ _)
  | case5 => cases h
  | case6 => cases h
  | case7 c rest _ _ hc a width ha others closing left' hr ih =>
    cases h
    exact ((ih hr).trans (List.drop_suffix _ _)).trans (List.suffix_cons _ _)

lemma tag?_suffix {cs left : Text} {tag : Tag} (h : tag? cs = some (tag, left)) : left <:+ cs := by
  simp only [tag?] at h
  split at h
  · cases h
  · rename_i attributes closing left' hr
    cases h
    exact (tagRest?_suffix hr).trans (List.drop_suffix _ _)

lemma upToBracket_suffix (cs : Text) : (upToBracket cs).2 <:+ cs :=
  List.drop_suffix _ _

lemma comment_suffix (cs : Text) : (comment cs).2 <:+ cs := by
  unfold comment
  split
  · exact List.suffix_cons _ _
  · exact (List.suffix_cons _ _).trans (List.suffix_cons _ _)
  · split
    · exact List.drop_suffix _ _
    · exact List.nil_suffix

lemma declaration_suffix (start : Nat) (cs : Text) : (declaration start cs).2 <:+ cs := by
  unfold declaration
  split
  · exact (comment_suffix _).trans (List.drop_suffix _ _)
  · split
    · exact (upToBracket_suffix _).trans (List.drop_suffix _ _)
    · exact upToBracket_suffix cs

lemma construct_suffix (start : Nat) (cs : Text) : (construct start cs).2 <:+ cs := by
  unfold construct
  split
  · exact (declaration_suffix start _).trans (List.suffix_cons _ _)
  · exact (List.suffix_cons _ _).trans (List.suffix_cons _ _)
  · rename_i rest _
    split
    · split
      · rename_i ht
        exact (tag?_suffix ht).trans (List.suffix_cons _ _)
      · exact List.nil_suffix
    · exact (upToBracket_suffix rest).trans (List.suffix_cons _ _)
  · exact upToBracket_suffix _
  · split
    · rename_i ht
      exact tag?_suffix ht
    · exact List.nil_suffix

structure Cut where
  segment : Segment
  content : Content
  pending : Option Nat

def textSegment (raw content : Text) (start : Nat) : Segment :=
  ⟨raw, if raw.isEmpty then none else some (.text content start)⟩

def cut (content : Content) (offset : Nat) (pending : Option Nat) (cs : Text) : Cut :=
  match content with
  | .data =>
    if cs.head? = some '<' ∧ opensMarkup cs.tail = true then
      let read := construct offset cs.tail
      ⟨⟨cs.take (cs.length - read.2.length), read.1⟩, read.1.elim .data (contentAfter pending),
        if read.1.isSome then none else pending⟩
    else
      let raw := cs.take (dataWidth cs)
      ⟨⟨raw, some (.text (CharacterReference.decode false (unifyLineBreaks raw)) offset)⟩, .data,
        some (pending.getD offset)⟩
  | .escapable name =>
    let raw := cs.take (escapableWidth name cs)
    ⟨textSegment raw (CharacterReference.decode false (clean raw)) offset, .data, none⟩
  | .script name start =>
    let raw := cs.take (scriptWidth name .plain cs)
    ⟨textSegment raw (clean raw) start, .data, none⟩

section

variable {c : Char} {cs : Text}

lemma cut_data (h : ¬(c = '<' ∧ opensMarkup cs = true)) (offset : Nat) (pending : Option Nat) :
    cut .data offset pending (c :: cs) =
      ⟨⟨(c :: cs).take (dataWidth (c :: cs)), some (.text (CharacterReference.decode false
          (unifyLineBreaks ((c :: cs).take (dataWidth (c :: cs))))) offset)⟩,
        .data, some (pending.getD offset)⟩ := by
  rw [cut, if_neg (by simpa using h)]

lemma cut_construct (ho : opensMarkup cs = true) (offset : Nat) (pending : Option Nat) :
    ∃ raw, '<' :: cs = raw ++ (construct offset cs).2 ∧ raw ≠ [] ∧
      cut .data offset pending ('<' :: cs) =
        ⟨⟨raw, (construct offset cs).1⟩, (construct offset cs).1.elim .data (contentAfter pending),
          if (construct offset cs).1.isSome then none else pending⟩ := by
  obtain ⟨front, hfront⟩ := construct_suffix offset cs
  have hsplit : '<' :: cs = '<' :: front ++ (construct offset cs).2 := by
    rw [List.cons_append, hfront]
  refine ⟨'<' :: front, hsplit, List.cons_ne_nil _ _, ?_⟩
  have hlength := congrArg List.length hsplit
  rw [List.length_append] at hlength
  have htake : ('<' :: cs).take (('<' :: cs).length - (construct offset cs).2.length) =
      '<' :: front := by
    rw [hlength, Nat.add_sub_cancel, hsplit, List.take_left]
  rw [cut, if_pos ⟨rfl, ho⟩]
  dsimp only [List.tail_cons]
  rw [htake]

/-- The measure by which the source gets shorter: a segment may be empty only where it ends a
content other than data. -/
def weight (content : Content) (cs : Text) : Nat :=
  2 * cs.length + if content = .data then 0 else 1

lemma cut_weight (content : Content) (offset : Nat) (pending : Option Nat) :
    weight (cut content offset pending (c :: cs)).content
        ((c :: cs).drop (cut content offset pending (c :: cs)).segment.raw.length) <
      weight content (c :: cs) := by
  have hcase : ∀ content' raw, raw ≠ [] → raw <+: c :: cs →
      weight content' ((c :: cs).drop raw.length) < weight .data (c :: cs) := by
    intro content' raw hne hraw
    have hpos := List.length_pos_iff.mpr hne
    have hle := hraw.length_le
    simp only [weight, List.length_drop, if_true]
    split <;> omega
  cases content with
  | data =>
    by_cases ho : c = '<' ∧ opensMarkup cs = true
    · obtain ⟨rfl, ho⟩ := ho
      obtain ⟨raw, hraw, hne, hcut⟩ := cut_construct ho offset pending
      rw [hcut]
      exact hcase _ raw hne ⟨_, hraw.symm⟩
    · have hne : (c :: cs).take (dataWidth (c :: cs)) ≠ [] := by
        rw [ne_eq, List.take_eq_nil_iff, not_or]
        exact ⟨Nat.pos_iff_ne_zero.mp (dataWidth_pos ho), List.cons_ne_nil _ _⟩
      rw [cut_data ho]
      exact hcase _ _ hne (List.take_prefix _ _)
  | escapable | script =>
    simp only [cut, weight, textSegment, List.length_drop, if_true, reduceCtorEq, if_false]
    omega

end

def segmentsFrom (content : Content) (offset : Nat) (pending : Option Nat) (cs : Text) :
    List Segment :=
  match cs with
  | [] => []
  | c :: rest =>
    let first := cut content offset pending (c :: rest)
    first.segment ::
      segmentsFrom first.content (offset + Text.byteSize first.segment.raw) first.pending
        ((c :: rest).drop first.segment.raw.length)
termination_by weight content cs
decreasing_by exact cut_weight content offset pending

lemma drop_length_take (n : Nat) (cs : Text) : cs.drop (cs.take n).length = cs.drop n := by
  rw [List.length_take]
  rcases Nat.le_total n cs.length with h | h
  · rw [Nat.min_eq_left h]
  · rw [Nat.min_eq_right h, List.drop_length, List.drop_eq_nil_of_le h]

lemma cut_tokens (content : Content) (offset : Nat) (pending : Option Nat) (c : Char) (cs : Text) :
    (cut content offset pending (c :: cs)).segment.raw <+: c :: cs ∧
      tokensFrom content offset pending (c :: cs) =
        (cut content offset pending (c :: cs)).segment.token.toList ++
          tokensFrom (cut content offset pending (c :: cs)).content
            (offset + Text.byteSize (cut content offset pending (c :: cs)).segment.raw)
            (cut content offset pending (c :: cs)).pending
            ((c :: cs).drop (cut content offset pending (c :: cs)).segment.raw.length) := by
  cases content with
  | data =>
    by_cases ho : c = '<' ∧ opensMarkup cs = true
    · obtain ⟨rfl, ho⟩ := ho
      obtain ⟨raw, hraw, hne, hcut⟩ := cut_construct ho offset pending
      have hsize : Text.byteSize ('<' :: cs) - Text.byteSize (construct offset cs).2 =
          Text.byteSize raw := by
        rw [hraw, Text.byteSize_append, Nat.add_sub_cancel]
      have hdrop : ('<' :: cs).drop raw.length = (construct offset cs).2 := by
        rw [hraw, List.drop_left]
      refine ⟨by rw [hcut]; exact ⟨_, hraw.symm⟩, ?_⟩
      rw [hcut, tokensFrom, dif_pos ⟨rfl, ho⟩]
      simp only [hsize, hdrop]
      cases hread : (construct offset cs).1 with
      | none => rfl
      | some token => cases token <;> rfl
    · rw [cut_data ho, tokensFrom, dif_neg ho]
      refine ⟨List.take_prefix _ _, ?_⟩
      dsimp only
      rw [drop_length_take]
      rfl
  | escapable name =>
    rw [tokensFrom]
    refine ⟨List.take_prefix _ _, ?_⟩
    simp only [cut, textSegment]
    split <;> rfl
  | script name start =>
    rw [tokensFrom]
    refine ⟨List.take_prefix _ _, ?_⟩
    simp only [cut, textSegment]
    split <;> rfl

lemma segmentsFrom_spec (content : Content) (offset : Nat) (pending : Option Nat) (cs : Text) :
    (segmentsFrom content offset pending cs).flatMap Segment.raw = cs ∧
      (segmentsFrom content offset pending cs).filterMap Segment.token =
        tokensFrom content offset pending cs := by
  fun_induction segmentsFrom content offset pending cs with
  | case1 => exact ⟨rfl, by rw [tokensFrom]; rfl⟩
  | case2 content offset pending c rest first ih =>
    obtain ⟨hraw, htokens⟩ := cut_tokens content offset pending c rest
    constructor
    · rw [List.flatMap_cons, ih.1]
      exact List.prefix_iff_eq_append.mp hraw
    · rw [htokens, ← ih.2, List.filterMap_cons]
      cases first.segment.token <;> rfl

/-- Whether two texts are the same up to null characters, which are replaced outside of data. -/
def Alike (cs ds : Text) : Prop :=
  replaceNull cs = replaceNull ds

lemma Alike.append {as bs cs ds : Text} (h : Alike as bs) (g : Alike cs ds) :
    Alike (as ++ cs) (bs ++ ds) := by
  unfold Alike replaceNull at *
  rw [List.map_append, List.map_append, h, g]

lemma Alike.take {cs ds : Text} (h : Alike cs ds) (n : Nat) : Alike (cs.take n) (ds.take n) := by
  unfold Alike replaceNull at *
  rw [List.map_take, List.map_take, h]

lemma lineBreaks_replaceNull (cs : Text) : Text.lineBreaks (replaceNull cs) = Text.lineBreaks cs := by
  induction cs with
  | nil => rfl
  | cons c cs ih =>
    have hc : (if c = '\x00' then CharacterReference.replacement else c) = '\n' ↔ c = '\n' := by
      by_cases hnull : c = '\x00'
      · rw [if_pos hnull, hnull]
        decide
      · rw [if_neg hnull]
    rw [replaceNull, List.map_cons, ← replaceNull, Text.lineBreaks_cons, Text.lineBreaks_cons, ih]
    simp only [hc]

lemma Alike.lineBreaks {cs ds : Text} (h : Alike cs ds) : Text.lineBreaks cs = Text.lineBreaks ds := by
  rw [← lineBreaks_replaceNull, h, lineBreaks_replaceNull]

lemma Alike.getElem? {cs ds : Text} (h : Alike cs ds) {i : Nat} {c : Char} (hc : cs[i]? = some c)
    (hnull : c ≠ '\x00') (hreplaced : c ≠ CharacterReference.replacement) : ds[i]? = some c := by
  have hi := congrArg (·[i]?) h
  simp only [replaceNull, List.getElem?_map, hc, Option.map_some, if_neg hnull] at hi
  obtain ⟨d, hd, heq⟩ := Option.map_eq_some_iff.mp hi.symm
  split at heq
  · exact absurd heq.symm hreplaced
  · rw [hd, heq]

lemma decode_eq {cs : Text} (h : '&' ∉ cs) (inAttribute : Bool) :
    CharacterReference.decode inAttribute cs = cs := by
  induction cs with
  | nil => rw [CharacterReference.decode]
  | cons c cs ih =>
    rw [List.mem_cons, not_or] at h
    rw [CharacterReference.decode, if_neg (Ne.symm h.1), ih h.2]

lemma replaceNull_replaceNull (cs : Text) : replaceNull (replaceNull cs) = replaceNull cs := by
  rw [replaceNull, replaceNull, List.map_map]
  apply List.map_congr_left
  intro c _
  by_cases hc : c = '\x00'
  · rw [Function.comp_apply, if_pos hc]
    rfl
  · rw [Function.comp_apply, if_neg hc, if_neg hc]

lemma alike_clean {cs : Text} (h : '\r' ∉ cs) : Alike (clean cs) cs := by
  rw [Alike, clean, unifyLineBreaks_eq h, replaceNull_replaceNull]

lemma not_mem_clean {cs : Text} (h : '&' ∉ cs) (hcr : '\r' ∉ cs) : '&' ∉ clean cs := by
  rw [clean, unifyLineBreaks_eq hcr, replaceNull, List.mem_map]
  rintro ⟨c, hc, heq⟩
  split at heq
  · cases heq
  · exact h (heq ▸ hc)

/-- The source has no references and no carriage returns. -/
structure Literal (cs : Text) : Prop where
  no_reference : '&' ∉ cs
  no_return : '\r' ∉ cs

lemma Literal.of_subset {cs ds : Text} (h : Literal ds) (hs : cs ⊆ ds) : Literal cs :=
  ⟨fun hc => h.no_reference (hs hc), fun hc => h.no_return (hs hc)⟩

lemma textSegment_alike {raw content text : Text} {start start' : Nat} (h : Alike content raw)
    (ht : (textSegment raw content start).token = some (.text text start')) : Alike text raw := by
  unfold textSegment at ht
  dsimp only at ht
  split at ht
  · cases ht
  · cases ht
    exact h

lemma declaration_ne_text (offset : Nat) (cs text : Text) (start : Nat) :
    (declaration offset cs).1 ≠ .text text start := by
  intro h
  unfold declaration at h
  split at h
  · cases h
  · split at h <;> cases h

lemma construct_ne_text (offset : Nat) (cs text : Text) (start : Nat) :
    (construct offset cs).1 ≠ some (.text text start) := by
  intro h
  unfold construct at h
  split at h
  · exact declaration_ne_text _ _ _ _ (Option.some.inj h)
  · cases h
  · split at h
    · split at h <;> cases h
    · cases h
  · cases h
  · split at h <;> cases h

lemma cut_alike {content : Content} {offset : Nat} {pending : Option Nat} {c : Char} {cs text : Text}
    {start : Nat} (hl : Literal (c :: cs))
    (h : (cut content offset pending (c :: cs)).segment.token = some (.text text start)) :
    Alike text (cut content offset pending (c :: cs)).segment.raw := by
  have hraw : Literal (cut content offset pending (c :: cs)).segment.raw :=
    hl.of_subset (cut_tokens content offset pending c cs).1.subset
  cases content with
  | data =>
    by_cases ho : c = '<' ∧ opensMarkup cs = true
    · obtain ⟨rfl, ho⟩ := ho
      obtain ⟨raw, -, -, hcut⟩ := cut_construct ho offset pending
      rw [hcut] at h
      exact (construct_ne_text _ _ _ _ h).elim
    · rw [cut_data ho] at h hraw ⊢
      cases h
      rw [unifyLineBreaks_eq hraw.no_return, decode_eq hraw.no_reference]
      rfl
  | escapable name =>
    have hdecode := decode_eq (not_mem_clean hraw.no_reference hraw.no_return) false
    have halike := alike_clean hraw.no_return
    rw [← hdecode] at halike
    exact textSegment_alike halike h
  | script name start => exact textSegment_alike (alike_clean hraw.no_return) h

lemma segmentsFrom_alike {content : Content} {offset : Nat} {pending : Option Nat} {cs : Text}
    (hl : Literal cs) : ∀ s ∈ segmentsFrom content offset pending cs, ∀ text start,
      s.token = some (.text text start) → Alike text s.raw := by
  fun_induction segmentsFrom content offset pending cs with
  | case1 => simp
  | case2 content offset pending c rest first ih =>
    have hrest := ih (hl.of_subset (List.drop_subset _ _))
    exact List.forall_mem_cons.mpr ⟨fun text start htoken => cut_alike hl htoken, hrest⟩

lemma textSegment_start {raw content text : Text} {start start' : Nat}
    (h : (textSegment raw content start).token = some (.text text start')) : start' = start := by
  unfold textSegment at h
  dsimp only at h
  split at h
  · cases h
  · cases h
    rfl

lemma cut_start {content : Content} {offset : Nat} {pending : Option Nat} {c : Char} {cs text : Text}
    {start : Nat} (hc : ∀ name from', content ≠ .script name from')
    (h : (cut content offset pending (c :: cs)).segment.token = some (.text text start)) :
    start = offset := by
  cases content with
  | data =>
    by_cases ho : c = '<' ∧ opensMarkup cs = true
    · obtain ⟨rfl, ho⟩ := ho
      obtain ⟨raw, -, -, hcut⟩ := cut_construct ho offset pending
      rw [hcut] at h
      exact (construct_ne_text _ _ _ _ h).elim
    · rw [cut_data ho] at h
      cases h
      rfl
  | escapable name => exact textSegment_start h
  | script name from' => exact (hc name from' rfl).elim

lemma after_script {tag : Tag} {start from' : Nat} {name : Text}
    (h : Content.after tag start = .script name from') :
    (tag.selfClosing || isVoid tag.name) = false ∧ tag.name = name ∧ isRawText name = true := by
  unfold Content.after at h
  split at h
  · cases h
  · rename_i hopen
    split at h
    · rename_i hraw
      cases h
      exact ⟨by simpa using hopen, rfl, hraw⟩
    · split at h <;> cases h

lemma cut_script {content : Content} {offset from' : Nat} {pending : Option Nat} {c : Char}
    {cs name : Text} (h : (cut content offset pending (c :: cs)).content = .script name from') :
    ∃ tag start, (cut content offset pending (c :: cs)).segment.token = some (.startTag tag start) ∧
      (tag.selfClosing || isVoid tag.name) = false ∧ tag.name = name ∧ isRawText name = true := by
  cases content with
  | data =>
    by_cases ho : c = '<' ∧ opensMarkup cs = true
    · obtain ⟨rfl, ho⟩ := ho
      obtain ⟨raw, -, -, hcut⟩ := cut_construct ho offset pending
      rw [hcut] at h ⊢
      cases htoken : (construct offset cs).1 with
      | none =>
        rw [htoken] at h
        cases h
      | some token =>
        rw [htoken] at h
        cases token with
        | startTag tag start => exact ⟨tag, start, rfl, after_script h⟩
        | endTag | text | comment | doctype => cases h
    · rw [cut_data ho] at h
      cases h
  | escapable | script => cases h

end Lexer

end Stencil.Markup

import Stencil.Proofs.ErrorLines
import Stencil.Proofs.Pairs
import Stencil.Proofs.References
import Mathlib.Tactic.Common

/-! A loop over a text keeps two places in step: what is left, and how much of the text is gone. -/

namespace Stencil.Template

open Markup Outcome

namespace Part

def source : Part → Text
  | .literal content => content
  | .tag t => t.source

def isTag : Part → Bool
  | .literal _ => false
  | .tag _ => true

end Part

def sources (parts : List Part) : Text :=
  parts.flatMap Part.source

def pieces (content : Text) : List Part :=
  (parts content).filter fun part => !part.source.isEmpty

namespace Tag

lemma Cut.byteSize_le {source : Text} (h : Cut source) : 4 ≤ Text.byteSize source := by
  have hopen : '{'.utf8Size = 1 := rfl
  have hclose : '}'.utf8Size = 1 := rfl
  cases h <;> simp only [Text.byteSize_append, Text.byteSize_cons, Text.byteSize_nil] <;> omega

lemma next?_byteSize {text : Text} {tag : Tag} (h : next? text = .ok (some tag)) :
    4 ≤ Text.byteSize tag.source := by
  obtain ⟨start, length, hspan, -, hsource, -⟩ := next?_some h
  rw [hsource]
  exact (span?_cut hspan).byteSize_le

lemma span?_before {position start length : Nat} {text : Text}
    (h : span? position text = .ok (some (start, length))) :
    ¬ ['{', '{'] <:+: text.take start ∧ ¬ ['}', '}'] <:+: text.take start := by
  induction text generalizing position start with
  | nil => cases h
  | cons c cs ih =>
    rw [span?] at h
    split at h
    · cases h
    · rename_i hcloses
      split at h
      · obtain ⟨w, -, hw⟩ := map_ok.mp h
        cases hw
        simp
      · rename_i hopens
        obtain ⟨found, hs, hfound⟩ := map_ok.mp h
        cases found with
        | none => cases hfound
        | some span =>
          cases hfound
          obtain ⟨ho, hc⟩ := ih hs
          have htake : (c :: cs.take span.1) <+: c :: cs :=
            List.cons_prefix_cons.mpr ⟨rfl, List.take_prefix _ _⟩
          rw [List.take_succ_cons, List.infix_cons_iff, List.infix_cons_iff, not_or, not_or]
          exact ⟨⟨fun hpair => hopens (opensPair_iff.mpr (hpair.trans htake)), ho⟩,
            fun hpair => hcloses (closesPair_iff.mpr (hpair.trans htake)), hc⟩

lemma pairs_eq_nil {brace : Char} (hbrace : brace.toNat < 128) {text : Text} :
    pairs brace text = [] ↔ ¬ [brace, brace] <:+: text := by
  induction text with
  | nil => simp [pairs]
  | cons c cs ih =>
    rw [pairs_cons hbrace, List.append_eq_nil_iff, List.map_eq_nil_iff, ih, List.infix_cons_iff, not_or,
      ← List.isPrefixOf_iff_prefix]
    simp

end Tag

def Unpaired (text : Text) : Prop :=
  ¬ ['{', '{'] <:+: text ∧ ¬ ['}', '}'] <:+: text

lemma sources_parts (content : Text) : sources (parts content) = content := by
  induction content using scan_induction with
  | fault content fault hn =>
    rw [parts_error hn]
    exact List.append_nil content
  | plain content hn =>
    rw [parts_plain hn]
    exact List.append_nil content
  | tag content tag hn ih =>
    have hwhole := Tag.next?_whole hn
    rw [List.append_assoc] at hwhole
    rw [parts_tag hn]
    change tag.before ++ (tag.source ++ sources (parts tag.after)) = content
    rw [ih, ← hwhole]

lemma sources_filter (ps : List Part) :
    sources (ps.filter fun part => !part.source.isEmpty) = sources ps := by
  induction ps with
  | nil => rfl
  | cons part ps ih =>
    rw [List.filter_cons]
    change _ = part.source ++ sources ps
    split
    · change part.source ++ sources _ = _
      rw [ih]
    · rename_i hempty
      have hnil : part.source = [] := by simpa using hempty
      rw [ih, hnil, List.nil_append]

lemma sources_pieces (content : Text) : sources (pieces content) = content := by
  rw [pieces, sources_filter, sources_parts]

def literalPieces (content : Text) : List Part :=
  if content.isEmpty then [] else [.literal content]

lemma pieces_plain {content : Text} (h : Tag.next? content = .ok none) :
    pieces content = literalPieces content := by
  cases content <;> simp [pieces, parts_plain h, literalPieces, Part.source]

lemma pieces_tag {content : Text} {tag : Tag} (h : Tag.next? content = .ok (some tag)) :
    pieces content = literalPieces tag.before ++ .tag tag :: pieces tag.after := by
  have hsource : tag.source.isEmpty = false := by
    have hsize := Tag.next?_byteSize h
    cases hs : tag.source with
    | nil => simp [hs] at hsize
    | cons c cs => rfl
  have htag : (Part.tag tag).source.isEmpty = false := hsource
  unfold pieces
  rw [parts_tag h, List.filter_cons, List.filter_cons_of_pos (by simp [htag])]
  cases hb : tag.before <;> simp [literalPieces, Part.source]

inductive LaidOut (o : Options) :
    Nat → Table Fragment → List Part → List Node → Table Fragment → Prop
  | nil {line : Nat} {t : Table Fragment} : LaidOut o line t [] [] t
  | literal {line : Nat} {t u : Table Fragment} {content : Text} {ps : List Part} {nodes : List Node} :
      content ≠ [] → Unpaired content → ps.head?.all Part.isTag = true →
      LaidOut o (line + Text.lineBreaks content) t ps nodes u →
      LaidOut o line t (.literal content :: ps) (.text content line :: nodes) u
  | tag {line id : Nat} {t t' u : Table Fragment} {tag : Tag} {e : Expression} {f : Fragment}
      {ps : List Part} {nodes : List Node} :
      Expression.accept .tag (o.code tag.expression) = .ok e →
      Resolve.tagFragment? tag.modifier e = some f → Registers o f t id t' →
      LaidOut o (line + Text.lineBreaks tag.source) t' ps nodes u →
      LaidOut o line t (.tag tag :: ps) (.placeholder id .tag [] :: nodes) u

lemma Registers.size_eq {o : Options} {f : Fragment} {t u : Table Fragment} {id : Nat}
    (h : Registers o f t id u) : u.size = t.size + 1 := by
  have hr := h.registered
  simp only [Table.register, Prod.mk.injEq] at hr
  obtain ⟨-, rfl⟩ := hr
  simp [Table.size]

namespace LaidOut

variable {o : Options} {line : Nat} {t u : Table Fragment} {ps : List Part} {nodes : List Node}

lemma lead {content : Text} (hpairs : Unpaired content) (hhead : ps.head?.all Part.isTag = true)
    (h : LaidOut o (line + Text.lineBreaks content) t ps nodes u) :
    LaidOut o line t (literalPieces content ++ ps) (textNodes content line ++ nodes) u := by
  cases content with
  | nil => exact h
  | cons c cs => exact .literal (List.cons_ne_nil c cs) hpairs hhead h

lemma length_eq (h : LaidOut o line t ps nodes u) : nodes.length = ps.length := by
  induction h with
  | nil => rfl
  | literal _ _ _ _ ih => simp [ih]
  | tag _ _ _ _ ih => simp [ih]

lemma grows (h : LaidOut o line t ps nodes u) : Grows o t u := by
  induction h with
  | nil => exact .refl _
  | literal _ _ _ _ ih => exact ih
  | tag _ _ hr _ ih => exact hr.grows.trans ih

lemma after {front : List Part} (h : LaidOut o line t (front ++ ps) nodes u) :
    ∃ t', t'.size = t.size + front.countP Part.isTag ∧
      LaidOut o (line + Text.lineBreaks (sources front)) t' ps (nodes.drop front.length) u := by
  induction front generalizing line t nodes with
  | nil => exact ⟨t, rfl, h⟩
  | cons part front ih =>
    cases h with
    | literal _ _ _ h =>
      obtain ⟨t', hsize, hafter⟩ := ih h
      refine ⟨t', by simpa [Part.isTag] using hsize, ?_⟩
      simpa [sources, Part.source, Nat.add_assoc] using hafter
    | tag _ _ hr h =>
      obtain ⟨t', hsize, hafter⟩ := ih h
      refine ⟨t', ?_, ?_⟩
      · rw [hsize, hr.size_eq, List.countP_cons_of_pos rfl]
        omega
      · simpa [sources, Part.source, Nat.add_assoc] using hafter

end LaidOut

lemma text_laidOut {o : Options} {line : Nat} {content : Text} {done out : List Node}
    {t u : Table Fragment} (h : Resolve.text o line content done t = .ok (out, u)) :
    ∃ nodes, out = nodes.reverse ++ done ∧ LaidOut o line t (pieces content) nodes u := by
  replace h := text_splits h
  induction h with
  | @plain line content done t hn =>
    obtain ⟨ho, hc⟩ := Tag.next?_none_iff.mp hn
    have hpairs : Unpaired content :=
      ⟨(Tag.pairs_eq_nil (by decide)).mp ho, (Tag.pairs_eq_nil (by decide)).mp hc⟩
    have hnil : LaidOut o (line + Text.lineBreaks content) t [] [] t := .nil
    refine ⟨textNodes content line, addText_eq content line done, ?_⟩
    simpa [pieces_plain hn] using hnil.lead hpairs rfl
  | @tag line id content tag done _ _ _ _ hn htag _ ih =>
    obtain ⟨e, f, haccept, hfragment, hregisters⟩ := tag_ok htag
    obtain ⟨nodes, rfl, hnodes⟩ := ih
    obtain ⟨start, length, hspan, hbefore, -, -⟩ := Tag.next?_some hn
    refine ⟨textNodes tag.before line ++ .placeholder id .tag [] :: nodes, ?_, ?_⟩
    · rw [addText_eq]
      simp
    · rw [pieces_tag hn]
      apply LaidOut.lead _ rfl (.tag haccept hfragment hregisters hnodes)
      rw [hbefore]
      exact Tag.span?_before hspan

/-- The nodes that a text is split into. `pieces` says what they are, and everything is said of a piece
by the pieces in front of it. -/
structure Division (o : Options) (line : Nat) (content : Text) (t u : Table Fragment)
    (nodes : List Node) : Prop where
  whole : sources (pieces content) = content
  length_eq : nodes.length = (pieces content).length
  literal : ∀ front text back, pieces content = front ++ .literal text :: back →
    nodes[front.length]? = some (.text text (line + Text.lineBreaks (sources front))) ∧
      text ≠ [] ∧ Unpaired text ∧ back.head?.all Part.isTag = true
  tag : ∀ front tag back, pieces content = front ++ .tag tag :: back →
    ∃ id e f, nodes[front.length]? = some (.placeholder id .tag []) ∧
      Expression.accept .tag (o.code tag.expression) = .ok e ∧
      Resolve.tagFragment? tag.modifier e = some f ∧
      (u.Fits → id = t.size + front.countP Part.isTag ∧ u.get? id = some f)
  table : t.Extends u ∧ u.size = t.size + (pieces content).countP Part.isTag

lemma LaidOut.division {o : Options} {line : Nat} {content : Text} {t u : Table Fragment}
    {nodes : List Node} (h : LaidOut o line t (pieces content) nodes u) :
    Division o line content t u nodes where
  whole := sources_pieces content
  length_eq := h.length_eq
  literal front text back hpieces := by
    rw [hpieces] at h
    obtain ⟨t', -, hafter⟩ := h.after
    rw [← List.head?_drop]
    generalize nodes.drop front.length = rest at hafter
    cases hafter with
    | literal hne hpairs hback _ => exact ⟨rfl, hne, hpairs, hback⟩
  tag front tag back hpieces := by
    rw [hpieces] at h
    obtain ⟨t', hsize, hafter⟩ := h.after
    rw [← List.head?_drop]
    generalize nodes.drop front.length = rest at hafter
    cases hafter with
    | @tag _ id _ t'' _ _ e f _ _ haccept hfragment hr hrest =>
      refine ⟨id, e, f, rfl, haccept, hfragment, fun hf => ?_⟩
      have hgrows := hrest.grows
      obtain ⟨hid, -⟩ := hr.number (hf.of_le hgrows.size_le)
      exact ⟨hid.trans hsize, hr.get? hgrows.toExtends hf⟩
  table := by
    refine ⟨h.grows.toExtends, ?_⟩
    rw [← List.append_nil (pieces content)] at h
    obtain ⟨t', hsize, hafter⟩ := h.after
    generalize nodes.drop (pieces content).length = rest at hafter
    cases hafter with
    | nil => exact hsize

/-- Splits a text in at most so many rounds, keeping the number of bytes that are gone. What is left is a
slice of the text, and lines are counted from its start. None if the rounds do not suffice, or if a slice
would start inside a character. -/
def textRounds (o : Options) (line : Nat) (content : Text) :
    (rounds consumed : Nat) → List Node → Resolve (Option (List Node))
  | 0, _, _ => pure none
  | rounds + 1, consumed, done =>
    match Text.dropBytes? consumed content with
    | none => pure none
    | some rest =>
      let lineAt := fun offset => line + Text.lineBreaksBefore offset content
      match Tag.next? rest with
      | .error fault => Resolve.fail (lineAt (consumed + fault.position)) (.tag fault)
      | .ok none => pure (some (Resolve.addText rest (lineAt consumed) done))
      | .ok (some tag) => do
        let start := consumed + Text.byteSize tag.before
        let id ← Resolve.tag o (lineAt start) tag
        textRounds o line content rounds (start + Text.byteSize tag.source)
          (.placeholder id .tag [] :: Resolve.addText tag.before (lineAt consumed) done)

lemma textRounds_eq (o : Options) (line : Nat) {front rest : Text} {rounds : Nat} (done : List Node)
    (h : Text.byteSize rest < 4 * rounds) :
    textRounds o line (front ++ rest) rounds (Text.byteSize front) done =
      some <$> Resolve.text o (line + Text.lineBreaks front) rest done := by
  induction rounds generalizing front rest done with
  | zero => omega
  | succ rounds ih =>
    have hrest : Text.dropBytes? (Text.byteSize front) (front ++ rest) = some rest := by
      simpa [Text.dropBytes?] using Tag.dropBytes?_append front rest 0
    rw [textRounds, hrest, text_step]
    dsimp only
    rw [Text.lineBreaksBefore_append]
    cases hn : Tag.next? rest with
    | error fault =>
      dsimp only
      rw [Text.lineBreaksBefore_add, Nat.add_assoc]
      rfl
    | ok found =>
      cases found with
      | none => rfl
      | some tag =>
        have hwhole := Tag.next?_whole hn
        have htag := Tag.next?_byteSize hn
        have hsize := congrArg Text.byteSize hwhole
        simp only [Text.byteSize_append] at hsize
        have hstart : Text.lineBreaksBefore (Text.byteSize front + Text.byteSize tag.before)
            (front ++ rest) = Text.lineBreaks front + Text.lineBreaks tag.before := by
          rw [Text.lineBreaksBefore_add, hwhole, List.append_assoc, Text.lineBreaksBefore_append]
        dsimp only
        rw [hstart, map_bind, ← Nat.add_assoc]
        apply congrArg
        funext id
        have hlater := @ih (front ++ tag.before ++ tag.source) tag.after
          (.placeholder id .tag [] ::
            Resolve.addText tag.before (line + Text.lineBreaks front) done) (by omega)
        simpa [← hwhole, Nat.add_assoc] using hlater

/-- The loop ends, and where it succeeds it loses nothing of the text: the nodes are its literals and
tags, in order, with their lines and numbers. -/
theorem text_division (o : Options) (line : Nat) (content : Text) (done : List Node)
    (t : Table Fragment) :
    textRounds o line content (Text.byteSize content / 4 + 1) 0 done =
        some <$> Resolve.text o line content done ∧
      ∀ out u, Resolve.text o line content done t = .ok (out, u) →
        ∃ nodes, out = nodes.reverse ++ done ∧ Division o line content t u nodes := by
  refine ⟨?_, fun out u h => ?_⟩
  · have hloop := @textRounds_eq o line [] content (Text.byteSize content / 4 + 1) done (by omega)
    simpa [Text.lineBreaks] using hloop
  · obtain ⟨nodes, hout, hnodes⟩ := text_laidOut h
    exact ⟨nodes, hout, hnodes.division⟩

def mixedText : Text :=
  "a\n\x7b\x7b $b \x7d\x7d\x7b\x7b\x7b $c \x7d\x7d\x7d \x7d".toList

theorem text_division_mixed :
    ∃ out u nodes, Resolve.text ⟨[], true⟩ 3 mixedText [] .empty = .ok (out, u) ∧
      out = nodes.reverse ∧ nodes.length = 4 ∧ Division ⟨[], true⟩ 3 mixedText .empty u nodes := by
  have hdone : (Resolve.text ⟨[], true⟩ 3 mixedText [] .empty).toOption.isSome = true ∧
      (pieces mixedText).length = 4 := by
    decide +kernel
  obtain ⟨result, hresult⟩ := Option.isSome_iff_exists.mp hdone.1
  have hok : Resolve.text ⟨[], true⟩ 3 mixedText [] .empty = .ok (result.1, result.2) := by
    cases hr : Resolve.text ⟨[], true⟩ 3 mixedText [] .empty with
    | error stop =>
      rw [hr] at hresult
      cases hresult
    | ok value =>
      rw [hr] at hresult
      cases hresult
      rfl
  obtain ⟨nodes, hnodes, hdivision⟩ := (text_division ⟨[], true⟩ 3 mixedText [] .empty).2 _ _ hok
  rw [List.append_nil] at hnodes
  exact ⟨_, _, nodes, hok, hnodes, hdivision.length_eq.trans hdone.2, hdivision⟩

end Stencil.Template

import Stencil.Proofs.Passages
import Mathlib.Tactic.Common

/-! Comments, from the source to the output. -/

namespace Stencil.Markup

mutual

def Node.remarks : Node → List Node
  | .comment content line => [.comment content line]
  | .instruction content line => [.instruction content line]
  | .element _ _ children _ => remarks children
  | .placeholder _ _ children => remarks children
  | .text _ _ | .doctype _ | .code _ => []

def remarks : List Node → List Node
  | [] => []
  | node :: rest => node.remarks ++ remarks rest

end

@[simp] lemma remarks_append (as bs : List Node) : remarks (as ++ bs) = remarks as ++ remarks bs := by
  induction as with
  | nil => rfl
  | cons node as ih => rw [List.cons_append, remarks, remarks, ih, List.append_assoc]

lemma remarks_single (node : Node) : remarks [node] = node.remarks :=
  List.append_nil _

def Token.remarks (lines : LineIndex) : Token → List Node
  | .comment content start =>
    [if content.head? = some '?' then .instruction content (lines.line start)
      else .comment content (lines.line start)]
  | .startTag _ _ | .endTag _ _ | .text _ _ | .doctype _ => []

lemma Makes.remarks_eq {lines : LineIndex} {token : Token} {node : Node} (h : Makes lines token node) :
    node.remarks = token.remarks lines ++ remarks node.children := by
  cases h with
  | element => rfl
  | comment content start h => simp [Node.remarks, Token.remarks, remarks, Node.children, h]
  | instruction content start h => simp [Node.remarks, Token.remarks, remarks, Node.children, h]
  | doctype => rfl

lemma Reads.remarks_eq {lines : LineIndex} {tokens : List Token} {nodes : List Node}
    (h : Reads lines tokens nodes) : remarks nodes = tokens.flatMap (Token.remarks lines) := by
  induction h with
  | nil => rfl
  | node _ hmakes _ ih ihc =>
    have hnode := hmakes.remarks_eq
    rw [remarks_append, remarks_single, ih, List.flatMap_append, List.flatMap_cons, hnode, ihc]
  | text content start _ _ ih => simpa [remarks, Node.remarks, Token.remarks] using ih
  | joined content start _ ih => simpa [remarks, Node.remarks, Token.remarks] using ih
  | ignored name start _ ih => simpa [Token.remarks] using ih

lemma remarks_parse (source : Text) :
    remarks (parse source) = (tokenize source).flatMap (Token.remarks (.ofText source)) :=
  (buildTree_reads _ _).remarks_eq

def written (content : Text) : Text :=
  "<!--".toList ++ content ++ "-->".toList

structure Aside where
  lead : Text
  raw : Text
  content : Text

namespace Aside

def line (a : Aside) : Nat :=
  1 + Text.lineBreaks a.lead

def isInstruction (a : Aside) : Bool :=
  a.content.head? == some '?'

def node (a : Aside) : Node :=
  if a.isInstruction then .instruction a.content a.line else .comment a.content a.line

def printed (a : Aside) : Text :=
  if a.isInstruction then '<' :: a.content ++ ['>'] else written a.content

end Aside

def asideAt (lead : Text) (s : Segment) : List Aside :=
  match s.token with
  | some (.comment content _) => [⟨lead, s.raw, content⟩]
  | _ => []

def asidesFrom (lead : Text) : List Segment → List Aside
  | [] => []
  | s :: rest => asideAt lead s ++ asidesFrom (lead ++ s.raw) rest

def asides (source : Text) : List Aside :=
  asidesFrom [] (Lexer.segmentsFrom .data 0 none source)

def instructionOpenings : List Text :=
  [['<', '?'], ['<', '/', '?'], ['<', '!', '?'], ['<', '!', '-', '-', '?']]

def opensInstruction (cs : Text) : Bool :=
  instructionOpenings.any fun opening => opening.isPrefixOf cs

namespace Lexer

lemma clean_head {cs : Text} : (clean cs).head? = some '?' ↔ cs.head? = some '?' := by
  rw [clean, replaceNull, List.head?_map]
  fun_cases unifyLineBreaks cs with
  | case1 => simp
  | case2 | case3 => simp
  | case4 c cs hpair hsingle =>
    by_cases hc : c = '\x00'
    · simp [hc]; decide
    · simp [hc]

lemma upToBracket_head (cs : Text) :
    (clean (upToBracket cs).1).head? = some '?' ↔ cs.head? = some '?' := by
  rw [clean_head]
  cases cs with
  | nil => rfl
  | cons c cs =>
    simp only [upToBracket, List.head?_cons, Option.some.injEq]
    by_cases hc : c = '>'
    · simp [hc]
    · rw [List.takeWhile_cons_of_pos (by simpa using hc), List.head?_cons, Option.some.injEq]

lemma withoutOpenMark_head {cs : Text} :
    (withoutOpenMark cs).head? = some '?' ↔ cs.head? = some '?' := by
  have hmark : ∀ rest mark : Text, '?' ∉ mark → cs.reverse = mark ++ rest →
      (rest.reverse.head? = some '?' ↔ cs.head? = some '?') := by
    intro rest mark hmark heq
    have hcs : cs = rest.reverse ++ mark.reverse := by
      rw [← List.reverse_append, ← heq, List.reverse_reverse]
    rw [hcs, List.head?_append]
    cases hr : rest.reverse.head? with
    | some c => rfl
    | none =>
      rw [Option.none_or]
      constructor
      · intro h
        cases h
      · intro h
        exact absurd (List.mem_reverse.mp (List.mem_of_mem_head? h)) hmark
  unfold withoutOpenMark
  split
  · rename_i rest heq
    exact hmark rest ['!', '-', '-'] (by decide) heq
  · rename_i rest heq
    exact hmark rest ['-', '-'] (by decide) heq
  · rename_i rest _ heq
    exact hmark rest ['-'] (by decide) heq
  · rfl

lemma commentEnd?_head {cs : Text} {mark : Nat} (h : commentEnd? cs = some (0, mark)) :
    cs.head? = some '-' := by
  fun_cases commentEnd? cs with
  | case1 => cases h
  | case2 | case3 => rfl
  | case4 c cs hclosed hbang =>
    rw [commentEnd?] at h
    · obtain ⟨pair, -, heq⟩ := Option.map_eq_some_iff.mp h
      cases heq
    · exact hclosed
    · exact hbang

lemma comment_head {cs : Text} : (comment cs).1.head? = some '?' ↔ cs.head? = some '?' := by
  unfold comment
  split
  · simp
  · simp
  · split
    · rename_i width mark hend
      rw [clean_head]
      cases width with
      | zero => simp [commentEnd?_head hend]
      | succ width => cases cs <;> rfl
    · rw [clean_head, withoutOpenMark_head]

lemma singleton_iff_head {c : Char} {cs : Text} : [c] <+: cs ↔ cs.head? = some c := by
  cases cs with
  | nil => simp
  | cons d cs =>
    rw [List.cons_prefix_cons, List.head?_cons, Option.some.injEq]
    exact ⟨fun h => h.1.symm, fun h => ⟨h.symm, List.nil_prefix⟩⟩

lemma opensInstruction_slash {cs : Text} :
    opensInstruction ('<' :: '/' :: cs) = true ↔ cs.head? = some '?' := by
  simp [opensInstruction, instructionOpenings, singleton_iff_head]

lemma opensInstruction_bang {cs : Text} :
    opensInstruction ('<' :: '!' :: cs) = true ↔
      cs.head? = some '?' ∨ ['-', '-', '?'] <+: cs := by
  simp [opensInstruction, instructionOpenings, singleton_iff_head]

lemma declaration_remark {offset start : Nat} {cs content : Text}
    (h : (declaration offset cs).1 = .comment content start) :
    start = offset ∧ (content.head? = some '?' ↔ opensInstruction ('<' :: '!' :: cs) = true) := by
  rw [opensInstruction_bang]
  unfold declaration at h
  split at h
  · rename_i hdashes
    cases h
    obtain ⟨rest, rfl⟩ := List.isPrefixOf_iff_prefix.mp hdashes
    refine ⟨rfl, comment_head.trans ?_⟩
    change rest.head? = some '?' ↔ some '-' = some '?' ∨ ['-', '-', '?'] <+: '-' :: '-' :: rest
    simp [singleton_iff_head]
  · rename_i hdashes
    split at h
    · cases h
    · cases h
      refine ⟨rfl, (upToBracket_head cs).trans ?_⟩
      refine ⟨.inl, fun hopens => hopens.resolve_right fun hlong => hdashes ?_⟩
      have hshort : ['-', '-'] <+: ['-', '-', '?'] := ⟨['?'], rfl⟩
      exact List.isPrefixOf_iff_prefix.mpr (hshort.trans hlong)

lemma construct_remark {offset start : Nat} {cs content : Text}
    (h : (construct offset cs).1 = some (.comment content start)) :
    start = offset ∧ (content.head? = some '?' ↔ opensInstruction ('<' :: cs) = true) := by
  unfold construct at h
  split at h
  · rename_i rest
    have hread : (declaration offset rest).1 = .comment content start := Option.some.inj h
    exact declaration_remark hread
  · cases h
  · rename_i rest hbracket
    split at h
    · split at h <;> cases h
    · cases h
      exact ⟨rfl, (upToBracket_head rest).trans opensInstruction_slash.symm⟩
  · rename_i rest
    cases h
    refine ⟨rfl, (upToBracket_head ('?' :: rest)).trans ?_⟩
    simp [opensInstruction, instructionOpenings]
  · split at h <;> cases h

lemma cut_remark {content : Content} {offset start : Nat} {pending : Option Nat} {c : Char}
    {cs text : Text}
    (h : (cut content offset pending (c :: cs)).segment.token = some (.comment text start)) :
    start = offset ∧ (text.head? = some '?' ↔ opensInstruction (c :: cs) = true) := by
  have htext : ∀ raw read start', (textSegment raw read start').token ≠ some (.comment text start) := by
    intro raw read start' h
    unfold textSegment at h
    dsimp only at h
    split at h <;> cases h
  cases content with
  | data =>
    by_cases ho : c = '<' ∧ opensMarkup cs = true
    · obtain ⟨rfl, ho⟩ := ho
      obtain ⟨raw, -, -, hcut⟩ := cut_construct ho offset pending
      rw [hcut] at h
      exact construct_remark h
    · rw [cut_data ho] at h
      cases h
  | escapable | script => exact absurd h (htext _ _ _)

end Lexer

/-- A comment is at its place in the source, and is an instruction exactly by its opening there. -/
def Aside.Within (source : Text) (a : Aside) : Prop :=
  ∃ after, source = a.lead ++ after ∧ a.raw <+: after ∧
    (a.isInstruction = true ↔ opensInstruction after = true)

lemma cut_asides {source lead cs : Text} {c : Char} (hsource : source = lead ++ c :: cs)
    (content : Lexer.Content) (pending : Option Nat) {s : Segment}
    (hs : s = (Lexer.cut content (Text.byteSize lead) pending (c :: cs)).segment) :
    s.token.toList.flatMap (Token.remarks (.ofText source)) = (asideAt lead s).map Aside.node ∧
      ∀ a ∈ asideAt lead s, a.Within source := by
  obtain ⟨hraw, -⟩ := Lexer.cut_tokens content (Text.byteSize lead) pending c cs
  rw [← hs] at hraw
  cases htoken : s.token with
  | none =>
    rw [asideAt, htoken]
    exact ⟨rfl, by simp⟩
  | some token =>
    cases token with
    | comment text start =>
      rw [hs] at htoken
      obtain ⟨rfl, hopens⟩ := Lexer.cut_remark htoken
      rw [← hs] at htoken
      have hline : (LineIndex.ofText source).line (Text.byteSize lead) = 1 + Text.lineBreaks lead := by
        rw [LineIndex.line_ofText, hsource, Text.lineBreaksBefore_append]
      rw [asideAt, htoken]
      constructor
      · simp [Token.remarks, hline, Aside.node, Aside.isInstruction, Aside.line]
      · intro a ha
        obtain rfl := List.mem_singleton.mp ha
        refine ⟨c :: cs, hsource, hraw, ?_⟩
        rw [Aside.isInstruction, beq_iff_eq]
        exact hopens
    | startTag | endTag | text | doctype =>
      rw [asideAt, htoken]
      exact ⟨rfl, by simp⟩

lemma asidesFrom_spec (source : Text) (content : Lexer.Content) (offset : Nat)
    (pending : Option Nat) (cs : Text) {lead : Text} (hsource : source = lead ++ cs)
    (hoffset : offset = Text.byteSize lead) :
    (Lexer.tokensFrom content offset pending cs).flatMap (Token.remarks (.ofText source)) =
        (asidesFrom lead (Lexer.segmentsFrom content offset pending cs)).map Aside.node ∧
      ∀ a ∈ asidesFrom lead (Lexer.segmentsFrom content offset pending cs), a.Within source := by
  fun_induction Lexer.segmentsFrom content offset pending cs generalizing lead with
  | case1 =>
    rw [Lexer.tokensFrom, asidesFrom]
    exact ⟨rfl, by simp⟩
  | case2 content offset pending c rest first =>
    rename_i ih
    obtain ⟨hraw, htokens⟩ := Lexer.cut_tokens content offset pending c rest
    have hsplit := List.prefix_iff_eq_append.mp hraw
    have hnext : source = lead ++ first.segment.raw ++ (c :: rest).drop first.segment.raw.length := by
      rw [List.append_assoc, hsource]
      exact congrArg (lead ++ ·) hsplit.symm
    have hplace : offset + Text.byteSize first.segment.raw =
        Text.byteSize (lead ++ first.segment.raw) := by
      rw [Text.byteSize_append, hoffset]
    obtain ⟨htail, hrest⟩ := ih hnext hplace
    have hfirst : first.segment = (Lexer.cut content (Text.byteSize lead) pending (c :: rest)).segment := by
      rw [← hoffset]
    obtain ⟨hhead, hhere⟩ := cut_asides hsource content pending hfirst
    rw [htokens, List.flatMap_append, asidesFrom, List.map_append, htail, hhead]
    exact ⟨rfl, List.forall_mem_append.mpr ⟨hhere, hrest⟩⟩

lemma asides_spec (source : Text) :
    remarks (parse source) = (asides source).map Aside.node ∧
      ∀ a ∈ asides source, a.Within source := by
  rw [remarks_parse]
  exact asidesFrom_spec source .data 0 none source rfl rfl

def Tag.hidesMarkup (tag : Tag) : Bool :=
  !tag.selfClosing && ["script", "style", "textarea", "title"].any fun name => name.toList == tag.name

/-- Between two segments of a source, unless the first is a tag that hides markup. -/
def InData (source lead rest : Text) : Prop :=
  ∃ before after, Lexer.segmentsFrom .data 0 none source = before ++ after ∧
    before.flatMap Segment.raw = lead ∧ after.flatMap Segment.raw = rest ∧
    ∀ tag start, before.getLast?.bind Segment.token = some (.startTag tag start) →
      tag.hidesMarkup = false

lemma after_eq_data {tag : Tag} (h : tag.hidesMarkup = false) (start : Nat) :
    Lexer.Content.after tag start = .data := by
  cases hclosing : tag.selfClosing with
  | true =>
    rw [Lexer.Content.after, hclosing]
    rfl
  | false =>
    simp only [Tag.hidesMarkup, hclosing, Bool.not_false, Bool.true_and, List.any_cons, List.any_nil,
      Bool.or_false, Bool.or_eq_false_iff, beq_eq_false_iff_ne] at h
    obtain ⟨hscript, hstyle, htextarea, htitle⟩ := h
    have hraw : isRawText tag.name = false := by
      simp only [isRawText, rawTextElements, List.any_cons, List.any_nil, Bool.or_false,
        Bool.or_eq_false_iff, beq_eq_false_iff_ne]
      exact ⟨hscript, hstyle⟩
    have hescapable : ¬(tag.name = "textarea".toList ∨ tag.name = "title".toList) :=
      not_or.mpr ⟨Ne.symm htextarea, Ne.symm htitle⟩
    rw [Lexer.Content.after, hraw, if_neg hescapable]
    split <;> rfl

namespace Lexer

lemma cut_hidden {content : Content} {offset : Nat} {pending : Option Nat} {c : Char} {cs : Text}
    (h : ∀ tag start, (cut content offset pending (c :: cs)).segment.token =
      some (.startTag tag start) → tag.hidesMarkup = false) :
    (cut content offset pending (c :: cs)).content = .data := by
  cases content with
  | data =>
    by_cases ho : c = '<' ∧ opensMarkup cs = true
    · obtain ⟨rfl, ho⟩ := ho
      obtain ⟨raw, -, -, hcut⟩ := cut_construct ho offset pending
      rw [hcut] at h ⊢
      dsimp only at h ⊢
      cases hread : (construct offset cs).1 with
      | none => rfl
      | some token =>
        cases token with
        | startTag tag start => exact after_eq_data (h tag start hread) _
        | endTag | text | comment | doctype => rfl
    · rw [cut_data ho]
  | escapable | script => rfl

lemma segmentsFrom_resume {before after : List Segment} {content : Content} {offset : Nat}
    {pending : Option Nat} {cs : Text} (h : segmentsFrom content offset pending cs = before ++ after)
    (hdata : before = [] → content = .data)
    (hlast : ∀ tag start, before.getLast?.bind Segment.token = some (.startTag tag start) →
      tag.hidesMarkup = false) :
    ∃ pending', after = segmentsFrom .data (offset + Text.byteSize (before.flatMap Segment.raw))
      pending' (after.flatMap Segment.raw) := by
  induction before generalizing content offset pending cs with
  | nil =>
    rw [List.nil_append] at h
    obtain ⟨hraw, -⟩ := segmentsFrom_spec content offset pending cs
    obtain rfl := hdata rfl
    rw [h] at hraw
    rw [hraw]
    exact ⟨pending, h.symm⟩
  | cons s before ih =>
    cases cs with
    | nil =>
      rw [segmentsFrom] at h
      cases h
    | cons c cs =>
      rw [segmentsFrom, List.cons_append] at h
      obtain ⟨hs, hrest⟩ := List.cons.inj h
      have hcontent : before = [] → (cut content offset pending (c :: cs)).content = .data := by
        rintro rfl
        apply cut_hidden
        intro tag start htoken
        rw [hs] at htoken
        exact hlast tag start htoken
      have hlater : ∀ tag start, before.getLast?.bind Segment.token = some (.startTag tag start) →
          tag.hidesMarkup = false := by
        intro tag start htoken
        apply hlast tag start
        cases before with
        | nil => cases htoken
        | cons s' before => rwa [List.getLast?_cons_cons]
      obtain ⟨pending', hafter⟩ := ih hrest hcontent hlater
      refine ⟨pending', ?_⟩
      rw [List.flatMap_cons, Text.byteSize_append, ← Nat.add_assoc, ← hs]
      exact hafter

end Lexer

lemma asidesFrom_append (lead : Text) (as bs : List Segment) :
    asidesFrom lead (as ++ bs) =
      asidesFrom lead as ++ asidesFrom (lead ++ as.flatMap Segment.raw) bs := by
  induction as generalizing lead with
  | nil =>
    rw [List.flatMap_nil, List.append_nil]
    rfl
  | cons s as ih =>
    rw [List.cons_append, asidesFrom, asidesFrom, ih, List.flatMap_cons, List.append_assoc,
      List.append_assoc]

lemma written_mem_asides {source lead content rest : Text}
    (h : InData source lead (written content ++ rest)) (hc : Lexer.isEnclosed content = true) :
    ⟨lead, written content, content⟩ ∈ asides source := by
  obtain ⟨before, after, hsegments, rfl, hafter, hlast⟩ := h
  obtain ⟨pending, hresume⟩ := Lexer.segmentsFrom_resume hsegments (fun _ => rfl) hlast
  have hspelled : written content ++ rest =
      '<' :: '!' :: '-' :: '-' :: (content ++ '-' :: '-' :: '>' :: rest) := by
    simp [written]
  have hconstruct := Lexer.construct_comment hc (0 + Text.byteSize (before.flatMap Segment.raw)) rest
  obtain ⟨raw, hraw, -, hcut⟩ := Lexer.cut_construct
    (rfl : Lexer.opensMarkup ('!' :: '-' :: '-' :: (content ++ '-' :: '-' :: '>' :: rest)) = true)
    (0 + Text.byteSize (before.flatMap Segment.raw)) pending
  rw [hconstruct] at hraw hcut
  rw [← hspelled] at hraw
  obtain rfl := List.append_cancel_right hraw
  rw [hafter, hspelled, Lexer.segmentsFrom, hcut] at hresume
  rw [asides, hsegments, asidesFrom_append, hresume, asidesFrom]
  exact List.mem_append_right _ List.mem_cons_self

end Stencil.Markup

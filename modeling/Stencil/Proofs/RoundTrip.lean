import Stencil.Proofs.Reading
import Mathlib.Tactic.Common

/-! Printed trees read back, but for their lines. -/

namespace Stencil.Markup

open Lexer

def startsWithText : List Node → Bool
  | .text _ _ :: _ => true
  | _ => false

def isSoleText (ok : Text → Bool) : List Node → Bool
  | [] => true
  | [.text content _] => ok content
  | _ => false

def isEscapable (name : Text) : Bool :=
  name == "textarea".toList || name == "title".toList

def admitsChildren (name : Text) (children : List Node) : Bool :=
  if isVoid name then children.isEmpty
  else if isRawText name then isSoleText (fun content => !content.contains '<') children
  else if isEscapable name then isSoleText (fun _ => true) children
  else true

mutual

def Node.isCanonical : Node → Bool
  | .element name attributes children _ =>
    isTagName name && attributes.all isPlain && areSorted attributes &&
      admitsChildren name children && areCanonical children
  | .text content _ => !content.isEmpty && isClean content
  | .comment content _ => isComment content
  | .doctype name => isName ['>'] name
  | .instruction content _ => isInstruction content
  | .placeholder .. | .code _ => false

/-- Trees that are printed as sources: literal, without texts side by side, with every name and
content in the form in which it is read. -/
def areCanonical : List Node → Bool
  | [] => true
  | node :: rest =>
    node.isCanonical && !(startsWithText [node] && startsWithText rest) && areCanonical rest

end

mutual

def Node.withoutLine : Node → Node
  | .element name attributes children _ => .element name attributes (withoutLines children) 0
  | .text content _ => .text content 0
  | .comment content _ => .comment content 0
  | .doctype name => .doctype name
  | .instruction content _ => .instruction content 0
  | .placeholder id kind children => .placeholder id kind (withoutLines children)
  | .code content => .code content

def withoutLines : List Node → List Node
  | [] => []
  | node :: rest => node.withoutLine :: withoutLines rest

end

lemma startsWithText_eq {node read : Node} (h : read.withoutLine = node.withoutLine) :
    startsWithText [read] = startsWithText [node] := by
  cases read <;> cases node <;> first | rfl | cases h

namespace Builder

def siblings (b : Builder) : List Node :=
  match b.elements with
  | [] => b.roots
  | e :: _ => e.children

lemma mapSiblings_mapSiblings (f g : List Node → List Node) (b : Builder) :
    (b.mapSiblings f).mapSiblings g = b.mapSiblings fun siblings => g (f siblings) := by
  obtain ⟨elements, roots⟩ := b
  cases elements <;> rfl

lemma siblings_mapSiblings (f : List Node → List Node) (b : Builder) :
    (b.mapSiblings f).siblings = f b.siblings := by
  obtain ⟨elements, roots⟩ := b
  cases elements <;> rfl

lemma mapSiblings_congr {f g : List Node → List Node} {b : Builder}
    (h : f b.siblings = g b.siblings) : b.mapSiblings f = b.mapSiblings g := by
  obtain ⟨elements, roots⟩ := b
  cases elements with
  | nil => exact congrArg (Builder.mk []) h
  | cons e outer =>
    exact congrArg (fun children => Builder.mk ({ e with children := children } :: outer) roots) h

lemma addText_apart {b : Builder} (h : startsWithText b.siblings = false) (content : Text)
    (line : Nat) : b.addText content line = b.add (.text content line) := by
  apply mapSiblings_congr
  split
  · rename_i heq
    rw [heq] at h
    cases h
  · rfl

lemma closeNamed_openElement (name : Text) (attributes : List Attribute) (line : Nat)
    (read : List Node) (b : Builder) :
    ((b.openElement ⟨name, attributes, line, []⟩).mapSiblings (read.reverse ++ ·)).closeNamed name =
      b.add (.element name attributes read line) := by
  simp only [openElement, mapSiblings, closeNamed, List.findIdx?_cons, beq_self_eq_true, if_true,
    closeElements, closeElement, OpenElement.close, List.append_nil, List.reverse_reverse]

end Builder

def Adds (lines : LineIndex) (b : Builder) (tokens : List Token) (nodes : List Node) (rest : Text) :
    Prop :=
  ∃ read next pending, withoutLines read = withoutLines nodes ∧
    tokens.foldl (Builder.step lines) b =
      (tokensFrom .data next pending rest).foldl (Builder.step lines)
        (b.mapSiblings (read.reverse ++ ·))

section Adds

variable {lines : LineIndex} {b : Builder} {tokens : List Token} {nodes : List Node}
  {middle rest : Text}

lemma Adds.nil (next : Nat) (pending : Option Nat) :
    Adds lines b (tokensFrom .data next pending rest) [] rest := by
  refine ⟨[], next, pending, rfl, ?_⟩
  obtain ⟨elements, roots⟩ := b
  cases elements <;> rfl

lemma Adds.cons (read : Node) {node : Node} {next : Nat} {pending : Option Nat}
    (hsame : read.withoutLine = node.withoutLine)
    (ht : tokens.foldl (Builder.step lines) b =
      (tokensFrom .data next pending middle).foldl (Builder.step lines) (b.add read))
    (h : Adds lines (b.add read) (tokensFrom .data next pending middle) nodes rest) :
    Adds lines b tokens (node :: nodes) rest := by
  obtain ⟨others, next', pending', hothers, hmore⟩ := h
  refine ⟨read :: others, next', pending', ?_, ?_⟩
  · rw [withoutLines, withoutLines, hsame, hothers]
  · rw [ht, hmore, Builder.add, Builder.mapSiblings_mapSiblings]
    simp only [List.reverse_cons, List.append_assoc, List.singleton_append]

end Adds

structure StandsAlone (html : Text) (node : Node) : Prop where
  bounded : ∀ rest, Bounded (html ++ rest)
  adds : ∀ lines b offset pending rest, ∃ read next pending',
    read.withoutLine = node.withoutLine ∧
    (tokensFrom .data offset pending (html ++ rest)).foldl (Builder.step lines) b =
      (tokensFrom .data next pending' rest).foldl (Builder.step lines) (b.add read)

structure ReadsBack (html : Text) (nodes : List Node) : Prop where
  bounded : startsWithText nodes = false → ∀ rest, Bounded rest → Bounded (html ++ rest)
  adds : ∀ lines b offset pending rest, Bounded rest →
    (startsWithText nodes = true → startsWithText b.siblings = false) →
    Adds lines b (tokensFrom .data offset pending (html ++ rest)) nodes rest

lemma ReadsBack.nil : ReadsBack [] [] where
  bounded _ _ hr := hr
  adds _ _ offset pending _ _ _ := Adds.nil offset pending

lemma ReadsBack.text {content others : Text} {rest : List Node} (hne : content ≠ [])
    (hc : isClean content = true) (hapart : startsWithText rest = false) (h : ReadsBack others rest)
    (line : Nat) : ReadsBack (escapeText content ++ others) (.text content line :: rest) where
  bounded hno := by cases hno
  adds lines b offset pending after ha hb := by
    rw [List.append_assoc]
    obtain ⟨next, pending', htokens⟩ :=
      tokensFrom_text hne hc (h.bounded hapart after ha) offset pending
    have hadd : Builder.step lines b (.text content offset) =
        b.add (.text content (lines.line offset)) := Builder.addText_apart (hb rfl) _ _
    have hmore : Adds lines (b.add (.text content (lines.line offset)))
        (tokensFrom .data next pending' (others ++ after)) rest after :=
      h.adds lines _ next pending' after ha fun hno => absurd hapart (ne_false_of_eq_true hno)
    apply Adds.cons (.text content (lines.line offset)) rfl ?_ hmore
    rw [htokens, List.foldl_cons, hadd]

lemma StandsAlone.cons {html others : Text} {node : Node} {rest : List Node}
    (h : StandsAlone html node) (ht : startsWithText [node] = false) (hr : ReadsBack others rest) :
    ReadsBack (html ++ others) (node :: rest) where
  bounded _ after _ := by
    rw [List.append_assoc]
    exact h.bounded _
  adds lines b offset pending after ha hb := by
    rw [List.append_assoc]
    obtain ⟨read, next, pending', hsame, htokens⟩ := h.adds lines b offset pending (others ++ after)
    apply Adds.cons read hsame htokens
    apply hr.adds lines _ next pending' after ha
    intro _
    rw [Builder.add, Builder.siblings_mapSiblings]
    rw [← startsWithText_eq hsame] at ht
    cases read <;> first | rfl | cases ht

lemma standsAlone_of_construct {cs : Text} {node : Node} (token : Nat → Token)
    (hread : ∀ start rest, opensMarkup (cs ++ rest) = true ∧
      construct start (cs ++ rest) = (some (token start), rest))
    (hdata : ∀ pending start, contentAfter pending (token start) = .data)
    (hstep : ∀ lines b start, ∃ read : Node, read.withoutLine = node.withoutLine ∧
      Builder.step lines b (token start) = b.add read) : StandsAlone ('<' :: cs) node where
  bounded rest := .inr ⟨cs ++ rest, rfl, (hread 0 rest).1⟩
  adds lines b offset pending rest := by
    obtain ⟨hopen, hconstruct⟩ := hread offset rest
    obtain ⟨next, htokens⟩ := tokensFrom_construct hopen hconstruct pending
    obtain ⟨read, hsame, hadd⟩ := hstep lines b offset
    refine ⟨read, next, none, hsame, ?_⟩
    rw [List.cons_append, htokens, List.foldl_cons, hadd, hdata]

lemma comment_standsAlone {content : Text} (h : isComment content = true) (line : Nat) :
    StandsAlone ('<' :: '!' :: '-' :: '-' :: (content ++ ['-', '-', '>'])) (.comment content line) := by
  have hopening : content.head? ≠ some '?' := by
    intro hhead
    obtain ⟨cs, rfl⟩ := List.head?_eq_some_iff.mp hhead
    simp [isComment] at h
  apply standsAlone_of_construct (Token.comment content)
  · intro start rest
    simp only [List.cons_append, List.append_assoc]
    exact ⟨rfl, construct_comment (isEnclosed_of_isComment h) start rest⟩
  · intro _ _
    rfl
  · intro lines b start
    exact ⟨.comment content (lines.line start), rfl, if_neg hopening⟩

lemma doctype_standsAlone {name : Text} (h : isName ['>'] name = true) :
    StandsAlone ('<' :: ("!DOCTYPE ".toList ++ (name ++ ['>']))) (.doctype name) := by
  apply standsAlone_of_construct fun _ => .doctype name
  · intro start rest
    simp only [List.append_assoc]
    exact ⟨rfl, construct_doctype h start rest⟩
  · intro _ _
    rfl
  · intro lines b start
    exact ⟨.doctype name, rfl, rfl⟩

lemma instruction_standsAlone {content : Text} (h : isInstruction content = true) (line : Nat) :
    StandsAlone ('<' :: (content ++ ['>'])) (.instruction content line) := by
  have hopening : content.head? = some '?' := by
    simp only [isInstruction, Bool.and_eq_true, beq_iff_eq] at h
    exact h.1.1
  apply standsAlone_of_construct (Token.comment content)
  · intro start rest
    rw [List.append_assoc]
    exact construct_instruction h start rest
  · intro _ _
    rfl
  · intro lines b start
    exact ⟨.instruction content (lines.line start), rfl, if_pos hopening⟩

lemma step_startTag (lines : LineIndex) (b : Builder) {name : Text} {attributes : List Attribute}
    (ha : ∀ a ∈ attributes, isPlain a = true) (start : Nat) :
    Builder.step lines b (.startTag ⟨name, pairs attributes, false⟩ start) =
      if isVoid name then b.add (.element name attributes [] (lines.line start))
      else b.openElement ⟨name, attributes, lines.line start, []⟩ := by
  have hpairs : (pairs attributes).map (fun pair => (⟨pair.1, .text pair.2⟩ : Attribute)) =
      attributes := by
    rw [pairs, List.map_map]
    conv_rhs => rw [← List.map_id attributes]
    apply List.map_congr_left
    rintro ⟨name, value⟩ hmem
    cases value with
    | text => rfl
    | expression | code => cases ha _ hmem
  exact congrArg (fun read => if isVoid name then b.add (.element name read [] (lines.line start))
    else b.openElement ⟨name, read, lines.line start, []⟩) hpairs

lemma isSoleText_read {ok : Text → Bool} {children : List Node} (h : isSoleText ok children = true)
    (hc : areCanonical children = true) : ∃ content, isClean content = true ∧
      (content = [] ∨ ok content = true) ∧
      (∀ raw, Node.printAll? raw children = some (if raw then content else escapeText content)) ∧
      ∀ lines (b : Builder) start next rest, b.siblings = [] →
        Adds lines b (textToken content start ++ tokensFrom .data next none rest) children rest := by
  rw [isSoleText.eq_def] at h
  split at h
  · refine ⟨[], rfl, .inl rfl, ?_, ?_⟩
    · rintro (- | -) <;> rfl
    · intro lines b start next rest _
      exact Adds.nil next none
  · rename_i content line
    simp only [areCanonical, Node.isCanonical, Bool.and_eq_true] at hc
    obtain ⟨⟨⟨hne, hclean⟩, -⟩, -⟩ := hc
    refine ⟨content, hclean, .inr h, ?_, ?_⟩
    · intro raw
      simp [Node.printAll?, Node.print?]
    · intro lines b start next rest hempty
      have htoken : textToken content start = [.text content start] := by
        rw [textToken, if_neg (by simpa using hne)]
      have hadd : Builder.step lines b (.text content start) =
          b.add (.text content (lines.line start)) :=
        Builder.addText_apart (by rw [hempty]; rfl) _ _
      apply Adds.cons (.text content (lines.line start)) rfl ?_ (Adds.nil next none)
      rw [htoken, List.singleton_append, List.foldl_cons, hadd]
  · cases h

def Fills (name inner : Text) (children : List Node) : Prop :=
  ∀ attributes lines (b : Builder) start offset rest, b.siblings = [] →
    Adds lines b (tokensFrom (.after ⟨name, attributes, false⟩ start) offset none
      (inner ++ '<' :: '/' :: (name ++ '>' :: rest))) children ('<' :: '/' :: (name ++ '>' :: rest))

section Fills

variable {name : Text} {children : List Node}

lemma raw_fills (hn : isTagName name = true) (hvoid : isVoid name = false)
    (hraw : isRawText name = true)
    (hs : isSoleText (fun content => !content.contains '<') children = true)
    (hc : areCanonical children = true) :
    ∃ inner, Node.printAll? true children = some inner ∧ Fills name inner children := by
  obtain ⟨content, hclean, hok, hprint, hread⟩ := isSoleText_read hs hc
  have hbracket : '<' ∉ content := by
    rcases hok with rfl | hok
    · exact List.not_mem_nil
    · simpa using hok
  refine ⟨content, hprint true, ?_⟩
  intro attributes lines b start offset rest hempty
  obtain ⟨next, htokens⟩ := tokensFrom_script hbracket hclean
    (startsWithEndTag_closing hn rest) start offset
  have hafter : Content.after ⟨name, attributes, false⟩ start = .script name start := by
    simp [Content.after, hvoid, hraw]
  rw [hafter, htokens]
  exact hread lines b start next _ hempty

lemma escapable_fills (hn : isTagName name = true) (hvoid : isVoid name = false)
    (hraw : isRawText name = false) (he : isEscapable name = true)
    (hs : isSoleText (fun _ => true) children = true) (hc : areCanonical children = true) :
    ∃ inner, Node.printAll? false children = some inner ∧ Fills name inner children := by
  obtain ⟨content, hclean, -, hprint, hread⟩ := isSoleText_read hs hc
  refine ⟨escapeText content, hprint false, ?_⟩
  intro attributes lines b start offset rest hempty
  obtain ⟨next, htokens⟩ := tokensFrom_escapable hclean (startsWithEndTag_closing hn rest) offset
  have hafter : Content.after ⟨name, attributes, false⟩ start = .escapable name := by
    simp_all [Content.after, isEscapable]
  rw [hafter, htokens]
  exact hread lines b offset next _ hempty

lemma data_fills (hn : isTagName name = true) (hvoid : isVoid name = false)
    (hraw : isRawText name = false) (he : isEscapable name = false) {inner : Text}
    (hr : ReadsBack inner children) : Fills name inner children := by
  intro attributes lines b start offset rest hempty
  have hafter : Content.after ⟨name, attributes, false⟩ start = .data := by
    simp_all [Content.after, isEscapable]
  have hclosing : Bounded ('<' :: '/' :: (name ++ '>' :: rest)) :=
    .inr ⟨_, rfl, (construct_endTag hn 0 rest).1⟩
  rw [hafter]
  apply hr.adds lines b offset none _ hclosing
  rw [hempty]
  exact fun _ => rfl

lemma children_fill (hn : isTagName name = true) (hvoid : isVoid name = false)
    (ha : admitsChildren name children = true) (hc : areCanonical children = true)
    (ih : ∃ html, Node.printAll? false children = some html ∧ ReadsBack html children) :
    ∃ inner, Node.printAll? (isRawText name) children = some inner ∧ Fills name inner children := by
  rw [admitsChildren, if_neg (ne_true_of_eq_false hvoid)] at ha
  cases hraw : isRawText name with
  | true =>
    rw [if_pos hraw] at ha
    exact raw_fills hn hvoid hraw ha hc
  | false =>
    rw [if_neg (ne_true_of_eq_false hraw)] at ha
    cases he : isEscapable name with
    | true =>
      rw [if_pos he] at ha
      exact escapable_fills hn hvoid hraw he ha hc
    | false =>
      obtain ⟨inner, hprint, hread⟩ := ih
      exact ⟨inner, hprint, data_fills hn hvoid hraw he hread⟩

end Fills

section Element

variable {name printed : Text} {attributes : List Attribute}

lemma void_standsAlone (hvoid : isVoid name = true) (ha : ∀ a ∈ attributes, isPlain a = true)
    (hstart : ReadsStartTag name printed attributes) (line : Nat) :
    StandsAlone ('<' :: (name ++ (printed ++ ['>']))) (.element name attributes [] line) := by
  apply standsAlone_of_construct (Token.startTag ⟨name, pairs attributes, false⟩)
  · intro start rest
    simp only [List.append_assoc]
    exact hstart start rest
  · intro pending start
    simp [contentAfter, Content.after, hvoid]
  · intro lines b start
    refine ⟨.element name attributes [] (lines.line start), rfl, ?_⟩
    rw [step_startTag lines b ha, if_pos hvoid]

lemma enclosed_standsAlone {inner : Text} {children : List Node} (hn : isTagName name = true)
    (hvoid : isVoid name = false) (ha : ∀ a ∈ attributes, isPlain a = true)
    (hstart : ReadsStartTag name printed attributes) (hfills : Fills name inner children)
    (line : Nat) :
    StandsAlone ('<' :: (name ++ (printed ++ '>' :: (inner ++ '<' :: '/' :: (name ++ ['>'])))))
      (.element name attributes children line) := by
  constructor
  · intro rest
    simp only [List.cons_append, List.append_assoc]
    exact .inr ⟨_, rfl, (hstart 0 _).1⟩
  · intro lines b offset pending rest
    simp only [List.cons_append, List.append_assoc, List.nil_append]
    obtain ⟨hopen, hconstruct⟩ := hstart offset (inner ++ '<' :: '/' :: (name ++ '>' :: rest))
    obtain ⟨next, htokens⟩ := tokensFrom_construct hopen hconstruct pending
    rw [htokens, List.foldl_cons, step_startTag lines b ha, if_neg (ne_true_of_eq_false hvoid)]
    obtain ⟨read, next, pending, hread, hinner⟩ := hfills (pairs attributes) lines
      (b.openElement ⟨name, attributes, lines.line offset, []⟩) (pending.getD offset) next rest rfl
    obtain ⟨hopen, hconstruct⟩ := construct_endTag hn next rest
    obtain ⟨after, hclosing⟩ := tokensFrom_construct hopen hconstruct pending
    refine ⟨.element name attributes read (lines.line offset), after, none, ?_, ?_⟩
    · rw [Node.withoutLine, Node.withoutLine, hread]
    · rw [contentAfter, hinner, hclosing, List.foldl_cons, ← Builder.closeNamed_openElement]
      rfl

end Element

lemma element_standsAlone {name : Text} {attributes : List Attribute} {children : List Node}
    {line : Nat} (h : Node.isCanonical (.element name attributes children line) = true)
    (ih : areCanonical children = true →
      ∃ html, Node.printAll? false children = some html ∧ ReadsBack html children) :
    ∃ html, Node.print? false (.element name attributes children line) = some html ∧
      StandsAlone html (.element name attributes children line) := by
  simp only [Node.isCanonical, Bool.and_eq_true, List.all_eq_true] at h
  obtain ⟨⟨⟨⟨hn, ha⟩, hs⟩, hadmits⟩, hc⟩ := h
  obtain ⟨printed, hprint, hstart⟩ := construct_startTag hn ha hs
  cases hvoid : isVoid name with
  | true =>
    rw [admitsChildren, if_pos hvoid, List.isEmpty_iff] at hadmits
    rw [hadmits]
    exact ⟨_, by simp [Node.print?, hprint, hvoid], void_standsAlone hvoid ha hstart line⟩
  | false =>
    obtain ⟨inner, hinner, hfills⟩ := children_fill hn hvoid hadmits hc (ih hc)
    exact ⟨_, by simp [Node.print?, hprint, hvoid, hinner],
      enclosed_standsAlone hn hvoid ha hstart hfills line⟩

lemma node_standsAlone {node : Node} (h : node.isCanonical = true)
    (ht : startsWithText [node] = false)
    (ih : areCanonical node.children = true →
      ∃ html, Node.printAll? false node.children = some html ∧ ReadsBack html node.children) :
    ∃ html, node.print? false = some html ∧ StandsAlone html node := by
  cases node with
  | element name attributes children line => exact element_standsAlone h ih
  | text => cases ht
  | comment content line => exact ⟨_, by simp [Node.print?], comment_standsAlone h line⟩
  | doctype name => exact ⟨_, by simp [Node.print?], doctype_standsAlone h⟩
  | instruction content line => exact ⟨_, by simp [Node.print?], instruction_standsAlone h line⟩
  | placeholder | code => cases h

lemma nodes_readBack {nodes : List Node} : areCanonical nodes = true →
    ∃ html, Node.printAll? false nodes = some html ∧ ReadsBack html nodes := by
  induction nodes using siblings_induction with
  | nil => exact fun _ => ⟨[], rfl, .nil⟩
  | cons node rest ihc ihr =>
    intro h
    simp only [areCanonical, Bool.and_eq_true, Bool.not_eq_true'] at h
    obtain ⟨⟨hnode, hapart⟩, hrest⟩ := h
    obtain ⟨others, hothers, hread⟩ := ihr hrest
    -- Only a text depends on what stands before and after it.
    cases ht : startsWithText [node] with
    | false =>
      obtain ⟨html, hprint, halone⟩ := node_standsAlone hnode ht ihc
      exact ⟨html ++ others, by simp [Node.printAll?, hprint, hothers], halone.cons ht hread⟩
    | true =>
      cases node with
      | text content line =>
        simp only [Node.isCanonical, Bool.and_eq_true] at hnode
        have hne : content ≠ [] := by simpa using hnode.1
        exact ⟨escapeText content ++ others, by simp [Node.printAll?, Node.print?, hothers],
          .text hne hnode.2 hapart hread line⟩
      | _ => cases ht

/-- A tree that a source could have been read as is printed, and read back but for its lines. -/
theorem printed_tree_reads_back {nodes : List Node} (h : areCanonical nodes = true) :
    ∃ html, print? nodes = some html ∧ withoutLines (parse html) = withoutLines nodes := by
  obtain ⟨html, hprint, hread⟩ := nodes_readBack h
  refine ⟨html, hprint, ?_⟩
  obtain ⟨read, next, pending, hsame, hfold⟩ :=
    hread.adds (.ofText html) .empty 0 none [] (.inl rfl) fun _ => rfl
  rw [List.append_nil, tokensFrom] at hfold
  have hparse : parse html = read := by
    rw [parse, buildTree, tokenize, hfold]
    simp [Builder.mapSiblings, Builder.empty, Builder.finish, Builder.closeElements]
  rw [hparse, hsame]

def mixedTree : List Node :=
  [.doctype "html".toList,
   .instruction "?xml".toList 2,
   .element "p".toList [⟨"id".toList, .text "\"a\" & <b>".toList⟩, ⟨"é".toList, .text []⟩]
     [.comment " - -> ".toList 4,
      .text "1 < 2 && 2 > 1\n".toList 4,
      .element "br".toList [] [] 5,
      .element "script".toList [] [.text "a --> b && c".toList 5] 5,
      .element "title".toList [] [.text "</p> &amp;".toList 5] 5] 3]

def mixedSource : Text :=
  "<!DOCTYPE html><?xml><p id=\"&quot;a&quot; &amp; &lt;b&gt;\" é=\"\">".toList ++
    "<!-- - -> -->1 &lt; 2 &amp;&amp; 2 &gt; 1\n<br>".toList ++
    "<script>a --> b && c</script><title>&lt;/p&gt; &amp;amp;</title></p>".toList

theorem printed_tree_reads_back_mixed :
    areCanonical mixedTree = true ∧ print? mixedTree = some mixedSource ∧
      withoutLines (parse mixedSource) = withoutLines mixedTree := by
  have hcanonical : areCanonical mixedTree = true := by decide +kernel
  have hsource : print? mixedTree = some mixedSource := by decide +kernel
  obtain ⟨html, hprint, hread⟩ := printed_tree_reads_back hcanonical
  have hhtml : html = mixedSource := Option.some.inj (hprint.symm.trans hsource)
  rw [hhtml] at hread
  exact ⟨hcanonical, hsource, hread⟩

end Stencil.Markup

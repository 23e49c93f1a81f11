import Stencil.Markup.Tree
import Mathlib.Tactic.Common

/-!
The trees that a source is read to. An end tag may close many elements or none, and text joins text across
the tags that are ignored.
-/

namespace Stencil.Markup

namespace Node

def children : Node → List Node
  | .element _ _ children _ => children
  | .placeholder _ _ children => children
  | _ => []

def text? : Node → Option Text
  | .text content _ => some content
  | .element .. | .comment .. | .doctype _ | .instruction .. | .placeholder .. | .code _ => none

end Node

lemma siblings_induction {P : List Node → Prop} (nil : P [])
    (cons : ∀ node rest, P node.children → P rest → P (node :: rest)) :
    ∀ nodes, P nodes
  | [] => nil
  | .element name attributes children line :: rest =>
    cons _ _ (siblings_induction nil cons children) (siblings_induction nil cons rest)
  | .placeholder id kind children :: rest =>
    cons _ _ (siblings_induction nil cons children) (siblings_induction nil cons rest)
  | .text content line :: rest => cons _ _ nil (siblings_induction nil cons rest)
  | .comment content line :: rest => cons _ _ nil (siblings_induction nil cons rest)
  | .doctype name :: rest => cons _ _ nil (siblings_induction nil cons rest)
  | .instruction content line :: rest => cons _ _ nil (siblings_induction nil cons rest)
  | .code content :: rest => cons _ _ nil (siblings_induction nil cons rest)

def AttributeValue.isLiteral : AttributeValue → Bool
  | .text _ => true
  | .expression _ | .code _ => false

mutual

def Node.isWritten : Node → Bool
  | .element _ attributes children _ =>
    attributes.all (fun a => a.value.isLiteral) && areWritten children
  | .placeholder _ _ _ | .code _ => false
  | .text _ _ | .comment _ _ | .doctype _ | .instruction _ _ => true

def areWritten : List Node → Bool
  | [] => true
  | node :: rest => node.isWritten && areWritten rest

end

structure StartTag (name : Text) (attributes : List Attribute) : Prop where
  letter : ∃ (c : Char) (rest : Text), c.isAlpha = true ∧ name = c.toLower :: rest
  literal : ∀ a ∈ attributes, a.value.isLiteral = true
  distinct : (attributes.map Attribute.name).Nodup

def Tag.IsRead (tag : Tag) : Prop :=
  StartTag tag.name (tag.attributes.map fun pair => ⟨pair.1, .text pair.2⟩)

def Token.IsRead : Token → Prop
  | .startTag tag _ => tag.IsRead
  | .text content _ => content ≠ []
  | .endTag _ _ | .comment _ _ | .doctype _ => True

namespace Lexer

lemma keepFirst_distinct (attributes : List (Text × Text)) :
    ((keepFirst attributes).map Prod.fst).Nodup := by
  induction attributes with
  | nil => exact List.nodup_nil
  | cons a rest ih =>
    rw [keepFirst, List.map_cons, List.nodup_cons]
    constructor
    · intro hm
      obtain ⟨b, hb, hname⟩ := List.mem_map.mp hm
      have hne := (List.mem_filter.mp hb).2
      simp [hname] at hne
    · exact ih.sublist (List.filter_sublist.map _)

lemma arrange_distinct (attributes : List (Text × Text)) :
    ((arrange attributes).map Prod.fst).Nodup := by
  have hperm := (List.mergeSort_perm (keepFirst attributes) fun a b => nameLe a.1 b.1).map Prod.fst
  exact hperm.nodup_iff.mpr (keepFirst_distinct attributes)

lemma tag?_isRead {c : Char} {cs left : Text} {tag : Tag} (hc : c.isAlpha = true)
    (h : tag? (c :: cs) = some (tag, left)) : tag.IsRead := by
  have hne : ∀ d : Char, d.isAlpha = false → c ≠ d := by
    rintro d hd rfl
    rw [hd] at hc
    cases hc
  have hinside : (isSpace c || c == '/' || c == '>') = false := by
    simp [isSpace, hne ' ' (by decide), hne '\t' (by decide), hne '\n' (by decide),
      hne '\x0c' (by decide), hne '\r' (by decide), hne '/' (by decide), hne '>' (by decide)]
  have hclean : ∀ ds, ∃ rest, Text.lower (clean (c :: ds)) = c.toLower :: rest := by
    intro ds
    rw [clean, unifyLineBreaks]
    · refine ⟨Text.lower (replaceNull (unifyLineBreaks ds)), ?_⟩
      simp [replaceNull, Text.lower, hne '\x00' (by decide)]
    · exact fun _ heq => absurd heq (hne '\r' (by decide))
    · exact hne '\r' (by decide)
  simp only [tag?] at h
  split at h
  · cases h
  · rename_i attributes closing left' _
    cases h
    refine ⟨?_, ?_, ?_⟩
    · rw [List.takeWhile_cons_of_pos (by simp [hinside])]
      obtain ⟨rest, hrest⟩ := hclean (cs.takeWhile fun c => !(isSpace c || c == '/' || c == '>'))
      exact ⟨c, rest, hc, hrest⟩
    · intro a hm
      obtain ⟨pair, -, rfl⟩ := List.mem_map.mp hm
      rfl
    · rw [List.map_map]
      exact arrange_distinct attributes

lemma declaration_isRead (start : Nat) (cs : Text) : (declaration start cs).1.IsRead := by
  unfold declaration
  split
  · trivial
  · split <;> trivial

lemma construct_isRead {start : Nat} {cs : Text} {token : Token} (ho : opensMarkup cs = true)
    (h : (construct start cs).1 = some token) : token.IsRead := by
  unfold construct at h
  split at h
  · rename_i rest
    obtain rfl : (declaration start rest).1 = token := Option.some.inj h
    exact declaration_isRead start rest
  · cases h
  · split at h
    · split at h <;> cases h
      trivial
    · cases h
      trivial
  · cases h
    trivial
  · rename_i hbang hclose hslash hquestion
    split at h
    · rename_i tag left htag
      cases h
      cases cs with
      | nil => cases ho
      | cons c rest =>
        have halpha : c.isAlpha = true := by
          unfold opensMarkup at ho
          split at ho
          · cases ho
          · rename_i heq
            exact (hslash _ heq).elim
          · rename_i heq
            cases heq
            simp only [Bool.or_eq_true, beq_iff_eq] at ho
            rcases ho with (ho | rfl) | rfl
            · exact ho
            · exact (hbang _ rfl).elim
            · exact (hquestion _ rfl).elim
          · cases ho
        exact tag?_isRead halpha htag
    · cases h

lemma decode_ne_nil {inAttribute : Bool} {cs : Text} (h : cs ≠ []) :
    CharacterReference.decode inAttribute cs ≠ [] := by
  cases cs with
  | nil => exact (h rfl).elim
  | cons c rest =>
    rw [CharacterReference.decode]
    split
    · split <;> exact List.cons_ne_nil _ _
    · exact List.cons_ne_nil _ _

lemma unifyLineBreaks_ne_nil {cs : Text} (h : cs ≠ []) : unifyLineBreaks cs ≠ [] := by
  fun_cases unifyLineBreaks cs with
  | case1 => exact (h rfl).elim
  | case2 | case3 | case4 => exact List.cons_ne_nil _ _

lemma clean_ne_nil {cs : Text} (h : cs ≠ []) : clean cs ≠ [] := by
  rw [clean, replaceNull, ne_eq, List.map_eq_nil_iff]
  exact unifyLineBreaks_ne_nil h

lemma tokensFrom_isRead (content : Content) (offset : Nat) (pending : Option Nat) (cs : Text) :
    ∀ token ∈ tokensFrom content offset pending cs, token.IsRead := by
  fun_induction tokensFrom content offset pending cs with
  | case1 => simp
  | case2 offset pending c rest hopen read next hnone ih => exact ih
  | case3 offset pending c rest hopen read next tag start htag ih =>
    exact List.forall_mem_cons.mpr ⟨construct_isRead hopen.2 htag, ih⟩
  | case4 offset pending c rest hopen read next token hother htoken ih =>
    exact List.forall_mem_cons.mpr ⟨construct_isRead hopen.2 htoken, ih⟩
  | case5 offset pending c rest hopen width raw ih =>
    have hraw : raw ≠ [] := by
      rw [ne_eq, List.take_eq_nil_iff, not_or]
      exact ⟨Nat.pos_iff_ne_zero.mp (dataWidth_pos hopen), List.cons_ne_nil _ _⟩
    exact List.forall_mem_cons.mpr ⟨decode_ne_nil (unifyLineBreaks_ne_nil hraw), ih⟩
  | case6 offset pending name c rest raw left hempty ih => exact ih
  | case7 offset pending name c rest raw left hempty ih =>
    have hraw : raw ≠ [] := fun hnil => hempty (List.isEmpty_iff.mpr hnil)
    exact List.forall_mem_cons.mpr ⟨decode_ne_nil (clean_ne_nil hraw), ih⟩
  | case8 offset pending name start c rest raw left hempty ih => exact ih
  | case9 offset pending name start c rest raw left hempty ih =>
    have hraw : raw ≠ [] := fun hnil => hempty (List.isEmpty_iff.mpr hnil)
    exact List.forall_mem_cons.mpr ⟨clean_ne_nil hraw, ih⟩

end Lexer

def Tag.written (tag : Tag) : List Attribute :=
  tag.attributes.map fun pair => ⟨pair.1, .text pair.2⟩

def Tag.isWhole (tag : Tag) : Bool :=
  tag.selfClosing || isVoid tag.name

inductive Makes (lines : LineIndex) : Token → Node → Prop
  | element (tag : Tag) (start : Nat) (children : List Node) :
    (tag.isWhole = true → children = []) →
      Makes lines (.startTag tag start) (.element tag.name tag.written children (lines.line start))
  | comment (content : Text) (start : Nat) : content.head? ≠ some '?' →
    Makes lines (.comment content start) (.comment content (lines.line start))
  | instruction (content : Text) (start : Nat) : content.head? = some '?' →
    Makes lines (.comment content start) (.instruction content (lines.line start))
  | doctype (name : Text) : Makes lines (.doctype name) (.doctype name)

def Token.opens : Token → Bool
  | .startTag tag _ => !tag.isWhole
  | .endTag .. | .text .. | .comment .. | .doctype _ => false

lemma Makes.step_eq {lines : LineIndex} {token : Token} {node : Node} (h : Makes lines token node)
    (hwhole : token.opens = false) (b : Builder) : b.step lines token = b.add node := by
  cases h with
  | element tag start children hchildren =>
    have hclosed : tag.isWhole = true := by simpa [Token.opens] using hwhole
    rw [hchildren hclosed]
    exact if_pos hclosed
  | comment content start hhead => exact if_neg hhead
  | instruction content start hhead => exact if_pos hhead
  | doctype name => rfl

lemma Builder.step_open {tag : Tag} (h : tag.isWhole = false) (lines : LineIndex) (start : Nat)
    (b : Builder) : b.step lines (.startTag tag start) =
      b.openElement ⟨tag.name, tag.written, lines.line start, []⟩ :=
  if_neg (ne_true_of_eq_false h)

inductive Reads (lines : LineIndex) : List Token → List Node → Prop
  | nil : Reads lines [] []
  | node {ts us : List Token} {nodes : List Node} {t : Token} {n : Node} :
    Reads lines ts nodes → Makes lines t n → Reads lines us n.children →
      Reads lines (ts ++ t :: us) (nodes ++ [n])
  | text {ts : List Token} {nodes : List Node} (content : Text) (start : Nat) :
    Reads lines ts nodes → (∀ last ∈ nodes.getLast?, last.text? = none) →
      Reads lines (ts ++ [.text content start]) (nodes ++ [.text content (lines.line start)])
  | joined {ts : List Token} {nodes : List Node} {before : Text} {line : Nat} (content : Text)
    (start : Nat) : Reads lines ts (nodes ++ [.text before line]) →
      Reads lines (ts ++ [.text content start]) (nodes ++ [.text (before ++ content) line])
  | ignored {ts : List Token} {nodes : List Node} (name : Text) (start : Nat) :
    Reads lines ts nodes → Reads lines (ts ++ [.endTag name start]) nodes

namespace Builder

variable {lines : LineIndex} {tokens more : List Token} {b : Builder}

inductive Gathers (lines : LineIndex) : List Token → Builder → Prop
  | outside {ts : List Token} {roots : List Node} : Reads lines ts roots.reverse →
    Gathers lines ts ⟨[], roots⟩
  | inside {ts us : List Token} {t : Token} {e : OpenElement} {outer : List OpenElement}
    {roots : List Node} : Gathers lines ts ⟨outer, roots⟩ →
      (∀ children, Makes lines t (.element e.name e.attributes children e.line)) →
      Reads lines us e.children.reverse → Gathers lines (ts ++ t :: us) ⟨e :: outer, roots⟩

namespace Gathers

lemma mapSiblings {f : List Node → List Node} (h : Gathers lines tokens b)
    (hf : ∀ ts siblings, Reads lines ts siblings.reverse →
      Reads lines (ts ++ more) (f siblings).reverse) :
    Gathers lines (tokens ++ more) (b.mapSiblings f) := by
  cases h with
  | outside hroots => exact .outside (hf _ _ hroots)
  | inside houter hmakes hchildren =>
    rw [List.append_assoc, List.cons_append]
    exact .inside houter hmakes (hf _ _ hchildren)

lemma add {node : Node} {t : Token} (h : Gathers lines tokens b) (hmakes : Makes lines t node)
    (hchildren : Reads lines more node.children) :
    Gathers lines (tokens ++ t :: more) (b.add node) := by
  apply h.mapSiblings
  intro ts siblings hs
  rw [List.reverse_cons]
  exact .node hs hmakes hchildren

lemma addText (h : Gathers lines tokens b) (content : Text) (start : Nat) :
    Gathers lines (tokens ++ [.text content start]) (b.addText content (lines.line start)) := by
  apply h.mapSiblings
  intro ts siblings hs
  split
  · rw [List.reverse_cons] at hs ⊢
    exact .joined content start hs
  · rename_i hno
    rw [List.reverse_cons]
    refine .text content start hs fun last hlast => ?_
    rw [List.getLast?_reverse] at hlast
    obtain ⟨others, rfl⟩ := List.head?_eq_some_iff.mp hlast
    cases last with
    | text before l => exact (hno before l others rfl).elim
    | _ => rfl

lemma ignored (h : Gathers lines tokens b) (name : Text) (start : Nat) :
    Gathers lines (tokens ++ [.endTag name start]) b := by
  cases h with
  | outside hroots => exact .outside (.ignored name start hroots)
  | inside houter hmakes hchildren =>
    rw [List.append_assoc, List.cons_append]
    exact .inside houter hmakes (.ignored name start hchildren)

lemma closeElement (h : Gathers lines tokens b) : Gathers lines tokens b.closeElement := by
  cases h with
  | outside hroots => exact .outside hroots
  | inside houter hmakes hchildren => exact houter.add (hmakes _) hchildren

lemma closeElements (n : Nat) (h : Gathers lines tokens b) :
    Gathers lines tokens (closeElements n b) := by
  induction n generalizing b with
  | zero => exact h
  | succ n ih => exact ih h.closeElement

lemma closeNamed (h : Gathers lines tokens b) (name : Text) :
    Gathers lines tokens (b.closeNamed name) := by
  rw [Builder.closeNamed]
  split
  · exact h.closeElements _
  · exact h

lemma step (h : Gathers lines tokens b) (token : Token) :
    Gathers lines (tokens ++ [token]) (b.step lines token) := by
  cases token with
  | startTag tag start =>
    cases hwhole : tag.isWhole with
    | true =>
      have hmakes : Makes lines (.startTag tag start) _ := .element tag start [] fun _ => rfl
      rw [hmakes.step_eq (by simp [Token.opens, hwhole])]
      exact h.add hmakes .nil
    | false =>
      rw [step_open hwhole]
      exact .inside h (fun children => .element tag start children (by simp [hwhole])) .nil
  | endTag name start => exact (h.closeNamed name).ignored name start
  | text content start => exact h.addText content start
  | comment content start =>
    by_cases hhead : content.head? = some '?'
    · have hmakes : Makes lines (.comment content start) _ := .instruction content start hhead
      rw [hmakes.step_eq rfl]
      exact h.add hmakes .nil
    · have hmakes : Makes lines (.comment content start) _ := .comment content start hhead
      rw [hmakes.step_eq rfl]
      exact h.add hmakes .nil
  | doctype name => exact h.add (.doctype name) .nil

lemma foldl (h : Gathers lines tokens b) (more : List Token) :
    Gathers lines (tokens ++ more) (more.foldl (Builder.step lines) b) := by
  induction more generalizing tokens b with
  | nil => simpa using h
  | cons token rest ih => simpa using ih (h.step token)

end Gathers

lemma closeElements_elements (n : Nat) (b : Builder) :
    (closeElements n b).elements.length = b.elements.length - n := by
  induction n generalizing b with
  | zero => rfl
  | succ n ih =>
    have hclose : b.closeElement.elements.length = b.elements.length - 1 := by
      obtain ⟨elements, roots⟩ := b
      rcases elements with - | ⟨e, - | ⟨e', outer⟩⟩ <;> rfl
    rw [closeElements, ih, hclose]
    omega

lemma Gathers.finish (h : Gathers lines tokens b) : Reads lines tokens b.finish := by
  have hempty := closeElements_elements b.elements.length b
  rw [Nat.sub_self, List.length_eq_zero_iff] at hempty
  have hclosed := h.closeElements b.elements.length
  rw [Builder.finish]
  generalize Builder.closeElements b.elements.length b = closed at hempty hclosed
  cases hclosed with
  | outside hroots => exact hroots
  | inside => cases hempty

end Builder

lemma buildTree_reads (lines : LineIndex) (tokens : List Token) :
    Reads lines tokens (buildTree lines tokens) := by
  have hempty : Builder.Gathers lines [] .empty := .outside .nil
  exact (hempty.foldl tokens).finish

namespace Builder

structure Kept (P : List Node → Prop) : Prop where
  nil : P []
  element {name : Text} {attributes : List Attribute} {children siblings : List Node} {line : Nat} :
    StartTag name attributes → (isVoid name = true → children = []) → P children → P siblings →
      P (.element name attributes children.reverse line :: siblings)
  text {content : Text} {line : Nat} {siblings : List Node} : content ≠ [] →
    (∀ before l others, siblings ≠ .text before l :: others) → P siblings →
      P (.text content line :: siblings)
  joined {before content : Text} {line : Nat} {others : List Node} :
    P (.text before line :: others) → P (.text (before ++ content) line :: others)
  comment {content : Text} {line : Nat} {siblings : List Node} :
    P siblings → P (.comment content line :: siblings)
  instruction {content : Text} {line : Nat} {siblings : List Node} :
    P siblings → P (.instruction content line :: siblings)
  doctype {name : Text} {siblings : List Node} : P siblings → P (.doctype name :: siblings)

end Builder

lemma Reads.kept {P : List Node → Prop} (hk : Builder.Kept P) {lines : LineIndex} {tokens : List Token}
    {nodes : List Node} (h : Reads lines tokens nodes) (ht : ∀ token ∈ tokens, token.IsRead) :
    P nodes.reverse := by
  induction h with
  | nil => exact hk.nil
  | node _ hmakes _ ih ihc =>
    rw [List.forall_mem_append, List.forall_mem_cons] at ht
    obtain ⟨hbefore, htoken, hinner⟩ := ht
    have hs := ih hbefore
    rw [List.reverse_append, List.reverse_singleton, List.singleton_append]
    cases hmakes with
    | element tag start children hwhole =>
      have hvoid : isVoid tag.name = true → children.reverse = [] := fun hv =>
        List.reverse_eq_nil_iff.mpr (hwhole (by simp [Tag.isWhole, hv]))
      rw [← List.reverse_reverse children]
      exact hk.element htoken hvoid (ihc hinner) hs
    | comment => exact hk.comment hs
    | instruction => exact hk.instruction hs
    | doctype => exact hk.doctype hs
  | text content start _ hlast ih =>
    rw [List.forall_mem_append] at ht
    rw [List.reverse_append, List.reverse_singleton, List.singleton_append]
    refine hk.text (ht.2 _ List.mem_cons_self) ?_ (ih ht.1)
    intro before line others heq
    have hnone := hlast (.text before line) (by rw [List.getLast?_eq_head?_reverse, heq]; rfl)
    cases hnone
  | joined content start _ ih =>
    rw [List.forall_mem_append] at ht
    have hjoined := ih ht.1
    rw [List.reverse_append, List.reverse_singleton, List.singleton_append] at hjoined ⊢
    exact hk.joined hjoined
  | ignored name start _ ih =>
    rw [List.forall_mem_append] at ht
    exact ih ht.1

lemma parse_kept {P : List Node → Prop} (hk : Builder.Kept P) (source : Text) :
    P (parse source).reverse :=
  (buildTree_reads _ _).kept hk (Lexer.tokensFrom_isRead _ _ _ _)

mutual

def Node.IsRead : Node → Prop
  | .element name attributes children _ => StartTag name attributes ∧ AreRead children
  | .text content _ => content ≠ []
  | .placeholder _ _ _ | .code _ => False
  | .comment _ _ | .doctype _ | .instruction _ _ => True

def AreRead : List Node → Prop
  | [] => True
  | node :: rest => node.IsRead ∧ AreRead rest

end

lemma areRead_iff {nodes : List Node} : AreRead nodes ↔ ∀ node ∈ nodes, node.IsRead := by
  induction nodes with
  | nil => simp [AreRead]
  | cons node rest ih => simp [AreRead, ih]

lemma parse_isRead (source : Text) : AreRead (parse source) := by
  have hk : Builder.Kept fun nodes => ∀ node ∈ nodes, node.IsRead := by
    refine ⟨by simp, ?_, ?_, ?_, ?_, ?_, ?_⟩
    · intro name attributes children siblings line htag _ hc hs
      exact List.forall_mem_cons.mpr ⟨⟨htag, areRead_iff.mpr (by simpa using hc)⟩, hs⟩
    · exact fun hc _ hs => List.forall_mem_cons.mpr ⟨hc, hs⟩
    · intro before content line others hs
      obtain ⟨hb, ho⟩ := List.forall_mem_cons.mp hs
      exact List.forall_mem_cons.mpr ⟨List.append_ne_nil_of_left_ne_nil hb content, ho⟩
    · exact fun hs => List.forall_mem_cons.mpr ⟨trivial, hs⟩
    · exact fun hs => List.forall_mem_cons.mpr ⟨trivial, hs⟩
    · exact fun hs => List.forall_mem_cons.mpr ⟨trivial, hs⟩
  rw [areRead_iff]
  intro node hm
  exact parse_kept hk source node (List.mem_reverse.mpr hm)

lemma AreRead.areWritten {nodes : List Node} : AreRead nodes → areWritten nodes = true := by
  induction nodes using siblings_induction with
  | nil => exact fun _ => rfl
  | cons node rest ihc ih =>
    rintro ⟨hnode, hrest⟩
    rw [Markup.areWritten, ih hrest, Bool.and_true]
    cases node with
    | element name attributes children line =>
      rw [Node.isWritten, List.all_eq_true.mpr hnode.1.literal]
      exact ihc hnode.2
    | placeholder | code => exact hnode.elim
    | text | comment | doctype | instruction => rfl

lemma parse_isWritten (source : Text) : areWritten (parse source) = true :=
  (parse_isRead source).areWritten

def AttributeValue.isPrintable : AttributeValue → Bool
  | .text _ | .code _ => true
  | .expression _ => false

mutual

def Node.isPrintable : Node → Bool
  | .element _ attributes children _ =>
    attributes.all (fun a => a.value.isPrintable) && arePrintable children
  | .placeholder _ _ _ => false
  | .text _ _ | .comment _ _ | .doctype _ | .instruction _ _ | .code _ => true

def arePrintable : List Node → Bool
  | [] => true
  | node :: rest => node.isPrintable && arePrintable rest

end

lemma arePrintable_append (as bs : List Node) :
    arePrintable (as ++ bs) = (arePrintable as && arePrintable bs) := by
  induction as with
  | nil => rfl
  | cons a as ih => simp only [List.cons_append, arePrintable, ih, Bool.and_assoc]

end Stencil.Markup

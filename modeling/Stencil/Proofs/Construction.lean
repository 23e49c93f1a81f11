import Stencil.Proofs.Outline
import Stencil.Proofs.Passages
import Mathlib.Data.List.Forall2
import Mathlib.Tactic.Common

namespace Stencil.Markup

namespace Token

def isNode : Token → Bool
  | .startTag .. | .comment .. | .doctype _ => true
  | .endTag .. | .text .. => false

def content : Token → Text
  | .text content _ => content
  | .startTag .. | .endTag .. | .comment .. | .doctype _ => []

def marks (lines : LineIndex) : Token → List Mark
  | .startTag tag start => [.start tag.name tag.written (lines.line start)]
  | .endTag .. => []
  | .text content _ => content.map .char
  | .comment content start =>
    [.placed (if content.head? = some '?' then .instruction content (lines.line start)
      else .comment content (lines.line start))]
  | .doctype name => [.placed (.doctype name)]

end Token

mutual

def Node.preorder : Node → List Node
  | .element name attributes children line =>
    .element name attributes children line :: preorder children
  | .placeholder id kind children => .placeholder id kind children :: preorder children
  | .text _ _ => []
  | node => [node]

def preorder : List Node → List Node
  | [] => []
  | node :: rest => node.preorder ++ preorder rest

end

@[simp] lemma preorder_append (as bs : List Node) :
    preorder (as ++ bs) = preorder as ++ preorder bs := by
  induction as with
  | nil => rfl
  | cons node as ih => rw [List.cons_append, preorder, preorder, ih, List.append_assoc]

namespace Makes

variable {lines : LineIndex} {token : Token} {node : Node}

lemma isNode (h : Makes lines token node) : token.isNode = true := by
  cases h <;> rfl

lemma content (h : Makes lines token node) : token.content = [] := by
  cases h <;> rfl

lemma preorder_eq (h : Makes lines token node) :
    preorder [node] = node :: preorder node.children := by
  cases h <;> simp [preorder, Node.preorder, Node.children]

lemma texts_eq (h : Makes lines token node) : texts [node] = texts node.children := by
  cases h <;> simp [texts, Node.texts, Node.children]

lemma outline_eq (h : Makes lines token node) :
    (outline Node.text? [node]).filter (!·.isStop) =
      token.marks lines ++ (outline Node.text? node.children).filter (!·.isStop) := by
  cases h with
  | element => simp [outline, Node.outline, Node.children, Token.marks, Mark.isStop]
  | comment content start h =>
    simp [outline, Node.outline, Node.mark, Node.text?, Node.children, Token.marks, Mark.isStop, h]
  | instruction content start h =>
    simp [outline, Node.outline, Node.mark, Node.text?, Node.children, Token.marks, Mark.isStop, h]
  | doctype =>
    simp [outline, Node.outline, Node.mark, Node.text?, Node.children, Token.marks, Mark.isStop]

lemma text?_eq (h : Makes lines token node) : node.text? = none := by
  cases h <;> rfl

lemma isApart_eq (h : Makes lines token node) :
    node.isApart Node.text? = areApart Node.text? node.children := by
  cases h <;> rfl

lemma void_empty (h : Makes lines token node) :
    ∀ name attributes children line, node = .element name attributes children line →
      isVoid name = true → children = [] := by
  rintro name attributes children line rfl hvoid
  cases h with
  | element tag start children hchildren => exact hchildren (by simp [Tag.isWhole, hvoid])

end Makes

namespace Reads

variable {lines : LineIndex} {tokens : List Token} {nodes : List Node}

lemma preorder_made (h : Reads lines tokens nodes) :
    List.Forall₂ (Makes lines) (tokens.filter Token.isNode) (preorder nodes) := by
  induction h with
  | nil => exact .nil
  | node _ hmakes _ ih ihc =>
    rw [List.filter_append, List.filter_cons_of_pos hmakes.isNode, preorder_append,
      hmakes.preorder_eq]
    exact List.rel_append ih (.cons hmakes ihc)
  | text content start _ _ ih => simpa [preorder, Node.preorder, Token.isNode] using ih
  | joined content start _ ih => simpa [preorder, Node.preorder, Token.isNode] using ih
  | ignored name start _ ih => simpa [Token.isNode] using ih

lemma texts_eq (h : Reads lines tokens nodes) :
    (texts nodes).flatMap Prod.fst = tokens.flatMap Token.content := by
  induction h with
  | nil => rfl
  | node _ hmakes _ ih ihc =>
    simp [ih, ihc, hmakes.texts_eq, hmakes.content]
  | text content start _ _ ih => simp [texts, Node.texts, Token.content, ih]
  | joined content start _ ih =>
    simp only [texts_append, List.flatMap_append] at ih ⊢
    rw [← ih]
    simp [texts, Node.texts, Token.content]
  | ignored name start _ ih => simp [Token.content, ih]

lemma outline_eq (h : Reads lines tokens nodes) :
    (outline Node.text? nodes).filter (!·.isStop) = tokens.flatMap (Token.marks lines) := by
  have hchars : ∀ content : Text, (content.map Mark.char).filter (!·.isStop) = content.map .char :=
    fun content => List.filter_eq_self.mpr (by simp [Mark.isStop])
  induction h with
  | nil => rfl
  | node _ hmakes _ ih ihc =>
    simp only [outline_append, List.filter_append, List.flatMap_append, List.flatMap_cons, ih, ihc,
      hmakes.outline_eq]
  | text content start _ _ ih =>
    simp [outline, Node.outline, Node.mark, Node.text?, Token.marks, hchars, ih]
  | joined content start _ ih =>
    simp only [outline_append, List.filter_append, List.flatMap_append] at ih ⊢
    rw [← ih]
    simp [outline, Node.outline, Node.mark, Node.text?, Token.marks, hchars]
  | ignored name start _ ih => simp [Token.marks, ih]

lemma areApart_eq (h : Reads lines tokens nodes) : areApart Node.text? nodes = true := by
  induction h with
  | nil => rfl
  | node _ hmakes _ ih ihc =>
    exact areApart_concat.mpr ⟨ih, hmakes.isApart_eq.trans ihc, fun _ _ _ => hmakes.text?_eq⟩
  | text content start _ hlast ih =>
    refine areApart_concat.mpr ⟨ih, rfl, fun last hmem hsome => ?_⟩
    rw [hlast last hmem] at hsome
    cases hsome
  | joined content start _ ih =>
    obtain ⟨hnodes, -, hlast⟩ := areApart_concat.mp ih
    refine areApart_concat.mpr ⟨hnodes, rfl, fun last hmem hsome => ?_⟩
    cases hlast last hmem hsome
  | ignored name start _ ih => exact ih

end Reads

/-- The tokens write the trees out: a start tag, what is inside and the end tag; a tag alone where the
element is complete with it. -/
inductive Flattens (lines : LineIndex) : List Node → List Token → Prop
  | nil : Flattens lines [] []
  | text {rest : List Node} {ts : List Token} (content : Text) (start : Nat) :
    Flattens lines rest ts →
      Flattens lines (.text content (lines.line start) :: rest) (.text content start :: ts)
  | whole {node : Node} {rest : List Node} {t : Token} {ts : List Token} : Makes lines t node →
    t.opens = false → Flattens lines rest ts → Flattens lines (node :: rest) (t :: ts)
  | element {children rest : List Node} {inner ts : List Token} (tag : Tag) (start stop : Nat) :
    tag.isWhole = false → Flattens lines children inner → Flattens lines rest ts →
      Flattens lines (.element tag.name tag.written children (lines.line start) :: rest)
        (.startTag tag start :: inner ++ .endTag tag.name stop :: ts)

lemma startsInKind_text (nodes : List Node) :
    startsInKind Node.text? nodes = startsWithText nodes := by
  cases nodes with
  | nil => rfl
  | cons node rest => cases node <;> rfl

lemma Builder.mapSiblings_add (node : Node) (rest : List Node) (b : Builder) :
    (b.add node).mapSiblings (rest.reverse ++ ·) = b.mapSiblings ((node :: rest).reverse ++ ·) := by
  rw [Builder.add, Builder.mapSiblings_mapSiblings]
  simp only [List.reverse_cons, List.append_assoc, List.singleton_append]

lemma Flattens.foldl {lines : LineIndex} {nodes : List Node} {tokens : List Token}
    (h : Flattens lines nodes tokens) (hapart : areApart Node.text? nodes = true) (b : Builder)
    (hb : startsWithText nodes = true → startsWithText b.siblings = false) :
    tokens.foldl (Builder.step lines) b = b.mapSiblings (nodes.reverse ++ ·) := by
  induction h generalizing b with
  | nil =>
    obtain ⟨elements, roots⟩ := b
    cases elements <;> rfl
  | text content start _ ih =>
    simp only [areApart, Node.text?, startsInKind_text, Bool.and_eq_true] at hapart
    obtain ⟨⟨-, hnext⟩, hrest⟩ := hapart
    have hadd : b.step lines (.text content start) = b.add (.text content (lines.line start)) :=
      Builder.addText_apart (hb rfl) _ _
    rw [List.foldl_cons, hadd, ih hrest, Builder.mapSiblings_add]
    intro htext
    simp [htext] at hnext
  | whole hmakes hwhole _ ih =>
    rw [areApart, Bool.and_eq_true] at hapart
    rw [List.foldl_cons, hmakes.step_eq hwhole, ih hapart.2, Builder.mapSiblings_add]
    intro _
    rw [Builder.add, Builder.siblings_mapSiblings]
    cases hmakes <;> rfl
  | element tag start stop hopen _ _ ihc ih =>
    simp only [areApart, Node.isApart, Bool.and_eq_true] at hapart
    rw [List.cons_append, List.foldl_cons, Builder.step_open hopen, List.foldl_append,
      ihc hapart.1.1 _ fun _ => rfl, List.foldl_cons, Builder.step, Builder.closeNamed_openElement,
      ih hapart.2, Builder.mapSiblings_add]
    intro _
    rw [Builder.add, Builder.siblings_mapSiblings]
    rfl

lemma Flattens.buildTree_eq {lines : LineIndex} {nodes : List Node} {tokens : List Token}
    (h : Flattens lines nodes tokens) (hapart : areApart Node.text? nodes = true) :
    buildTree lines tokens = nodes := by
  rw [buildTree, h.foldl hapart .empty fun _ => rfl]
  simp [Builder.mapSiblings, Builder.empty, Builder.finish, Builder.closeElements]

/-- Reading loses and reorders nothing, whatever the tokens are: their nodes and their text come in
document order, text is nowhere cut in two, elements that are complete with their tag are empty, and a
tree that is written out is read as that tree. -/
theorem buildTree_faithful (lines : LineIndex) (tokens : List Token) :
    List.Forall₂ (Makes lines) (tokens.filter Token.isNode) (preorder (buildTree lines tokens)) ∧
      (texts (buildTree lines tokens)).flatMap Prod.fst = tokens.flatMap Token.content ∧
      (outline Node.text? (buildTree lines tokens)).filter (!·.isStop) =
        tokens.flatMap (Token.marks lines) ∧
      areApart Node.text? (buildTree lines tokens) = true ∧
      (∀ name attributes children line,
        .element name attributes children line ∈ preorder (buildTree lines tokens) →
          isVoid name = true → children = []) ∧
      ∀ nodes, areApart Node.text? nodes = true → Flattens lines nodes tokens →
        buildTree lines tokens = nodes := by
  have hreads := buildTree_reads lines tokens
  have hempty := ((List.forall₂_and_left _ _).mp
    (hreads.preorder_made.flip.imp fun _ _ hmakes => ⟨hmakes.void_empty, hmakes⟩)).1
  exact ⟨hreads.preorder_made, hreads.texts_eq, hreads.outline_eq, hreads.areApart_eq,
    fun _ _ _ _ hmem => hempty _ hmem _ _ _ _ rfl, fun nodes hapart h => h.buildTree_eq hapart⟩

def listTag : Tag := ⟨"ul".toList, [("id".toList, "a".toList)], false⟩

def itemTag : Tag := ⟨"li".toList, [], false⟩

def breakTag : Tag := ⟨"br".toList, [], false⟩

def listTokens : List Token :=
  [.doctype "html".toList, .startTag listTag 15,
   .startTag itemTag 29, .text "x".toList 33, .startTag breakTag 34, .text "y".toList 38,
   .endTag "li".toList 39, .comment "?php".toList 44, .endTag "ul".toList 50]

def listTree : List Node :=
  [.doctype "html".toList,
   .element "ul".toList [⟨"id".toList, .text "a".toList⟩]
     [.element "li".toList []
        [.text "x".toList 2, .element "br".toList [] [] 2, .text "y".toList 2] 2,
      .instruction "?php".toList 2] 1]

theorem buildTree_faithful_list :
    areApart Node.text? listTree = true ∧ Flattens ⟨[0, 29]⟩ listTree listTokens ∧
      buildTree ⟨[0, 29]⟩ listTokens = listTree := by
  have hitem : Flattens ⟨[0, 29]⟩
      [.text "x".toList 2, .element "br".toList [] [] 2, .text "y".toList 2]
      [.text "x".toList 33, .startTag breakTag 34, .text "y".toList 38] :=
    .text _ 33 (.whole (.element breakTag 34 [] fun _ => rfl) rfl (.text _ 38 .nil))
  have hlist : Flattens ⟨[0, 29]⟩ listTree listTokens :=
    .whole (.doctype _) rfl (.element listTag 15 50 rfl (.element itemTag 29 39 rfl hitem
      (.whole (.instruction "?php".toList 44 rfl) rfl .nil)) .nil)
  exact ⟨rfl, hlist, (buildTree_faithful _ _).2.2.2.2.2 _ rfl hlist⟩

end Stencil.Markup

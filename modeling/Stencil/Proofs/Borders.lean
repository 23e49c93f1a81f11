import Stencil.Proofs.Outline
import Stencil.Proofs.Stream
import Mathlib.Tactic.Common

/-! Merging takes away the borders between code and code, and nothing else. -/

namespace Stencil.Template

open Markup

inductive Piece where
  | markup (content : Text)
  | border
  deriving DecidableEq, Repr

namespace Piece

def text : Piece → Text
  | .markup content => content
  | .border => codeClose ++ codeOpen

def isBorder : Piece → Bool
  | .markup _ => false
  | .border => true

def print (ps : List Piece) : Text :=
  ps.flatMap text

def printWithoutBorders (ps : List Piece) : Text :=
  print (ps.filter (!·.isBorder))

@[simp] lemma print_nil : print [] = [] := rfl

@[simp] lemma printWithoutBorders_nil : printWithoutBorders [] = [] := rfl

@[simp] lemma print_append (ps qs : List Piece) : print (ps ++ qs) = print ps ++ print qs :=
  List.flatMap_append

@[simp] lemma print_markup (content : Text) (ps : List Piece) :
    print (.markup content :: ps) = content ++ print ps := rfl

@[simp] lemma printWithoutBorders_append (ps qs : List Piece) :
    printWithoutBorders (ps ++ qs) = printWithoutBorders ps ++ printWithoutBorders qs := by
  simp [printWithoutBorders]

@[simp] lemma printWithoutBorders_markup (content : Text) (ps : List Piece) :
    printWithoutBorders (.markup content :: ps) = content ++ printWithoutBorders ps := rfl

@[simp] lemma printWithoutBorders_border (ps : List Piece) :
    printWithoutBorders (.border :: ps) = printWithoutBorders ps := rfl

end Piece

def seam : (before after : Bool) → List Piece
  | true, true => [.border]
  | true, false => [.markup codeClose]
  | false, true => [.markup codeOpen]
  | false, false => []

def startText (name : Text) (attributes : List Attribute) : Text :=
  '<' :: name ++ (printAttributes? attributes).getD [] ++ ['>']

mutual

def cutNode (raw : Bool) : Node → List Piece
  | .element name attributes children _ =>
    if isVoid name then [.markup (startText name attributes)]
    else .markup (startText name attributes) :: cut (isRawText name) false children ++
      [.markup (endTag name)]
  | .code content => [.markup content]
  | node => [.markup ((node.print? raw).getD [])]

/-- The print of siblings, cut at the borders; `inside` says whether code stands right before them. -/
def cut (raw inside : Bool) : List Node → List Piece
  | [] => seam inside false
  | node :: rest =>
    seam inside node.code?.isSome ++ cutNode raw node ++ cut raw node.code?.isSome rest

end

lemma mergeNode_code? (node : Node) : (mergeNode node).code? = node.code? := by
  cases node <;> rfl

lemma merge_code (content : Text) (rest : List Node) :
    merge (.code content :: rest) = mergeInto (.code content) (merge rest) := rfl

lemma mergeInto_code_code (first second : Text) (rest : List Node) :
    mergeInto (.code first) (mergeInto (.code second) rest) =
      mergeInto (.code (first ++ second)) rest := by
  cases rest with
  | nil => rfl
  | cons node rest => cases node <;> simp [mergeInto]

lemma mergeInto_other {node : Node} (h : node.code? = none) (rest : List Node) :
    mergeInto node rest = node :: rest := by
  cases node with
  | code content => cases h
  | _ => rfl

lemma mergeInto_before_other {node : Node} (h : node.code? = none) (content : Text)
    (rest : List Node) : mergeInto (.code content) (node :: rest) = .code content :: node :: rest := by
  cases node with
  | code content => cases h
  | _ => rfl

lemma outline_merge (nodes : List Node) :
    outline Node.code? (merge nodes) = outline Node.code? nodes := by
  have hinto : ∀ node rest, outline Node.code? (mergeInto node rest) =
      node.outline Node.code? ++ outline Node.code? rest := by
    intro node rest
    unfold mergeInto
    split <;> simp [outline, Node.outline, Node.mark, Node.code?]
  induction nodes using siblings_induction with
  | nil => rfl
  | cons node rest ihc ih =>
    rw [merge, hinto, ih, outline]
    cases node with
    | element name attributes children line =>
      rw [Node.children] at ihc
      rw [mergeNode, Node.outline, Node.outline, ihc]
    | _ => rfl

lemma merge_areApart {nodes : List Node} :
    arePrintable nodes = true → areApart Node.code? (merge nodes) = true := by
  have hinto : ∀ node rest, node.isApart Node.code? = true → areApart Node.code? rest = true →
      areApart Node.code? (mergeInto node rest) = true := by
    intro node rest hnode hrest
    cases hcode : node.code? with
    | none => simp [mergeInto_other hcode, areApart, hcode, hnode, hrest]
    | some content =>
      cases node with
      | code content =>
        cases rest with
        | nil => rfl
        | cons next others =>
          cases next <;> simp_all [mergeInto, areApart, Node.isApart, Node.code?, startsInKind]
      | _ => cases hcode
  induction nodes using siblings_induction with
  | nil => exact fun _ => rfl
  | cons node rest ihc ih =>
    intro h
    simp only [arePrintable, Bool.and_eq_true] at h
    refine hinto _ _ ?_ (ih h.2)
    have hself := h.1
    cases node with
    | element name attributes children line =>
      rw [Node.isPrintable, Bool.and_eq_true] at hself
      exact ihc hself.2
    | placeholder => cases hself
    | text | comment | doctype | instruction | code => rfl

lemma merge_of_areApart {nodes : List Node} :
    areApart Node.code? nodes = true → merge nodes = nodes := by
  induction nodes using siblings_induction with
  | nil => exact fun _ => rfl
  | cons node rest ihc ih =>
    intro h
    simp only [areApart, Bool.and_eq_true] at h
    obtain ⟨⟨hself, hborder⟩, hrest⟩ := h
    rw [merge, ih hrest]
    cases node with
    | element name attributes children line =>
      have hchildren := ihc hself
      rw [Node.children] at hchildren
      rw [mergeNode, hchildren]
      rfl
    | code content =>
      cases rest with
      | nil => rfl
      | cons next others => cases next <;> first | rfl | simp [Node.code?, startsInKind] at hborder
    | _ => rfl

lemma print_startText {attributes : List Attribute} {children : List Node} {inner : Text}
    (ha : (attributes.all fun a => a.value.isPrintable) = true) {name : Text}
    (hinner : Node.printAll? (isRawText name) children = some inner) (raw : Bool) (line : Nat) :
    Node.print? raw (.element name attributes children line) =
      some (if isVoid name then startText name attributes
        else startText name attributes ++ inner ++ endTag name) := by
  have hprinted := printAttributes_chunks ha
  cases hvoid : isVoid name <;> simp [Node.print?, startText, endTag, hprinted, hinner, hvoid]

lemma print_cutNode {node : Node} (hp : node.isPrintable = true) (hc : node.code? = none)
    (hi : ∀ raw, arePrintable node.children = true →
      Node.printAll? raw node.children = some (Piece.print (cut raw false node.children)))
    (raw : Bool) : node.print? raw = some (Piece.print (cutNode raw node)) := by
  cases node with
  | element name attributes children line =>
    rw [Node.isPrintable, Bool.and_eq_true] at hp
    have hinner : Node.printAll? (isRawText name) children = _ := hi _ hp.2
    rw [print_startText hp.1 hinner, cutNode]
    split <;> simp [Node.children]
  | placeholder => cases hp
  | code => cases hc
  | text | comment | doctype | instruction => simp [cutNode, Node.print?]

lemma print_mergeNode {node : Node} (hp : node.isPrintable = true) (hc : node.code? = none)
    (hi : ∀ raw, arePrintable node.children = true →
      Node.printAll? raw (merge node.children) =
        some (Piece.printWithoutBorders (cut raw false node.children)))
    (raw : Bool) :
    (mergeNode node).print? raw = some (Piece.printWithoutBorders (cutNode raw node)) := by
  cases node with
  | element name attributes children line =>
    rw [Node.isPrintable, Bool.and_eq_true] at hp
    have hinner : Node.printAll? (isRawText name) (merge children) = _ := hi _ hp.2
    rw [mergeNode, print_startText hp.1 hinner, cutNode]
    split <;> simp [Node.children]
  | placeholder => cases hp
  | code => cases hc
  | text | comment | doctype | instruction => simp [mergeNode, cutNode, Node.print?]

lemma print_cut_inside (raw : Bool) (nodes : List Node) :
    Piece.print (cut raw true nodes) = codeClose ++ Piece.print (cut raw false nodes) := by
  have hseam : ∀ after, Piece.print (seam true after) = codeClose ++ Piece.print (seam false after) := by
    rintro (- | -) <;> simp [seam, Piece.print, Piece.text]
  cases nodes with
  | nil => exact hseam false
  | cons node rest => simp [cut, hseam]

lemma print_cut {nodes : List Node} : ∀ raw, arePrintable nodes = true →
    Node.printAll? raw nodes = some (Piece.print (cut raw false nodes)) := by
  induction nodes using siblings_induction with
  | nil => exact fun _ _ => rfl
  | cons node rest ihc ih =>
    intro raw h
    simp only [arePrintable, Bool.and_eq_true] at h
    cases hcode : node.code? with
    | none =>
      simp [Node.printAll?, cut, hcode, seam, print_cutNode h.1 hcode ihc, ih raw h.2]
    | some content =>
      cases node with
      | code =>
        simp [Node.printAll?, Node.print?, cut, cutNode, hcode, seam, print_cut_inside, ih raw h.2]
      | _ => cases hcode

lemma print_merge {nodes : List Node} : ∀ raw, arePrintable nodes = true →
    Node.printAll? raw (merge nodes) = some (Piece.printWithoutBorders (cut raw false nodes)) ∧
      ∀ content, Node.printAll? raw (mergeInto (.code content) (merge nodes)) =
        some (codeOpen ++ content ++ Piece.printWithoutBorders (cut raw true nodes)) := by
  induction nodes using siblings_induction with
  | nil =>
    refine fun raw _ => ⟨rfl, fun content => ?_⟩
    simp [merge, mergeInto, Node.printAll?, Node.print?, cut, seam]
  | cons node rest ihc ih =>
    intro raw h
    simp only [arePrintable, Bool.and_eq_true] at h
    obtain ⟨hmerged, hjoined⟩ := ih raw h.2
    cases hcode : node.code? with
    | none =>
      have hnone : (mergeNode node).code? = none := (mergeNode_code? node).trans hcode
      have hnode := print_mergeNode h.1 hcode (fun raw hp => (ihc raw hp).1) raw
      rw [merge, mergeInto_other hnone]
      refine ⟨?_, fun content => ?_⟩
      · simp [Node.printAll?, cut, hcode, seam, hnode, hmerged]
      · rw [mergeInto_before_other hnone]
        simp [Node.printAll?, Node.print?, cut, hcode, seam, hnode, hmerged]
    | some first =>
      cases node with
      | code =>
        rw [merge_code]
        refine ⟨?_, fun content => ?_⟩
        · simp [hjoined, cut, cutNode, hcode, seam]
        · rw [mergeInto_code_code, hjoined]
          simp [cut, cutNode, hcode, seam]
      | _ => cases hcode

/-- Merging keeps all of a tree but the borders between code and code: none is left at any depth, and
the print is the same without them. -/
theorem merge_removes_borders {nodes : List Node} (h : arePrintable nodes = true) :
    areApart Node.code? (merge nodes) = true ∧ merge (merge nodes) = merge nodes ∧
      outline Node.code? (merge nodes) = outline Node.code? nodes ∧
      print? nodes = some (Piece.print (cut false false nodes)) ∧
      print? (merge nodes) = some (Piece.printWithoutBorders (cut false false nodes)) ∧
      Piece.border.text = "?><?php ".toList := by
  have hapart := merge_areApart h
  exact ⟨hapart, merge_of_areApart hapart, outline_merge nodes, print_cut false h,
    (print_merge false h).1, rfl⟩

def nestedCode : List Node :=
  [.code "if($a)\x7b".toList, .code "foreach($b as $c)\x7b".toList,
   .element "li".toList [⟨"id".toList, .code "echo 1;".toList⟩]
     [.text "&".toList 3, .code "echo 2;".toList, .code [], .code "echo 3;".toList,
      .element "br".toList [] [.code "a".toList, .code "b".toList] 4] 2,
   .code "\x7d".toList, .code "\x7d".toList,
   .element "script".toList [] [.code "c".toList, .text "<".toList 5, .code "d".toList] 5]

theorem merge_removes_borders_nested :
    arePrintable nestedCode = true ∧
      print? (merge nestedCode) = some ("<?php if($a)\x7bforeach($b as $c)\x7b?>".toList ++
        "<li id=\"<?php echo 1; ?>\">&amp;<?php echo 2;echo 3;?><br></li>".toList ++
        "<?php \x7d\x7d?><script><?php c?><<?php d?></script>".toList) := by
  have hprintable : arePrintable nestedCode = true := rfl
  refine ⟨hprintable, (merge_removes_borders hprintable).2.2.2.2.1.trans ?_⟩
  decide +kernel

end Stencil.Template

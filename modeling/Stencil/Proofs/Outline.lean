import Stencil.Proofs.Tree
import Mathlib.Tactic.Common

/-! All of a tree in document order, without the borders between nodes of a kind. -/

namespace Stencil.Markup

def Node.code? : Node → Option Text
  | .code content => some content
  | .element .. | .text .. | .comment .. | .doctype _ | .instruction .. | .placeholder .. => none

inductive Mark where
  | start (name : Text) (attributes : List Attribute) (line : Nat)
  | stop
  | placed (node : Node)
  | char (c : Char)

def Mark.isStop : Mark → Bool
  | .stop => true
  | .start .. | .placed _ | .char _ => false

section

-- The content of the nodes of a kind; the other nodes have none.
variable (content? : Node → Option Text)

def Node.mark (node : Node) : List Mark :=
  (content? node).elim [.placed node] (List.map .char)

mutual

def Node.outline : Node → List Mark
  | .element name attributes children line => .start name attributes line :: outline children ++ [.stop]
  | .placeholder id kind children => .placed (.placeholder id kind []) :: outline children ++ [.stop]
  | node => node.mark content?

def outline : List Node → List Mark
  | [] => []
  | node :: rest => node.outline ++ outline rest

end

def startsInKind (nodes : List Node) : Bool :=
  nodes.head?.any fun node => (content? node).isSome

mutual

def Node.isApart : Node → Bool
  | .element _ _ children _ => areApart children
  | .placeholder _ _ children => areApart children
  | .text .. | .comment .. | .doctype _ | .instruction .. | .code _ => true

def areApart : List Node → Bool
  | [] => true
  | node :: rest =>
    node.isApart && !((content? node).isSome && startsInKind content? rest) && areApart rest

end

variable {content? : Node → Option Text}

@[simp] lemma outline_append (as bs : List Node) :
    outline content? (as ++ bs) = outline content? as ++ outline content? bs := by
  induction as with
  | nil => rfl
  | cons node as ih => rw [List.cons_append, outline, outline, ih, List.append_assoc]

lemma startsInKind_append {as : List Node} (h : as ≠ []) (bs : List Node) :
    startsInKind content? (as ++ bs) = startsInKind content? as := by
  cases as with
  | nil => exact absurd rfl h
  | cons node as => rfl

lemma areApart_concat {nodes : List Node} {node : Node} :
    areApart content? (nodes ++ [node]) = true ↔
      areApart content? nodes = true ∧ node.isApart content? = true ∧
        ∀ last ∈ nodes.getLast?, (content? last).isSome = true → content? node = none := by
  induction nodes with
  | nil => simp [areApart, startsInKind]
  | cons first rest ih =>
    rw [List.cons_append, areApart, areApart, Bool.and_eq_true, Bool.and_eq_true, Bool.and_eq_true,
      Bool.and_eq_true, ih]
    cases rest with
    | nil =>
      cases hfirst : (content? first).isSome with
      | false => simp [areApart, startsInKind, hfirst]
      | true =>
        rw [and_assoc, and_assoc]
        simp [areApart, startsInKind, hfirst, and_comm]
    | cons second others =>
      rw [startsInKind_append (List.cons_ne_nil _ _), List.getLast?_cons_cons]
      simp only [and_assoc]

end

end Stencil.Markup

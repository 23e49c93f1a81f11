import Stencil.Proofs.References
import Mathlib.Tactic.Common

namespace Stencil.Markup

def PlaceholderKind.followsBranch (kind : PlaceholderKind) : Bool :=
  kind == .alternative || kind == .otherwise

def Node.isBranch : Node → Bool
  | .placeholder _ kind _ => kind.continuesChain
  | _ => false

end Stencil.Markup

namespace Stencil.Template

open Markup Outcome

mutual

def nodeChained (after : Bool) : Node → Bool
  | .placeholder _ kind children => (!kind.followsBranch || after) && chained false children
  | .element _ _ children _ => chained false children
  | .text _ _ | .comment _ _ | .doctype _ | .instruction _ _ | .code _ => true

/-- Every alternative comes right after a branch; `after` says that one stands before the siblings. -/
def chained (after : Bool) : List Node → Bool
  | [] => true
  | node :: rest => nodeChained after node && chained node.isBranch rest

end

lemma chained_append_single (after : Bool) (as : List Node) (node : Node) :
    chained after (as ++ [node]) =
      (chained after as && nodeChained (as.getLast?.elim after Node.isBranch) node) := by
  induction as generalizing after with
  | nil => simp [chained]
  | cons a as ih =>
    rw [List.cons_append, chained, chained, ih, Bool.and_assoc, List.getLast?_cons]
    cases as.getLast? <;> rfl

lemma chained_concat (node : Node) (done : List Node) :
    chained false (node :: done).reverse =
      (chained false done.reverse && nodeChained (done.head?.any Node.isBranch) node) := by
  rw [List.reverse_cons, chained_append_single, List.getLast?_reverse]
  cases done.head? <;> rfl

lemma chained_dropWhile {done : List Node} (h : chained false done.reverse = true) :
    chained false (done.dropWhile Node.isBlankText).reverse = true := by
  induction done with
  | nil => exact h
  | cons node done ih =>
    by_cases hb : node.isBlankText = true
    · rw [chained_concat, Bool.and_eq_true] at h
      rw [List.dropWhile_cons_of_pos hb]
      exact ih h.1
    · rwa [List.dropWhile_cons_of_neg hb]

lemma read_chained {nodes : List Node} : ∀ {after : Bool}, AreRead nodes → chained after nodes = true := by
  induction nodes using siblings_induction with
  | nil => exact fun _ => rfl
  | cons node rest ihc ih =>
    rintro after ⟨hnode, hrest⟩
    rw [chained, ih hrest, Bool.and_true]
    cases node with
    | element name attributes children line => exact ihc hnode.2
    | placeholder | code => exact hnode.elim
    | text | comment | doctype | instruction => rfl

section

variable {o : Options}

lemma addText_chained {content : Text} {line : Nat} {done : List Node}
    (h : chained false done.reverse = true) :
    chained false (Resolve.addText content line done).reverse = true := by
  rw [Resolve.addText]
  split
  · exact h
  · rw [chained_concat, h]
    rfl

lemma text_chained {line : Nat} {content : Text} {done out : List Node} {t u : Table Fragment}
    (h : Resolve.text o line content done t = .ok (out, u)) (hd : chained false done.reverse = true) :
    chained false out.reverse = true := by
  replace h := text_splits h
  induction h with
  | plain => exact addText_chained hd
  | tag _ _ _ ih =>
    apply ih
    rw [chained_concat, addText_chained hd]
    rfl

lemma wrap_chained {done kept : List Node} {branch : Branch} {t u : Table Fragment}
    {conditional : Option (Nat × PlaceholderKind)} (ho : Opens o done t branch conditional kept u)
    (loop : Option Nat) {node : Node} (hd : chained false done.reverse = true)
    (hn : ∀ after, nodeChained after node = true) :
    chained false (Resolve.wrap conditional loop node :: kept).reverse = true := by
  have hloop : ∀ after, nodeChained after (Resolve.wrap none loop node) = true := by
    intro after
    cases loop with
    | none => exact hn after
    | some id =>
      change (true && (nodeChained false node && true)) = true
      rw [hn false]
      rfl
  have hbranch : ∀ id kind after, (kind.followsBranch = true → after = true) →
      nodeChained after (.placeholder id kind [Resolve.wrap none loop node]) = true := by
    intro id kind after hk
    rw [nodeChained, chained, hloop, chained]
    cases hf : kind.followsBranch with
    | false => rfl
    | true =>
      rw [hk hf]
      rfl
  rw [wrap_eq, chained_concat, Bool.and_eq_true]
  cases ho with
  | plain => exact ⟨hd, hloop _⟩
  | first => exact ⟨hd, hbranch _ _ _ (by rintro ⟨⟩)⟩
  | next hchain | last hchain =>
    obtain ⟨_, _, _, _, hk, hdrop⟩ := hchain
    refine ⟨chained_dropWhile hd, hbranch _ _ _ fun _ => ?_⟩
    rw [hdrop]
    exact hk

lemma nodes_chained (siblings : List Node) : AreRead siblings →
    ∀ {done out : List Node} {t u : Table Fragment},
      Resolve.nodes o done siblings t = .ok (out, u) → chained false done.reverse = true →
      chained false out = true := by
  induction siblings using siblings_induction with
  | nil =>
    intro _ done out t u h hd
    rw [Resolve.nodes] at h
    obtain ⟨rfl, -⟩ := pure_ok.mp h
    exact hd
  | cons node rest ihc ih =>
    rintro ⟨hnode, hrest⟩ done out t u h hd
    rw [Resolve.nodes] at h
    obtain ⟨after, t', hfirst, hothers⟩ := bind_ok.mp h
    apply ih hrest hothers
    cases node with
    | instruction content line =>
      rw [Resolve.node] at hfirst
      exact (fail_ok.mp hfirst).elim
    | comment content line | doctype name =>
      rw [Resolve.node] at hfirst
      obtain ⟨rfl, -⟩ := pure_ok.mp hfirst
      rw [chained_concat, hd]
      rfl
    | placeholder | code => exact hnode.elim
    | text content line =>
      rw [Resolve.node] at hfirst
      exact text_chained hfirst hd
    | element name attributes children line =>
      obtain ⟨conditional, kept, t₁, loop, t₂, bound, t₃, inner, hopens, -, -, hinner, rfl⟩ :=
        element_ok hfirst
      apply wrap_chained hopens loop hd
      intro after
      rw [nodeChained]
      split at hinner
      · obtain ⟨rfl, -⟩ := hinner
        exact read_chained hnode.2
      · exact ihc hnode.2 hinner rfl

end

def Role.suits : Role → Fragment → Bool
  | .placeholder .conditional, .ifOpen _ | .placeholder .alternative, .elseIfOpen _
  | .placeholder .otherwise, .elseOpen | .placeholder .loop, .foreachOpen _
  | .attribute _, .escapedEcho _ => true
  | .placeholder .tag, f => !(Command.fragment f).opensBlock
  | _, _ => false

section

variable {o : Options}

lemma tagSites_suit (tag : Tag) : ∀ s ∈ tagSites o tag, s.1.suits s.2 = true := by
  intro s hs
  rw [tagSites] at hs
  obtain ⟨f, hf, rfl⟩ := List.mem_map.mp hs
  replace hf := Option.mem_toList.mp hf
  cases ha : Expression.accept .tag (o.code tag.expression) with
  | error refusal =>
    rw [tagCode?, ha] at hf
    cases hf
  | ok e =>
    rw [tagCode?_eq ha] at hf
    simp [Role.suits, tagFragment_opensBlock hf]

lemma textSites_suit (content : Text) : ∀ s ∈ textSites o content, s.1.suits s.2 = true := by
  fun_induction textSites o content with
  | case1 content tag hn ih =>
    rw [List.forall_mem_append]
    exact ⟨tagSites_suit tag, ih⟩
  | case2 => simp

lemma sites_suit (nodes : List Node) : ∀ s ∈ sites o nodes, s.1.suits s.2 = true := by
  induction nodes using siblings_induction with
  | nil => simp [sites]
  | cons node rest ihc ih =>
    rw [sites, List.forall_mem_append]
    refine ⟨?_, ih⟩
    cases node with
    | element name attributes children line =>
      simp only [nodeSites, List.forall_mem_append]
      refine ⟨?_, ?_, ?_, ?_⟩
      · cases branchOf o (.element name attributes children line) <;>
          simp [branchSites, Role.suits]
      · intro s hs
        obtain ⟨raw, -, rfl⟩ := List.mem_map.mp hs
        rfl
      · intro s hs
        obtain ⟨bound, -, hs⟩ := List.mem_flatMap.mp hs
        obtain ⟨raw, -, rfl⟩ := List.mem_map.mp hs
        rfl
      · split
        · simp
        · exact ihc
    | text content line => exact textSites_suit content
    | comment | doctype | instruction | placeholder | code => simp [nodeSites]

lemma references_suit {c c' : Compiler} {source : Text} (h : c.parse source = (.ok (), c'))
    (hf : c'.table.Fits) : ∀ r ∈ references c'.document, ∀ f, c'.table.get? r.2 = some f →
      r.1.suits f = true := by
  obtain ⟨refs, hrefs, hissues⟩ := nodes_issue _ (parse_isRead source) (parse_resolve h)
  have hdocument : references c'.document = refs := hrefs
  have hfragments := hissues.fragments c'.table (List.prefix_refl _) hf
  intro r hr f hget
  rw [hdocument] at hr
  have hmem : (r.1, c'.table.get? r.2) ∈ (sites c.options (Markup.parse source)).map
      fun s => (s.1, some s.2) := by
    rw [← hfragments]
    exact List.mem_map_of_mem hr
  obtain ⟨s, hs, heq⟩ := List.mem_map.mp hmem
  rw [hget, Prod.mk.injEq, Option.some.injEq] at heq
  rw [← heq.1, ← heq.2]
  exact sites_suit _ s hs

end

end Stencil.Template

import Stencil.Proofs.Regions
import Mathlib.Data.List.Infix
import Mathlib.Tactic.Common

namespace Stencil.Template

open Markup Outcome

section

variable (o : Options)

def isInertName (name : Text) : Bool :=
  !o.directives.names.contains name && name.head? != some ':'

def isInertText (content : Text) : Bool :=
  !decide (['{', '{'] <:+: content) && !decide (['}', '}'] <:+: content)

mutual

def isInert : Node → Bool
  | .element _ attributes children _ =>
    attributes.all (fun a => isInertName o a.name) && areInert children
  | .text content _ => isInertText content
  | .instruction _ _ => false
  | .comment _ _ | .doctype _ | .placeholder _ _ _ | .code _ => true

/-- Whether no part of the siblings asks for code. -/
def areInert : List Node → Bool
  | [] => true
  | node :: rest => isInert node && areInert rest

end

end

section

variable {o : Options}

lemma takeAttribute_inert {name : Text} {attributes : List Attribute}
    (h : ∀ a ∈ attributes, isInertName o a.name = true) (hm : name ∈ o.directives.names) :
    takeAttribute name attributes = (none, attributes) := by
  have hnone : valueOf? name attributes = none := by
    rw [valueOf?, Option.map_eq_none_iff, List.find?_eq_none]
    intro a ha heq
    have hname := h a ha
    rw [eq_of_beq heq, isInertName, List.contains_iff_mem.mpr hm] at hname
    cases hname
  rw [takeAttribute_eq, hnone, without_eq_self hnone]

lemma binding?_inert {a : Attribute} (h : isInertName o a.name = true) :
    Resolve.binding? a = none := by
  rw [isInertName, Bool.and_eq_true] at h
  fun_cases Resolve.binding? a with
  | case1 name value hvalue hname =>
    rw [hname] at h
    cases h.2
  | case2 => rfl

lemma bindAttributes_inert (line : Nat) {bound rest : List Attribute}
    (h : ∀ a ∈ rest, isInertName o a.name = true)
    (hd : ((bound ++ rest).map Attribute.name).Nodup) :
    Resolve.bindAttributes o line bound rest = pure (bound ++ rest) := by
  induction rest generalizing bound with
  | nil => rw [Resolve.bindAttributes, List.append_nil]
  | cons a rest ih =>
    obtain ⟨ha, hrest⟩ := List.forall_mem_cons.mp h
    have hnew : ¬ (bound.any fun b => b.name == a.name) = true := by
      intro hany
      obtain ⟨b, hb, heq⟩ := List.any_eq_true.mp hany
      rw [List.map_append, List.map_cons, List.nodup_append] at hd
      exact hd.2.2 _ (List.mem_map_of_mem hb) _ (List.mem_cons_self ..) (eq_of_beq heq)
    rw [Resolve.bindAttributes, binding?_inert ha]
    dsimp only
    rw [if_neg hnew, ih hrest (by rwa [← List.append_cons]), ← List.append_cons]

lemma node_inert {name : Text} {attributes : List Attribute} (children done : List Node) (line : Nat)
    (h : ∀ a ∈ attributes, isInertName o a.name = true)
    (hd : (attributes.map Attribute.name).Nodup) :
    Resolve.node o done (.element name attributes children line) = (do
      let inner ← Resolve.nodes o [] children
      return .element name attributes inner line :: done) := by
  have htake : ∀ directive ∈ o.directives.names,
      takeAttribute directive attributes = (none, attributes) :=
    fun directive hm => takeAttribute_inert h hm
  simp only [Directives.names, List.forall_mem_cons] at htake
  obtain ⟨hif, helseIf, helse, hfor, hpre, -⟩ := htake
  rw [node_element]
  simp only [Resolve.ifDirective, hif, Resolve.elseIfDirective, helseIf, Resolve.elseDirective, helse,
    Resolve.forDirective, hfor, Resolve.preDirective, hpre, pure_bind, Bool.false_eq_true, if_false]
  rw [bindAttributes_inert line h (by rwa [List.nil_append]), List.nil_append, pure_bind]
  rfl

lemma nodes_inert (siblings : List Node) : AreRead siblings → areInert o siblings = true →
    ∀ done, Resolve.nodes o done siblings = pure (done.reverse ++ siblings) := by
  induction siblings using siblings_induction with
  | nil =>
    intro _ _ done
    rw [Resolve.nodes, List.append_nil]
  | cons node rest ihc ih =>
    rintro ⟨hread, hreadrest⟩ hinert done
    rw [areInert, Bool.and_eq_true] at hinert
    suffices hnode : Resolve.node o done node = pure (node :: done) by
      rw [Resolve.nodes, hnode, pure_bind, ih hreadrest hinert.2, List.reverse_cons, List.append_assoc,
        List.singleton_append]
    have hself := hinert.1
    cases node with
    | element name attributes children line =>
      rw [isInert, Bool.and_eq_true, List.all_eq_true] at hself
      rw [node_inert children done line hself.1 hread.1.distinct]
      have hchildren := ihc hread.2 hself.2 []
      rw [Node.children] at hchildren
      rw [hchildren, pure_bind]
      rfl
    | text content line =>
      simp only [isInert, isInertText, Bool.and_eq_true, Bool.not_eq_true', decide_eq_false_iff_not]
        at hself
      have hfilled : ¬ content.isEmpty = true := fun hempty => hread (List.isEmpty_iff.mp hempty)
      rw [Resolve.node, text_step, next?_unpaired hself.1 hself.2]
      dsimp only
      rw [Resolve.addText, if_neg hfilled]
    | instruction content line => cases hself
    | comment | doctype => rw [Resolve.node]
    | placeholder | code => exact hread.elim

end

lemma expandAttributes_written (table : Table Fragment) {attributes : List Attribute}
    (h : ∀ a ∈ attributes, a.value.isLiteral = true) :
    attributes.mapM (expandAttribute? table) = some attributes := by
  induction attributes with
  | nil => rfl
  | cons a rest ih =>
    obtain ⟨ha, hrest⟩ := List.forall_mem_cons.mp h
    have hself : expandAttribute? table a = some a := by
      obtain ⟨name, value⟩ := a
      cases value with
      | text content => rfl
      | expression | code => cases ha
    rw [List.mapM_cons, hself, ih hrest]
    rfl

lemma expand_written (table : Table Fragment) {nodes : List Node} : areWritten nodes = true →
    expand? table nodes = some nodes := by
  induction nodes using siblings_induction with
  | nil => exact fun _ => rfl
  | cons node rest ihc ih =>
    intro h
    rw [areWritten, Bool.and_eq_true] at h
    suffices hnode : expandNode? table node = some [node] by
      rw [expand?, hnode, ih h.2]
      rfl
    have hself := h.1
    cases node with
    | element name attributes children line =>
      rw [Node.isWritten, Bool.and_eq_true, List.all_eq_true] at hself
      have hchildren := ihc hself.2
      rw [Node.children] at hchildren
      rw [expandNode?, expandAttributes_written table hself.1, hchildren]
      rfl
    | placeholder | code => cases hself
    | text | comment | doctype | instruction => rfl

lemma merge_written {nodes : List Node} : areWritten nodes = true → merge nodes = nodes := by
  induction nodes using siblings_induction with
  | nil => exact fun _ => rfl
  | cons node rest ihc ih =>
    intro h
    rw [areWritten, Bool.and_eq_true] at h
    rw [merge, ih h.2]
    have hself := h.1
    cases node with
    | element name attributes children line =>
      rw [Node.isWritten, Bool.and_eq_true] at hself
      have hchildren := ihc hself.2
      rw [Node.children] at hchildren
      rw [mergeNode, hchildren]
      rfl
    | placeholder | code => cases hself
    | text | comment | doctype | instruction => rfl

/-- A source that asks for no code compiles to its own markup. -/
theorem inert_source_unchanged (c : Compiler) (source : Text)
    (h : areInert c.options (Markup.parse source) = true) :
    ∃ c' html, c.parse source = (.ok (), c') ∧ c'.table = .empty ∧ c'.output? = some html ∧
      Markup.print? (Markup.parse source) = some html := by
  have hwritten := parse_isWritten source
  have hresolve : resolve c.options (Markup.parse source) = .ok (Markup.parse source, .empty) := by
    rw [resolve, nodes_inert _ (parse_isRead source) h]
    rfl
  obtain ⟨texts, -, hprint⟩ := written_stream .empty _ false hwritten
  refine ⟨⟨c.options, Markup.parse source, .empty⟩, texts.flatten, ?_, rfl, ?_, hprint⟩
  · exact Compiler.parse_of_resolved hresolve
  · rw [Compiler.output?, emit?, expand_written .empty hwritten, Option.map_some,
      merge_written hwritten]
    exact hprint

def inertSource : Text :=
  "<!DOCTYPE html><p if=\"$a\">1 &lt; \x7b 2 \x7d<br><!--\x7b\x7b 3 \x7d\x7d--><b>4</b></p>".toList

theorem inert_source_unchanged_prefixed :
    areInert ⟨"v-".toList, false⟩ (Markup.parse inertSource) = true ∧
      ∃ c' html, (Compiler.ofOptions ⟨"v-".toList, false⟩).parse inertSource = (.ok (), c') ∧
        c'.table = .empty ∧ c'.output? = some html ∧
        Markup.print? (Markup.parse inertSource) = some html := by
  have hinert : areInert ⟨"v-".toList, false⟩ (Markup.parse inertSource) = true := by decide +kernel
  exact ⟨hinert, inert_source_unchanged (.ofOptions ⟨"v-".toList, false⟩) inertSource hinert⟩

end Stencil.Template

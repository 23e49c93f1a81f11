import Stencil.Proofs.Meaning
import Mathlib.Data.List.Chain
import Mathlib.Tactic.Common

namespace Stencil.Template

open Markup Outcome

def isText : Node → Bool
  | .text _ _ => true
  | _ => false

def Apart (a b : Node) : Prop :=
  isText a = true → isText b = true → False

mutual

/-- The parts of a node that are printed as they are: an element name with the blank before attributes,
whether or not there are any, and the name of an attribute with its equals sign. -/
def nodeVerbatim (raw : Bool) : Node → List Text
  | .element name attributes children _ =>
    ('<' :: name ++ [' ']) :: (attributes.map fun a => a.name ++ ['=']) ++
      verbatim (isRawText name) children
  | .text content _ => if raw then [content] else []
  | .comment content _ => [content]
  | .doctype name => [name]
  | .instruction content _ => ['<' :: content]
  | .placeholder _ _ children => verbatim raw children
  | .code _ => []

def verbatim (raw : Bool) : List Node → List Text
  | [] => []
  | node :: rest => nodeVerbatim raw node ++ verbatim raw rest

end

mutual

def NodeTidy (ok : Text → Prop) (raw : Bool) : Node → Prop
  | .element name attributes children _ =>
    ok ('<' :: name ++ [' ']) ∧ (∀ a ∈ attributes, ok (a.name ++ ['='])) ∧
      Tidy ok (isRawText name) children ∧ (isVoid name = true → children = [])
  | .text content _ => raw = true → ok content
  | .comment content _ => ok content
  | .doctype name => ok name
  | .instruction content _ => ok ('<' :: content)
  | .placeholder _ kind children => (kind.opensBlock = false → children = []) ∧ Tidy ok raw children
  | .code _ => True

def Tidy (ok : Text → Prop) (raw : Bool) : List Node → Prop
  | [] => True
  | node :: rest => NodeTidy ok raw node ∧ (∀ next ∈ rest.head?, Apart node next) ∧ Tidy ok raw rest

end

section

variable {ok : Text → Prop} {raw : Bool}

lemma tidy_iff {nodes : List Node} :
    Tidy ok raw nodes ↔ (∀ node ∈ nodes, NodeTidy ok raw node) ∧ nodes.IsChain Apart := by
  induction nodes with
  | nil => simp [Tidy]
  | cons node rest ih =>
    rw [Tidy, ih, List.isChain_cons, List.forall_mem_cons]
    tauto

lemma tidy_append {as bs : List Node} : Tidy ok raw (as ++ bs) ↔
    Tidy ok raw as ∧ Tidy ok raw bs ∧ ∀ x ∈ as.getLast?, ∀ y ∈ bs.head?, Apart x y := by
  simp only [tidy_iff, List.forall_mem_append, List.isChain_append]
  tauto

lemma tidy_append_cons {as bs : List Node} {node : Node} (ha : Tidy ok raw as) (hb : Tidy ok raw bs)
    (hn : NodeTidy ok raw node) (ht : isText node = false) : Tidy ok raw (as ++ node :: bs) := by
  have hapart : ∀ other, Apart other node ∧ Apart node other := by
    intro other
    refine ⟨fun _ h => ?_, fun h => ?_⟩ <;> rw [ht] at h <;> cases h
  rw [tidy_append, Tidy]
  refine ⟨ha, ⟨hn, fun next _ => (hapart next).2, hb⟩, ?_⟩
  rintro x _ y ⟨⟩
  exact (hapart x).1

lemma tidy_replace {as bs new : List Node} {node : Node} (h : Tidy ok raw (as ++ node :: bs))
    (ht : isText node = true) (hn : Tidy ok raw new) : Tidy ok raw (as ++ (new ++ bs)) := by
  obtain ⟨ha, hb, hlast⟩ := tidy_append.mp h
  obtain ⟨-, hfirst, hb⟩ := hb
  have hbefore : ∀ x ∈ as.getLast?, ∀ y, Apart x y := by
    intro x hx y hxt
    exact (hlast x hx node rfl hxt ht).elim
  have hafter : ∀ y ∈ bs.head?, ∀ x, Apart x y := by
    intro y hy x _ hyt
    exact hfirst y hy ht hyt
  rw [tidy_append, tidy_append]
  exact ⟨ha, ⟨hn, hb, fun x _ y hy => hafter y hy x⟩, fun x hx y _ => hbefore x hx y⟩

end

lemma tidy_of_verbatim {ok : Text → Prop} {nodes : List Node} : ∀ {raw : Bool},
    Tidy (fun _ => True) raw nodes → (∀ part ∈ verbatim raw nodes, ok part) → Tidy ok raw nodes := by
  induction nodes using siblings_induction with
  | nil => exact fun _ _ => trivial
  | cons node rest ihc ih =>
    intro raw h hok
    obtain ⟨hnode, hapart, hrest⟩ := h
    rw [verbatim, List.forall_mem_append] at hok
    refine ⟨?_, hapart, ih hrest hok.2⟩
    have hparts := hok.1
    cases node with
    | element name attributes children line =>
      simp only [nodeVerbatim, List.cons_append, List.forall_mem_cons, List.forall_mem_append,
        List.forall_mem_map] at hparts
      exact ⟨hparts.1, hparts.2.1, ihc hnode.2.2.1 hparts.2.2, hnode.2.2.2⟩
    | placeholder id kind children => exact ⟨hnode.1, ihc hnode.2 hparts⟩
    | text content line =>
      rintro rfl
      exact hparts content (by simp [nodeVerbatim])
    | comment | doctype | instruction => exact hparts _ (by simp [nodeVerbatim])
    | code => trivial

lemma Apart.symm {a b : Node} (h : Apart a b) : Apart b a :=
  fun hb ha => h ha hb

lemma tidy_reverse {ok : Text → Prop} {raw : Bool} {nodes : List Node} :
    Tidy ok raw nodes.reverse ↔ Tidy ok raw nodes := by
  have hsymm : (fun a b => Apart b a) = Apart := by
    funext a b
    exact propext ⟨Apart.symm, Apart.symm⟩
  simp only [tidy_iff, List.mem_reverse, List.isChain_reverse, hsymm]

lemma parse_tidy (source : Text) (raw : Bool) : Tidy (fun _ => True) raw (parse source) := by
  have hcons : ∀ {node : Node} {siblings : List Node}, isText node = false →
      (∀ raw, NodeTidy (fun _ => True) raw node) → (∀ raw, Tidy (fun _ => True) raw siblings) →
      ∀ raw, Tidy (fun _ => True) raw (node :: siblings) := by
    intro node siblings ht hn hs raw
    have hnil : Tidy (fun _ => True) raw [] := trivial
    exact tidy_append_cons hnil (hs raw) (hn raw) ht
  have hk : Builder.Kept fun nodes => ∀ raw, Tidy (fun _ => True) raw nodes := by
    refine ⟨fun _ => trivial, ?_, ?_, ?_, ?_, ?_, ?_⟩
    · intro name attributes children siblings line _ hvoid hc hs
      refine hcons rfl (fun _ => ⟨trivial, fun _ _ => trivial, tidy_reverse.mpr (hc _), ?_⟩) hs
      exact fun hv => List.reverse_eq_nil_iff.mpr (hvoid hv)
    · intro content line siblings _ hno hs raw
      refine ⟨fun _ => trivial, ?_, hs raw⟩
      intro next hnext _ htext
      obtain ⟨others, rfl⟩ := List.head?_eq_some_iff.mp hnext
      cases next with
      | text before l => exact hno before l others rfl
      | _ => cases htext
    · intro before content line others hs raw
      exact ⟨fun _ => trivial, (hs raw).2.1, (hs raw).2.2⟩
    · exact fun hs => hcons rfl (fun _ => trivial) hs
    · exact fun hs => hcons rfl (fun _ => trivial) hs
    · exact fun hs => hcons rfl (fun _ => trivial) hs
  exact tidy_reverse.mp (parse_kept hk source raw)

section

variable {ok : Text → Prop} {raw : Bool} {o : Options}

lemma next?_pieces {content : Text} {tag : Tag} (h : Tag.next? content = .ok (some tag)) :
    tag.before <:+: content ∧ tag.after <:+: content := by
  unfold Tag.next? at h
  split at h
  · cases h
  · cases h
  · dsimp only at h
    split at h
    · cases h
    · cases h
      exact ⟨(List.take_prefix _ _).isInfix, (List.drop_suffix _ _).isInfix⟩

lemma text_tidy (hok : ∀ part whole, part <:+: whole → ok whole → ok part) {line : Nat}
    {content : Text} {done out : List Node} {t u : Table Fragment}
    (h : Resolve.text o line content done t = .ok (out, u)) (hc : raw = true → ok content) :
    ∃ new, out = new.reverse ++ done ∧ Tidy ok raw new := by
  have hpiece : ∀ part line, (raw = true → ok part) → Tidy ok raw (textNodes part line) := by
    intro part line hpart
    unfold textNodes
    split
    · trivial
    · exact ⟨hpart, by simp, trivial⟩
  replace h := text_splits h
  induction h with
  | plain => exact ⟨_, addText_eq _ _ _, hpiece _ _ hc⟩
  | @tag line id _ tag _ _ _ _ _ hn _ _ ih =>
    obtain ⟨hb, ha⟩ := next?_pieces hn
    obtain ⟨new, rfl, hnew⟩ := ih fun hr => hok _ _ ha (hc hr)
    refine ⟨textNodes tag.before line ++ .placeholder id .tag [] :: new, ?_, ?_⟩
    · rw [addText_eq]
      simp
    · exact tidy_append_cons (hpiece _ _ fun hr => hok _ _ hb (hc hr)) hnew
        ⟨fun _ => rfl, trivial⟩ rfl

lemma boundName_suffix (a : Attribute) : boundName a <:+ a.name := by
  unfold boundName Resolve.binding?
  split
  · rename_i hb
    split at hb
    · rename_i hname _
      cases hb
      rw [hname]
      exact List.suffix_cons _ _
    · cases hb
  · exact List.suffix_refl _

lemma bound_names (hok : ∀ part whole, part <:+: whole → ok whole → ok part) {line : Nat}
    {attributes bound : List Attribute} {t u : Table Fragment}
    (h : Resolve.bindAttributes o line [] (o.directives.others attributes) t = .ok (bound, u))
    (hl : ∀ a ∈ attributes, a.value.isLiteral = true)
    (ha : ∀ a ∈ attributes, ok (a.name ++ ['='])) : ∀ b ∈ bound, ok (b.name ++ ['=']) := by
  have hr : Represents o u ([] ++ o.directives.others attributes) bound :=
    bindAttributes_represents h (List.prefix_refl _) (fun a hm => hl a (mem_of_mem_others hm))
      ⟨rfl, by simp⟩
  rw [List.nil_append] at hr
  intro b hb
  have hname : b.name ∈ (o.directives.others attributes).map boundName := by
    rw [← List.mem_eraseDups, ← hr.names]
    exact List.mem_map_of_mem hb
  obtain ⟨a, hmem, hbound⟩ := List.mem_map.mp hname
  obtain ⟨front, hfront⟩ := boundName_suffix a
  rw [hbound] at hfront
  have hpart : b.name ++ ['='] <:+: a.name ++ ['='] := ⟨front, [], by rw [← hfront]; simp⟩
  exact hok _ _ hpart (ha a (mem_of_mem_others hmem))

lemma placeholder_tidy {id : Nat} {kind : PlaceholderKind} {node : Node}
    (hkind : kind.opensBlock = true) (h : NodeTidy ok raw node) :
    NodeTidy ok raw (.placeholder id kind [node]) := by
  refine ⟨fun hno => ?_, h, by simp, trivial⟩
  rw [hkind] at hno
  cases hno

lemma wrap_tidy {done kept : List Node} {branch : Branch} {t u : Table Fragment}
    {conditional : Option (Nat × PlaceholderKind)} (ho : Opens o done t branch conditional kept u)
    (loop : Option Nat) {node : Node} (h : NodeTidy ok raw node) (ht : isText node = false) :
    NodeTidy ok raw (Resolve.wrap conditional loop node) ∧
      isText (Resolve.wrap conditional loop node) = false := by
  have hloop : NodeTidy ok raw (Resolve.wrap none loop node) ∧
      isText (Resolve.wrap none loop node) = false := by
    cases loop with
    | none => exact ⟨h, ht⟩
    | some id => exact ⟨placeholder_tidy rfl h, rfl⟩
  rw [wrap_eq]
  cases ho with
  | plain => exact hloop
  | first | next | last => exact ⟨placeholder_tidy rfl hloop.1, rfl⟩

lemma opens_kept {done kept : List Node} {branch : Branch} {t u : Table Fragment}
    {conditional : Option (Nat × PlaceholderKind)} (ho : Opens o done t branch conditional kept u)
    (h : Tidy ok raw done) : Tidy ok raw kept := by
  have hdrop : Tidy ok raw (done.dropWhile Node.isBlankText) := by
    obtain ⟨front, hfront⟩ := List.dropWhile_suffix (p := Node.isBlankText) (l := done)
    rw [← hfront] at h
    exact (tidy_append.mp h).2.1
  cases ho with
  | plain | first => exact h
  | next | last => exact hdrop

lemma nodes_tidy (hok : ∀ part whole, part <:+: whole → ok whole → ok part)
    (siblings : List Node) : areWritten siblings = true →
    ∀ {raw : Bool} {done out : List Node} {t u : Table Fragment},
      Resolve.nodes o done siblings t = .ok (out, u) → Tidy ok raw (done.reverse ++ siblings) →
      Tidy ok raw out := by
  induction siblings using siblings_induction with
  | nil =>
    intro _ raw done out t u h htidy
    rw [Resolve.nodes] at h
    obtain ⟨rfl, -⟩ := pure_ok.mp h
    rwa [List.append_nil] at htidy
  | cons node rest ihc ih =>
    intro hwritten raw done out t u h htidy
    simp only [areWritten, Bool.and_eq_true] at hwritten
    rw [Resolve.nodes] at h
    obtain ⟨after, t', hnode, hrest⟩ := bind_ok.mp h
    apply ih hwritten.2 hrest
    obtain ⟨hdone, ⟨hself, -, hlater⟩, -⟩ := tidy_append.mp htidy
    cases node with
    | instruction content line =>
      rw [Resolve.node] at hnode
      exact (fail_ok.mp hnode).elim
    | comment content line | doctype name =>
      rw [Resolve.node] at hnode
      obtain ⟨rfl, rfl⟩ := pure_ok.mp hnode
      simpa using htidy
    | placeholder id kind children => cases hwritten.1
    | code content => cases hwritten.1
    | text content line =>
      rw [Resolve.node] at hnode
      obtain ⟨new, rfl, hnew⟩ := text_tidy hok hnode hself
      simpa using tidy_replace htidy rfl hnew
    | element name attributes children line =>
      obtain ⟨conditional, kept, t₁, loop, t₂, bound, t₃, inner, hopens, -, hbound, hinner, rfl⟩ :=
        element_ok hnode
      have hw := hwritten.1
      simp only [Node.isWritten, Bool.and_eq_true, List.all_eq_true] at hw
      obtain ⟨hname, hattributes, hinside, hvoid⟩ := hself
      have hchildren : Tidy ok (isRawText name) inner ∧ (isVoid name = true → inner = []) := by
        split at hinner
        · obtain ⟨rfl, -⟩ := hinner
          exact ⟨hinside, hvoid⟩
        · refine ⟨ihc hw.2 hinner hinside, fun hv => ?_⟩
          rw [hvoid hv, Resolve.nodes] at hinner
          exact (pure_ok.mp hinner).1.symm
      have helement : NodeTidy ok raw (.element name bound inner line) :=
        ⟨hname, bound_names hok hbound hw.1 hattributes, hchildren⟩
      obtain ⟨hwrapped, htext⟩ := wrap_tidy hopens loop helement rfl
      have hkept := tidy_reverse.mpr (opens_kept hopens (tidy_reverse.mp hdone))
      simpa using tidy_append_cons hkept hlater hwrapped htext

lemma expandNode_edges {table : Table Fragment} {node : Node} {out : List Node}
    (h : expandNode? table node = some out) (ht : NodeTidy ok raw node) :
    (∃ first more, out = first :: more ∧ (isText first = true → isText node = true)) ∧
      ∀ last ∈ out.getLast?, isText last = true → isText node = true := by
  cases node with
  | element name attributes children line =>
    simp only [expandNode?, Option.bind_eq_bind, Option.bind_eq_some_iff] at h
    obtain ⟨_, -, _, -, hout⟩ := h
    cases hout
    exact ⟨⟨_, _, rfl, fun h => h⟩, by rintro last ⟨⟩ h; exact h⟩
  | placeholder id kind children =>
    simp only [expandNode?, Option.bind_eq_bind, Option.bind_eq_some_iff] at h
    obtain ⟨code, -, inner, hinner, hout⟩ := h
    cases hout
    refine ⟨⟨_, _, rfl, fun h => by cases h⟩, ?_⟩
    intro last hlast htext
    cases hkind : kind.opensBlock with
    | true =>
      rw [if_pos hkind, List.getLast?_concat] at hlast
      cases hlast
      cases htext
    | false =>
      obtain rfl := ht.1 hkind
      cases hinner
      rw [if_neg (by rw [hkind]; simp)] at hlast
      cases hlast
      cases htext
  | text | comment | doctype | instruction | code =>
    cases h
    exact ⟨⟨_, _, rfl, fun h => h⟩, by rintro last ⟨⟩ h; exact h⟩

lemma expandAttributes_names {table : Table Fragment} {as bs : List Attribute}
    (h : as.mapM (expandAttribute? table) = some bs) :
    bs.map Attribute.name = as.map Attribute.name := by
  induction as generalizing bs with
  | nil =>
    cases h
    rfl
  | cons a as ih =>
    simp only [List.mapM_cons, Option.bind_eq_bind, Option.bind_eq_some_iff] at h
    obtain ⟨b, hb, bs, hbs, hout⟩ := h
    cases hout
    have hname : b.name = a.name := by
      unfold expandAttribute? at hb
      split at hb
      · obtain ⟨_, -, rfl⟩ := Option.map_eq_some_iff.mp hb
        rfl
      · cases hb
        rfl
    rw [List.map_cons, List.map_cons, hname, ih hbs]

lemma attributes_tidy {as bs : List Attribute} (h : bs.map Attribute.name = as.map Attribute.name)
    (ha : ∀ a ∈ as, ok (a.name ++ ['='])) : ∀ b ∈ bs, ok (b.name ++ ['=']) := by
  intro b hb
  have hmem : b.name ∈ as.map Attribute.name := by
    rw [← h]
    exact List.mem_map_of_mem hb
  obtain ⟨a, hm, hname⟩ := List.mem_map.mp hmem
  rw [← hname]
  exact ha a hm

lemma expand_tidy {table : Table Fragment} {nodes : List Node} : ∀ {raw : Bool} {out : List Node},
    expand? table nodes = some out → Tidy ok raw nodes → Tidy ok raw out ∧
      ∀ first ∈ out.head?, isText first = true → ∃ node ∈ nodes.head?, isText node = true := by
  induction nodes using siblings_induction with
  | nil =>
    intro raw out h _
    cases h
    exact ⟨trivial, by simp⟩
  | cons node rest ihc ih =>
    intro raw out h htidy
    obtain ⟨hself, hapart, hlater⟩ := htidy
    simp only [expand?, Option.bind_eq_bind, Option.bind_eq_some_iff] at h
    obtain ⟨as, has, bs, hbs, hout⟩ := h
    cases hout
    obtain ⟨hrest, hhead⟩ := ih hbs hlater
    obtain ⟨⟨first, more, hfirst, htext⟩, hlast⟩ := expandNode_edges has hself
    refine ⟨tidy_append.mpr ⟨?_, hrest, ?_⟩, ?_⟩
    · -- What one node expands to; where it meets its neighbours comes after.
      clear hhead hfirst htext hlast
      cases node with
      | element name attributes children line =>
        simp only [expandNode?, Option.bind_eq_bind, Option.bind_eq_some_iff] at has
        obtain ⟨cs, hcs, ds, hds, hnode⟩ := has
        cases hnode
        obtain ⟨hname, hattributes, hinside, hvoid⟩ := hself
        refine ⟨⟨hname, attributes_tidy (expandAttributes_names hcs) hattributes,
          (ihc hds hinside).1, fun hv => ?_⟩, by simp, trivial⟩
        rw [hvoid hv] at hds
        cases hds
        rfl
      | placeholder id kind children =>
        simp only [expandNode?, Option.bind_eq_bind, Option.bind_eq_some_iff] at has
        obtain ⟨code, -, inner, hinner, hnode⟩ := has
        cases hnode
        have hnil : Tidy ok raw [] := trivial
        have hopen : Tidy ok raw (.code code :: inner) :=
          tidy_append_cons hnil (ihc hinner hself.2).1 trivial rfl
        split
        · exact tidy_append_cons hopen hnil trivial rfl
        · rwa [List.append_nil]
      | text | comment | doctype | instruction | code =>
        cases has
        exact ⟨hself, by simp, trivial⟩
    · intro x hx y hy hxt hyt
      obtain ⟨next, hnext, hnt⟩ := hhead y hy hyt
      exact hapart next hnext (hlast x hx hxt) hnt
    · rw [hfirst]
      rintro x ⟨⟩ hxt
      exact ⟨node, rfl, htext hxt⟩

lemma merge_tidy {nodes : List Node} : ∀ {raw : Bool}, Tidy ok raw nodes →
    Tidy ok raw (merge nodes) ∧
      ∀ first ∈ (merge nodes).head?, isText first = true → ∃ node ∈ nodes.head?, isText node = true := by
  induction nodes using siblings_induction with
  | nil => exact fun _ => ⟨trivial, by simp [merge]⟩
  | cons node rest ihc ih =>
    intro raw htidy
    obtain ⟨hself, hapart, hlater⟩ := htidy
    obtain ⟨hrest, hhead⟩ := ih hlater
    have hnode : NodeTidy ok raw (mergeNode node) ∧ isText (mergeNode node) = isText node := by
      cases node with
      | element name attributes children line =>
        obtain ⟨hname, hattributes, hinside, hvoid⟩ := hself
        refine ⟨⟨hname, hattributes, (ihc hinside).1, fun hv => ?_⟩, rfl⟩
        rw [hvoid hv]
        rfl
      | placeholder | text | comment | doctype | instruction | code => exact ⟨hself, rfl⟩
    rw [merge]
    unfold mergeInto
    split
    · rename_i first second others _ hsecond
      rw [hsecond] at hrest
      have hnil : Tidy ok raw [] := trivial
      refine ⟨tidy_append_cons hnil hrest.2.2 trivial rfl, ?_⟩
      rintro x ⟨⟩ hx
      cases hx
    · refine ⟨⟨hnode.1, ?_, hrest⟩, ?_⟩
      · intro next hnext hnt htext
        obtain ⟨node', hnode', ht'⟩ := hhead next hnext htext
        rw [hnode.2] at hnt
        exact hapart node' hnode' hnt ht'
      · rintro x ⟨⟩ hx
        rw [hnode.2] at hx
        exact ⟨node, rfl, hx⟩

end

lemma merge_printable {nodes : List Node} : arePrintable nodes = true →
    arePrintable (merge nodes) = true := by
  induction nodes using siblings_induction with
  | nil => exact fun h => h
  | cons node rest ihc ih =>
    intro h
    simp only [arePrintable, Bool.and_eq_true] at h
    have hnode : (mergeNode node).isPrintable = true := by
      cases node with
      | element name attributes children line =>
        have hp := h.1
        simp only [Node.isPrintable, Bool.and_eq_true] at hp
        simp only [mergeNode, Node.isPrintable, Bool.and_eq_true]
        exact ⟨hp.1, ihc hp.2⟩
      | placeholder | text | comment | doctype | instruction | code => exact h.1
    have hrest := ih h.2
    rw [merge]
    unfold mergeInto
    split
    · rename_i first second others _ hsecond
      rw [hsecond] at hrest
      exact hrest
    · rw [arePrintable, hnode, hrest]
      rfl

lemma emit_tidy {ok : Text → Prop} (hok : ∀ part whole, part <:+: whole → ok whole → ok part)
    {o : Options} {document tree : List Node} {table : Table Fragment}
    {ps : List (Chunk Command)} (hw : areWritten document = true)
    (h : resolve o document = .ok (tree, table)) (hs : stream? table false tree = some ps)
    (ht : Tidy ok false document) :
    ∃ nodes, emit? table tree = some nodes ∧ arePrintable nodes = true ∧ Tidy ok false nodes := by
  obtain ⟨out, hout, hprintable, -⟩ := expand_chunks hs
  have htree : Tidy ok false tree := nodes_tidy hok document hw h ht
  exact ⟨merge out, by rw [emit?, hout]; rfl, merge_printable hprintable,
    (merge_tidy (expand_tidy hout htree).1).1⟩

end Stencil.Template

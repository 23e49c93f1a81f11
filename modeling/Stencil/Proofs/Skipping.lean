import Stencil.Proofs.Passthrough
import Stencil.Proofs.Verbatim
import Mathlib.Tactic.Common

/-! Two trees that differ in skipped children are resolved side by side. -/

namespace Stencil.Template

open Markup Outcome

/-- An element that has other children on the left than on the right. -/
structure Gap where
  name : Text
  line : Nat
  left : List Node
  right : List Node

def isLeaf : Node → Bool
  | .element _ _ _ _ | .placeholder _ _ _ => false
  | .text _ _ | .comment _ _ | .doctype _ | .instruction _ _ | .code _ => true

inductive Matches (skipped walked : List Attribute → Prop) :
    List Gap → List Node → List Node → Prop
  | nil : Matches skipped walked [] [] []
  | leaf {node : Node} {gaps : List Gap} {as bs : List Node} : isLeaf node = true →
      Matches skipped walked gaps as bs → Matches skipped walked gaps (node :: as) (node :: bs)
  | placeholder {id : Nat} {kind : PlaceholderKind} {inner gaps : List Gap} {cs ds as bs : List Node} :
      Matches skipped walked inner cs ds → Matches skipped walked gaps as bs →
      Matches skipped walked (inner ++ gaps) (.placeholder id kind cs :: as)
        (.placeholder id kind ds :: bs)
  | element {name : Text} {attributes : List Attribute} {line : Nat} {inner gaps : List Gap}
      {cs ds as bs : List Node} : walked attributes →
      Matches skipped walked inner cs ds → Matches skipped walked gaps as bs →
      Matches skipped walked (inner ++ gaps) (.element name attributes cs line :: as)
        (.element name attributes ds line :: bs)
  | gap {name : Text} {attributes : List Attribute} {line : Nat} {gaps : List Gap}
      {cs ds as bs : List Node} : skipped attributes →
      Matches skipped walked gaps as bs →
      Matches skipped walked (⟨name, line, cs, ds⟩ :: gaps) (.element name attributes cs line :: as)
        (.element name attributes ds line :: bs)

abbrev Resembles : List Gap → List Node → List Node → Prop :=
  Matches (fun _ => True) (fun _ => True)

def CarriesPre (o : Options) (attributes : List Attribute) : Prop :=
  ∃ value, valueOf? o.directives.preName attributes = some value ∧ Text.isBlank value = true

namespace Matches

variable {skipped walked : List Attribute → Prop} {gaps more : List Gap} {as bs cs ds : List Node}

lemma resembles (h : Matches skipped walked gaps as bs) : Resembles gaps as bs := by
  induction h with
  | nil => exact .nil
  | leaf hl _ ih => exact .leaf hl ih
  | placeholder _ _ ihc ih => exact .placeholder ihc ih
  | element _ _ _ ihc ih => exact .element trivial ihc ih
  | gap _ _ ih => exact .gap trivial ih

lemma refl (nodes : List Node) : Resembles [] nodes nodes := by
  induction nodes using siblings_induction with
  | nil => exact .nil
  | cons node rest ihc ih =>
    cases node with
    | element name attributes children line => exact .element trivial ihc ih
    | placeholder id kind children => exact .placeholder ihc ih
    | text | comment | doctype | instruction | code => exact .leaf rfl ih

lemma placeholder_alone (id : Nat) (kind : PlaceholderKind) (h : Matches skipped walked gaps cs ds) :
    Matches skipped walked gaps [.placeholder id kind cs] [.placeholder id kind ds] := by
  have hboth : Matches skipped walked (gaps ++ []) [.placeholder id kind cs]
      [.placeholder id kind ds] := .placeholder h .nil
  rwa [List.append_nil] at hboth

lemma element_alone {name : Text} {attributes : List Attribute} {line : Nat}
    (hw : walked attributes) (h : Matches skipped walked gaps cs ds) :
    Matches skipped walked gaps [.element name attributes cs line]
      [.element name attributes ds line] := by
  have hboth : Matches skipped walked (gaps ++ []) [.element name attributes cs line]
      [.element name attributes ds line] := .element hw h .nil
  rwa [List.append_nil] at hboth

lemma append (h : Matches skipped walked gaps as bs) (g : Matches skipped walked more cs ds) :
    Matches skipped walked (gaps ++ more) (as ++ cs) (bs ++ ds) := by
  induction h with
  | nil => exact g
  | leaf hl _ ih => exact .leaf hl ih
  | placeholder hc _ _ ih =>
    rw [List.append_assoc]
    exact .placeholder hc ih
  | element hw hc _ _ ih =>
    rw [List.append_assoc]
    exact .element hw hc ih
  | gap hs _ ih => exact .gap hs ih

lemma split {ys : List Node} (h : Matches skipped walked gaps (as ++ cs) ys) :
    ∃ front back bs ds, gaps = front ++ back ∧ ys = bs ++ ds ∧
      Matches skipped walked front as bs ∧ Matches skipped walked back cs ds := by
  induction as generalizing gaps ys with
  | nil => exact ⟨[], gaps, [], ys, rfl, rfl, .nil, h⟩
  | cons a as ih =>
    cases h with
    | leaf hl h =>
      obtain ⟨front, back, bs, ds, rfl, rfl, hf, hb⟩ := ih h
      exact ⟨front, back, _ :: bs, ds, rfl, rfl, .leaf hl hf, hb⟩
    | placeholder hc h =>
      obtain ⟨front, back, bs, ds, rfl, rfl, hf, hb⟩ := ih h
      exact ⟨_, back, _ :: bs, ds, (List.append_assoc ..).symm, rfl, .placeholder hc hf, hb⟩
    | element hw hc h =>
      obtain ⟨front, back, bs, ds, rfl, rfl, hf, hb⟩ := ih h
      exact ⟨_, back, _ :: bs, ds, (List.append_assoc ..).symm, rfl, .element hw hc hf, hb⟩
    | gap hs h =>
      obtain ⟨front, back, bs, ds, rfl, rfl, hf, hb⟩ := ih h
      exact ⟨_ :: front, back, _ :: bs, ds, rfl, rfl, .gap hs hf, hb⟩

lemma written (h : Matches skipped walked gaps as bs) (ha : areWritten as = true)
    (hb : areWritten bs = true) : ∀ g ∈ gaps, areWritten g.left = true ∧ areWritten g.right = true := by
  induction h with
  | nil => simp
  | leaf _ _ ih =>
    rw [areWritten, Bool.and_eq_true] at ha hb
    exact ih ha.2 hb.2
  | placeholder => cases ha
  | element _ _ _ ihc ih =>
    simp only [areWritten, Node.isWritten, Bool.and_eq_true] at ha hb
    exact List.forall_mem_append.mpr ⟨ihc ha.1.2 hb.1.2, ih ha.2 hb.2⟩
  | gap _ _ ih =>
    simp only [areWritten, Node.isWritten, Bool.and_eq_true] at ha hb
    exact List.forall_mem_cons.mpr ⟨⟨ha.1.2, hb.1.2⟩, ih ha.2 hb.2⟩

end Matches

def Behind (gaps : List Gap) (done done' : List Node) : Prop :=
  Resembles gaps done.reverse done'.reverse

namespace Behind

variable {gaps more : List Gap} {done done' : List Node} {node node' : Node}

lemma cons (h : Behind gaps done done') (hn : Resembles more [node] [node']) :
    Behind (gaps ++ more) (node :: done) (node' :: done') := by
  rw [Behind, List.reverse_cons, List.reverse_cons]
  exact h.append hn

lemma leaf (h : Behind gaps done done') (hl : isLeaf node = true) :
    Behind gaps (node :: done) (node :: done') := by
  have hnode : Resembles [] [node] [node] := .leaf hl .nil
  simpa only [List.append_nil] using h.cons hnode

lemma nil_iff (h : Behind gaps [] done') : done' = [] := by
  rw [Behind, List.reverse_nil] at h
  generalize hys : done'.reverse = ys at h
  cases h
  exact List.reverse_eq_nil_iff.mp hys

lemma uncons (h : Behind gaps (node :: done) done') : ∃ front back node' rest,
    gaps = front ++ back ∧ done' = node' :: rest ∧ Behind front done rest ∧
      Resembles back [node] [node'] := by
  rw [Behind, List.reverse_cons] at h
  obtain ⟨front, back, bs, ds, rfl, hys, hf, hb⟩ := h.split
  have hsingle : ∃ node', ds = [node'] := by
    cases hb with
    | leaf _ h | placeholder _ h | element _ _ h | gap _ h =>
      cases h
      exact ⟨_, rfl⟩
  obtain ⟨node', rfl⟩ := hsingle
  refine ⟨front, back, node', bs.reverse, rfl, ?_, ?_, hb⟩
  · rw [← List.reverse_reverse done', hys, List.reverse_append]
    rfl
  · rw [Behind, List.reverse_reverse]
    exact hf

lemma dropWhile (h : Behind gaps done done') :
    Behind gaps (done.dropWhile Node.isBlankText) (done'.dropWhile Node.isBlankText) := by
  induction done generalizing gaps done' with
  | nil =>
    obtain rfl := h.nil_iff
    exact h
  | cons node done ih =>
    obtain ⟨front, back, node', rest, rfl, rfl, hrest, hnode⟩ := h.uncons
    by_cases hb : node.isBlankText = true
    · cases hnode with
      | leaf hl hnil =>
        cases hnil
        rw [List.dropWhile_cons_of_pos hb, List.dropWhile_cons_of_pos hb, List.append_nil]
        exact ih hrest
      | placeholder | element | gap => cases hb
    · have hb' : ¬ node'.isBlankText = true := by
        cases hnode with
        | leaf => exact hb
        | placeholder | element | gap => exact Bool.false_ne_true
      rw [List.dropWhile_cons_of_neg hb, List.dropWhile_cons_of_neg hb']
      exact hrest.cons hnode

end Behind

section

variable {o : Options} {line : Nat} {gaps : List Gap} {done done' : List Node}

lemma text_agrees (content : Text) (h : Behind gaps done done') :
    Agree (Behind gaps) (Resolve.text o line content done) (Resolve.text o line content done') := by
  have hadd : ∀ {done done'} (part : Text) (line : Nat), Behind gaps done done' →
      Behind gaps (Resolve.addText part line done) (Resolve.addText part line done') := by
    intro done done' part line h
    rw [Resolve.addText, Resolve.addText]
    split
    · exact h
    · exact h.leaf rfl
  induction content using scan_induction generalizing line done done' with
  | fault content fault hn =>
    rw [text_step, text_step, hn]
    exact fun t => .inl ⟨_, rfl, rfl⟩
  | plain content hn =>
    rw [text_step, text_step, hn]
    exact .pure (hadd content line h)
  | tag content tag hn ih =>
    rw [text_step, text_step, hn]
    apply Agree.bind_self
    intro id _
    apply ih
    have hnode : Resembles [] [.placeholder id .tag []] [.placeholder id .tag []] :=
      .placeholder_alone id .tag .nil
    simpa only [List.append_nil] using (hadd tag.before line h).cons hnode

lemma chain_agrees (name : Text) (taken : Option PlaceholderKind) (h : Behind gaps done done') :
    Agree (Behind gaps) (Resolve.chain o line name taken done)
      (Resolve.chain o line name taken done') := by
  have hdrop := h.dropWhile
  have hstop : ∀ cause, Agree (Behind gaps) (Resolve.fail line cause) (Resolve.fail line cause) :=
    fun cause t => .inl ⟨_, rfl, rfl⟩
  rw [Resolve.chain.eq_def, Resolve.chain.eq_def]
  cases taken with
  | some kind => exact hstop _
  | none =>
    dsimp only
    generalize done.dropWhile Node.isBlankText = kept at hdrop
    generalize done'.dropWhile Node.isBlankText = kept' at hdrop
    cases kept with
    | nil =>
      obtain rfl := hdrop.nil_iff
      exact hstop _
    | cons node before =>
      obtain ⟨front, back, node', before', rfl, rfl, -, hnode⟩ := hdrop.uncons
      cases hnode with
      | leaf hl hnil =>
        cases node with
        | element | placeholder => cases hl
        | text | comment | doctype | instruction | code => exact hstop _
      | placeholder =>
        dsimp only
        split
        · exact .pure hdrop
        · exact hstop _
      | element | gap => exact hstop _

structure ScopesAgree (o : Options) (pre : Option Text) (gaps : List Gap)
    (s s' : Resolve.Scope) : Prop where
  conditional : s.conditional = s'.conditional
  attributes : s.attributes = s'.attributes
  pre : valueOf? o.directives.preName s.attributes = pre
  done : Behind gaps s.done s'.done

section Directives

variable {pre : Option Text} {s s' : Resolve.Scope}

lemma ifDirective_agrees (h : ScopesAgree o pre gaps s s') :
    Agree (ScopesAgree o pre gaps) (Resolve.ifDirective o line s)
      (Resolve.ifDirective o line s') := by
  obtain ⟨-, -, -, -, -, -, hne, -⟩ := directive_ne (o := o)
  rw [Resolve.ifDirective, Resolve.ifDirective, takeAttribute_eq, takeAttribute_eq, ← h.attributes]
  cases valueOf? o.directives.ifName s.attributes with
  | none => exact .pure h
  | some value =>
    dsimp only
    split
    · exact fun t => .inl ⟨_, rfl, rfl⟩
    · apply Agree.bind_self
      intro e _
      apply Agree.bind_self
      intro id _
      exact .pure ⟨rfl, rfl, (valueOf?_without hne _).trans h.pre, h.done⟩

lemma elseIfDirective_agrees (h : ScopesAgree o pre gaps s s') :
    Agree (ScopesAgree o pre gaps) (Resolve.elseIfDirective o line s)
      (Resolve.elseIfDirective o line s') := by
  obtain ⟨-, -, -, -, -, -, -, hne, -⟩ := directive_ne (o := o)
  rw [Resolve.elseIfDirective, Resolve.elseIfDirective, takeAttribute_eq, takeAttribute_eq,
    ← h.attributes, ← h.conditional]
  cases valueOf? o.directives.elseIfName s.attributes with
  | none => exact .pure h
  | some value =>
    dsimp only
    split
    · exact fun t => .inl ⟨_, rfl, rfl⟩
    · apply (chain_agrees _ _ h.done).bind
      intro done done' hdone
      apply Agree.bind_self
      intro e _
      apply Agree.bind_self
      intro id _
      exact .pure ⟨rfl, rfl, (valueOf?_without hne _).trans h.pre, hdone⟩

lemma elseDirective_agrees (h : ScopesAgree o pre gaps s s') :
    Agree (ScopesAgree o pre gaps) (Resolve.elseDirective o line s)
      (Resolve.elseDirective o line s') := by
  obtain ⟨-, -, -, -, -, -, -, -, hne, -⟩ := directive_ne (o := o)
  rw [Resolve.elseDirective, Resolve.elseDirective, takeAttribute_eq, takeAttribute_eq,
    ← h.attributes, ← h.conditional]
  cases valueOf? o.directives.elseName s.attributes with
  | none => exact .pure h
  | some value =>
    dsimp only
    split
    · apply (chain_agrees _ _ h.done).bind
      intro done done' hdone
      apply Agree.bind_self
      intro id _
      exact .pure ⟨rfl, rfl, (valueOf?_without hne _).trans h.pre, hdone⟩
    · exact fun t => .inl ⟨_, rfl, rfl⟩

end Directives

lemma wrap_resembles {node node' : Node} (conditional : Option (Nat × PlaceholderKind))
    (loop : Option Nat) (h : Resembles gaps [node] [node']) :
    Resembles gaps [Resolve.wrap conditional loop node] [Resolve.wrap conditional loop node'] := by
  have hloop : Resembles gaps [Resolve.wrap none loop node] [Resolve.wrap none loop node'] := by
    cases loop with
    | none => exact h
    | some id => exact h.placeholder_alone id .loop
  rw [wrap_eq conditional loop node, wrap_eq conditional loop node']
  cases conditional with
  | none => exact hloop
  | some pair => exact hloop.placeholder_alone pair.1 pair.2

lemma element_agrees {name : Text} {attributes : List Attribute} {cs ds : List Node} {more : List Gap}
    (h : Behind gaps done done')
    (hskip : ∀ bound, Resembles more [.element name bound cs line] [.element name bound ds line])
    (hwalk : ¬ CarriesPre o attributes →
      Agree (fun inner inner' => ∀ bound,
          Resembles more [.element name bound inner line] [.element name bound inner' line])
        (Resolve.nodes o [] cs) (Resolve.nodes o [] ds)) :
    Agree (Behind (gaps ++ more)) (Resolve.node o done (.element name attributes cs line))
      (Resolve.node o done' (.element name attributes ds line)) := by
  obtain ⟨-, -, -, -, -, -, -, -, -, hne⟩ := directive_ne (o := o)
  rw [node_element, node_element]
  have hscope : ScopesAgree o (valueOf? o.directives.preName attributes) gaps ⟨none, attributes, done⟩
      ⟨none, attributes, done'⟩ := ⟨rfl, rfl, rfl, h⟩
  apply (ifDirective_agrees hscope).bind
  intro s₁ s₁' h₁
  apply (elseIfDirective_agrees h₁).bind
  intro s₂ s₂' h₂
  apply (elseDirective_agrees h₂).bind
  intro s₃ s₃' h₃
  rw [← h₃.attributes, ← h₃.conditional]
  apply Agree.bind_self
  rintro ⟨loop, others⟩ ⟨t₃, u₃, hfor⟩
  apply Agree.bind_self
  rintro ⟨pre, rest⟩ ⟨t₄, u₄, hpre⟩
  apply Agree.bind_self
  intro bound _
  have hdone : ∀ {inner inner' : List Node},
      Resembles more [.element name bound inner line] [.element name bound inner' line] →
      Behind (gaps ++ more)
        (Resolve.wrap s₃.conditional loop (.element name bound inner line) :: s₃.done)
        (Resolve.wrap s₃.conditional loop (.element name bound inner' line) :: s₃'.done) :=
    fun hinner => h₃.done.cons (wrap_resembles s₃.conditional loop hinner)
  cases pre with
  | true => exact .pure (hdone (hskip bound))
  | false =>
    have hcarries : ¬ CarriesPre o attributes := by
      rintro ⟨value, hvalue, -⟩
      obtain ⟨hsome, -, -⟩ := preDirective_ok hpre
      rw [(forDirective_ok hfor).2, valueOf?_without hne, h₃.pre, hvalue] at hsome
      cases hsome
    apply (hwalk hcarries).bind
    intro inner inner' hinner
    exact .pure (hdone (hinner bound))

abbrev Alike (o : Options) : List Gap → List Node → List Node → Prop :=
  Matches (CarriesPre o) fun attributes => ¬ CarriesPre o attributes

lemma nodes_agree {more : List Gap} {as bs : List Node} (h : Alike o more as bs) :
    ∀ {gaps : List Gap} {done done' : List Node}, Behind gaps done done' →
      Agree (Resembles (gaps ++ more)) (Resolve.nodes o done as) (Resolve.nodes o done' bs) := by
  induction h with
  | nil =>
    intro gaps done done' hdone
    rw [Resolve.nodes, Resolve.nodes, List.append_nil]
    exact .pure hdone
  | @leaf node more as bs hl _ ih =>
    intro gaps done done' hdone
    rw [Resolve.nodes, Resolve.nodes]
    suffices hnode : Agree (Behind gaps) (Resolve.node o done node) (Resolve.node o done' node) from
      hnode.bind fun _ _ hnext => ih hnext
    cases node with
    | element | placeholder => cases hl
    | instruction content line => exact fun t => .inl ⟨_, rfl, rfl⟩
    | text content line =>
      rw [Resolve.node, Resolve.node]
      exact text_agrees content hdone
    | comment | doctype | code =>
      rw [Resolve.node, Resolve.node]
      exact .pure (hdone.leaf rfl)
  | @placeholder id kind inner more cs ds as bs hc _ _ ih =>
    intro gaps done done' hdone
    rw [Resolve.nodes, Resolve.nodes, Resolve.node, Resolve.node, pure_bind, pure_bind,
      ← List.append_assoc]
    exact ih (hdone.cons (hc.resembles.placeholder_alone id kind))
  | @element name attributes line inner more cs ds as bs _ hc _ ihc ih =>
    intro gaps done done' hdone
    have hchildren : Agree (Resembles inner) (Resolve.nodes o [] cs) (Resolve.nodes o [] ds) := by
      have hnil : Behind [] [] [] := .nil
      exact ihc hnil
    rw [Resolve.nodes, Resolve.nodes, ← List.append_assoc]
    apply (element_agrees hdone (fun bound => hc.resembles.element_alone trivial)
      fun _ => hchildren.mono fun _ _ hinner bound => hinner.element_alone trivial).bind
    intro next next' hnext
    exact ih hnext
  | @gap name attributes line more cs ds as bs hs _ ih =>
    intro gaps done done' hdone
    rw [Resolve.nodes, Resolve.nodes, List.append_cons]
    apply (element_agrees hdone (fun bound => .gap trivial .nil) fun hno => (hno hs).elim).bind
    intro next next' hnext
    exact ih hnext

end

section

variable {gaps : List Gap} {as bs : List Node}

lemma expand_resembles (table : Table Fragment) (h : Resembles gaps as bs) :
    (∀ g ∈ gaps, areWritten g.left = true ∧ areWritten g.right = true) →
    ∀ {xs : List Node}, expand? table as = some xs →
      ∃ ys, expand? table bs = some ys ∧ Resembles gaps xs ys := by
  induction h with
  | nil =>
    intro _ xs hxs
    cases hxs
    exact ⟨[], rfl, .nil⟩
  | @leaf node gaps as bs hl _ ih =>
    intro hg xs hxs
    simp only [expand?, Option.bind_eq_bind, Option.bind_eq_some_iff] at hxs
    obtain ⟨first, hfirst, others, hothers, hout⟩ := hxs
    cases hout
    obtain ⟨ys, hys, hr⟩ := ih hg hothers
    refine ⟨first ++ ys, ?_, (Matches.refl first).append hr⟩
    simp only [expand?, hfirst, hys]
    rfl
  | @placeholder id kind inner gaps cs ds as bs _ _ ihc ih =>
    intro hg xs hxs
    obtain ⟨hgi, hgo⟩ := List.forall_mem_append.mp hg
    simp only [expand?, expandNode?, Option.bind_eq_bind, Option.bind_eq_some_iff] at hxs
    obtain ⟨first, ⟨code, hcode, cs', hcs, hnode⟩, others, hothers, hout⟩ := hxs
    cases hnode
    cases hout
    obtain ⟨ds', hds, hri⟩ := ihc hgi hcs
    obtain ⟨ys, hys, hro⟩ := ih hgo hothers
    refine ⟨.code code :: ds' ++ (if kind.opensBlock then [.code Fragment.blockClose] else []) ++ ys,
      ?_, ?_⟩
    · simp only [expand?, expandNode?, hcode, hds, hys]
      rfl
    · have hclose := Matches.refl (if kind.opensBlock then [.code Fragment.blockClose] else [])
      have hblock := hri.append hclose
      rw [List.append_nil] at hblock
      have hopen : Resembles inner (.code code :: (cs' ++ _)) (.code code :: (ds' ++ _)) :=
        .leaf rfl hblock
      exact hopen.append hro
  | @element name attributes line inner gaps cs ds as bs _ _ _ ihc ih =>
    intro hg xs hxs
    obtain ⟨hgi, hgo⟩ := List.forall_mem_append.mp hg
    simp only [expand?, expandNode?, Option.bind_eq_bind, Option.bind_eq_some_iff] at hxs
    obtain ⟨first, ⟨bound, hbound, cs', hcs, hnode⟩, others, hothers, hout⟩ := hxs
    cases hnode
    cases hout
    obtain ⟨ds', hds, hri⟩ := ihc hgi hcs
    obtain ⟨ys, hys, hro⟩ := ih hgo hothers
    refine ⟨.element name bound ds' line :: ys, ?_, .element trivial hri hro⟩
    simp only [expand?, expandNode?, hbound, hds, hys]
    rfl
  | @gap name attributes line gaps cs ds as bs _ _ ih =>
    intro hg xs hxs
    obtain ⟨⟨hcs, hds⟩, hgo⟩ := List.forall_mem_cons.mp hg
    simp only [expand?, expandNode?, expand_written table hcs, Option.bind_eq_bind,
      Option.bind_eq_some_iff] at hxs
    obtain ⟨first, ⟨bound, hbound, cs', hcs', hnode⟩, others, hothers, hout⟩ := hxs
    cases hcs'
    cases hnode
    cases hout
    obtain ⟨ys, hys, hro⟩ := ih hgo hothers
    refine ⟨.element name bound ds line :: ys, ?_, .gap trivial hro⟩
    simp only [expand?, expandNode?, hbound, expand_written table hds, hys]
    rfl

lemma mergeInto_code {code : Text} (h : Resembles gaps as bs) :
    Resembles gaps (mergeInto (.code code) as) (mergeInto (.code code) bs) := by
  cases h with
  | nil => exact .leaf rfl .nil
  | @leaf node gaps as bs hl h =>
    cases node with
    | element | placeholder => cases hl
    | code second => exact .leaf rfl h
    | text | comment | doctype | instruction => exact .leaf rfl (.leaf rfl h)
  | placeholder hc h => exact .leaf rfl (.placeholder hc h)
  | element hw hc h => exact .leaf rfl (.element hw hc h)
  | gap hs h => exact .leaf rfl (.gap hs h)

lemma merge_resembles (h : Resembles gaps as bs) :
    (∀ g ∈ gaps, areWritten g.left = true ∧ areWritten g.right = true) →
    Resembles gaps (merge as) (merge bs) := by
  induction h with
  | nil => exact fun _ => .nil
  | @leaf node gaps as bs hl _ ih =>
    intro hg
    rw [merge, merge]
    cases node with
    | element | placeholder => cases hl
    | code content => exact mergeInto_code (ih hg)
    | text | comment | doctype | instruction => exact .leaf rfl (ih hg)
  | placeholder hc _ _ ih =>
    intro hg
    rw [merge, merge]
    exact .placeholder hc (ih (List.forall_mem_append.mp hg).2)
  | element hw _ _ ihc ih =>
    intro hg
    obtain ⟨hgi, hgo⟩ := List.forall_mem_append.mp hg
    rw [merge, merge]
    exact .element hw (ihc hgi) (ih hgo)
  | gap hs _ ih =>
    intro hg
    obtain ⟨⟨hcs, hds⟩, hgo⟩ := List.forall_mem_cons.mp hg
    rw [merge, merge, mergeNode, mergeNode, merge_written hcs, merge_written hds]
    exact .gap hs (ih hgo)

end

/-- Texts that are equal but for these pieces, in this order. -/
inductive DifferAt : List (Text × Text) → Text → Text → Prop
  | same (text : Text) : DifferAt [] text text
  | piece (left right : Text) : DifferAt [(left, right)] left right
  | append {ps qs : List (Text × Text)} {s t u v : Text} :
      DifferAt ps s t → DifferAt qs u v → DifferAt (ps ++ qs) (s ++ u) (t ++ v)

def printedInside (name : Text) (children : List Node) : Text :=
  if isVoid name then [] else (Node.printAll? (isRawText name) children).getD []

def Gap.texts (g : Gap) : Text × Text :=
  (printedInside g.name g.left, printedInside g.name g.right)

section

variable {gaps : List Gap} {as bs : List Node}

lemma DifferAt.between {ps : List (Text × Text)} {s t : Text} (h : DifferAt ps s t)
    (before after : Text) : DifferAt ps (before ++ s ++ after) (before ++ t ++ after) := by
  have hboth := ((DifferAt.same before).append h).append (.same after)
  rwa [List.nil_append, List.append_nil] at hboth

lemma print_element {name : Text} {attributes : List Attribute} {children : List Node} {line : Nat}
    {raw : Bool} {text : Text} (h : Node.print? raw (.element name attributes children line) = some text) :
    ∃ start, (isVoid name = true → text = start ∧ ∀ others,
        Node.print? raw (.element name attributes others line) = some start) ∧
      (isVoid name = false → ∃ inner, Node.printAll? (isRawText name) children = some inner ∧
        text = start ++ inner ++ endTag name ∧
        ∀ others inner', Node.printAll? (isRawText name) others = some inner' →
          Node.print? raw (.element name attributes others line) =
            some (start ++ inner' ++ endTag name)) := by
  simp only [Node.print?, Option.bind_eq_bind, Option.bind_eq_some_iff] at h ⊢
  obtain ⟨printed, hprinted, h⟩ := h
  refine ⟨'<' :: name ++ printed ++ ['>'], ?_, ?_⟩
  · intro hv
    rw [if_pos hv] at h
    cases h
    exact ⟨rfl, fun others => ⟨printed, hprinted, if_pos hv⟩⟩
  · intro hv
    simp only [hv, Bool.false_eq_true, if_false, Option.bind_eq_some_iff] at h ⊢
    obtain ⟨inner, hinner, h⟩ := h
    cases h
    refine ⟨inner, hinner, by simp [endTag], ?_⟩
    intro others inner' hothers
    exact ⟨printed, hprinted, inner', hothers, by simp [endTag]⟩

lemma print_cons {raw : Bool} {node node' : Node} {ps qs : List (Text × Text)} {text : Text}
    (h : Node.printAll? raw (node :: as) = some text)
    (hnode : ∀ {first}, Node.print? raw node = some first →
      ∃ first', Node.print? raw node' = some first' ∧ DifferAt ps first first')
    (hrest : ∀ {others}, Node.printAll? raw as = some others →
      ∃ others', Node.printAll? raw bs = some others' ∧ DifferAt qs others others') :
    ∃ text', Node.printAll? raw (node' :: bs) = some text' ∧ DifferAt (ps ++ qs) text text' := by
  simp only [Node.printAll?, Option.bind_eq_bind, Option.bind_eq_some_iff] at h ⊢
  obtain ⟨first, hfirst, others, hothers, hout⟩ := h
  cases hout
  obtain ⟨first', hfirst', hd⟩ := hnode hfirst
  obtain ⟨others', hothers', he⟩ := hrest hothers
  exact ⟨_, ⟨first', hfirst', others', hothers', rfl⟩, hd.append he⟩

lemma print_resembles (h : Resembles gaps as bs) :
    ∀ {raw : Bool} {text : Text}, Tidy (fun _ => True) raw as →
      (∀ g ∈ gaps, areWritten g.left = true ∧ areWritten g.right = true) →
      Node.printAll? raw as = some text →
      ∃ text', Node.printAll? raw bs = some text' ∧ DifferAt (gaps.map Gap.texts) text text' := by
  induction h with
  | nil =>
    intro raw text _ _ h
    cases h
    exact ⟨[], rfl, .same []⟩
  | leaf hl _ ih =>
    intro raw text ht hg h
    exact print_cons h (fun hfirst => ⟨_, hfirst, .same _⟩) (ih ht.2.2 hg)
  | placeholder =>
    intro raw text _ _ h
    cases h
  | @element name attributes line inner gaps cs ds as bs _ hc _ ihc ih =>
    intro raw text ht hg h
    obtain ⟨hgi, hgo⟩ := List.forall_mem_append.mp hg
    obtain ⟨⟨-, -, htc, hvoid⟩, -, hta⟩ := ht
    rw [List.map_append]
    refine print_cons h (fun hfirst => ?_) (ih hta hgo)
    obtain ⟨start, hempty, hfilled⟩ := print_element hfirst
    cases hv : isVoid name with
    | true =>
      obtain rfl := hvoid hv
      cases hc
      obtain ⟨rfl, hsame⟩ := hempty hv
      exact ⟨_, hsame [], .same _⟩
    | false =>
      obtain ⟨body, hbody, rfl, hprint⟩ := hfilled hv
      obtain ⟨body', hbody', hd⟩ := ihc htc hgi hbody
      exact ⟨_, hprint ds body' hbody', hd.between start (endTag name)⟩
  | @gap name attributes line gaps cs ds as bs _ _ ih =>
    intro raw text ht hg h
    obtain ⟨⟨-, hds⟩, hgo⟩ := List.forall_mem_cons.mp hg
    have hgap : DifferAt [Gap.texts ⟨name, line, cs, ds⟩] (printedInside name cs)
        (printedInside name ds) := .piece _ _
    change ∃ text', _ ∧
      DifferAt ([Gap.texts ⟨name, line, cs, ds⟩] ++ gaps.map Gap.texts) text text'
    refine print_cons h (fun hfirst => ?_) (ih ht.2.2 hgo)
    obtain ⟨start, hempty, hfilled⟩ := print_element hfirst
    cases hv : isVoid name with
    | true =>
      obtain ⟨rfl, hsame⟩ := hempty hv
      rw [printedInside, printedInside, if_pos hv, if_pos hv] at hgap
      refine ⟨_, hsame ds, ?_⟩
      simpa only [List.append_nil] using hgap.between _ []
    | false =>
      obtain ⟨body, hbody, rfl, hprint⟩ := hfilled hv
      obtain ⟨texts, -, hbody'⟩ := written_stream .empty ds (isRawText name) hds
      rw [printedInside, printedInside, if_neg (by rw [hv]; simp), if_neg (by rw [hv]; simp), hbody,
        hbody'] at hgap
      exact ⟨_, hprint ds _ hbody', hgap.between start (endTag name)⟩

end

/-- The children of an element with `pre` do not interfere with anything around them. -/
theorem skipped_children_independent (o : Options) {gaps : List Gap} {left right : Text}
    (h : Alike o gaps (Markup.parse left) (Markup.parse right)) :
    (∃ stop, resolve o (Markup.parse left) = .error stop ∧
        resolve o (Markup.parse right) = .error stop) ∨
      ∃ tree tree' table text text', resolve o (Markup.parse left) = .ok (tree, table) ∧
        resolve o (Markup.parse right) = .ok (tree', table) ∧ Resembles gaps tree tree' ∧
        (⟨o, tree, table⟩ : Compiler).output? = some text ∧
        (⟨o, tree', table⟩ : Compiler).output? = some text' ∧
        DifferAt (gaps.map Gap.texts) text text' := by
  have hnil : Behind [] [] [] := .nil
  rcases nodes_agree h hnil .empty with hstop | ⟨tree, tree', table, htree, htree', hr⟩
  · exact .inl hstop
  · right
    have hwritten := h.written (parse_isWritten left) (parse_isWritten right)
    obtain ⟨-, ps, hps, -⟩ := resolve_realizes silent (parse_isWritten left) htree
    obtain ⟨nodes, hemit, hprintable, htidy⟩ := emit_tidy (fun _ _ _ _ => trivial)
      (parse_isWritten left) htree hps (parse_tidy left false)
    obtain ⟨out, hout, rfl⟩ := Option.map_eq_some_iff.mp hemit
    obtain ⟨out', hout', hexpanded⟩ := expand_resembles table hr hwritten hout
    have hprint := printAll_chunks _ false hprintable
    obtain ⟨text', hprint', hdiffer⟩ :=
      print_resembles (merge_resembles hexpanded hwritten) htidy hwritten hprint
    refine ⟨tree, tree', table, _, text', htree, htree', hr, ?_, ?_, hdiffer⟩
    · rw [Compiler.output?, hemit]
      exact hprint
    · rw [Compiler.output?, emit?, hout']
      exact hprint'

def skippedTag : Text :=
  "<i if=\"$a\"><p pre>\x7b\x7b $x</p></i> <b else>\x7b\x7b $b \x7d\x7d</b>".toList

def skippedInstruction : Text :=
  "<i if=\"$a\"><p pre><?= 1 ?></p></i> <b else>\x7b\x7b $b \x7d\x7d</b>".toList

def skippedGap : Gap :=
  ⟨"p".toList, 1, [.text "\x7b\x7b $x".toList 1], [.instruction "?= 1 ?".toList 1]⟩

theorem skipped_children_independent_nested :
    Alike {} [skippedGap] (Markup.parse skippedTag) (Markup.parse skippedInstruction) ∧
      ∃ tree tree' table text text', resolve {} (Markup.parse skippedTag) = .ok (tree, table) ∧
        resolve {} (Markup.parse skippedInstruction) = .ok (tree', table) ∧
        Resembles [skippedGap] tree tree' ∧
        (⟨{}, tree, table⟩ : Compiler).output? = some text ∧
        (⟨{}, tree', table⟩ : Compiler).output? = some text' ∧
        DifferAt [("\x7b\x7b $x".toList, "<?= 1 ?>".toList)] text text' := by
  have htag : Markup.parse skippedTag = [
      .element "i".toList [⟨"if".toList, .text "$a".toList⟩]
        [.element "p".toList [⟨"pre".toList, .text []⟩] skippedGap.left 1] 1,
      .text " ".toList 1,
      .element "b".toList [⟨"else".toList, .text []⟩] [.text "\x7b\x7b $b \x7d\x7d".toList 1] 1] := by
    with_unfolding_all rfl
  have hinstruction : Markup.parse skippedInstruction = [
      .element "i".toList [⟨"if".toList, .text "$a".toList⟩]
        [.element "p".toList [⟨"pre".toList, .text []⟩] skippedGap.right 1] 1,
      .text " ".toList 1,
      .element "b".toList [⟨"else".toList, .text []⟩] [.text "\x7b\x7b $b \x7d\x7d".toList 1] 1] := by
    with_unfolding_all rfl
  have hpre : CarriesPre {} [⟨"pre".toList, .text []⟩] := ⟨[], by decide, rfl⟩
  have hnot : ∀ attributes, valueOf? (Options.directives {}).preName attributes = none →
      ¬ CarriesPre {} attributes := by
    rintro attributes hnone ⟨value, hvalue, -⟩
    rw [hnone] at hvalue
    cases hvalue
  have halike : Alike {} [skippedGap] (Markup.parse skippedTag) (Markup.parse skippedInstruction) := by
    rw [htag, hinstruction]
    exact .element (hnot _ (by decide)) (.gap hpre .nil)
      (.leaf rfl (.element (hnot _ (by decide)) (.leaf rfl .nil) .nil))
  have htexts : [skippedGap].map Gap.texts = [("\x7b\x7b $x".toList, "<?= 1 ?>".toList)] := by decide
  have hok : (resolve {} (Markup.parse skippedTag)).isOk = true := by decide +kernel
  refine ⟨halike, ?_⟩
  rcases skipped_children_independent {} halike with ⟨stop, hstop, -⟩ | hboth
  · rw [hstop] at hok
    cases hok
  · rwa [htexts] at hboth

end Stencil.Template

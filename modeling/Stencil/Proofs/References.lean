import Stencil.Proofs.Regions
import Stencil.Proofs.Verbatim
import Mathlib.Data.List.Nodup
import Mathlib.Tactic.Common

namespace Stencil.Template

open Markup Outcome

inductive Role where
  | placeholder (kind : PlaceholderKind)
  | attribute (name : Text)
  deriving DecidableEq, Repr

def attributeReferences (a : Attribute) : List (Role × Nat) :=
  match a.value with
  | .expression id => [(.attribute a.name, id)]
  | .text _ | .code _ => []

mutual

def nodeReferences : Node → List (Role × Nat)
  | .element _ attributes children _ => attributes.flatMap attributeReferences ++ references children
  | .placeholder id kind children => (.placeholder kind, id) :: references children
  | .text _ _ | .comment _ _ | .doctype _ | .instruction _ _ | .code _ => []

def references : List Node → List (Role × Nat)
  | [] => []
  | node :: rest => nodeReferences node ++ references rest

end

section

variable (o : Options)

def branchSites : Branch → List (Role × Fragment)
  | .plain => []
  | .first condition => [(.placeholder .conditional, .ifOpen condition)]
  | .next condition => [(.placeholder .alternative, .elseIfOpen condition)]
  | .last => [(.placeholder .otherwise, .elseOpen)]

def loopSites (clause : Option Text) : List (Role × Fragment) :=
  clause.toList.map fun raw => (.placeholder .loop, .foreachOpen (o.code raw))

def bindingSites (attributes : List Attribute) : List (Role × Fragment) :=
  (attributes.map boundName).eraseDups.flatMap fun name =>
    (bindingOf? attributes name).toList.map fun raw => (.attribute name, .escapedEcho (o.code raw))

def tagSites (t : Tag) : List (Role × Fragment) :=
  (tagCode? o t).toList.map fun f => (.placeholder .tag, f)

def textSites (content : Text) : List (Role × Fragment) :=
  match _h : Tag.next? content with
  | .ok (some t) => tagSites o t ++ textSites t.after
  | _ => []
termination_by content.length
decreasing_by exact Tag.after_length _h

mutual

def nodeSites : Node → List (Role × Fragment)
  | .element name attributes children line =>
    branchSites (branchOf o (.element name attributes children line)) ++
      (loopSites o (valueOf? o.directives.forName attributes) ++
        (bindingSites o (o.directives.others attributes) ++
          if (valueOf? o.directives.preName attributes).isSome then [] else sites children))
  | .text content _ => textSites o content
  | .comment _ _ | .doctype _ | .instruction _ _ | .placeholder _ _ _ | .code _ => []

/-- The directives, bindings and tags of a tree as it is written, with the code of each. -/
def sites : List Node → List (Role × Fragment)
  | [] => []
  | node :: rest => nodeSites node ++ sites rest

end

end

lemma Grows.size_le {o : Options} {t u : Table Fragment} (h : Grows o t u) : t.size ≤ u.size :=
  h.toExtends.length_le

lemma Table.Fits.of_le {t u : Table Fragment} (h : u.Fits) (hle : t.size ≤ u.size) : t.Fits :=
  Nat.le_trans hle h

lemma Registers.number {o : Options} {f : Fragment} {t u : Table Fragment} {id : Nat}
    (h : Registers o f t id u) (hf : u.Fits) : id = t.size ∧ u.size = t.size + 1 := by
  have hr := h.registered
  simp only [Table.register, Prod.mk.injEq] at hr
  obtain ⟨rfl, rfl⟩ := hr
  have hsize : Table.size (⟨t.entries ++ [f]⟩ : Table Fragment) = t.size + 1 := by simp [Table.size]
  rw [Table.Fits, hsize] at hf
  exact ⟨Nat.min_eq_left (by omega), hsize⟩

lemma range_join {a b c : Nat} (hab : a ≤ b) (hbc : b ≤ c) :
    List.range' a (b - a) ++ List.range' b (c - b) = List.range' a (c - a) := by
  have hjoin : List.range' a (b - a) ++ List.range' (a + (b - a)) (c - b) = _ := List.range'_append_1
  have hmiddle : a + (b - a) = b := by omega
  have hwidth : b - a + (c - b) = c - a := by omega
  rwa [hmiddle, hwidth] at hjoin

structure Issues (o : Options) (t : Table Fragment) (refs : List (Role × Nat))
    (wanted : List (Role × Fragment)) (u : Table Fragment) : Prop where
  grows : Grows o t u
  numbers : u.Fits → (refs.map Prod.snd).Perm (List.range' t.size (u.size - t.size))
  fragments : ∀ v, u.Extends v → v.Fits →
    refs.map (fun r => (r.1, v.get? r.2)) = wanted.map fun s => (s.1, some s.2)

namespace Issues

variable {o : Options} {t u w : Table Fragment} {refs more : List (Role × Nat)}
  {wanted others : List (Role × Fragment)}

lemma none (t : Table Fragment) : Issues o t [] [] t := by
  refine ⟨Grows.refl t, fun _ => ?_, fun _ _ _ => rfl⟩
  simp

lemma one {f : Fragment} {id : Nat} (h : Registers o f t id u) (role : Role) :
    Issues o t [(role, id)] [(role, f)] u := by
  refine ⟨h.grows, ?_, ?_⟩
  · intro hf
    obtain ⟨rfl, hsize⟩ := h.number hf
    rw [hsize]
    simp
  · intro v hv hf
    simp [h.get? hv hf]

lemma append (h : Issues o t refs wanted u) (g : Issues o u more others w) :
    Issues o t (refs ++ more) (wanted ++ others) w := by
  refine ⟨h.grows.trans g.grows, ?_, ?_⟩
  · intro hf
    have hle := g.grows.size_le
    rw [List.map_append, ← range_join h.grows.size_le hle]
    exact (h.numbers (hf.of_le hle)).append (g.numbers hf)
  · intro v hv hf
    rw [List.map_append, List.map_append, h.fragments v (g.grows.toExtends.trans hv) hf,
      g.fragments v hv hf]

end Issues

section

variable {o : Options}

lemma references_append (as bs : List Node) :
    references (as ++ bs) = references as ++ references bs := by
  induction as with
  | nil => rfl
  | cons a as ih => rw [List.cons_append, references, references, ih, List.append_assoc]

lemma references_single (node : Node) : references [node] = nodeReferences node := by
  rw [references, references, List.append_nil]

lemma references_concat (node : Node) (done : List Node) :
    references (node :: done).reverse = references done.reverse ++ nodeReferences node := by
  rw [List.reverse_cons, references_append, references_single]

lemma references_dropWhile (done : List Node) :
    references (done.dropWhile Node.isBlankText).reverse = references done.reverse := by
  induction done with
  | nil => rfl
  | cons node done ih =>
    by_cases hb : node.isBlankText = true
    · have hnone : nodeReferences node = [] := by
        cases node with
        | text content line => rfl
        | _ => cases hb
      rw [List.dropWhile_cons_of_pos hb, ih, references_concat, hnone, List.append_nil]
    · rw [List.dropWhile_cons_of_neg hb]

def conditionalReferences (conditional : Option (Nat × PlaceholderKind)) : List (Role × Nat) :=
  conditional.toList.map fun pair => (.placeholder pair.2, pair.1)

def loopReferences (loop : Option Nat) : List (Role × Nat) :=
  loop.toList.map fun id => (.placeholder .loop, id)

lemma nodeReferences_wrap (conditional : Option (Nat × PlaceholderKind)) (loop : Option Nat)
    (node : Node) : nodeReferences (Resolve.wrap conditional loop node) =
      conditionalReferences conditional ++ (loopReferences loop ++ nodeReferences node) := by
  have hloop : nodeReferences (Resolve.wrap none loop node) =
      loopReferences loop ++ nodeReferences node := by
    cases loop with
    | none => rfl
    | some id =>
      change (_, id) :: references [node] = _
      rw [references_single]
      rfl
  rw [wrap_eq, ← hloop]
  cases conditional with
  | none => rfl
  | some pair =>
    change (_, pair.1) :: references [_] = _
    rw [references_single]
    rfl

lemma opens_issues {done kept : List Node} {branch : Branch} {t u : Table Fragment}
    {conditional : Option (Nat × PlaceholderKind)} (h : Opens o done t branch conditional kept u) :
    Issues o t (conditionalReferences conditional) (branchSites branch) u ∧
      references kept.reverse = references done.reverse := by
  cases h with
  | plain => exact ⟨Issues.none t, rfl⟩
  | first hr => exact ⟨Issues.one hr _, rfl⟩
  | next _ hr => exact ⟨Issues.one hr _, references_dropWhile done⟩
  | last _ hr => exact ⟨Issues.one hr _, references_dropWhile done⟩

lemma loops_issues {clause : Option Text} {loop : Option Nat} {t u : Table Fragment}
    (h : Loops o t clause loop u) : Issues o t (loopReferences loop) (loopSites o clause) u := by
  cases h with
  | none => exact Issues.none t
  | some hr => exact Issues.one hr _

def numbers (attributes : List Attribute) : List Nat :=
  (attributes.flatMap attributeReferences).map Prod.snd

lemma numbers_append (as bs : List Attribute) : numbers (as ++ bs) = numbers as ++ numbers bs := by
  simp [numbers]

lemma numbers_literal {a : Attribute} (h : a.value.isLiteral = true) (as : List Attribute) :
    numbers (a :: as) = numbers as := by
  obtain ⟨name, value⟩ := a
  cases value with
  | text content => rfl
  | expression | code => cases h

lemma numbers_replaceOrAdd {bound : List Attribute} {name : Text} (id : Nat)
    (hd : (bound.map Attribute.name).Nodup)
    (hl : ∀ b ∈ bound, b.name = name → b.value.isLiteral = true) :
    (numbers (Resolve.replaceOrAdd ⟨name, .expression id⟩ bound)).Perm (numbers bound ++ [id]) := by
  have hnew : ∀ as, numbers (⟨name, .expression id⟩ :: as) = id :: numbers as := fun _ => rfl
  unfold Resolve.replaceOrAdd
  split
  · rename_i hany
    obtain ⟨b, hb, hname⟩ := List.any_eq_true.mp hany
    rw [beq_iff_eq] at hname
    obtain ⟨as, bs, rfl⟩ := List.append_of_mem hb
    rw [List.map_append, List.map_cons, List.nodup_middle, List.nodup_cons, hname] at hd
    have hother : ∀ c ∈ as ++ bs, (if c.name = name then ⟨name, .expression id⟩ else c) = c := by
      intro c hc
      apply if_neg
      intro hsame
      apply hd.1
      rw [← List.map_append]
      exact List.mem_map.mpr ⟨c, hc, hsame⟩
    obtain ⟨has, hbs⟩ := List.forall_mem_append.mp hother
    rw [List.map_append, List.map_cons, List.map_congr_left has, List.map_congr_left hbs, if_pos hname,
      List.map_id', List.map_id', numbers_append, hnew, numbers_append, numbers_literal (hl b hb hname)]
    exact List.perm_middle.trans (List.perm_append_singleton _ _).symm
  · rw [numbers_append, hnew]
    exact List.Perm.refl _

lemma nodup_eraseDups (names : List Text) : names.eraseDups.Nodup := by
  induction names using List.reverseRecOn with
  | nil => exact List.nodup_nil
  | append_singleton names name ih =>
    by_cases hm : name ∈ names
    · rw [eraseDups_append_of_mem hm]
      exact ih
    · rw [eraseDups_append_of_notMem hm, List.nodup_append]
      refine ⟨ih, List.nodup_singleton name, ?_⟩
      rintro other hother _ hname rfl
      rw [List.mem_singleton.mp hname, List.mem_eraseDups] at hother
      exact hm hother

lemma binding?_eq_some {a : Attribute} {name value : Text} :
    Resolve.binding? a = some (name, value) ↔ a = ⟨':' :: name, .text value⟩ := by
  constructor
  · intro h
    unfold Resolve.binding? at h
    split at h
    · rename_i hname hvalue
      cases h
      cases a
      cases hname
      cases hvalue
      rfl
    · cases h
  · rintro rfl
    rfl

lemma binding?_name {a : Attribute} {name value : Text} (h : Resolve.binding? a = some (name, value)) :
    a.name = ':' :: name := by
  rw [binding?_eq_some.mp h]

lemma mem_of_bindingOf? {written : List Attribute} {name value : Text}
    (h : bindingOf? written name = some value) :
    ∃ a ∈ written, Resolve.binding? a = some (name, value) := by
  rw [bindingOf?, List.lookup_eq_some_iff] at h
  obtain ⟨front, back, hpairs, -⟩ := h
  have hmem : (name, value) ∈ (written.filterMap Resolve.binding?).reverse := by
    rw [hpairs]
    simp
  exact List.mem_filterMap.mp (List.mem_reverse.mp hmem)

lemma StandsFor.isLiteral {v : Table Fragment} {written rest : List Attribute} {a b : Attribute}
    {value : Text} (h : StandsFor o v written b) (ha : Resolve.binding? a = some (b.name, value))
    (hd : ((written ++ a :: rest).map Attribute.name).Nodup) : b.value.isLiteral = true := by
  unfold StandsFor at h
  cases hb : bindingOf? written b.name with
  | none =>
    simp only [hb] at h
    obtain ⟨content, -, hvalue⟩ := h
    rw [hvalue]
    rfl
  | some other =>
    obtain ⟨c, hc, hbound⟩ := mem_of_bindingOf? hb
    rw [List.map_append, List.map_cons, List.nodup_middle, List.nodup_cons] at hd
    have hsame : a.name = c.name := (binding?_name ha).trans (binding?_name hbound).symm
    rw [hsame] at hd
    exact absurd (List.mem_append_left _ (List.mem_map_of_mem hc)) hd.1

lemma bindAttributes_numbers {line : Nat} {written bound rest out : List Attribute}
    {t u : Table Fragment} (h : Resolve.bindAttributes o line bound rest t = .ok (out, u))
    (hl : ∀ a ∈ rest, a.value.isLiteral = true)
    (hd : ((written ++ rest).map Attribute.name).Nodup) (hr : Represents o u written bound)
    (hf : u.Fits) :
    (numbers out).Perm (numbers bound ++ List.range' t.size (u.size - t.size)) := by
  induction rest generalizing bound written t with
  | nil =>
    obtain ⟨rfl, rfl⟩ := pure_ok.mp h
    simp
  | cons a rest ih =>
    obtain ⟨ha, hl⟩ := List.forall_mem_cons.mp hl
    have hlater : ((written ++ [a] ++ rest).map Attribute.name).Nodup := by rwa [← List.append_cons]
    rcases bindAttributes_cons h with
      ⟨hb, hany, h⟩ | ⟨hb, hany, h⟩ | ⟨name, value, id, t', hb, -, hreg, h⟩
    · exact ih h hl hlater (hr.drop_literal hb ((hr.mem_iff a.name).mp hany))
    · have hadded : Represents o u (written ++ [a]) (bound ++ [a]) := by
        cases hc : a.value with
        | text content => exact hr.add_literal hb hc fun hm => hany ((hr.mem_iff a.name).mpr hm)
        | expression | code =>
          rw [hc] at ha
          cases ha
      have hnone : numbers (bound ++ [a]) = numbers bound := by
        rw [numbers_append, numbers_literal ha]
        exact List.append_nil _
      rw [← hnone]
      exact ih h hl hlater hadded
    · have hgrows := bindAttributes_grows h
      have hfit := hf.of_le hgrows.size_le
      obtain ⟨rfl, hsize⟩ := hreg.number hfit
      have hget := hreg.get? hgrows.toExtends hf
      have hnew := ih h hl hlater (hr.add_binding hb hget fun _ => rfl)
      have hplaced : (numbers (Resolve.replaceOrAdd ⟨name, .expression t.size⟩ bound)).Perm
          (numbers bound ++ [t.size]) := by
        apply numbers_replaceOrAdd
        · rw [hr.names]
          exact nodup_eraseDups _
        · rintro b hm rfl
          exact (hr.values b hm).isLiteral hb hd
      have hone : List.range' t.size (t'.size - t.size) = [t.size] := by
        rw [hsize, Nat.add_sub_cancel_left]
        rfl
      rw [← range_join (by omega) hgrows.size_le, hone, ← List.append_assoc]
      exact hnew.trans (hplaced.append_right _)

lemma bound_fragments {v : Table Fragment} {written out : List Attribute}
    (h : ∀ b ∈ out, StandsFor o v written b) (hf : v.Fits) :
    (out.flatMap attributeReferences).map (fun r => (r.1, v.get? r.2)) =
      ((out.map Attribute.name).flatMap fun name => (bindingOf? written name).toList.map fun raw =>
        ((.attribute name : Role), Fragment.escapedEcho (o.code raw))).map fun s => (s.1, some s.2) := by
  induction out with
  | nil => rfl
  | cons b out ih =>
    obtain ⟨hb, hout⟩ := List.forall_mem_cons.mp h
    rw [List.flatMap_cons, List.map_append, List.map_cons, List.flatMap_cons, List.map_append, ih hout]
    congr 1
    unfold StandsFor at hb
    obtain ⟨name, value⟩ := b
    cases hbound : bindingOf? written name with
    | none =>
      simp only [hbound] at hb
      obtain ⟨content, -, rfl⟩ := hb
      rfl
    | some raw =>
      simp only [hbound] at hb
      obtain ⟨id, g, rfl, hg, hfit⟩ := hb
      simp [attributeReferences, hg, hfit hf]

lemma bound_issues {line : Nat} {written out : List Attribute} {t u : Table Fragment}
    (h : Resolve.bindAttributes o line [] written t = .ok (out, u))
    (hl : ∀ a ∈ written, a.value.isLiteral = true) (hd : (written.map Attribute.name).Nodup) :
    Issues o t (out.flatMap attributeReferences) (bindingSites o written) u := by
  have hempty : ∀ v, Represents o v [] [] := fun v => ⟨rfl, by simp⟩
  refine ⟨bindAttributes_grows h, ?_, ?_⟩
  · intro hf
    have hnumbers := bindAttributes_numbers h hl (by simpa using hd) (hempty u) hf
    exact hnumbers
  · intro v hv hf
    have hr := bindAttributes_represents h hv hl (hempty v)
    rw [List.nil_append] at hr
    rw [bound_fragments hr.values hf, hr.names]
    rfl

lemma textSites_none {content : Text} (h : Tag.next? content = .ok none) : textSites o content = [] := by
  rw [textSites]
  split
  · rename_i tag hsome
    rw [h] at hsome
    cases hsome
  · rfl

lemma textSites_some {content : Text} {tag : Tag} (h : Tag.next? content = .ok (some tag)) :
    textSites o content = tagSites o tag ++ textSites o tag.after := by
  rw [textSites]
  split
  · rename_i other hsome
    rw [h] at hsome
    cases hsome
    rfl
  · rename_i hnone
    exact absurd h (hnone tag)

lemma tag_issues {line id : Nat} {tag : Tag} {t u : Table Fragment}
    (h : Resolve.tag o line tag t = .ok (id, u)) :
    Issues o t [(.placeholder .tag, id)] (tagSites o tag) u := by
  obtain ⟨e, f, ha, hf, hr⟩ := tag_ok h
  have hsites : tagSites o tag = [(.placeholder .tag, f)] := by
    rw [tagSites, tagCode?_eq ha, hf]
    rfl
  rw [hsites]
  exact Issues.one hr _

lemma references_addText (content : Text) (line : Nat) (done : List Node) :
    references (Resolve.addText content line done).reverse = references done.reverse := by
  unfold Resolve.addText
  split
  · rfl
  · rw [references_concat, nodeReferences, List.append_nil]

lemma text_issues {line : Nat} {content : Text} {done out : List Node} {t u : Table Fragment}
    (h : Resolve.text o line content done t = .ok (out, u)) :
    ∃ refs, references out.reverse = references done.reverse ++ refs ∧
      Issues o t refs (textSites o content) u := by
  replace h := text_splits h
  induction h with
  | plain hn =>
    refine ⟨[], ?_, ?_⟩
    · rw [references_addText, List.append_nil]
    · rw [textSites_none hn]
      exact Issues.none _
  | @tag _ id _ _ _ _ _ _ _ hn htag _ ih =>
    obtain ⟨refs, hrefs, hissues⟩ := ih
    refine ⟨(.placeholder .tag, id) :: refs, ?_, ?_⟩
    · rw [hrefs, references_concat, references_addText, nodeReferences, references, List.append_assoc]
      rfl
    · rw [textSites_some hn]
      exact (tag_issues htag).append hissues

lemma read_references {nodes : List Node} : AreRead nodes → references nodes = [] := by
  induction nodes using siblings_induction with
  | nil => exact fun _ => rfl
  | cons node rest ihc ih =>
    rintro ⟨hnode, hrest⟩
    rw [references, ih hrest, List.append_nil]
    cases node with
    | element name attributes children line =>
      have hnone : attributes.flatMap attributeReferences = [] := by
        rw [List.flatMap_eq_nil_iff]
        intro a ha
        have hliteral := hnode.1.literal a ha
        obtain ⟨name, value⟩ := a
        cases value with
        | text content => rfl
        | expression | code => cases hliteral
      rw [nodeReferences, hnone]
      exact ihc hnode.2
    | placeholder | code => exact hnode.elim
    | text | comment | doctype | instruction => rfl

lemma nodes_issue (siblings : List Node) : AreRead siblings →
    ∀ {done out : List Node} {t u : Table Fragment},
      Resolve.nodes o done siblings t = .ok (out, u) →
      ∃ refs, references out = references done.reverse ++ refs ∧
        Issues o t refs (sites o siblings) u := by
  induction siblings using siblings_induction with
  | nil =>
    intro _ done out t u h
    rw [Resolve.nodes] at h
    obtain ⟨rfl, rfl⟩ := pure_ok.mp h
    exact ⟨[], by rw [List.append_nil], Issues.none t⟩
  | cons node rest ihc ih =>
    rintro ⟨hnode, hrest⟩ done out t u h
    rw [Resolve.nodes] at h
    obtain ⟨after, t', hfirst, hothers⟩ := bind_ok.mp h
    obtain ⟨later, hlater, hissued⟩ := ih hrest hothers
    suffices hself : ∃ refs, references after.reverse = references done.reverse ++ refs ∧
        Issues o t refs (nodeSites o node) t' by
      obtain ⟨refs, hrefs, hissues⟩ := hself
      exact ⟨refs ++ later, by rw [hlater, hrefs, List.append_assoc], hissues.append hissued⟩
    cases node with
    | instruction content line =>
      rw [Resolve.node] at hfirst
      exact (fail_ok.mp hfirst).elim
    | comment content line | doctype name =>
      rw [Resolve.node] at hfirst
      obtain ⟨rfl, rfl⟩ := pure_ok.mp hfirst
      exact ⟨[], by rw [references_concat, nodeReferences], Issues.none t⟩
    | placeholder | code => exact hnode.elim
    | text content line =>
      rw [Resolve.node] at hfirst
      exact text_issues hfirst
    | element name attributes children line =>
      obtain ⟨conditional, kept, t₁, loop, t₂, bound, t₃, inner, hopens, hloops, hbound, hinner, rfl⟩ :=
        element_ok hfirst
      obtain ⟨htag, hchildren⟩ := hnode
      obtain ⟨hbranch, hkept⟩ := opens_issues hopens
      have hbindings := bound_issues hbound (fun a hm => htag.literal a (mem_of_mem_others hm))
        (htag.distinct.sublist ((others_sublist _ _).map _))
      have hinside : Issues o t₃ (references inner)
          (if (valueOf? o.directives.preName attributes).isSome then [] else sites o children) t' := by
        split at hinner
        · rename_i hpre
          obtain ⟨rfl, rfl⟩ := hinner
          rw [if_pos hpre, read_references hchildren]
          exact Issues.none t'
        · rename_i hpre
          obtain ⟨refs, hrefs, hissues⟩ := ihc hchildren hinner
          rw [if_neg hpre, hrefs]
          exact hissues
      refine ⟨nodeReferences (Resolve.wrap conditional loop (.element name bound inner line)), ?_, ?_⟩
      · rw [references_concat, hkept]
      · rw [nodeReferences_wrap, nodeReferences, nodeSites]
        exact hbranch.append ((loops_issues hloops).append (hbindings.append hinside))

end

lemma parse_emits {c c' : Compiler} {source : Text} (h : c.parse source = (.ok (), c')) :
    ∃ nodes, emit? c'.table c'.document = some nodes ∧ arePrintable nodes = true ∧
      c'.output? = some ((chunks false nodes).flatMap Chunk.print) := by
  obtain ⟨-, ps, hps⟩ := parse_ok h
  obtain ⟨out, hout, hprintable, -⟩ := expand_chunks hps
  have hemit : emit? c'.table c'.document = some (merge out) := by
    rw [emit?, hout]
    rfl
  have hmerged := merge_printable hprintable
  refine ⟨merge out, hemit, hmerged, ?_⟩
  rw [Compiler.output?, hemit]
  exact printAll_chunks _ false hmerged

/-- Emission cannot fail. A resolved tree refers to every number of its table once, and under it to the
code of its directive, binding or tag as it is written; so the tree is emitted without a reference left,
and it prints. -/
theorem references_cover_table {c c' : Compiler} {source : Text} (h : c.parse source = (.ok (), c'))
    (hf : c'.table.Fits) :
    ((references c'.document).map Prod.snd).Perm (List.range c'.table.size) ∧
      (references c'.document).map (fun r => (r.1, c'.table.get? r.2)) =
        (sites c.options (Markup.parse source)).map (fun s => (s.1, some s.2)) ∧
      ∃ nodes, emit? c'.table c'.document = some nodes ∧ arePrintable nodes = true ∧
        c'.output? = some ((chunks false nodes).flatMap Chunk.print) := by
  obtain ⟨refs, hrefs, hissues⟩ := nodes_issue _ (parse_isRead source) (parse_resolve h)
  have hdocument : references c'.document = refs := hrefs
  rw [hdocument]
  refine ⟨?_, hissues.fragments c'.table (List.prefix_refl _) hf, parse_emits h⟩
  rw [List.range_eq_range']
  exact hissues.numbers hf

def referringSource : Text :=
  "<p if=\"$a\"><b for=\"$b as $c\"><i :id=\"$c\">\x7b\x7b $c \x7d\x7d</i></b></p>".toList ++
    " <p else>\x7b\x7b\x7b $d \x7d\x7d\x7d</p>".toList

theorem references_cover_table_sample :
    ∃ c', (Compiler.ofOptions {}).parse referringSource = (.ok (), c') ∧ c'.table.Fits ∧
      ((references c'.document).map Prod.snd).Perm (List.range 6) ∧
      (references c'.document).map (fun r => (r.1, c'.table.get? r.2)) = [
        (.placeholder .conditional, some (.ifOpen "$a".toList)),
        (.placeholder .loop, some (.foreachOpen "$b as $c".toList)),
        (.attribute "id".toList, some (.escapedEcho "$c".toList)),
        (.placeholder .tag, some (.escapedEcho "$c".toList)),
        (.placeholder .otherwise, some .elseOpen),
        (.placeholder .tag, some (.rawEcho "$d".toList))] ∧
      ∃ nodes, emit? c'.table c'.document = some nodes ∧ arePrintable nodes = true ∧
        c'.output? = some ((chunks false nodes).flatMap Chunk.print) := by
  have hboth : ((Compiler.ofOptions {}).parse referringSource).1.isOk = true ∧
      ((Compiler.ofOptions {}).parse referringSource).2.table.size = 6 := by decide +kernel
  have h := parse_eq_of_isOk (.ofOptions {}) referringSource hboth.1
  have hsize := hboth.2
  have hfits : ((Compiler.ofOptions {}).parse referringSource).2.table.Fits := by
    rw [Table.Fits, hsize]
    decide
  have hsites : sites {} (Markup.parse referringSource) = [
      (.placeholder .conditional, .ifOpen "$a".toList),
      (.placeholder .loop, .foreachOpen "$b as $c".toList),
      (.attribute "id".toList, .escapedEcho "$c".toList),
      (.placeholder .tag, .escapedEcho "$c".toList),
      (.placeholder .otherwise, .elseOpen),
      (.placeholder .tag, .rawEcho "$d".toList)] := by decide +kernel
  obtain ⟨hnumbers, hfragments, hemits⟩ := references_cover_table h hfits
  rw [hsize] at hnumbers
  have hoptions : (Compiler.ofOptions {}).options = {} := rfl
  rw [hoptions, hsites] at hfragments
  exact ⟨_, h, hfits, hnumbers, hfragments, hemits⟩

end Stencil.Template

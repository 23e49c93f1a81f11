import Stencil.Proofs.Resolution
import Mathlib.Tactic.Common

namespace Stencil.Template

open Markup Outcome

lemma Registers.lookup {o : Options} {f : Fragment} {t u v : Table Fragment} {id : Nat}
    (h : Registers o f t id u) (hv : u.Extends v) : ∃ g, v.get? id = some g ∧ (v.Fits → g = f) := by
  have hlt : id < v.entries.length := Nat.lt_of_lt_of_le h.lt_size (List.IsPrefix.length_le hv)
  refine ⟨v.entries.get ⟨id, hlt⟩, List.getElem?_eq_getElem hlt, ?_⟩
  intro hf
  have hg := h.get? hv hf
  rw [Table.get?, List.getElem?_eq_getElem hlt] at hg
  exact Option.some.inj hg

/-- The attribute stands for the one that is written under its name: for the last binding, or else
for the first literal. -/
def StandsFor (o : Options) (v : Table Fragment) (written : List Attribute) (b : Attribute) : Prop :=
  match bindingOf? written b.name with
  | some value => ∃ id g, b.value = .expression id ∧ v.get? id = some g ∧
      (v.Fits → g = .escapedEcho (o.code value))
  | none => ∃ content, literalOf? written b.name = some content ∧ b.value = .text content

structure Represents (o : Options) (v : Table Fragment) (written bound : List Attribute) : Prop where
  names : bound.map Attribute.name = (written.map boundName).eraseDups
  values : ∀ b ∈ bound, StandsFor o v written b

section

variable {o : Options} {v : Table Fragment} {written bound : List Attribute} {a : Attribute}

lemma bindingOf?_append_literal (ha : Resolve.binding? a = none) (name : Text) :
    bindingOf? (written ++ [a]) name = bindingOf? written name := by
  simp [bindingOf?, List.filterMap_append, ha]

lemma bindingOf?_append_binding {name value : Text} (ha : Resolve.binding? a = some (name, value))
    (other : Text) :
    bindingOf? (written ++ [a]) other = if other = name then some value else bindingOf? written other := by
  by_cases h : other = name
  · simp [bindingOf?, List.filterMap_append, ha, h]
  · have hne : (other == name) = false := by simpa using h
    simp [bindingOf?, List.filterMap_append, ha, List.lookup_cons, h, hne]

lemma literalOf?_append {name content : Text} (h : literalOf? written name = some content) :
    literalOf? (written ++ [a]) name = some content := by
  obtain ⟨b, hb, rfl⟩ := Option.map_eq_some_iff.mp h
  simp [literalOf?, List.find?_append, hb]

lemma StandsFor.append_literal {b : Attribute} (h : StandsFor o v written b)
    (ha : Resolve.binding? a = none) : StandsFor o v (written ++ [a]) b := by
  unfold StandsFor at h ⊢
  rw [bindingOf?_append_literal ha]
  cases hb : bindingOf? written b.name with
  | some value => simpa only [hb] using h
  | none =>
    simp only [hb] at h
    obtain ⟨content, hc, hv⟩ := h
    exact ⟨content, literalOf?_append hc, hv⟩

lemma StandsFor.append_binding {b : Attribute} {name value : Text} (h : StandsFor o v written b)
    (ha : Resolve.binding? a = some (name, value)) (hne : b.name ≠ name) :
    StandsFor o v (written ++ [a]) b := by
  unfold StandsFor at h ⊢
  rw [bindingOf?_append_binding ha, if_neg hne]
  cases hb : bindingOf? written b.name with
  | some value => simpa only [hb] using h
  | none =>
    simp only [hb] at h
    obtain ⟨content, hc, hv⟩ := h
    exact ⟨content, literalOf?_append hc, hv⟩

lemma eraseDups_append_of_mem {names : List Text} {name : Text} (h : name ∈ names) :
    (names ++ [name]).eraseDups = names.eraseDups := by
  rw [List.eraseDups_append]
  simp [List.removeAll, h]

lemma eraseDups_append_of_notMem {names : List Text} {name : Text} (h : name ∉ names) :
    (names ++ [name]).eraseDups = names.eraseDups ++ [name] := by
  rw [List.eraseDups_append]
  simp [List.removeAll, h, List.eraseDups_cons]

lemma Represents.mem_iff (h : Represents o v written bound) (name : Text) :
    (bound.any fun b => b.name == name) = true ↔ name ∈ written.map boundName := by
  rw [← List.mem_eraseDups, ← h.names]
  simp

lemma Represents.drop_literal (h : Represents o v written bound) (ha : Resolve.binding? a = none)
    (hm : a.name ∈ written.map boundName) : Represents o v (written ++ [a]) bound := by
  have hname : boundName a = a.name := by simp [boundName, ha]
  refine ⟨?_, fun b hb => (h.values b hb).append_literal ha⟩
  rw [List.map_append, List.map_singleton, hname, eraseDups_append_of_mem hm, h.names]

lemma Represents.add_literal (h : Represents o v written bound) (ha : Resolve.binding? a = none)
    {content : Text} (hv : a.value = .text content) (hm : a.name ∉ written.map boundName) :
    Represents o v (written ++ [a]) (bound ++ [a]) := by
  have hname : boundName a = a.name := by simp [boundName, ha]
  refine ⟨?_, ?_⟩
  · rw [List.map_append, List.map_append, List.map_singleton, List.map_singleton, hname,
      eraseDups_append_of_notMem hm, h.names]
  · intro b hb
    rcases List.mem_append.mp hb with hb | hb
    · exact (h.values b hb).append_literal ha
    · rw [List.mem_singleton.mp hb]
      have hnone : bindingOf? written a.name = none := by
        rw [bindingOf?, List.lookup_eq_none_iff]
        rintro ⟨name, value⟩ hp
        obtain ⟨c, hc, hcb⟩ := List.mem_filterMap.mp (List.mem_reverse.mp hp)
        have hcn : boundName c = name := by simp [boundName, hcb]
        have hne : a.name ≠ name := by
          rintro rfl
          exact hm (List.mem_map.mpr ⟨c, hc, hcn⟩)
        simpa using hne
      have hfirst : literalOf? written a.name = none := by
        rw [literalOf?, Option.map_eq_none_iff, List.find?_eq_none]
        intro c hc hp
        simp only [Bool.and_eq_true, Option.isNone_iff_eq_none, beq_iff_eq] at hp
        exact hm (List.mem_map.mpr ⟨c, hc, by simp [boundName, hp.1, hp.2]⟩)
      unfold StandsFor
      rw [bindingOf?_append_literal ha, hnone]
      refine ⟨content, ?_, hv⟩
      rw [literalOf?, Option.map_eq_none_iff] at hfirst
      simp [literalOf?, List.find?_append, hfirst, ha, hv, AttributeValue.literal]

lemma mem_replaceOrAdd {b : Attribute} (h : b ∈ Resolve.replaceOrAdd a bound) :
    b = a ∨ b ∈ bound ∧ b.name ≠ a.name := by
  unfold Resolve.replaceOrAdd at h
  split at h
  · obtain ⟨c, hc, rfl⟩ := List.mem_map.mp h
    by_cases hname : c.name = a.name
    · simp [hname]
    · simp [hname, hc]
  · rename_i hany
    rcases List.mem_append.mp h with hb | hb
    · refine .inr ⟨hb, fun hname => hany ?_⟩
      rw [List.any_eq_true]
      exact ⟨b, hb, beq_iff_eq.mpr hname⟩
    · exact .inl (List.mem_singleton.mp hb)

lemma names_replaceOrAdd (a : Attribute) (bound : List Attribute) :
    (Resolve.replaceOrAdd a bound).map Attribute.name =
      if a.name ∈ bound.map Attribute.name then bound.map Attribute.name
      else bound.map Attribute.name ++ [a.name] := by
  have hany : (bound.any fun b => b.name == a.name) = true ↔ a.name ∈ bound.map Attribute.name := by
    simp
  simp only [Resolve.replaceOrAdd, hany]
  split
  · rw [List.map_map]
    apply List.map_congr_left
    intro b _
    by_cases hb : b.name = a.name <;> simp [hb]
  · rw [List.map_append, List.map_singleton]

lemma Represents.add_binding (h : Represents o v written bound) {name value : Text}
    (ha : Resolve.binding? a = some (name, value)) {id : Nat} {g : Fragment}
    (hg : v.get? id = some g) (hf : v.Fits → g = .escapedEcho (o.code value)) :
    Represents o v (written ++ [a]) (Resolve.replaceOrAdd ⟨name, .expression id⟩ bound) := by
  have hname : boundName a = name := by simp [boundName, ha]
  refine ⟨?_, ?_⟩
  · simp only [names_replaceOrAdd, h.names, List.mem_eraseDups, List.map_append, List.map_singleton, hname]
    split
    · rename_i hm
      exact (eraseDups_append_of_mem hm).symm
    · rename_i hm
      exact (eraseDups_append_of_notMem hm).symm
  · intro b hb
    rcases mem_replaceOrAdd hb with rfl | ⟨hold, hne⟩
    · unfold StandsFor
      rw [bindingOf?_append_binding ha, if_pos rfl]
      exact ⟨id, g, rfl, hg, hf⟩
    · exact (h.values b hold).append_binding ha hne

lemma bindAttributes_cons {line : Nat} {rest out : List Attribute} {t u : Table Fragment}
    (h : Resolve.bindAttributes o line bound (a :: rest) t = .ok (out, u)) :
    (Resolve.binding? a = none ∧ (bound.any fun b => b.name == a.name) = true ∧
      Resolve.bindAttributes o line bound rest t = .ok (out, u)) ∨
    (Resolve.binding? a = none ∧ ¬ (bound.any fun b => b.name == a.name) = true ∧
      Resolve.bindAttributes o line (bound ++ [a]) rest t = .ok (out, u)) ∨
    ∃ name value id t', Resolve.binding? a = some (name, value) ∧
      (∃ e, Expression.accept .binding (o.code value) = .ok e ∧ e.isEmpty = false) ∧
      Registers o (.escapedEcho (o.code value)) t id t' ∧
      Resolve.bindAttributes o line (Resolve.replaceOrAdd ⟨name, .expression id⟩ bound) rest t' =
        .ok (out, u) := by
  unfold Resolve.bindAttributes at h
  cases hb : Resolve.binding? a with
  | none =>
    simp only [hb] at h
    split at h
    · rename_i hany
      exact Or.inl ⟨rfl, hany, h⟩
    · rename_i hany
      exact Or.inr (Or.inl ⟨rfl, hany, h⟩)
  | some pair =>
    simp only [hb] at h
    obtain ⟨e, t', he, hafter⟩ := bind_ok.mp h
    obtain ⟨haccept, hsource, rfl⟩ := expression_ok he
    split at hafter
    · exact (fail_ok.mp hafter).elim
    · rename_i hempty
      have hfull : e.isEmpty = false := by simpa using hempty
      obtain ⟨id, u', hr, hrest⟩ := bind_ok.mp hafter
      rw [hsource, register_ok] at hr
      exact Or.inr (Or.inr ⟨pair.1, pair.2, id, u', rfl, ⟨e, haccept, hfull⟩,
        ⟨.bound hfull haccept, hr⟩, hrest⟩)

lemma bindAttributes_grows {line : Nat} {rest out : List Attribute} {t u : Table Fragment}
    (h : Resolve.bindAttributes o line bound rest t = .ok (out, u)) : Grows o t u := by
  induction rest generalizing bound t with
  | nil =>
    obtain ⟨_, rfl⟩ := pure_ok.mp h
    exact Grows.refl _
  | cons a rest ih =>
    rcases bindAttributes_cons h with ⟨_, _, h⟩ | ⟨_, _, h⟩ | ⟨_, _, _, _, _, _, hr, h⟩
    · exact ih h
    · exact ih h
    · exact hr.grows.trans (ih h)

lemma bindAttributes_represents {line : Nat} {rest out : List Attribute} {t u : Table Fragment}
    (h : Resolve.bindAttributes o line bound rest t = .ok (out, u)) (hv : u.Extends v)
    (hl : ∀ a ∈ rest, a.value.isLiteral = true) (hr : Represents o v written bound) :
    Represents o v (written ++ rest) out := by
  induction rest generalizing bound written t with
  | nil =>
    obtain ⟨rfl, _⟩ := pure_ok.mp h
    simpa using hr
  | cons a rest ih =>
    obtain ⟨ha, hl⟩ := List.forall_mem_cons.mp hl
    rw [List.append_cons]
    rcases bindAttributes_cons h with
      ⟨hb, hany, h⟩ | ⟨hb, hany, h⟩ | ⟨name, value, id, t', hb, -, hreg, h⟩
    · exact ih h hl (hr.drop_literal hb ((hr.mem_iff a.name).mp hany))
    · cases hc : a.value with
      | text content =>
        exact ih h hl (hr.add_literal hb hc fun hm => hany ((hr.mem_iff a.name).mpr hm))
      | expression | code =>
        rw [hc] at ha
        cases ha
    · obtain ⟨g, hg, hfit⟩ := hreg.lookup ((bindAttributes_grows h).toExtends.trans hv)
      exact ih h hl (hr.add_binding hb hg hfit)

variable {S : Type} {I : Interpretation S}

lemma attribute_realizes {b : Attribute} (h : StandsFor o v written b) :
    ∃ ps, attributeStream? v b = some ps ∧
      (v.Fits → Closed ps ∧ Realizes I ps (attributeBehaviour I o written b.name)) := by
  have hwrap : ∀ {p : Chunk Command} {c : Behaviour S}, Closed [p] → Realizes I [p] c →
      Closed [.literal (attributeOpening b.name), p, .literal ['"']] ∧
      Realizes I [.literal (attributeOpening b.name), p, .literal ['"']]
        ((Behaviour.write (attributeOpening b.name)).andThen (c.andThen (.write ['"']))) := by
    intro p c hc hr
    exact ⟨(Closed.literal _).append (hc.append (Closed.literal _)),
      (Realizes.literal _).append (hr.append (Realizes.literal _))⟩
  unfold StandsFor at h
  unfold attributeBehaviour valueBehaviour
  cases hb : bindingOf? written b.name with
  | some value =>
    simp only [hb] at h
    obtain ⟨id, g, hid, hg, hfit⟩ := h
    refine ⟨[.literal (attributeOpening b.name), .attributeCode (.fragment g), .literal ['"']], ?_, ?_⟩
    · simp only [attributeStream?, hid, hg, Option.map_some]
    · intro hf
      rw [hfit hf]
      exact hwrap (Closed.perform rfl rfl) (Realizes.perform rfl rfl)
  | none =>
    simp only [hb] at h
    obtain ⟨content, hc, hvalue⟩ := h
    refine ⟨_, by simp only [attributeStream?, hvalue]; rfl, ?_⟩
    intro hf
    simp only [hc, Option.getD_some]
    exact hwrap (Closed.literal _) (Realizes.literal _)

lemma attributes_realize {bs : List Attribute} (h : ∀ b ∈ bs, StandsFor o v written b) :
    ∃ ps, attributesStream? v bs = some ps ∧ (v.Fits → Closed ps ∧
      Realizes I ps ((bs.map Attribute.name).foldr
        (fun name rest => (attributeBehaviour I o written name).andThen rest) (.write []))) := by
  induction bs with
  | nil => exact ⟨[], rfl, fun _ => ⟨Closed.nil, Realizes.nil⟩⟩
  | cons b rest ih =>
    obtain ⟨ps, hps, hb⟩ := attribute_realizes (I := I) (h b (List.mem_cons_self ..))
    obtain ⟨qs, hqs, hrest⟩ := ih fun b hb => h b (List.mem_cons_of_mem _ hb)
    refine ⟨ps ++ qs, ?_, ?_⟩
    · simp only [attributesStream?, hps, hqs, Option.bind_eq_bind, Option.bind_some]
      rfl
    · intro hf
      exact ⟨(hb hf).1.append (hrest hf).1, (hb hf).2.append (hrest hf).2⟩

lemma bound_realizes {line : Nat} {out : List Attribute} {t u : Table Fragment}
    (h : Resolve.bindAttributes o line [] written t = .ok (out, u)) (hv : u.Extends v)
    (hl : ∀ a ∈ written, a.value.isLiteral = true) :
    ∃ ps, attributesStream? v out = some ps ∧
      (v.Fits → Closed ps ∧ Realizes I ps (attributesBehaviour I o written)) := by
  have hr : Represents o v ([] ++ written) out :=
    bindAttributes_represents h hv hl ⟨rfl, by simp⟩
  obtain ⟨ps, hps, hb⟩ := attributes_realize (I := I) hr.values
  rw [List.nil_append] at hb hr
  rw [hr.names] at hb
  exact ⟨ps, hps, hb⟩

end

end Stencil.Template

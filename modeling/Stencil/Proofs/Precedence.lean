import Stencil.Proofs.References
import Mathlib.Tactic.Common

namespace Stencil.Template

open Markup Outcome

def unmarked : Text → Text
  | ':' :: name => name
  | name => name

def bindings (attributes : List Attribute) : List (Text × Text) :=
  attributes.filterMap Resolve.binding?

/-- What binding makes of the attributes that are written, with the table before and after it. -/
structure Merged (o : Options) (written out : List Attribute) (t u : Table Fragment) : Prop where
  nodup : (out.map Attribute.name).Nodup
  names : out.map Attribute.name = (written.map fun a => unmarked a.name).eraseDups
  bound : ∀ b ∈ out, ∀ value, ⟨':' :: b.name, .text value⟩ ∈ written →
    ∃ k id e, (bindings written)[k]? = some (b.name, value) ∧ b.value = .expression id ∧
      id = min (t.size + k) Table.lastId ∧
      Expression.accept .binding (o.code value) = .ok e ∧ e.isEmpty = false ∧
      (u.Fits → u.get? id = some (.escapedEcho (o.code value)))
  literal : ∀ b ∈ out, ':' :: b.name ∉ written.map Attribute.name → b ∈ written
  table : u.entries = t.entries ++ (bindings written).map fun b => .escapedEcho (o.code b.2)

lemma mem_bindings {attributes : List Attribute} {name value : Text} :
    (name, value) ∈ bindings attributes ↔ ⟨':' :: name, .text value⟩ ∈ attributes := by
  simp [bindings, List.mem_filterMap, binding?_eq_some]

lemma boundName_eq {a : Attribute} (h : a.value.isLiteral = true) : boundName a = unmarked a.name := by
  obtain ⟨name, value⟩ := a
  cases value with
  | expression | code => cases h
  | text content =>
    unfold boundName Resolve.binding? unmarked
    split <;> rename_i heq <;> split at heq <;> simp_all

structure Merging (o : Options) (t : Table Fragment) (written bound : List Attribute)
    (u : Table Fragment) : Prop where
  table : u.entries = t.entries ++ (bindings written).map fun b => .escapedEcho (o.code b.2)
  admitted : ∀ b ∈ bindings written,
    ∃ e, Expression.accept .binding (o.code b.2) = .ok e ∧ e.isEmpty = false
  kept : ∀ b ∈ bindings written, b.1 ∈ bound.map Attribute.name
  numbered : ∀ b ∈ bound, ∀ k value, (bindings written)[k]? = some (b.name, value) →
    b.value = .expression (min (t.size + k) Table.lastId)

namespace Merging

variable {o : Options} {t u v : Table Fragment} {written bound : List Attribute} {a : Attribute}

lemma drop_literal (h : Merging o t written bound u) (ha : Resolve.binding? a = none) :
    Merging o t (written ++ [a]) bound u := by
  obtain ⟨htable, hadmitted, hkept, hnumbered⟩ := h
  have hsame : bindings (written ++ [a]) = bindings written := by simp [bindings, ha]
  rw [← hsame] at htable hadmitted hkept hnumbered
  exact ⟨htable, hadmitted, hkept, hnumbered⟩

lemma add_literal (h : Merging o t written bound u) (ha : Resolve.binding? a = none)
    (hnew : a.name ∉ bound.map Attribute.name) : Merging o t (written ++ [a]) (bound ++ [a]) u := by
  obtain ⟨htable, hadmitted, hkept, hnumbered⟩ := h.drop_literal ha
  refine ⟨htable, hadmitted, ?_, ?_⟩
  · intro b hb
    rw [List.map_append]
    exact List.mem_append_left _ (hkept b hb)
  · intro b hb k value hk
    rcases List.mem_append.mp hb with hb | hb
    · exact hnumbered b hb k value hk
    · -- A literal is only added where no binding of its name came before.
      rw [List.mem_singleton.mp hb] at hk
      exact absurd (hkept _ (List.mem_of_getElem? hk)) hnew

lemma size_eq (h : Merging o t written bound u) : u.size = t.size + (bindings written).length := by
  simp [Table.size, h.table]

lemma get? (h : Merging o t written bound u) {k : Nat} {b : Text × Text}
    (hk : (bindings written)[k]? = some b) (hf : u.Fits) :
    u.get? (min (t.size + k) Table.lastId) = some (.escapedEcho (o.code b.2)) := by
  have hlt := (List.getElem?_eq_some_iff.mp hk).1
  have hsize := h.size_eq
  rw [Table.Fits] at hf
  rw [Nat.min_eq_left (by omega), Table.get?, h.table, Table.size,
    List.getElem?_append_right (Nat.le_add_right ..), Nat.add_sub_cancel_left, List.getElem?_map, hk]
  rfl

lemma add_binding (h : Merging o t written bound u) {name value : Text} {id : Nat}
    (ha : Resolve.binding? a = some (name, value))
    (hadmitted : ∃ e, Expression.accept .binding (o.code value) = .ok e ∧ e.isEmpty = false)
    (hr : Registers o (.escapedEcho (o.code value)) u id v)
    (hnew : a.name ∉ written.map Attribute.name) :
    Merging o t (written ++ [a]) (Resolve.replaceOrAdd ⟨name, .expression id⟩ bound) v := by
  have hlast : bindings (written ++ [a]) = bindings written ++ [(name, value)] := by
    simp [bindings, ha]
  have hreg := hr.registered
  simp only [Table.register, Prod.mk.injEq] at hreg
  obtain ⟨rfl, rfl⟩ := hreg
  refine ⟨?_, ?_, ?_, ?_⟩ <;> rw [hlast]
  · rw [h.table]
    simp
  · exact List.forall_mem_append.mpr ⟨h.admitted, List.forall_mem_singleton.mpr hadmitted⟩
  · rw [names_replaceOrAdd]
    intro b hb
    rcases List.mem_append.mp hb with hb | hb
    · have hkept := h.kept b hb
      split
      · exact hkept
      · exact List.mem_append_left _ hkept
    · rw [List.mem_singleton.mp hb]
      split
      · assumption
      · simp
  · intro b hb k other hk
    rcases mem_replaceOrAdd hb with rfl | ⟨hold, hne⟩ <;>
      rw [List.getElem?_append] at hk <;> split at hk
    · -- The name is new, so the binding is not one of the earlier ones.
      have hearlier := mem_bindings.mp (List.mem_of_getElem? hk)
      rw [binding?_name ha] at hnew
      exact absurd (List.mem_map_of_mem hearlier) hnew
    · rename_i hge
      obtain ⟨hz, -⟩ := List.getElem?_eq_some_iff.mp hk
      rw [List.length_singleton] at hz
      rw [h.size_eq, show k = (bindings written).length by omega]
    · exact h.numbered b hold k other hk
    · obtain ⟨hpair⟩ := List.mem_singleton.mp (List.mem_of_getElem? hk)
      exact absurd rfl hne

end Merging

lemma bindAttributes_merging {o : Options} {line : Nat} {written bound rest out : List Attribute}
    {t u v : Table Fragment} (h : Resolve.bindAttributes o line bound rest u = .ok (out, v))
    (hd : ((written ++ rest).map Attribute.name).Nodup) (hm : Merging o t written bound u) :
    Merging o t (written ++ rest) out v := by
  induction rest generalizing written bound u with
  | nil =>
    obtain ⟨rfl, rfl⟩ := pure_ok.mp h
    simpa using hm
  | cons a rest ih =>
    have hnew : a.name ∉ written.map Attribute.name := by
      rw [List.map_append, List.map_cons, List.nodup_middle, List.nodup_cons] at hd
      exact fun hin => hd.1 (List.mem_append_left _ hin)
    rw [List.append_cons] at hd ⊢
    rcases bindAttributes_cons h with
      ⟨ha, -, h⟩ | ⟨ha, hany, h⟩ | ⟨name, value, id, u', ha, hadmitted, hr, h⟩
    · exact ih h hd (hm.drop_literal ha)
    · exact ih h hd (hm.add_literal ha (by simpa using hany))
    · exact ih h hd (hm.add_binding ha hadmitted hr hnew)

lemma mem_of_literalOf? {written : List Attribute} {b : Attribute} {content : Text}
    (h : literalOf? written b.name = some content) (hb : b.value = .text content)
    (hl : ∀ a ∈ written, a.value.isLiteral = true) : b ∈ written := by
  rw [literalOf?, Option.map_eq_some_iff] at h
  obtain ⟨a, hfind, rfl⟩ := h
  have ha := List.mem_of_find?_eq_some hfind
  have hname := List.find?_some hfind
  simp only [Bool.and_eq_true, beq_iff_eq] at hname
  have hvalue : a.value = .text a.value.literal := by
    have hliteral := hl a ha
    cases hc : a.value with
    | text content => rfl
    | expression | code =>
      rw [hc] at hliteral
      cases hliteral
  have hsame : a = b := by
    obtain ⟨aname, avalue⟩ := a
    obtain ⟨bname, bvalue⟩ := b
    rw [Attribute.mk.injEq]
    exact ⟨hname.2, hvalue.trans hb.symm⟩
  rwa [← hsame]

lemma StandsFor.mem_of_unbound {o : Options} {v : Table Fragment} {written : List Attribute}
    {b : Attribute} (h : StandsFor o v written b) (hl : ∀ a ∈ written, a.value.isLiteral = true)
    (hunbound : ':' :: b.name ∉ written.map Attribute.name) : b ∈ written := by
  unfold StandsFor at h
  cases hbinding : bindingOf? written b.name with
  | some value =>
    obtain ⟨a, ha, hname⟩ := mem_of_bindingOf? hbinding
    rw [← binding?_name hname] at hunbound
    exact absurd (List.mem_map_of_mem ha) hunbound
  | none =>
    simp only [hbinding] at h
    obtain ⟨content, hliteral, hvalue⟩ := h
    exact mem_of_literalOf? hliteral hvalue hl

/-- A binding wins over a literal of its name, whichever is written first. -/
theorem bindings_win {o : Options} {line : Nat} {written out : List Attribute} {t u : Table Fragment}
    (hl : ∀ a ∈ written, a.value.isLiteral = true) (hd : (written.map Attribute.name).Nodup)
    (h : Resolve.bindAttributes o line [] written t = .ok (out, u)) : Merged o written out t u := by
  have hrepresents : Represents o u ([] ++ written) out :=
    bindAttributes_represents h (List.prefix_refl _) hl ⟨rfl, by simp⟩
  have hmerging : Merging o t ([] ++ written) out u :=
    bindAttributes_merging h (by simpa using hd) ⟨by simp [bindings], by simp [bindings],
      by simp [bindings], by simp⟩
  rw [List.nil_append] at hrepresents hmerging
  have hnames : out.map Attribute.name = (written.map fun a => unmarked a.name).eraseDups := by
    rw [hrepresents.names, List.map_congr_left fun a ha => boundName_eq (hl a ha)]
  refine ⟨?_, hnames, ?_, ?_, hmerging.table⟩
  · rw [hnames]
    exact nodup_eraseDups _
  · intro b hb value hm
    have hbinding := mem_bindings.mpr hm
    obtain ⟨k, hk⟩ := List.mem_iff_getElem?.mp hbinding
    obtain ⟨e, haccept, hfull⟩ := hmerging.admitted _ hbinding
    exact ⟨k, _, e, hk, hmerging.numbered b hb k value hk, rfl, haccept, hfull, hmerging.get? hk⟩
  · exact fun b hb hunbound => (hrepresents.values b hb).mem_of_unbound hl hunbound

def mixedAttributes : List Attribute :=
  [⟨"a".toList, .text "x".toList⟩, ⟨":b".toList, .text " $p.q ".toList⟩,
    ⟨"::a".toList, .text "$r".toList⟩, ⟨"b".toList, .text "y".toList⟩,
    ⟨"c".toList, .text "z".toList⟩, ⟨":a".toList, .text "$s".toList⟩]

def mergedAttributes : List Attribute :=
  [⟨"a".toList, .expression 2⟩, ⟨"b".toList, .expression 0⟩, ⟨":a".toList, .expression 1⟩,
    ⟨"c".toList, .text "z".toList⟩]

def mergedTable : Table Fragment :=
  ⟨[.escapedEcho "$p['q']".toList, .escapedEcho "$r".toList, .escapedEcho "$s".toList]⟩

theorem bindings_win_mixed :
    Resolve.bindAttributes ⟨[], true⟩ 1 [] mixedAttributes .empty = .ok (mergedAttributes, mergedTable) ∧
      Merged ⟨[], true⟩ mixedAttributes mergedAttributes .empty mergedTable := by
  have h : Resolve.bindAttributes ⟨[], true⟩ 1 [] mixedAttributes .empty =
      .ok (mergedAttributes, mergedTable) := by
    decide +kernel
  exact ⟨h, bindings_win (by decide +kernel) (by decide +kernel) h⟩

end Stencil.Template

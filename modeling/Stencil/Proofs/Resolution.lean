import Stencil.Proofs.Outcome
import Stencil.Proofs.Rendering
import Mathlib.Tactic.Common

/-! What resolving registers, step by step. -/

namespace Stencil.Template

open Markup Outcome

inductive Admitted (o : Options) : Fragment → Prop
  | ifOpen {raw : Text} {e : Expression} : Text.isBlank raw = false →
      Expression.accept .condition (o.code raw) = .ok e → Admitted o (.ifOpen (o.code raw))
  | elseIfOpen {raw : Text} {e : Expression} : Text.isBlank raw = false →
      Expression.accept .condition (o.code raw) = .ok e → Admitted o (.elseIfOpen (o.code raw))
  | elseOpen : Admitted o .elseOpen
  | foreachOpen {raw : Text} {e : Expression} : Text.isBlank raw = false →
      Expression.accept .loop (o.code raw) = .ok e → Admitted o (.foreachOpen (o.code raw))
  | bound {raw : Text} {e : Expression} : e.isEmpty = false →
      Expression.accept .binding (o.code raw) = .ok e → Admitted o (.escapedEcho (o.code raw))
  | tag {raw : Text} {e : Expression} {modifier : Modifier} {f : Fragment} : e.isEmpty = false →
      Expression.accept .tag (o.code raw) = .ok e → Resolve.tagFragment? modifier e = some f →
      Admitted o f

namespace Table

def Extends {α : Type} (t u : Table α) : Prop := t.entries <+: u.entries

def Fits {α : Type} (t : Table α) : Prop := t.size ≤ lastId + 1

lemma Extends.trans {α : Type} {t u v : Table α} (h : t.Extends u) (g : u.Extends v) : t.Extends v :=
  List.IsPrefix.trans h g

end Table

def Grows (o : Options) (t u : Table Fragment) : Prop :=
  ∃ new, u.entries = t.entries ++ new ∧ ∀ f ∈ new, Admitted o f

namespace Grows

variable {o : Options} {t u v : Table Fragment}

lemma refl (t : Table Fragment) : Grows o t t := ⟨[], by simp, by simp⟩

lemma trans (h : Grows o t u) (g : Grows o u v) : Grows o t v := by
  obtain ⟨new, hu, hn⟩ := h
  obtain ⟨more, hv, hm⟩ := g
  refine ⟨new ++ more, by rw [hv, hu, List.append_assoc], ?_⟩
  intro f hf
  rcases List.mem_append.mp hf with hf | hf
  · exact hn f hf
  · exact hm f hf

lemma toExtends (h : Grows o t u) : t.Extends u := by
  obtain ⟨new, hu, _⟩ := h
  exact ⟨new, hu.symm⟩

end Grows

structure Registers (o : Options) (f : Fragment) (t : Table Fragment) (id : Nat)
    (u : Table Fragment) : Prop where
  admitted : Admitted o f
  registered : Table.register f t = (id, u)

namespace Registers

variable {o : Options} {f : Fragment} {t u v : Table Fragment} {id : Nat}

lemma grows (h : Registers o f t id u) : Grows o t u := by
  have hr := h.registered
  simp only [Table.register, Prod.mk.injEq] at hr
  obtain ⟨_, rfl⟩ := hr
  refine ⟨[f], rfl, ?_⟩
  simpa using h.admitted

lemma lt_size (h : Registers o f t id u) : id < u.size := by
  have hr := h.registered
  simp only [Table.register, Prod.mk.injEq] at hr
  obtain ⟨rfl, rfl⟩ := hr
  simp only [Table.size, List.length_append, List.length_cons, List.length_nil]
  omega

lemma get? (h : Registers o f t id u) (hv : u.Extends v) (hf : v.Fits) : v.get? id = some f := by
  have hr := h.registered
  simp only [Table.register, Prod.mk.injEq] at hr
  obtain ⟨rfl, rfl⟩ := hr
  obtain ⟨more, hm⟩ := hv
  have hsize : t.size ≤ Table.lastId := by
    have := congrArg List.length hm
    simp only [List.length_append, List.length_cons, List.length_nil] at this
    simp only [Table.Fits, Table.size] at hf ⊢
    omega
  rw [Table.get?, ← hm, Nat.min_eq_left hsize, Table.size]
  simp

end Registers

lemma register_ok {f : Fragment} {t u : Table Fragment} {id : Nat} :
    Resolve.register f t = .ok (id, u) ↔ Table.register f t = (id, u) := by
  change Except.ok (Table.register f t) = Except.ok (id, u) ↔ _
  simp

lemma fail_ok {α : Type} {line : Nat} {cause : Cause} {t u : Table Fragment} {a : α} :
    (Resolve.fail line cause : Resolve α) t = .ok (a, u) ↔ False := by
  change Except.error (⟨⟨cause, line⟩, t⟩ : Stop) = Except.ok (a, u) ↔ False
  simp

lemma accept_source {site : Site} {source : Text} {e : Expression}
    (h : Expression.accept site source = .ok e) : e.source = source := by
  unfold Expression.accept at h
  split at h
  · cases h
    rfl
  · split at h
    · cases h
    · cases h
    · split at h
      · unfold Expression.acceptTokens at h
        split at h
        · cases h
        · split at h
          · cases h
          · split at h
            · split at h
              · cases h
              · cases h
                rfl
            · cases h
      · cases h

lemma expression_ok {o : Options} {site : Site} {line : Nat} {raw : Text} {e : Expression}
    {t u : Table Fragment} (h : Resolve.expression o site line raw t = .ok (e, u)) :
    Expression.accept site (o.code raw) = .ok e ∧ e.source = o.code raw ∧ u = t := by
  unfold Resolve.expression at h
  cases ha : Expression.accept site (o.code raw) with
  | error refusal =>
    unfold Options.code at ha
    rw [ha] at h
    exact (fail_ok.mp h).elim
  | ok e' =>
    have hcode := ha
    unfold Options.code at hcode
    rw [hcode] at h
    obtain ⟨rfl, rfl⟩ := pure_ok.mp h
    exact ⟨rfl, accept_source ha, rfl⟩

lemma register_expression_ok {α : Type} {o : Options} {site : Site} {line : Nat} {raw : Text}
    {code : Text → Fragment} {next : Nat → Resolve α} {t u : Table Fragment} {a : α}
    (h : (do
      let e ← Resolve.expression o site line raw
      let id ← Resolve.register (code e.source)
      next id) t = .ok (a, u)) :
    ∃ e id t', Expression.accept site (o.code raw) = .ok e ∧
      Table.register (code (o.code raw)) t = (id, t') ∧ next id t' = .ok (a, u) := by
  obtain ⟨e, t', he, hafter⟩ := bind_ok.mp h
  obtain ⟨ha, hsource, rfl⟩ := expression_ok he
  obtain ⟨id, t', hr, hnext⟩ := bind_ok.mp hafter
  rw [hsource, register_ok] at hr
  exact ⟨e, id, t', ha, hr, hnext⟩

lemma takeAttribute_eq (name : Text) (attributes : List Attribute) :
    takeAttribute name attributes = (valueOf? name attributes, without name attributes) := by
  induction attributes with
  | nil => rfl
  | cons a rest ih =>
    by_cases h : a.name = name
    · simp [takeAttribute, valueOf?, without, h]
    · simp only [takeAttribute, h, if_false, ih]
      simp [valueOf?, without, h]

lemma valueOf?_without {name other : Text} (h : name ≠ other) (attributes : List Attribute) :
    valueOf? name (without other attributes) = valueOf? name attributes := by
  induction attributes with
  | nil => rfl
  | cons a rest ih =>
    by_cases ho : a.name = other
    · have hn : ¬ a.name = name := by
        intro he
        exact h (he.symm.trans ho)
      simp [valueOf?, without, ho, h.symm]
    · by_cases hn : a.name = name
      · simp [valueOf?, without, hn, h]
      · simp only [valueOf?, without] at ih
        simp [valueOf?, without, ho, hn, ih]

lemma without_eq_self {name : Text} {attributes : List Attribute}
    (h : valueOf? name attributes = none) : without name attributes = attributes := by
  simp only [valueOf?, Option.map_eq_none_iff, List.find?_eq_none] at h
  exact List.eraseP_of_forall_not h

lemma others_sublist (d : Directives) (attributes : List Attribute) :
    (d.others attributes).Sublist attributes := by
  rw [Directives.others]
  generalize d.names = names
  induction names generalizing attributes with
  | nil => exact List.Sublist.refl _
  | cons name names ih => exact (ih (without name attributes)).trans List.eraseP_sublist

lemma mem_of_mem_others {d : Directives} {attributes : List Attribute} {a : Attribute}
    (h : a ∈ d.others attributes) : a ∈ attributes :=
  (others_sublist d attributes).mem h

lemma directive_ne {o : Options} :
    o.directives.elseIfName ≠ o.directives.ifName ∧ o.directives.elseName ≠ o.directives.ifName ∧
    o.directives.elseName ≠ o.directives.elseIfName ∧ o.directives.forName ≠ o.directives.ifName ∧
    o.directives.forName ≠ o.directives.elseIfName ∧ o.directives.forName ≠ o.directives.elseName ∧
    o.directives.preName ≠ o.directives.ifName ∧ o.directives.preName ≠ o.directives.elseIfName ∧
    o.directives.preName ≠ o.directives.elseName ∧ o.directives.preName ≠ o.directives.forName := by
  simp [Options.directives, Directives.withPrefix]

def EndsInChain (done : List Node) : Prop :=
  ∃ id kind children before, kind.continuesChain = true ∧
    done.dropWhile Node.isBlankText = .placeholder id kind children :: before

lemma chain_ok {o : Options} {line : Nat} {name : Text} {taken : Option PlaceholderKind}
    {done out : List Node} {t u : Table Fragment}
    (h : Resolve.chain o line name taken done t = .ok (out, u)) :
    taken = none ∧ EndsInChain done ∧ out = done.dropWhile Node.isBlankText ∧ u = t := by
  unfold Resolve.chain at h
  cases taken with
  | some kind => exact (fail_ok.mp h).elim
  | none =>
    dsimp only at h
    generalize hd : done.dropWhile Node.isBlankText = kept at h
    cases kept with
    | nil => exact (fail_ok.mp h).elim
    | cons node before =>
      cases node with
      | placeholder id kind children =>
        by_cases hk : kind.continuesChain = true
        · simp only [hk, if_true] at h
          obtain ⟨rfl, rfl⟩ := pure_ok.mp h
          exact ⟨rfl, ⟨id, kind, children, before, hk, hd⟩, rfl, rfl⟩
        · simp only [hk] at h
          exact (fail_ok.mp h).elim
      | element name attributes children line => exact (fail_ok.mp h).elim
      | text content line => exact (fail_ok.mp h).elim
      | comment content line => exact (fail_ok.mp h).elim
      | doctype name => exact (fail_ok.mp h).elim
      | instruction content line => exact (fail_ok.mp h).elim
      | code content => exact (fail_ok.mp h).elim

inductive Opens (o : Options) (done : List Node) (t : Table Fragment) :
    Branch → Option (Nat × PlaceholderKind) → List Node → Table Fragment → Prop
  | plain : Opens o done t .plain none done t
  | first {condition : Text} {id : Nat} {u : Table Fragment} :
      Registers o (.ifOpen condition) t id u →
      Opens o done t (.first condition) (some (id, .conditional)) done u
  | next {condition : Text} {id : Nat} {u : Table Fragment} : EndsInChain done →
      Registers o (.elseIfOpen condition) t id u →
      Opens o done t (.next condition) (some (id, .alternative)) (done.dropWhile Node.isBlankText) u
  | last {id : Nat} {u : Table Fragment} : EndsInChain done → Registers o .elseOpen t id u →
      Opens o done t .last (some (id, .otherwise)) (done.dropWhile Node.isBlankText) u

section Directives

variable {o : Options} {line : Nat} {s r : Resolve.Scope} {t u : Table Fragment}

lemma ifDirective_ok (h : Resolve.ifDirective o line s t = .ok (r, u)) :
    (valueOf? o.directives.ifName s.attributes = none ∧ r = s ∧ u = t) ∨
      ∃ raw id, valueOf? o.directives.ifName s.attributes = some raw ∧
        Registers o (.ifOpen (o.code raw)) t id u ∧
        r = ⟨some (id, .conditional), without o.directives.ifName s.attributes, s.done⟩ := by
  unfold Resolve.ifDirective at h
  rw [takeAttribute_eq] at h
  cases hv : valueOf? o.directives.ifName s.attributes with
  | none =>
    rw [hv] at h
    obtain ⟨rfl, rfl⟩ := pure_ok.mp h
    exact Or.inl ⟨rfl, rfl, rfl⟩
  | some raw =>
    rw [hv] at h
    dsimp only at h
    by_cases hb : Text.isBlank raw = true
    · simp only [hb, if_true] at h
      exact (fail_ok.mp h).elim
    · simp only [hb] at h
      obtain ⟨e, id, t', ha, hr, hpure⟩ := register_expression_ok h
      obtain ⟨rfl, rfl⟩ := pure_ok.mp hpure
      exact Or.inr ⟨raw, id, rfl, ⟨.ifOpen (by simpa using hb) ha, hr⟩, rfl⟩

lemma elseIfDirective_ok (h : Resolve.elseIfDirective o line s t = .ok (r, u)) :
    (valueOf? o.directives.elseIfName s.attributes = none ∧ r = s ∧ u = t) ∨
      ∃ raw id, valueOf? o.directives.elseIfName s.attributes = some raw ∧ s.conditional = none ∧
        EndsInChain s.done ∧ Registers o (.elseIfOpen (o.code raw)) t id u ∧
        r = ⟨some (id, .alternative), without o.directives.elseIfName s.attributes,
          s.done.dropWhile Node.isBlankText⟩ := by
  unfold Resolve.elseIfDirective at h
  rw [takeAttribute_eq] at h
  cases hv : valueOf? o.directives.elseIfName s.attributes with
  | none =>
    rw [hv] at h
    obtain ⟨rfl, rfl⟩ := pure_ok.mp h
    exact Or.inl ⟨rfl, rfl, rfl⟩
  | some raw =>
    rw [hv] at h
    dsimp only at h
    by_cases hb : Text.isBlank raw = true
    · simp only [hb, if_true] at h
      exact (fail_ok.mp h).elim
    · simp only [hb] at h
      obtain ⟨done, t', hc, hafter⟩ := bind_ok.mp h
      obtain ⟨hn, hchain, rfl, rfl⟩ := chain_ok hc
      obtain ⟨e, id, t', ha, hr, hpure⟩ := register_expression_ok hafter
      obtain ⟨rfl, rfl⟩ := pure_ok.mp hpure
      exact Or.inr ⟨raw, id, rfl, by simpa using hn, hchain,
        ⟨.elseIfOpen (by simpa using hb) ha, hr⟩, rfl⟩

lemma elseDirective_ok (h : Resolve.elseDirective o line s t = .ok (r, u)) :
    (valueOf? o.directives.elseName s.attributes = none ∧ r = s ∧ u = t) ∨
      ∃ raw id, valueOf? o.directives.elseName s.attributes = some raw ∧ s.conditional = none ∧
        EndsInChain s.done ∧ Registers o .elseOpen t id u ∧
        r = ⟨some (id, .otherwise), without o.directives.elseName s.attributes,
          s.done.dropWhile Node.isBlankText⟩ := by
  unfold Resolve.elseDirective at h
  rw [takeAttribute_eq] at h
  cases hv : valueOf? o.directives.elseName s.attributes with
  | none =>
    rw [hv] at h
    obtain ⟨rfl, rfl⟩ := pure_ok.mp h
    exact Or.inl ⟨rfl, rfl, rfl⟩
  | some raw =>
    rw [hv] at h
    dsimp only at h
    by_cases hb : Text.isBlank raw = true
    · simp only [hb, if_true] at h
      obtain ⟨done, t', hc, hafter⟩ := bind_ok.mp h
      obtain ⟨hn, hchain, rfl, rfl⟩ := chain_ok hc
      obtain ⟨id, u', hr, hpure⟩ := bind_ok.mp hafter
      obtain ⟨rfl, rfl⟩ := pure_ok.mp hpure
      rw [register_ok] at hr
      exact Or.inr ⟨raw, id, rfl, by simpa using hn, hchain, ⟨.elseOpen, hr⟩, rfl⟩
    · simp only [hb] at h
      exact (fail_ok.mp h).elim

lemma conditional_ok (name : Text) {attributes : List Attribute} (children : List Node)
    {done : List Node} {s₁ s₂ s₃ : Resolve.Scope} {t₁ t₂ t₃ : Table Fragment}
    (h₁ : Resolve.ifDirective o line ⟨none, attributes, done⟩ t = .ok (s₁, t₁))
    (h₂ : Resolve.elseIfDirective o line s₁ t₁ = .ok (s₂, t₂))
    (h₃ : Resolve.elseDirective o line s₂ t₂ = .ok (s₃, t₃)) :
    Opens o done t (branchOf o (.element name attributes children line)) s₃.conditional s₃.done t₃ ∧
      s₃.attributes = without o.directives.elseName (without o.directives.elseIfName
        (without o.directives.ifName attributes)) := by
  obtain ⟨hne₁, hne₂, hne₃, _⟩ := directive_ne (o := o)
  have hif := ifDirective_ok h₁
  have helseIf := elseIfDirective_ok h₂
  have helse := elseDirective_ok h₃
  rcases hif with ⟨hv₁, rfl, rfl⟩ | ⟨raw, id, hv₁, hr₁, rfl⟩
  · rcases helseIf with ⟨hv₂, rfl, rfl⟩ | ⟨raw, id, hv₂, _, hchain, hr₂, rfl⟩
    · rcases helse with ⟨hv₃, rfl, rfl⟩ | ⟨raw, id, hv₃, _, hchain, hr₃, rfl⟩
      · simp only at hv₁ hv₂ hv₃
        refine ⟨?_, by rw [without_eq_self hv₁, without_eq_self hv₂, without_eq_self hv₃]⟩
        simp only [branchOf, hv₁, hv₂, hv₃]
        exact .plain
      · simp only at hv₁ hv₂ hv₃ hchain
        refine ⟨?_, by rw [without_eq_self hv₁, without_eq_self hv₂]⟩
        simp only [branchOf, hv₁, hv₂, hv₃]
        exact .last hchain hr₃
    · simp only at hv₁ hv₂ hchain
      rcases helse with ⟨hv₃, rfl, rfl⟩ | ⟨raw', id', _, hn, _⟩
      · simp only at hv₃
        refine ⟨?_, by rw [without_eq_self hv₁, without_eq_self hv₃]⟩
        simp only [branchOf, hv₁, hv₂]
        exact .next hchain hr₂
      · cases hn
  · simp only at hv₁
    rcases helseIf with ⟨hv₂, rfl, rfl⟩ | ⟨raw', id', _, hn, _⟩
    · simp only at hv₂
      rcases helse with ⟨hv₃, rfl, rfl⟩ | ⟨raw', id', _, hn, _⟩
      · simp only at hv₃
        refine ⟨?_, by rw [without_eq_self hv₂, without_eq_self hv₃]⟩
        simp only [branchOf, hv₁]
        exact .first hr₁
      · cases hn
    · cases hn

inductive Loops (o : Options) (t : Table Fragment) :
    Option Text → Option Nat → Table Fragment → Prop
  | none : Loops o t none none t
  | some {raw : Text} {id : Nat} {u : Table Fragment} :
      Registers o (.foreachOpen (o.code raw)) t id u → Loops o t (some raw) (some id) u

lemma forDirective_ok {attributes others : List Attribute} {loop : Option Nat}
    (h : Resolve.forDirective o line attributes t = .ok ((loop, others), u)) :
    Loops o t (valueOf? o.directives.forName attributes) loop u ∧
      others = without o.directives.forName attributes := by
  unfold Resolve.forDirective at h
  rw [takeAttribute_eq] at h
  cases hv : valueOf? o.directives.forName attributes with
  | none =>
    rw [hv] at h
    obtain ⟨hp, rfl⟩ := pure_ok.mp h
    cases hp
    exact ⟨.none, (without_eq_self hv).symm⟩
  | some raw =>
    rw [hv] at h
    dsimp only at h
    by_cases hb : Text.isBlank raw = true
    · simp only [hb, if_true] at h
      exact (fail_ok.mp h).elim
    · simp only [hb] at h
      obtain ⟨e, id, t', ha, hr, hpure⟩ := register_expression_ok h
      obtain ⟨hp, rfl⟩ := pure_ok.mp hpure
      cases hp
      exact ⟨.some ⟨.foreachOpen (by simpa using hb) ha, hr⟩, rfl⟩

lemma preDirective_ok {attributes others : List Attribute} {pre : Bool}
    (h : Resolve.preDirective o line attributes t = .ok ((pre, others), u)) :
    pre = (valueOf? o.directives.preName attributes).isSome ∧
      others = without o.directives.preName attributes ∧ u = t := by
  unfold Resolve.preDirective at h
  rw [takeAttribute_eq] at h
  cases hv : valueOf? o.directives.preName attributes with
  | none =>
    rw [hv] at h
    obtain ⟨hp, rfl⟩ := pure_ok.mp h
    cases hp
    exact ⟨rfl, (without_eq_self hv).symm, rfl⟩
  | some raw =>
    rw [hv] at h
    dsimp only at h
    by_cases hb : Text.isBlank raw = true
    · simp only [hb, if_true] at h
      obtain ⟨hp, rfl⟩ := pure_ok.mp h
      cases hp
      exact ⟨rfl, rfl, rfl⟩
    · simp only [hb] at h
      exact (fail_ok.mp h).elim

lemma node_element (name : Text) (attributes : List Attribute) (children done : List Node) :
    Resolve.node o done (.element name attributes children line) = (do
      let s ← Resolve.ifDirective o line ⟨none, attributes, done⟩
      let s ← Resolve.elseIfDirective o line s
      let s ← Resolve.elseDirective o line s
      let (loop, attributes) ← Resolve.forDirective o line s.attributes
      let (pre, attributes) ← Resolve.preDirective o line attributes
      let attributes ← Resolve.bindAttributes o line [] attributes
      let children ← if pre then pure children else Resolve.nodes o [] children
      return Resolve.wrap s.conditional loop (.element name attributes children line) :: s.done) := by
  cases attributes with
  | nil =>
    rw [Resolve.node]
    rfl
  | cons a rest =>
    rw [Resolve.node]
    simp

lemma element_ok {name : Text} {attributes : List Attribute} {children done out : List Node}
    (h : Resolve.node o done (.element name attributes children line) t = .ok (out, u)) :
    ∃ conditional kept t₁ loop t₂ bound t₃ inner,
      Opens o done t (branchOf o (.element name attributes children line)) conditional kept t₁ ∧
      Loops o t₁ (valueOf? o.directives.forName attributes) loop t₂ ∧
      Resolve.bindAttributes o line [] (o.directives.others attributes) t₂ = .ok (bound, t₃) ∧
      (if (valueOf? o.directives.preName attributes).isSome then inner = children ∧ u = t₃
        else Resolve.nodes o [] children t₃ = .ok (inner, u)) ∧
      out = Resolve.wrap conditional loop (.element name bound inner line) :: kept := by
  obtain ⟨_, _, _, hf₁, hf₂, hf₃, hp₁, hp₂, hp₃, hp₄⟩ := directive_ne (o := o)
  rw [node_element] at h
  obtain ⟨s₁, t₁, h₁, hk₁⟩ := bind_ok.mp h
  obtain ⟨s₂, t₂, h₂, hk₂⟩ := bind_ok.mp hk₁
  obtain ⟨s₃, t₃, h₃, hk₃⟩ := bind_ok.mp hk₂
  obtain ⟨⟨loop, others⟩, t₄, h₄, hk₄⟩ := bind_ok.mp hk₃
  obtain ⟨⟨pre, rest⟩, t₅, h₅, hk₅⟩ := bind_ok.mp hk₄
  obtain ⟨bound, t₆, h₆, hk₆⟩ := bind_ok.mp hk₅
  obtain ⟨hopens, hs⟩ := conditional_ok name children h₁ h₂ h₃
  obtain ⟨hloops, ho⟩ := forDirective_ok h₄
  obtain ⟨hpre, hr, rfl⟩ := preDirective_ok h₅
  rw [hs, valueOf?_without hf₃, valueOf?_without hf₂, valueOf?_without hf₁] at hloops
  rw [ho, hs, valueOf?_without hp₄, valueOf?_without hp₃, valueOf?_without hp₂,
    valueOf?_without hp₁] at hpre
  rw [hr, ho, hs] at h₆
  rw [hpre] at hk₆
  by_cases hsome : (valueOf? o.directives.preName attributes).isSome = true
  · rw [if_pos hsome] at hk₆
    obtain ⟨inner, t₇, h₇, hk₇⟩ := bind_ok.mp hk₆
    obtain ⟨rfl, rfl⟩ := pure_ok.mp h₇
    obtain ⟨rfl, rfl⟩ := pure_ok.mp hk₇
    exact ⟨_, _, _, _, _, _, _, _, hopens, hloops, h₆, by rw [if_pos hsome]; exact ⟨rfl, rfl⟩, rfl⟩
  · rw [if_neg hsome] at hk₆
    obtain ⟨inner, t₇, h₇, hk₇⟩ := bind_ok.mp hk₆
    obtain ⟨rfl, rfl⟩ := pure_ok.mp hk₇
    exact ⟨_, _, _, _, _, _, _, _, hopens, hloops, h₆, by rw [if_neg hsome]; exact h₇, rfl⟩

end Directives

end Stencil.Template

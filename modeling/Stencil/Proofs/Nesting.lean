import Stencil.Code.Statement
import Stencil.Proofs.Outcome
import Mathlib.Tactic.Common

/-! Every reader moves from one stack of open brackets to another over the tokens that it reads. -/

namespace Stencil.Code

def Symbol.closer? : Symbol → Option Symbol
  | .openParen => some .closeParen
  | .openBracket => some .closeBracket
  | .openBrace => some .closeBrace
  | _ => none

def Symbol.isCloser : Symbol → Bool
  | .closeParen | .closeBracket | .closeBrace => true
  | _ => false

def nestKind (stack : List Symbol) : Kind → Option (List Symbol)
  | .symbol s =>
    match s.closer? with
    | some close => some (close :: stack)
    | none =>
      if s.isCloser then
        match stack with
        | top :: rest => if top = s then some rest else none
        | [] => none
      else some stack
  | _ => some stack

def nest (stack : List Symbol) : List Token → Option (List Symbol)
  | [] => some stack
  | t :: ts => (nestKind stack t.kind).bind fun after => nest after ts

lemma nest_append (stack : List Symbol) (as bs : List Token) :
    nest stack (as ++ bs) = (nest stack as).bind fun after => nest after bs := by
  induction as generalizing stack with
  | nil => rfl
  | cons a as ih =>
    simp only [List.cons_append, nest, Option.bind_assoc, ih]

lemma nestKind_extend {stack after : List Symbol} {k : Kind} (h : nestKind stack k = some after)
    (outer : List Symbol) : nestKind (stack ++ outer) k = some (after ++ outer) := by
  cases k with
  | symbol s =>
    simp only [nestKind] at h ⊢
    split at h
    · cases h
      rfl
    · split at h
      · rename_i hcloser
        rw [if_pos hcloser]
        cases stack with
        | nil => cases h
        | cons top rest =>
          dsimp only [List.cons_append] at h ⊢
          split at h
          · rename_i htop
            cases h
            rw [if_pos htop]
          · cases h
      · rename_i hcloser
        cases h
        rw [if_neg hcloser]
  | _ =>
    cases h
    rfl

lemma nest_extend {stack after : List Symbol} {ts : List Token} (h : nest stack ts = some after)
    (outer : List Symbol) : nest (stack ++ outer) ts = some (after ++ outer) := by
  induction ts generalizing stack with
  | nil =>
    cases h
    rfl
  | cons t ts ih =>
    obtain ⟨next, hnext, hrest⟩ := Option.bind_eq_some_iff.mp h
    rw [nest, nestKind_extend hnext outer]
    exact ih hrest

def Kind.isInner : Kind → Bool
  | .symbol .semicolon | .keyword .kwAs => false
  | _ => true

structure Moves (start : List Symbol) (used : List Token) (stop : List Symbol) : Prop where
  nests : nest start used = some stop
  inner : ∀ t ∈ used, t.kind.isInner = true

namespace Moves

lemma nil (stack : List Symbol) : Moves stack [] stack := ⟨rfl, by simp⟩

lemma one {start stop : List Symbol} {t : Token} (h : nestKind start t.kind = some stop)
    (hi : t.kind.isInner = true) : Moves start [t] stop := by
  refine ⟨by simp [nest, h], ?_⟩
  intro u hu
  rw [List.mem_singleton.mp hu]
  exact hi

lemma append {a b c : List Symbol} {us vs : List Token} (hu : Moves a us b) (hv : Moves b vs c) :
    Moves a (us ++ vs) c := by
  refine ⟨by rw [nest_append, hu.nests, Option.bind_some, hv.nests], ?_⟩
  intro t ht
  rcases List.mem_append.mp ht with ht | ht
  · exact hu.inner t ht
  · exact hv.inner t ht

end Moves

end Stencil.Code

namespace Stencil.Code.Statement

open Outcome

variable {α β : Type} {start mid : List Symbol} {stop : α → List Symbol}

def Fence (ts : List Token) : Prop :=
  ∃ t rest, ts = t :: rest ∧ (t.kind = .symbol .semicolon ∨ t.kind = .symbol .closeParen)

def isSyntaxFault : Fault → Bool
  | .unexpected _ _ | .nestingTooDeep => true
  | _ => false

def isStep (k : Kind) : Prop :=
  k = .symbol .increment ∨ k = .symbol .decrement

structure ReadsFrom (P : List Token → Prop) (p : Reader α) (start : List Symbol)
    (stop : α → List Symbol) (going : α → Bool) : Prop where
  moves {ts rest : List Token} {a : α} : P ts → p ts = .ok (a, rest) →
    ∃ used, ts = used ++ rest ∧ Moves start used (stop a)
  advances {ts rest : List Token} {a : α} : P ts → p ts = .ok (a, rest) → going a = true →
    rest.length < ts.length
  /-- What comes after the tokens that it reads may be exchanged, if both end an expression. The one
  way to notice is to wait for a closing parenthesis. -/
  swaps {x y ts rest : List Token} {a : α} : Fence x → Fence y → P ts →
    p (ts ++ x) = .ok (a, rest ++ x) →
    p (ts ++ y) = .ok (a, rest ++ y) ∨ (rest = [] ∧ .closeParen ∈ stop a)
  faults {ts : List Token} {fault : Fault} : P ts → p ts = .error fault → isSyntaxFault fault = true
  /-- What comes after a step that it leaves unread makes no difference. -/
  stable {t : Token} {x y ts rest : List Token} {a : α} : isStep t.kind → P (ts ++ t :: x) →
    p (ts ++ t :: x) = .ok (a, rest ++ t :: x) → p (ts ++ t :: y) = .ok (a, rest ++ t :: y)

abbrev Reads (p : Reader α) (start : List Symbol) (stop : α → List Symbol) : Prop :=
  ReadsFrom (fun _ => True) p start stop fun _ => false

abbrev ReadsAt (k : Kind) (p : Reader α) (start : List Symbol) (stop : α → List Symbol) : Prop :=
  ReadsFrom (fun ts => ts.head?.map Token.kind = some k) p start stop fun _ => false

lemma Fence.length_pos {ts : List Token} (h : Fence ts) : 0 < ts.length := by
  obtain ⟨t, rest, rfl, -⟩ := h
  exact Nat.succ_pos _

lemma Fence.not_tail {x rest : List Token} (h : Fence x) : x.tail ≠ rest ++ x := by
  intro heq
  have hlength := congrArg List.length heq
  have hpos := h.length_pos
  rw [List.length_tail, List.length_append] at hlength
  omega

section

variable {P Q : List Token → Prop} {going : α → Bool} {p : Reader α}

lemma ReadsFrom.mono {going' : α → Bool} (h : ReadsFrom P p start stop going) (hQ : ∀ ts, Q ts → P ts)
    (hgoing : ∀ a, going' a = true → going a = true) : ReadsFrom Q p start stop going' :=
  ⟨fun hq => h.moves (hQ _ hq), fun hq hp ha => h.advances (hQ _ hq) hp (hgoing _ ha),
    fun hx hy hq => h.swaps hx hy (hQ _ hq), fun hq => h.faults (hQ _ hq),
    fun ht hq => h.stable ht (hQ _ hq)⟩

lemma ReadsFrom.weaken (h : ReadsFrom P p start stop going) (hQ : ∀ ts, Q ts → P ts) :
    ReadsFrom Q p start stop fun _ => false :=
  h.mono hQ fun _ hfalse => absurd hfalse Bool.false_ne_true

lemma ReadsFrom.at (h : ReadsFrom (fun _ => True) p start stop going) (k : Kind) :
    ReadsFrom (fun ts => ts.head?.map Token.kind = some k) p start stop going :=
  h.mono (fun _ _ => trivial) fun _ => id

lemma ReadsFrom.pure {a : α} (h : stop a = start) (hgoing : going a = false) :
    ReadsFrom P (pure a : Reader α) start stop going := by
  refine ⟨?_, ?_, ?_, ?_, ?_⟩
  · intro ts rest b _ hp
    obtain ⟨rfl, rfl⟩ := pure_ok.mp hp
    exact ⟨[], rfl, by rw [h]; exact Moves.nil start⟩
  · intro ts rest b _ hp hb
    obtain ⟨rfl, rfl⟩ := pure_ok.mp hp
    rw [hgoing] at hb
    cases hb
  · intro x y ts rest b _ _ _ hp
    obtain ⟨rfl, heq⟩ := pure_ok.mp hp
    rw [List.append_cancel_right heq]
    exact Or.inl rfl
  · intro ts fault _ hp
    cases hp
  · intro t x y ts rest b _ _ hp
    obtain ⟨rfl, heq⟩ := pure_ok.mp hp
    rw [List.append_cancel_right heq]
    rfl

lemma Reads.pure {a : α} (h : stop a = start) : Reads (pure a : Reader α) start stop :=
  ReadsFrom.pure h rfl

lemma ReadsFrom.bind_of {Q : α → List Token → Prop} {started : α → Bool} {f : α → Reader β}
    {final : β → List Symbol} {going : β → Bool} (hp : ReadsFrom P p start stop started)
    (hleft : ∀ {ts x rest a}, P ts → p (ts ++ x) = .ok (a, rest) → Q a rest)
    (hcut : ∀ {ts x rest a}, P ts → p (ts ++ x) = .ok (a, rest ++ x) → Q a rest)
    (hf : ∀ a, ReadsFrom (Q a) (f a) (stop a) final fun b => going b && !started a) :
    ReadsFrom P (p >>= f) start final going := by
  have hwhole : ∀ {ts rest a}, P ts → p ts = .ok (a, rest) → Q a rest := by
    intro ts rest a hP ha
    exact hleft hP ((List.append_nil ts).symm ▸ ha)
  refine ⟨?_, ?_, ?_, ?_, ?_⟩
  · intro ts rest b hP h
    obtain ⟨a, mid, ha, hb⟩ := bind_ok.mp h
    obtain ⟨vs, rfl, hv⟩ := (hf a).moves (hwhole hP ha) hb
    obtain ⟨us, rfl, hu⟩ := hp.moves hP ha
    exact ⟨us ++ vs, by rw [List.append_assoc], hu.append hv⟩
  · intro ts rest b hP h hgoing
    obtain ⟨a, mid, ha, hb⟩ := bind_ok.mp h
    obtain ⟨vs, hvs, -⟩ := (hf a).moves (hwhole hP ha) hb
    obtain ⟨us, hus, -⟩ := hp.moves hP ha
    have hlength := congrArg List.length hvs
    have hlength' := congrArg List.length hus
    rw [List.length_append] at hlength hlength'
    cases hstarted : started a with
    | true =>
      have hless := hp.advances hP ha hstarted
      omega
    | false =>
      have hless := (hf a).advances (hwhole hP ha) hb (by rw [hgoing, hstarted]; rfl)
      omega
  · intro x y ts rest b hx hy hP h
    obtain ⟨a, mid, ha, hb⟩ := bind_ok.mp h
    obtain ⟨vs, rfl, hv⟩ := (hf a).moves (hleft hP ha) hb
    rw [← List.append_assoc] at ha hb
    rcases hp.swaps hx hy hP ha with hswap | ⟨hnil, hclose⟩
    · rcases (hf a).swaps hx hy (hcut hP ha) hb with hrest | hrest
      · exact Or.inl (bind_ok.mpr ⟨a, _, hswap, hrest⟩)
      · exact Or.inr hrest
    · -- Nothing is read after the reader that waits, so the parenthesis is still waited for.
      obtain ⟨rfl, rfl⟩ := List.append_eq_nil_iff.mp hnil
      refine Or.inr ⟨rfl, ?_⟩
      have hstack : stop a = final b := Option.some.inj hv.nests
      rwa [← hstack]
  · intro ts fault hP h
    rcases bind_error.mp h with herror | ⟨a, mid, ha, hb⟩
    · exact hp.faults hP herror
    · exact (hf a).faults (hwhole hP ha) hb
  · intro t x y ts rest b ht hP h
    obtain ⟨a, mid, ha, hb⟩ := bind_ok.mp h
    have hQ := hwhole hP ha
    obtain ⟨vs, rfl, -⟩ := (hf a).moves hQ hb
    rw [← List.append_assoc] at ha hb hQ
    exact bind_ok.mpr ⟨a, _, hp.stable ht hP ha, (hf a).stable ht hQ hb⟩

lemma ReadsFrom.bind {started : α → Bool} {f : α → Reader β} {final : β → List Symbol}
    {going : β → Bool} (hp : ReadsFrom P p start stop started)
    (hf : ∀ a, ReadsFrom (fun _ => True) (f a) (stop a) final going) :
    ReadsFrom P (p >>= f) start final going :=
  hp.bind_of (fun _ _ => trivial) (fun _ _ => trivial) fun a =>
    (hf a).mono (fun _ => id) fun _ hgoing => (Bool.and_eq_true_iff.mp hgoing).1

lemma ReadsFrom.after {f : α → Reader β} {final : β → List Symbol} {going : β → Bool}
    (hp : ReadsFrom P p start stop fun _ => true) (hf : ∀ a, Reads (f a) (stop a) final) :
    ReadsFrom P (p >>= f) start final going :=
  hp.bind_of (fun _ _ => trivial) (fun _ _ => trivial) fun a =>
    (hf a).mono (fun _ => id) fun _ hgoing => by simp at hgoing

end

lemma discard_eq (p : Reader α) : (Functor.discard p : Reader PUnit) = p >>= fun _ => Pure.pure ⟨⟩ := by
  simp only [Functor.discard, map_const, Function.comp_apply, map_eq_pure_bind]

lemma discard_ok {p : Reader α} {ts rest : List Token} {u : PUnit} :
    (Functor.discard p : Reader PUnit) ts = .ok (u, rest) ↔ ∃ a, p ts = .ok (a, rest) := by
  rw [discard_eq, bind_ok]
  constructor
  · rintro ⟨a, mid, hp, hpure⟩
    obtain ⟨-, rfl⟩ := pure_ok.mp hpure
    exact ⟨a, hp⟩
  · rintro ⟨a, hp⟩
    exact ⟨a, rest, hp, rfl⟩

lemma Reads.discard {p : Reader α} (h : Reads p start (fun _ => mid)) :
    Reads (Functor.discard p) start (fun _ => mid) := by
  rw [discard_eq]
  exact h.bind fun _ => Reads.pure rfl

lemma unexpected_eq (ts : List Token) :
    (unexpected : Reader α) ts = .error (.unexpected ts.head? none) := rfl

lemma unexpected_ok {ts rest : List Token} {a : α} :
    (unexpected : Reader α) ts = .ok (a, rest) ↔ False := by
  rw [unexpected_eq]
  simp

lemma Reads.failure {P : List Token → Prop} {going : α → Bool} {p : Reader α} (fault : List Token → Fault)
    (hp : ∀ ts, p ts = .error (fault ts)) (hf : ∀ ts, isSyntaxFault (fault ts) = true) :
    ReadsFrom P p start stop going := by
  refine ⟨?_, ?_, ?_, ?_, ?_⟩
  · intro ts rest a _ h
    rw [hp] at h
    cases h
  · intro ts rest a _ h
    rw [hp] at h
    cases h
  · intro x y ts rest a _ _ _ h
    rw [hp] at h
    cases h
  · intro ts f _ h
    rw [hp] at h
    cases h
    exact hf ts
  · intro t x y ts rest a _ _ h
    rw [hp] at h
    cases h

lemma Reads.unexpected {P : List Token → Prop} {going : α → Bool} :
    ReadsFrom P (unexpected : Reader α) start stop going :=
  Reads.failure _ unexpected_eq fun _ => rfl

lemma peek_ok {ts rest : List Token} {k : Option Kind} :
    (peek : Reader _) ts = .ok (k, rest) ↔ k = ts.head?.map Token.kind ∧ rest = ts := by
  change Except.ok (ts.head?.map Token.kind, ts) = Except.ok (k, rest) ↔ _
  simp [eq_comm]

lemma sees_eq (k : Kind) (ts : List Token) :
    (sees k : Reader _) ts = .ok (ts.head?.map Token.kind == some k, ts) := rfl

lemma eat_eq (k : Kind) (ts : List Token) :
    (eat k : Reader _) ts =
      if ts.head?.map Token.kind = some k then .ok (true, ts.tail) else .ok (false, ts) := by
  cases hb : ts.head?.map Token.kind == some k with
  | true =>
    rw [if_pos (beq_iff_eq.mp hb)]
    exact bind_ok.mpr ⟨true, ts, by rw [sees_eq, hb], rfl⟩
  | false =>
    rw [if_neg (beq_eq_false_iff_ne.mp hb)]
    exact bind_ok.mpr ⟨false, ts, by rw [sees_eq, hb], rfl⟩

lemma eat_ok {k : Kind} {ts rest : List Token} {b : Bool}
    (h : (eat k : Reader _) ts = .ok (b, rest)) :
    (b = true ∧ ∃ t, ts = t :: rest ∧ t.kind = k) ∨ (b = false ∧ rest = ts) := by
  rw [eat_eq] at h
  split at h
  · rename_i hk
    cases h
    cases ts with
    | nil => cases hk
    | cons t ts => exact Or.inl ⟨rfl, t, rfl, Option.some.inj hk⟩
  · cases h
    exact Or.inr ⟨rfl, rfl⟩

lemma expectSpelled_eq (k : Kind) (spelling : String) (ts : List Token) :
    (expectSpelled k spelling : Reader _) ts =
      if ts.head?.map Token.kind = some k then .ok ((), ts.tail)
      else .error (.unexpected ts.head? (some spelling)) := by
  by_cases h : ts.head?.map Token.kind = some k
  · rw [if_pos h]
    exact bind_ok.mpr ⟨true, ts.tail, by rw [eat_eq, if_pos h], rfl⟩
  · rw [if_neg h]
    exact bind_error.mpr (Or.inr ⟨false, ts, by rw [eat_eq, if_neg h], rfl⟩)

lemma expectSpelled_ok {k : Kind} {spelling : String} {ts rest : List Token} {u : Unit}
    (h : (expectSpelled k spelling : Reader _) ts = .ok (u, rest)) :
    ∃ t, ts = t :: rest ∧ t.kind = k := by
  rw [expectSpelled_eq] at h
  split at h
  · rename_i hk
    cases h
    cases ts with
    | nil => cases hk
    | cons t ts => exact ⟨t, rfl, Option.some.inj hk⟩
  · cases h

lemma expectKind_eq (k : Kind) (ts : List Token) :
    (expectKind k : Reader _) ts = if ts.head?.map Token.kind = some k then .ok ((), ts.tail)
      else .error (.unexpected ts.head? none) := by
  by_cases h : ts.head?.map Token.kind = some k
  · rw [if_pos h]
    exact bind_ok.mpr ⟨true, ts.tail, by rw [eat_eq, if_pos h], rfl⟩
  · rw [if_neg h]
    exact bind_error.mpr (Or.inr ⟨false, ts, by rw [eat_eq, if_neg h], rfl⟩)

def Turns (start : List Symbol) (k : Kind) (stop : List Symbol) : Prop :=
  nestKind start k = some stop ∧ k.isInner = true

instance (start : List Symbol) (k : Kind) (stop : List Symbol) : Decidable (Turns start k stop) :=
  inferInstanceAs (Decidable (_ ∧ _))

lemma Turns.moves {start stop : List Symbol} {t : Token} (h : Turns start t.kind stop) :
    Moves start [t] stop := Moves.one h.1 h.2

lemma Turns.fence {k : Kind} {x : List Token} (h : Turns start k mid) (hx : Fence x) :
    x.head?.map Token.kind ≠ some k ∨ .closeParen ∈ start := by
  obtain ⟨t, rest, rfl, ht⟩ := hx
  rw [List.head?_cons, Option.map_some, Ne, Option.some.injEq]
  by_cases hk : t.kind = k
  · subst hk
    rcases ht with ht | ht
    · have hinner := h.2
      rw [ht] at hinner
      cases hinner
    · have hnest := h.1
      rw [ht] at hnest
      cases start with
      | nil => cases hnest
      | cons top rest =>
        have hnest : (if top = .closeParen then some rest else none) = some mid := hnest
        split at hnest
        · rename_i htop
          rw [htop]
          exact Or.inr List.mem_cons_self
        · cases hnest
  · exact Or.inl hk

lemma Reads.sees {k : Kind} (h : Turns start k mid) : Reads (sees k) start (fun _ => start) := by
  refine ⟨?_, fun _ _ hgoing => absurd hgoing Bool.false_ne_true, ?_, ?_, ?_⟩
  · intro ts rest b _ hs
    rw [sees_eq] at hs
    cases hs
    exact ⟨[], rfl, Moves.nil start⟩
  · intro x y ts rest b hx hy _ hs
    rw [sees_eq] at hs ⊢
    obtain ⟨hb, hrest⟩ := Prod.mk.inj (Except.ok.inj hs)
    obtain rfl := List.append_cancel_right hrest
    cases ts with
    | cons t ts =>
      rw [← hb]
      exact Or.inl rfl
    | nil =>
      rcases h.fence hx, h.fence hy with ⟨hmiss | hclose, hmiss' | hclose⟩
      · rw [List.nil_append, beq_eq_false_iff_ne.mpr hmiss] at hb
        rw [List.nil_append, beq_eq_false_iff_ne.mpr hmiss', ← hb]
        exact Or.inl rfl
      all_goals exact Or.inr ⟨rfl, hclose⟩
  · intro ts fault _ hs
    cases hs
  · intro t x y ts rest b _ _ hs
    rw [sees_eq] at hs ⊢
    obtain ⟨rfl, hrest⟩ := Prod.mk.inj (Except.ok.inj hs)
    obtain rfl := List.append_cancel_right hrest
    cases ts <;> rfl

lemma not_tail_cons {t : Token} {x rest : List Token} : x ≠ rest ++ t :: x := by
  intro heq
  have hlength := congrArg List.length heq
  rw [List.length_append, List.length_cons] at hlength
  omega

lemma eat_stable {k : Kind} {t : Token} {x y ts rest : List Token} {b : Bool}
    (h : (eat k : Reader _) (ts ++ t :: x) = .ok (b, rest ++ t :: x)) :
    (eat k : Reader _) (ts ++ t :: y) = .ok (b, rest ++ t :: y) := by
  rw [eat_eq] at h ⊢
  cases ts with
  | nil =>
    rw [List.nil_append, List.head?_cons] at h ⊢
    split at h
    · exact absurd (Prod.mk.inj (Except.ok.inj h)).2 not_tail_cons
    · rename_i hk
      obtain ⟨rfl, hrest⟩ := Prod.mk.inj (Except.ok.inj h)
      obtain rfl : [] = rest := List.append_cancel_right hrest
      exact if_neg hk
  | cons first ts =>
    rw [List.cons_append, List.head?_cons] at h ⊢
    split at h
    · rename_i hk
      obtain ⟨rfl, hrest⟩ := Prod.mk.inj (Except.ok.inj h)
      obtain rfl : ts = rest := List.append_cancel_right hrest
      exact if_pos hk
    · rename_i hk
      obtain ⟨rfl, hrest⟩ := Prod.mk.inj (Except.ok.inj h)
      obtain rfl : first :: ts = rest := List.append_cancel_right hrest
      exact if_neg hk

lemma ReadsFrom.eat {k : Kind} (h : Turns start k mid) :
    ReadsFrom (fun _ => True) (eat k) start (fun found => if found then mid else start) id := by
  refine ⟨?_, ?_, ?_, ?_, ?_⟩
  · intro ts rest b _ he
    rcases eat_ok he with ⟨rfl, t, rfl, rfl⟩ | ⟨rfl, rfl⟩
    · exact ⟨[t], rfl, h.moves⟩
    · exact ⟨[], rfl, Moves.nil start⟩
  · intro ts rest b _ he hfound
    rcases eat_ok he with ⟨-, t, rfl, -⟩ | ⟨rfl, -⟩
    · exact Nat.lt_succ_self _
    · cases hfound
  · intro x y ts rest b hx hy _ he
    rw [eat_eq] at he ⊢
    cases ts with
    | cons t ts =>
      rw [List.cons_append, List.head?_cons] at he ⊢
      by_cases hk : (some t).map Token.kind = some k
      · rw [if_pos hk] at he ⊢
        obtain ⟨rfl, hrest⟩ := Prod.mk.inj (Except.ok.inj he)
        rw [List.append_cancel_right hrest.symm]
        exact Or.inl rfl
      · rw [if_neg hk] at he ⊢
        obtain ⟨rfl, hrest⟩ := Prod.mk.inj (Except.ok.inj he)
        rw [List.append_cancel_right (hrest.symm.trans (List.cons_append ..).symm)]
        exact Or.inl rfl
    | nil =>
      rw [List.nil_append] at he ⊢
      split at he
      · obtain ⟨-, hrest⟩ := Prod.mk.inj (Except.ok.inj he)
        exact absurd hrest hx.not_tail
      · obtain ⟨rfl, hrest⟩ := Prod.mk.inj (Except.ok.inj he)
        obtain rfl : rest = [] := List.append_cancel_right (show rest ++ x = [] ++ x from hrest.symm)
        rcases h.fence hy with hmiss | hclose
        · rw [if_neg hmiss]
          exact Or.inl rfl
        · exact Or.inr ⟨rfl, hclose⟩
  · intro ts fault _ he
    rw [eat_eq] at he
    split at he <;> cases he
  · intro t x y ts rest b _ _ he
    exact eat_stable he

lemma Reads.eat {k : Kind} (h : Turns start k mid) :
    Reads (eat k) start (fun found => if found then mid else start) :=
  (ReadsFrom.eat h).weaken fun _ => id

lemma Reads.must {k : Kind} {p : Reader Unit} (fault : List Token → Fault) (h : Turns start k mid)
    (hp : ∀ ts, p ts = if ts.head?.map Token.kind = some k then .ok ((), ts.tail) else .error (fault ts))
    (hf : ∀ ts, isSyntaxFault (fault ts) = true) : Reads p start (fun _ => mid) := by
  have htake : ∀ {ts rest : List Token} {u : Unit}, p ts = .ok (u, rest) →
      ts.head?.map Token.kind = some k ∧ rest = ts.tail := by
    intro ts rest u he
    rw [hp] at he
    split at he
    · rename_i hk
      cases he
      exact ⟨hk, rfl⟩
    · cases he
  refine ⟨?_, fun _ _ hgoing => absurd hgoing Bool.false_ne_true, ?_, ?_, ?_⟩
  · intro ts rest u _ he
    obtain ⟨hk, rfl⟩ := htake he
    cases ts with
    | nil => cases hk
    | cons t ts =>
      cases hk
      exact ⟨[t], rfl, h.moves⟩
  · intro x y ts rest u hx _ _ he
    obtain ⟨hk, hrest⟩ := htake he
    cases ts with
    | nil => exact absurd hrest.symm hx.not_tail
    | cons t ts =>
      have hk' : (t :: ts ++ y).head?.map Token.kind = some k := hk
      rw [List.append_cancel_right hrest, hp, if_pos hk']
      exact Or.inl rfl
  · intro ts f _ he
    rw [hp] at he
    split at he
    · cases he
    · cases he
      exact hf ts
  · intro t x y ts rest u _ _ he
    obtain ⟨hk, hrest⟩ := htake he
    cases ts with
    | nil => exact absurd hrest.symm not_tail_cons
    | cons first ts =>
      have hk' : (first :: ts ++ t :: y).head?.map Token.kind = some k := hk
      rw [List.append_cancel_right hrest, hp, if_pos hk']
      rfl

lemma Reads.expectSpelled {k : Kind} {spelling : String} (h : Turns start k mid) :
    Reads (expectSpelled k spelling) start (fun _ => mid) :=
  Reads.must _ h (expectSpelled_eq k spelling) fun _ => rfl

lemma Reads.expectKind {k : Kind} (h : Turns start k mid) :
    Reads (expectKind k) start (fun _ => mid) :=
  Reads.must _ h (expectKind_eq k) fun _ => rfl

lemma ReadsAt.take {k : Kind} {going : α → Bool} {p : Reader α} (h : Turns start k mid)
    (hp : Reads p mid stop) :
    ReadsFrom (fun ts => ts.head?.map Token.kind = some k) (Statement.skip >>= fun _ => p) start stop
      going := by
  refine ⟨?_, ?_, ?_, ?_, ?_⟩
  · intro ts rest a hk hr
    cases ts with
    | nil => cases hk
    | cons t ts =>
      cases hk
      obtain ⟨used, hused, hm⟩ := hp.moves trivial hr
      exact ⟨t :: used, by rw [List.cons_append, ← hused]; rfl, h.moves.append hm⟩
  · intro ts rest a hk hr _
    cases ts with
    | nil => cases hk
    | cons t ts =>
      obtain ⟨used, hused, -⟩ := hp.moves trivial hr
      have hlength := congrArg List.length hused
      rw [List.tail_cons, List.length_append] at hlength
      rw [List.length_cons]
      omega
  · intro x y ts rest a hx hy hk hr
    cases ts with
    | nil => cases hk
    | cons t ts => exact hp.swaps hx hy trivial hr
  · intro ts fault _ hr
    exact hp.faults trivial hr
  · intro t x y ts rest a ht _ hr
    cases ts with
    | nil =>
      obtain ⟨used, hused, -⟩ := hp.moves trivial hr
      rw [← List.append_assoc] at hused
      exact absurd hused not_tail_cons
    | cons first ts => exact hp.stable ht trivial hr

lemma ReadsAt.skip {k : Kind} (h : Turns start k mid) : ReadsAt k skip start (fun _ => mid) :=
  ReadsAt.take h (Reads.pure rfl)

lemma peek_bind (f : Option Kind → Reader α) (ts : List Token) :
    (peek >>= f) ts = f (ts.head?.map Token.kind) ts := rfl

lemma Reads.peek {f : Option Kind → Reader α} {going : α → Bool}
    (hnone : ReadsFrom (fun _ => True) (f none) start stop going)
    (hfence : ∀ t rest, t.kind = .symbol .semicolon ∨ t.kind = .symbol .closeParen →
      f (some t.kind) (t :: rest) = f none (t :: rest))
    (hsome : ∀ k, ReadsFrom (fun ts => ts.head?.map Token.kind = some k) (f (some k)) start stop going) :
    ReadsFrom (fun _ => True) (peek >>= f) start stop going := by
  refine ⟨?_, ?_, ?_, ?_, ?_⟩
  · intro ts rest a _ h
    rw [peek_bind] at h
    cases ts with
    | nil => exact hnone.moves trivial h
    | cons t ts => exact (hsome t.kind).moves rfl h
  · intro ts rest a _ h hgoing
    rw [peek_bind] at h
    cases ts with
    | nil => exact hnone.advances trivial h hgoing
    | cons t ts => exact (hsome t.kind).advances rfl h hgoing
  · intro x y ts rest a hx hy _ h
    rw [peek_bind] at h ⊢
    cases ts with
    | cons t ts => exact (hsome t.kind).swaps hx hy rfl h
    | nil =>
      have hsame : ∀ {z : List Token}, Fence z → f (([] ++ z).head?.map Token.kind) ([] ++ z) =
          f none ([] ++ z) := by
        rintro z ⟨t, more, rfl, ht⟩
        exact hfence t more ht
      rw [hsame hx] at h
      rw [hsame hy]
      exact hnone.swaps hx hy trivial h
  · intro ts fault _ h
    rw [peek_bind] at h
    cases ts with
    | nil => exact hnone.faults trivial h
    | cons t ts => exact (hsome t.kind).faults rfl h
  · intro t x y ts rest a ht _ h
    rw [peek_bind] at h ⊢
    cases ts with
    | nil => exact (hsome t.kind).stable ht rfl h
    | cons first ts => exact (hsome first.kind).stable ht rfl h

def afterRound (going finished : List Symbol) : ForInStep α → List Symbol
  | .yield _ => going
  | .done _ => finished

def goesOn : ForInStep α → Bool
  | .yield _ => true
  | .done _ => false

abbrev Round (p : Reader (ForInStep α)) (start going finished : List Symbol) : Prop :=
  ReadsFrom (fun _ => True) p start (afterRound going finished) goesOn

lemma Round.done {P : List Token → Prop} {going finished : List Symbol} {a : α} :
    ReadsFrom P (pure (.done a) : Reader (ForInStep α)) finished (afterRound going finished) goesOn :=
  ReadsFrom.pure rfl rfl

section

variable {round : α → Reader (ForInStep α)} {final : List Symbol}

lemma rounds_ok {bound ts rest : List Token} {a b : α} (h : rounds round bound a ts = .ok (b, rest)) :
    round a ts = .ok (.done b, rest) ∨ ∃ t fewer c mid, bound = t :: fewer ∧
      round a ts = .ok (.yield c, mid) ∧ rounds round fewer c mid = .ok (b, rest) := by
  cases bound with
  | nil =>
    rw [rounds] at h
    obtain ⟨step, mid, hstep, hrest⟩ := bind_ok.mp h
    cases step with
    | done c =>
      obtain ⟨rfl, rfl⟩ := pure_ok.mp hrest
      exact Or.inl hstep
    | yield c => exact (throw_ok.mp hrest).elim
  | cons t fewer =>
    rw [rounds] at h
    obtain ⟨step, mid, hstep, hrest⟩ := bind_ok.mp h
    cases step with
    | done c =>
      obtain ⟨rfl, rfl⟩ := pure_ok.mp hrest
      exact Or.inl hstep
    | yield c => exact Or.inr ⟨t, fewer, c, mid, rfl, hstep, hrest⟩

lemma rounds_done {bound ts rest : List Token} {a b : α} (h : round a ts = .ok (.done b, rest)) :
    rounds round bound a ts = .ok (b, rest) := by
  cases bound with
  | nil =>
    rw [rounds]
    exact bind_ok.mpr ⟨.done b, rest, h, rfl⟩
  | cons t fewer =>
    rw [rounds]
    exact bind_ok.mpr ⟨.done b, rest, h, rfl⟩

lemma rounds_error {bound ts : List Token} {a : α} {fault : Fault} (h : round a ts = .error fault) :
    rounds round bound a ts = .error fault := by
  cases bound with
  | nil =>
    rw [rounds]
    exact bind_error.mpr (.inl h)
  | cons t fewer =>
    rw [rounds]
    exact bind_error.mpr (.inl h)

lemma rounds_going {t : Token} {fewer ts mid : List Token} {a c : α}
    (h : round a ts = .ok (.yield c, mid)) :
    rounds round (t :: fewer) a ts = rounds round fewer c mid := by
  rw [rounds]
  exact bind_of_ok h

lemma rounds_eq {bound bound' ts : List Token} {a b : α} (h : round a ts = round b ts)
    (hyield : ∀ c rest, round b ts = .ok (.yield c, rest) →
      rounds round bound a ts = rounds round bound' b ts) :
    rounds round bound a ts = rounds round bound' b ts := by
  cases hb : round b ts with
  | error fault => rw [rounds_error hb, rounds_error (h.trans hb)]
  | ok out =>
    obtain ⟨step, rest⟩ := out
    cases step with
    | done c => rw [rounds_done hb, rounds_done (h.trans hb)]
    | yield c => exact hyield c rest hb

lemma iterate_done {ts rest : List Token} {a b : α} (h : round a ts = .ok (.done b, rest)) :
    iterate round a ts = .ok (b, rest) :=
  rounds_done h

lemma iterate_error {ts : List Token} {a : α} {fault : Fault} (h : round a ts = .error fault) :
    iterate round a ts = .error fault :=
  rounds_error h

inductive Iterates (round : α → Reader (ForInStep α)) (b : α) (rest : List Token) :
    α → List Token → Prop
  | done {a : α} {ts : List Token} : round a ts = .ok (.done b, rest) → Iterates round b rest a ts
  | yield {a c : α} {ts mid : List Token} : round a ts = .ok (.yield c, mid) →
      Iterates round b rest c mid → Iterates round b rest a ts

lemma Iterates.of_rounds {bound ts rest : List Token} {a b : α}
    (h : rounds round bound a ts = .ok (b, rest)) : Iterates round b rest a ts := by
  induction bound generalizing a ts with
  | nil =>
    rcases rounds_ok h with hdone | ⟨_, _, _, _, hbound, -⟩
    · exact .done hdone
    · cases hbound
  | cons t bound ih =>
    rcases rounds_ok h with hdone | ⟨_, _, c, mid, hbound, hyield, hmore⟩
    · exact .done hdone
    · cases hbound
      exact .yield hyield (ih hmore)

def Advances (round : α → Reader (ForInStep α)) : Prop :=
  ∀ ⦃a ts c rest⦄, round a ts = .ok (.yield c, rest) → rest.length < ts.length

section

variable (h : Advances round)
include h

lemma rounds_bound {bound bound' ts : List Token} {a : α} (hb : ts.length ≤ bound.length)
    (hb' : ts.length ≤ bound'.length) : rounds round bound a ts = rounds round bound' a ts := by
  induction bound generalizing bound' ts a with
  | nil =>
    refine rounds_eq rfl fun c rest hr => ?_
    have hless := h hr
    rw [List.length_nil] at hb
    omega
  | cons t bound ih =>
    refine rounds_eq rfl fun c rest hr => ?_
    have hless := h hr
    obtain ⟨t', fewer', rfl⟩ : ∃ t' fewer', bound' = t' :: fewer' :=
      List.exists_cons_of_length_pos (by omega)
    rw [List.length_cons] at hb hb'
    rw [rounds_going hr, rounds_going hr]
    exact ih (by omega) (by omega)

lemma iterate_yield {ts rest : List Token} {a c : α} (hr : round a ts = .ok (.yield c, rest)) :
    iterate round a ts = iterate round c rest := by
  have hless := h hr
  cases ts with
  | nil => exact absurd hless (Nat.not_lt_zero _)
  | cons t ts =>
    rw [List.length_cons] at hless
    have hgoing : rounds round (t :: ts) a (t :: ts) = rounds round ts c rest := rounds_going hr
    exact hgoing.trans (rounds_bound h (by omega) (Nat.le_refl _))

lemma Iterates.iterate_eq {ts rest : List Token} {a b : α} (hr : Iterates round b rest a ts) :
    iterate round a ts = .ok (b, rest) := by
  induction hr with
  | done hdone => exact iterate_done hdone
  | yield hyield _ ih => exact (iterate_yield h hyield).trans ih

lemma iterate_fault {ts : List Token} {a : α} {fault : Fault} (hr : iterate round a ts = .error fault) :
    ∃ c mid, round c mid = .error fault := by
  induction hlength : ts.length using Nat.strongRecOn generalizing a ts with
  | _ length ih =>
    subst hlength
    cases hround : round a ts with
    | error found =>
      cases (iterate_error hround).symm.trans hr
      exact ⟨a, ts, hround⟩
    | ok out =>
      obtain ⟨step, mid⟩ := out
      cases step with
      | done c => cases (iterate_done hround).symm.trans hr
      | yield c => exact ih _ (h hround) ((iterate_yield h hround).symm.trans hr) rfl

end

variable (h : ∀ a, Round (round a) start start final)
include h

lemma advances_of_round : Advances round :=
  fun a _ _ _ hr => (h a).advances trivial hr rfl

namespace Iterates

variable {us : List Token} {a b : α}

lemma moves {rest : List Token} (hr : Iterates round b rest a us) :
    ∃ used, us = used ++ rest ∧ Moves start used final := by
  induction hr with
  | done hdone => exact (h _).moves trivial hdone
  | yield hyield _ ih =>
    obtain ⟨front, rfl, hfront⟩ := (h _).moves trivial hyield
    obtain ⟨used, rfl, hused⟩ := ih
    exact ⟨front ++ used, by rw [List.append_assoc], hfront.append hused⟩

lemma swaps {x y ts rest : List Token} (hx : Fence x) (hy : Fence y)
    (hr : Iterates round b (rest ++ x) a us) (hus : us = ts ++ x) :
    iterate round a (ts ++ y) = .ok (b, rest ++ y) ∨ (rest = [] ∧ .closeParen ∈ final) := by
  induction hr generalizing ts with
  | done hdone =>
    subst hus
    exact ((h _).swaps hx hy trivial hdone).imp_left iterate_done
  | yield hyield hmore ih =>
    subst hus
    obtain ⟨used, rfl, hm⟩ := hmore.moves h
    rw [← List.append_assoc] at hyield
    rcases (h _).swaps hx hy trivial hyield with hswap | ⟨hnil, hclose⟩
    · rw [iterate_yield (advances_of_round h) hswap]
      exact ih (List.append_assoc ..).symm
    · obtain ⟨rfl, rfl⟩ := List.append_eq_nil_iff.mp hnil
      have hstack : start = final := Option.some.inj hm.nests
      exact .inr ⟨rfl, hstack ▸ hclose⟩

lemma stable {t : Token} {x y ts rest : List Token} (ht : isStep t.kind)
    (hr : Iterates round b (rest ++ t :: x) a us) (hus : us = ts ++ t :: x) :
    iterate round a (ts ++ t :: y) = .ok (b, rest ++ t :: y) := by
  induction hr generalizing ts with
  | done hdone =>
    subst hus
    exact iterate_done ((h _).stable ht trivial hdone)
  | yield hyield hmore ih =>
    subst hus
    obtain ⟨used, rfl, -⟩ := hmore.moves h
    rw [← List.append_assoc] at hyield
    rw [iterate_yield (advances_of_round h) ((h _).stable ht trivial hyield)]
    exact ih (List.append_assoc ..).symm

end Iterates

lemma Reads.iterate (a : α) : Reads (iterate round a) start (fun _ => final) := by
  refine ⟨?_, fun _ _ hgoing => absurd hgoing Bool.false_ne_true, ?_, ?_, ?_⟩
  · intro ts rest b _ hr
    exact (Iterates.of_rounds hr).moves h
  · intro x y ts rest b hx hy _ hr
    exact (Iterates.of_rounds hr).swaps h hx hy rfl
  · intro ts fault _ hr
    obtain ⟨c, mid, hround⟩ := iterate_fault (advances_of_round h) hr
    exact (h c).faults trivial hround
  · intro t x y ts rest b ht _ hr
    exact (Iterates.of_rounds hr).stable h ht rfl

end

section

variable {k : Kind} {going : α → Bool} {p q : Reader α}

lemma Reads.eat_ite (h : Turns start k mid) (hp : Reads p mid stop)
    (hq : ReadsFrom (fun _ => True) q start stop going) :
    ReadsFrom (fun _ => True) (Statement.eat k >>= fun found => if found = true then p else q) start stop
      going := by
  refine (ReadsFrom.eat h).bind_of (Q := fun _ _ => True) (fun _ _ => trivial) (fun _ _ => trivial) ?_
  rintro (_ | _)
  · exact hq.mono (fun _ => id) fun _ hgoing => (Bool.and_eq_true_iff.mp hgoing).1
  · exact hp.mono (fun _ => id) fun _ hgoing => by simp at hgoing

lemma Reads.sees_ite (h : Turns start k mid) (hp : ReadsFrom (fun _ => True) p start stop going)
    (hq : ReadsFrom (fun _ => True) q start stop going) :
    ReadsFrom (fun _ => True) (Statement.sees k >>= fun found => if found = true then p else q) start stop
      going := by
  refine (Reads.sees h).bind ?_
  rintro (_ | _)
  · exact hq
  · exact hp

end

def Steady (p : Reader α) : Prop :=
  ∀ stack, Reads p stack (fun _ => stack)

lemma Steady.optional {k : Kind} (h : ∀ stack, Turns stack k stack) :
    Steady (discard (eat k)) := by
  intro stack
  apply Reads.discard
  have hread := Reads.eat (h stack)
  simpa only [ite_self] using hread

def isNamed : List Token → Bool
  | first :: second :: _ => first.kind == .identifier && second.kind == .symbol .colon
  | _ => false

lemma seesArgumentName_eq (ts : List Token) :
    (seesArgumentName : Reader _) ts = .ok (isNamed ts, ts) := by
  rcases ts with _ | ⟨first, _ | ⟨second, more⟩⟩ <;> rfl

lemma isNamed_append {x : List Token} (hx : Fence x) (ts : List Token) :
    isNamed (ts ++ x) = isNamed ts := by
  obtain ⟨t, rest, rfl, ht⟩ := hx
  rcases ts with _ | ⟨first, _ | ⟨second, more⟩⟩
  · cases rest <;> rcases ht with ht | ht <;> simp [isNamed, ht]
  · rcases ht with ht | ht <;> simp [isNamed, ht]
  · rfl

lemma isNamed_step {t : Token} (ht : isStep t.kind) (ts x : List Token) :
    isNamed (ts ++ t :: x) = isNamed ts := by
  rcases ts with _ | ⟨first, _ | ⟨second, more⟩⟩
  · cases x <;> rcases ht with ht | ht <;> simp [isNamed, ht]
  · rcases ht with ht | ht <;> simp [isNamed, ht]
  · rfl

lemma isNamed_moves (start : List Symbol) {ts : List Token} (h : isNamed ts = true) :
    ∃ first second more, ts = first :: second :: more ∧ Moves start [first, second] start := by
  rcases ts with _ | ⟨first, _ | ⟨second, more⟩⟩
  · cases h
  · cases h
  · obtain ⟨hf, hs⟩ := Bool.and_eq_true_iff.mp h
    refine ⟨first, second, more, rfl, ?_⟩
    exact (Moves.one (by rw [beq_iff_eq.mp hf]; rfl) (by rw [beq_iff_eq.mp hf]; rfl)).append
      (Moves.one (by rw [beq_iff_eq.mp hs]; rfl) (by rw [beq_iff_eq.mp hs]; rfl))

lemma Reads.argumentName {going : α → Bool} {p : Unit → Reader α}
    (hp : ∀ u, ReadsFrom (fun _ => True) (p u) start stop going) :
    ReadsFrom (fun _ => True) (seesArgumentName >>= fun named =>
      if named = true then (skip >>= fun _ => skip >>= fun u => p u) else p ()) start stop going := by
  have heq : ∀ ts, (seesArgumentName >>= fun named =>
      if named = true then (skip >>= fun _ => skip >>= fun u => p u) else p () : Reader α) ts =
      p () (if isNamed ts = true then ts.tail.tail else ts) := by
    intro ts
    rw [bind_of_ok (seesArgumentName_eq ts)]
    split <;> rfl
  refine ⟨?_, ?_, ?_, ?_, ?_⟩
  · intro ts rest a _ h
    rw [heq] at h
    split at h
    · rename_i hnamed
      obtain ⟨first, second, more, rfl, hpair⟩ := isNamed_moves start hnamed
      obtain ⟨used, hused, hm⟩ := (hp ()).moves trivial h
      exact ⟨first :: second :: used, by rw [List.cons_append, List.cons_append, ← hused]; rfl,
        hpair.append hm⟩
    · exact (hp ()).moves trivial h
  · intro ts rest a _ h hgoing
    rw [heq] at h
    have hless := (hp ()).advances trivial h hgoing
    split at hless
    · rw [List.length_tail, List.length_tail] at hless
      omega
    · exact hless
  · intro x y ts rest a hx hy _ h
    rw [heq, isNamed_append hx] at h
    rw [heq, isNamed_append hy]
    cases hnamed : isNamed ts with
    | false =>
      rw [hnamed] at h
      exact (hp ()).swaps hx hy trivial h
    | true =>
      rw [hnamed] at h
      obtain ⟨first, second, more, rfl, -⟩ := isNamed_moves start hnamed
      exact (hp ()).swaps hx hy trivial h
  · intro ts fault _ h
    rw [heq] at h
    exact (hp ()).faults trivial h
  · intro t x y ts rest a ht _ h
    rw [heq, isNamed_step ht] at h
    rw [heq, isNamed_step ht]
    cases hnamed : isNamed ts with
    | false =>
      rw [hnamed] at h
      exact (hp ()).stable ht trivial h
    | true =>
      rw [hnamed] at h
      obtain ⟨first, second, more, rfl, -⟩ := isNamed_moves start hnamed
      exact (hp ()).stable ht trivial h

end Stencil.Code.Statement

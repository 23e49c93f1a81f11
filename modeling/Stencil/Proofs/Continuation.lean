import Stencil.Proofs.Grammar
import Mathlib.Tactic.Common

/-!
Two readings of the same tokens, after which the second goes on where the first one ends. A reader that
waits for a closing token never notices.
-/

namespace Stencil.Code.Statement

open Outcome

variable {α β : Type} {x y : List Token}

inductive Endings : List Token → List Token → Prop
  | nothing : Endings [] []
  | operator {semi op : Token} {more : List Token} : semi.kind = .symbol .semicolon →
      (binary? op.kind).isSome = true → Endings [semi] (op :: more)

def isApart : Kind → Bool
  | .symbol .semicolon => false
  | k => (binary? k).isNone

namespace Endings

lemma head_ne (h : Endings x y) {k : Kind} (hk : isApart k = true) :
    x.head?.map Token.kind ≠ some k ∧ y.head?.map Token.kind ≠ some k := by
  cases h with
  | nothing => exact ⟨Option.some_ne_none k ∘ Eq.symm, Option.some_ne_none k ∘ Eq.symm⟩
  | @operator semi op more hsemi hop =>
    constructor
    · intro heq
      rw [← Option.some.inj heq, hsemi] at hk
      cases hk
    · intro heq
      rw [Option.some.inj heq] at hop
      unfold isApart at hk
      split at hk
      · cases hk
      · rw [Option.isNone_iff_eq_none.mp hk] at hop
        cases hop

lemma length_le (h : Endings x y) : x.length ≤ y.length := by
  cases h with
  | nothing => exact Nat.le_refl _
  | operator => exact Nat.succ_le_succ (Nat.zero_le _)

lemma isNamed_eq (h : Endings x y) (ts : List Token) :
    isNamed (ts ++ x) = isNamed ts ∧ isNamed (ts ++ y) = isNamed ts := by
  cases h with
  | nothing =>
    rw [List.append_nil]
    exact ⟨rfl, rfl⟩
  | @operator semi op more hsemi hop =>
    have hother : ∀ {k : Kind}, binary? k = none → (op.kind == k) = false := by
      intro k hk
      apply beq_eq_false_iff_ne.mpr
      rintro rfl
      rw [hk] at hop
      cases hop
    have hname : (op.kind == .identifier) = false := hother rfl
    have hcolon : (op.kind == .symbol .colon) = false := hother rfl
    rcases ts with _ | ⟨first, _ | ⟨second, rest⟩⟩
    · cases more <;> simp [isNamed, hname]
    · simp [isNamed, hsemi, hcolon]
    · exact ⟨rfl, rfl⟩

end Endings

/-- If a step is left among `ts`, whatever comes after it, `q'` reads `used` and goes on as `q`. -/
def Leads (q' : Reader α) (used : List Token) (q : Reader α) (ts : List Token) : Prop :=
  ∀ ⦃front step rest⦄, ts = front ++ step :: rest → isStep step.kind →
    ∀ more, q' (used ++ (front ++ step :: more)) = q (front ++ step :: more)

structure Remainder (α : Type) where
  Holds : Reader α → List Token → α → Except Fault (α × List Token) → Prop
  lead {q' q : Reader α} {used ts : List Token} {a : α} {out : Except Fault (α × List Token)} :
    Leads q' used q ts → Holds q ts a out → Holds q' (used ++ ts) a out

def Remainder.always (E : Prop) : Remainder α :=
  ⟨fun _ _ _ _ => E, fun _ => id⟩

/-- The second reader leaves the same tokens before `y`, or gives up; if none are left, `T` may hold
instead. -/
def Echoes (T : Remainder α) (y ts : List Token) (a : α) (rest : List Token) (q : Reader α) : Prop :=
  q (ts ++ y) = .ok (a, rest ++ y) ∨ q (ts ++ y) = .error .nestingTooDeep ∨
    rest = [] ∧ T.Holds q ts a (q (ts ++ y))

def Begins : Option Kind → List Token → Prop
  | none, _ => True
  | some k, ts => ts.head?.map Token.kind = some k

lemma Begins.append {first : Option Kind} {ts : List Token} (h : Begins first ts) (more : List Token) :
    Begins first (ts ++ more) := by
  cases first with
  | none => trivial
  | some k =>
    cases ts with
    | nil => cases h
    | cons t ts => exact h

structure MirrorsFrom (first : Option Kind) (x y : List Token) (T : Remainder α) (p q : Reader α) :
    Prop where
  suffix {ts rest : List Token} {a : α} : Begins first ts → p ts = .ok (a, rest) → rest <:+ ts
  reads {ts rest : List Token} {a : α} : Begins first ts → p (ts ++ x) = .ok (a, rest ++ x) →
    Echoes T y ts a rest q

abbrev Mirrors (x y : List Token) (T : Remainder α) (p q : Reader α) : Prop :=
  MirrorsFrom none x y T p q

abbrev Copies (x y : List Token) (p q : Reader α) : Prop :=
  Mirrors x y (.always False) p q

abbrev Loose (x y : List Token) (p q : Reader α) : Prop :=
  Mirrors x y (.always True) p q

def Takes (p : Reader α) : Prop :=
  ∀ ⦃ts rest a⦄, p ts = .ok (a, rest) → rest.length < ts.length

lemma suffix_of_append {us ts : List Token} (h : us ++ x <:+ ts ++ x) : us <:+ ts := by
  obtain ⟨front, hfront⟩ := h
  rw [← List.append_assoc] at hfront
  exact ⟨front, List.append_cancel_right hfront⟩

def StableFrom (first : Option Kind) (q : Reader α) : Prop :=
  ∀ ⦃t x y ts rest a⦄, isStep t.kind → Begins first (ts ++ t :: x) →
    q (ts ++ t :: x) = .ok (a, rest ++ t :: x) → q (ts ++ t :: y) = .ok (a, rest ++ t :: y)

abbrev Stable (q : Reader α) : Prop :=
  StableFrom none q

lemma Stable.of_reads {q : Reader α} {start : List Symbol} {stop : α → List Symbol}
    (h : Reads q start stop) : Stable q :=
  fun _ _ _ _ _ _ ht _ => h.stable ht trivial

lemma Steady.stable {q : Reader α} (h : Steady q) : Stable q :=
  .of_reads (h [])

lemma Stable.eat (k : Kind) : Stable (eat k) :=
  fun _ _ _ _ _ _ _ _ => eat_stable

lemma Stable.sees (k : Kind) : Stable (sees k) := by
  intro t x y ts rest b _ _ h
  rw [sees_eq] at h ⊢
  obtain ⟨rfl, hrest⟩ := Prod.mk.inj (Except.ok.inj h)
  obtain rfl := List.append_cancel_right hrest
  cases ts <;> rfl

lemma StableFrom.leads {first : Option Kind} {q : Reader β} {g : β → Reader α} (hq : StableFrom first q)
    {used ts : List Token} {b : β} (hfirst : Begins first (used ++ ts))
    (h : q (used ++ ts ++ y) = .ok (b, ts ++ y)) : Leads (q >>= g) used (g b) ts := by
  rintro front step rest rfl hstep more
  have hbegins := hfirst.append y
  rw [List.append_assoc, List.append_assoc, List.cons_append, ← List.append_assoc] at h hbegins
  rw [← List.append_assoc, bind_of_ok (hq hstep hbegins h)]

section

variable {first : Option Kind} {T : Remainder α} {S : Remainder β} {p q : Reader α}

lemma Echoes.mono {T' : Remainder α} {ts rest : List Token} {a : α} (h : Echoes T y ts a rest q)
    (hT : T.Holds q ts a (q (ts ++ y)) → T'.Holds q ts a (q (ts ++ y))) : Echoes T' y ts a rest q :=
  h.imp_right (.imp_right fun ⟨hnil, ht⟩ => ⟨hnil, hT ht⟩)

lemma Echoes.lead {q' : Reader α} {used ts rest : List Token} {a : α} (h : Echoes T y ts a rest q)
    (hout : q' (used ++ ts ++ y) = q (ts ++ y)) (hlead : Leads q' used q ts) :
    Echoes T y (used ++ ts) a rest q' := by
  rw [Echoes, hout]
  exact h.imp_right (.imp_right fun ⟨hnil, ht⟩ => ⟨hnil, T.lead hlead ht⟩)

lemma MirrorsFrom.mono {T' : Remainder α} (h : MirrorsFrom first x y T p q)
    (hT : ∀ {q ts a out}, T.Holds q ts a out → T'.Holds q ts a out) : MirrorsFrom first x y T' p q :=
  ⟨h.suffix, fun hb hp => (h.reads hb hp).mono hT⟩

lemma Mirrors.loose (h : Mirrors x y T p q) : Loose x y p q :=
  h.mono fun _ => trivial

lemma Copies.mirrors (h : Copies x y p q) : Mirrors x y T p q :=
  h.mono False.elim

lemma Mirrors.at (h : Mirrors x y T p q) (k : Kind) : MirrorsFrom (some k) x y T p q :=
  ⟨fun _ => h.suffix trivial, fun _ => h.reads trivial⟩

lemma MirrorsFrom.pure (a : α) : MirrorsFrom first x y T (Pure.pure a) (Pure.pure a) := by
  constructor
  · intro ts rest b _ h
    obtain ⟨-, rfl⟩ := pure_ok.mp h
    exact List.suffix_refl _
  · intro ts rest b _ h
    obtain ⟨rfl, heq⟩ := pure_ok.mp h
    rw [List.append_cancel_right heq]
    exact .inl rfl

lemma MirrorsFrom.unexpected : MirrorsFrom first x y T (Statement.unexpected : Reader α) q :=
  ⟨fun _ h => (unexpected_ok.mp h).elim, fun _ h => (unexpected_ok.mp h).elim⟩

lemma MirrorsFrom.bind_of {p q : Reader β} {f g : β → Reader α} (hp : MirrorsFrom first x y S p q)
    (hf : ∀ b, Mirrors x y T (f b) (g b))
    (hlead : ∀ {used ts rest b a}, Begins first (used ++ ts) →
      q (used ++ ts ++ y) = .ok (b, ts ++ y) → Echoes T y ts a rest (g b) →
      Echoes T y (used ++ ts) a rest (q >>= g))
    (hS : ∀ {ts b a}, S.Holds q ts b (q (ts ++ y)) → f b x = .ok (a, x) →
      (q >>= g) (ts ++ y) = .error .nestingTooDeep ∨ T.Holds (q >>= g) ts a ((q >>= g) (ts ++ y))) :
    MirrorsFrom first x y T (p >>= f) (q >>= g) := by
  constructor
  · intro ts rest a hfirst h
    obtain ⟨b, mid, hb, ha⟩ := bind_ok.mp h
    exact ((hf b).suffix trivial ha).trans (hp.suffix hfirst hb)
  · intro ts rest a hfirst h
    obtain ⟨b, mid, hb, ha⟩ := bind_ok.mp h
    obtain ⟨used, rfl⟩ := (hf b).suffix trivial ha
    rw [← List.append_assoc] at hb ha
    obtain ⟨before, rfl⟩ := suffix_of_append (hp.suffix (hfirst.append x) hb)
    rcases hp.reads hfirst hb with hok | hdeep | ⟨hnil, hs⟩
    · exact hlead hfirst hok ((hf b).reads trivial ha)
    · exact .inr (.inl (bind_error.mpr (.inl hdeep)))
    · obtain ⟨rfl, rfl⟩ := List.append_eq_nil_iff.mp hnil
      exact .inr ((hS hs ha).imp_right fun ht => ⟨rfl, ht⟩)

lemma MirrorsFrom.bind {p q : Reader β} {f g : β → Reader α} (hp : MirrorsFrom first x y S p q)
    (hf : ∀ b, Mirrors x y T (f b) (g b)) (hq : StableFrom first q)
    (hS : ∀ {ts b a}, S.Holds q ts b (q (ts ++ y)) → f b x = .ok (a, x) →
      (q >>= g) (ts ++ y) = .error .nestingTooDeep ∨ T.Holds (q >>= g) ts a ((q >>= g) (ts ++ y))) :
    MirrorsFrom first x y T (p >>= f) (q >>= g) :=
  hp.bind_of hf (fun hfirst hok h => h.lead (bind_of_ok hok) (hq.leads hfirst hok)) hS

lemma MirrorsFrom.bind_always {E : Prop} {p q : Reader β} {f g : β → Reader α}
    (hp : MirrorsFrom first x y S p q) (hf : ∀ b, Mirrors x y (.always E) (f b) (g b))
    (hS : ∀ {ts b a}, S.Holds q ts b (q (ts ++ y)) → f b x = .ok (a, x) → E) :
    MirrorsFrom first x y (.always E) (p >>= f) (q >>= g) := by
  refine hp.bind_of hf (fun _ hok h => ?_) fun hs hx => .inr (hS hs hx)
  rw [Echoes, bind_of_ok hok]
  exact h

lemma Copies.bind {E : Prop} {p q : Reader β} {f g : β → Reader α} (hp : Copies x y p q)
    (hf : ∀ b, Mirrors x y (.always E) (f b) (g b)) : Mirrors x y (.always E) (p >>= f) (q >>= g) :=
  hp.bind_always hf fun h _ => h.elim

lemma Copies.then {p q : Reader β} {f g : β → Reader α} (hp : Copies x y p q) (hq : Stable q)
    (hf : ∀ b, Mirrors x y T (f b) (g b)) : Mirrors x y T (p >>= f) (q >>= g) :=
  MirrorsFrom.bind hp hf hq fun h _ => h.elim

lemma Loose.bind {p q : Reader β} {f g : β → Reader α} (hp : Loose x y p q)
    (hf : ∀ b, Loose x y (f b) (g b)) : Loose x y (p >>= f) (q >>= g) :=
  hp.bind_always hf fun _ _ => trivial

lemma Loose.take {E : Prop} {p q : Reader β} {f g : β → Reader α} (hp : Loose x y p q)
    (hf : ∀ b, Mirrors x y (.always E) (f b) (g b)) (htakes : ∀ b, Takes (f b)) :
    Mirrors x y (.always E) (p >>= f) (q >>= g) :=
  hp.bind_always hf fun _ h => absurd (htakes _ h) (Nat.lt_irrefl _)

lemma Loose.then {p q : Reader β} {f g : β → Reader α} (hp : Loose x y p q) (hq : Stable q)
    (hf : ∀ b, Mirrors x y T (f b) (g b)) (htakes : ∀ b, Takes (f b)) :
    Mirrors x y T (p >>= f) (q >>= g) :=
  MirrorsFrom.bind hp hf hq fun _ h => absurd (htakes _ h) (Nat.lt_irrefl _)

lemma Takes.bind {p : Reader β} {f g : β → Reader α} (hp : Takes p)
    (hf : ∀ b, Mirrors x y T (f b) (g b)) : Takes (p >>= f) := by
  intro ts rest a h
  obtain ⟨b, mid, hb, ha⟩ := bind_ok.mp h
  exact Nat.lt_of_le_of_lt ((hf b).suffix trivial ha).length_le (hp hb)

lemma Takes.unexpected : Takes (Statement.unexpected : Reader α) :=
  fun _ _ _ h => (unexpected_ok.mp h).elim

lemma Takes.discard {p : Reader α} (h : Takes p) : Takes (Functor.discard p) := by
  intro ts rest u hp
  obtain ⟨a, ha⟩ := discard_ok.mp hp
  exact h ha

lemma Loose.discard (h : Loose x y p q) :
    Loose x y (Functor.discard p : Reader PUnit) (Functor.discard q) := by
  rw [discard_eq, discard_eq]
  exact h.bind fun _ => .pure _

end

section

variable {T : Remainder α} {p p' q q' : Reader α} {k : Kind}

lemma MirrorsFrom.failure {first : Option Kind} (h : ∀ ts, ∃ fault, p ts = .error fault) :
    MirrorsFrom first x y T p q := by
  refine ⟨fun {ts rest a} _ hp => ?_, fun {ts rest a} _ hp => ?_⟩
  all_goals
    obtain ⟨fault, hfault⟩ := h _
    rw [hfault] at hp
    cases hp

lemma Mirrors.peek {f g : Option Kind → Reader α}
    (hsome : ∀ k, MirrorsFrom (some k) x y T (f (some k)) (g (some k)))
    (hnil : ∀ {a rest}, f none [] = .ok (a, rest) → rest = [])
    (hend : ∀ {a rest}, (Statement.peek >>= f) x = .ok (a, rest ++ x) →
      Echoes T y [] a rest (Statement.peek >>= g)) :
    Mirrors x y T (Statement.peek >>= f) (Statement.peek >>= g) := by
  constructor
  · intro ts rest a _ h
    cases ts with
    | nil => exact List.suffix_nil.mpr (hnil h)
    | cons t ts => exact (hsome t.kind).suffix rfl h
  · intro ts rest a _ h
    cases ts with
    | nil => exact hend h
    | cons t ts =>
      have hlead : Leads (Statement.peek >>= g) [] (g (some t.kind)) (t :: ts) := by
        rintro front step rest heq - more
        cases front with
        | nil =>
          cases heq
          rfl
        | cons u front =>
          cases heq
          rfl
      have hread : Echoes T y (t :: ts) a rest (g (some t.kind)) := (hsome t.kind).reads rfl h
      exact hread.lead rfl hlead

lemma Loose.peek {f g : Option Kind → Reader α}
    (hsome : ∀ k, MirrorsFrom (some k) x y (.always True) (f (some k)) (g (some k)))
    (hnil : ∀ {a rest}, f none [] = .ok (a, rest) → rest = []) :
    Loose x y (Statement.peek >>= f) (Statement.peek >>= g) := by
  refine Mirrors.peek hsome hnil fun {a rest} h => .inr (.inr ⟨?_, trivial⟩)
  have hsuffix : rest ++ x <:+ x := by
    cases x with
    | nil => exact List.suffix_nil.mpr (hnil h)
    | cons t x => exact (hsome t.kind).suffix rfl h
  have hlength := hsuffix.length_le
  rw [List.length_append] at hlength
  exact List.length_eq_zero_iff.mp (by omega)

lemma Mirrors.peek_unexpected (hx : Endings x y) {f g : Option Kind → Reader α}
    (hsome : ∀ k, MirrorsFrom (some k) x y T (f (some k)) (g (some k)))
    (hnone : f none = Statement.unexpected)
    (hsemi : f (some (.symbol .semicolon)) = Statement.unexpected) :
    Mirrors x y T (Statement.peek >>= f) (Statement.peek >>= g) := by
  refine Mirrors.peek hsome (fun h => ?_) fun h => ?_
  · rw [hnone] at h
    exact (unexpected_ok.mp h).elim
  · rw [peek_bind] at h
    cases hx with
    | nothing =>
      rw [List.head?_nil, Option.map_none, hnone] at h
      exact (unexpected_ok.mp h).elim
    | operator hkind =>
      rw [List.head?_cons, Option.map_some, hkind, hsemi] at h
      exact (unexpected_ok.mp h).elim

lemma Mirrors.skip (h : Mirrors x y T p q) :
    MirrorsFrom (some k) x y T (Statement.skip >>= fun _ => p) (Statement.skip >>= fun _ => q) := by
  constructor
  · intro ts rest a hk hp
    cases ts with
    | nil => cases hk
    | cons t ts => exact (h.suffix trivial hp).trans (List.suffix_cons t ts)
  · intro ts rest a hk hp
    cases ts with
    | nil => cases hk
    | cons t ts =>
      have hlead : Leads (Statement.skip >>= fun _ => q) [t] q ts := fun _ _ _ _ _ _ => rfl
      exact (h.reads trivial hp).lead rfl hlead

lemma Mirrors.eat (hx : Endings x y) {T : Remainder Bool}
    (h : isApart k = true ∨ ∀ q ts b out, T.Holds q ts b out) : Mirrors x y T (eat k) (eat k) := by
  constructor
  · intro ts rest b _ he
    rcases eat_ok he with ⟨-, t, rfl, -⟩ | ⟨-, rfl⟩
    · exact List.suffix_cons t rest
    · exact List.suffix_refl _
  · intro ts rest b _ he
    cases ts with
    | nil =>
      rcases eat_ok he with ⟨-, t, heq, -⟩ | ⟨rfl, heq⟩
      · have hlength := congrArg List.length heq
        rw [List.length_append, List.length_cons, List.length_append, List.length_nil] at hlength
        omega
      · obtain rfl : rest = [] := List.append_cancel_right heq
        rcases h with hk | hT
        · left
          rw [eat_eq]
          exact if_neg (hx.head_ne hk).2
        · exact .inr (.inr ⟨rfl, hT _ _ _ _⟩)
    | cons t ts =>
      left
      rw [List.cons_append, eat_eq, List.head?_cons] at he ⊢
      by_cases hk : (some t).map Token.kind = some k
      · rw [if_pos hk] at he ⊢
        obtain ⟨rfl, hrest⟩ := Prod.mk.inj (Except.ok.inj he)
        rw [List.append_cancel_right hrest.symm]
        rfl
      · rw [if_neg hk] at he ⊢
        obtain ⟨rfl, hrest⟩ := Prod.mk.inj (Except.ok.inj he)
        rw [List.append_cancel_right (hrest.symm.trans (List.cons_append ..).symm)]
        rfl

lemma Copies.eat_ite (hx : Endings x y) (hk : isApart k = true) (hp : Mirrors x y T p p')
    (hq : Mirrors x y T q q') :
    Mirrors x y T (Statement.eat k >>= fun found => if found = true then p else q)
      (Statement.eat k >>= fun found => if found = true then p' else q') := by
  refine Copies.then (.eat hx (.inl hk)) (.eat k) ?_
  rintro (_ | _)
  · exact hq
  · exact hp

lemma Copies.sees_ite (hx : Endings x y) (hk : isApart k = true) (hp : Mirrors x y T p p')
    (hq : Mirrors x y T q q') :
    Mirrors x y T (Statement.sees k >>= fun found => if found = true then p else q)
      (Statement.sees k >>= fun found => if found = true then p' else q') := by
  have hsees : Copies x y (sees k) (sees k) := by
    refine Mirrors.peek (fun _ => .pure _) (fun h => (pure_ok.mp h).2.symm) fun {b rest} h => ?_
    have hmiss := hx.head_ne hk
    rw [peek_bind, beq_eq_false_iff_ne.mpr hmiss.1] at h
    obtain ⟨rfl, heq⟩ := pure_ok.mp h
    obtain rfl : [] = rest := List.append_cancel_right heq
    refine .inl ?_
    rw [List.nil_append, peek_bind, beq_eq_false_iff_ne.mpr hmiss.2]
    rfl
  refine hsees.then (.sees k) ?_
  rintro (_ | _)
  · exact hq
  · exact hp

lemma Loose.optional (hx : Endings x y) :
    Loose x y (Functor.discard (Statement.eat k)) (Functor.discard (Statement.eat k)) :=
  Loose.discard (.eat hx (.inr fun _ _ _ _ => trivial))

lemma Copies.expectSpelled (hx : Endings x y) (hk : isApart k = true) {spelling : String} :
    Copies x y (expectSpelled k spelling) (expectSpelled k spelling) := by
  refine Copies.bind (.eat hx (.inl hk)) ?_
  rintro (_ | _)
  · exact .failure fun ts => ⟨_, rfl⟩
  · exact .pure ()

lemma Copies.expectKind (hx : Endings x y) (hk : isApart k = true) :
    Copies x y (expectKind k) (expectKind k) :=
  Copies.eat_ite hx hk (.pure ()) .unexpected

lemma Takes.eat_ite (hp : Mirrors x y T p p') (hq : Takes q) :
    Takes (Statement.eat k >>= fun found => if found = true then p else q) := by
  intro ts rest a h
  obtain ⟨found, mid, he, hr⟩ := bind_ok.mp h
  rcases eat_ok he with ⟨rfl, t, rfl, -⟩ | ⟨rfl, rfl⟩
  · exact Nat.lt_of_le_of_lt (hp.suffix trivial hr).length_le (Nat.lt_succ_self _)
  · exact hq hr

lemma Takes.expectSpelled {spelling : String} : Takes (expectSpelled k spelling) := by
  intro ts rest u h
  obtain ⟨t, rfl, -⟩ := expectSpelled_ok h
  exact Nat.lt_succ_self _

lemma Mirrors.argumentName {E : Prop} (hx : Endings x y) {p p' : Unit → Reader α}
    (h : Mirrors x y (.always E) (p ()) (p' ())) :
    Mirrors x y (.always E)
      (seesArgumentName >>= fun named =>
        if named = true then (Statement.skip >>= fun _ => Statement.skip >>= fun u => p u) else p ())
      (seesArgumentName >>= fun named =>
        if named = true then (Statement.skip >>= fun _ => Statement.skip >>= fun u => p' u)
        else p' ()) := by
  have heq : ∀ (r : Unit → Reader α) (ts : List Token), (seesArgumentName >>= fun named =>
      if named = true then (Statement.skip >>= fun _ => Statement.skip >>= fun u => r u) else r ()) ts =
      r () (if isNamed ts = true then ts.tail.tail else ts) := by
    intro r ts
    rw [bind_of_ok (seesArgumentName_eq ts)]
    split <;> rfl
  constructor
  · intro ts rest a _ hr
    rw [heq] at hr
    refine (h.suffix trivial hr).trans ?_
    split
    · exact (List.tail_suffix _).trans (List.tail_suffix _)
    · exact List.suffix_refl _
  · intro ts rest a _ hr
    rw [heq, (hx.isNamed_eq ts).1] at hr
    rw [Echoes, heq, (hx.isNamed_eq ts).2]
    cases hnamed : isNamed ts with
    | false =>
      rw [hnamed] at hr
      exact h.reads trivial hr
    | true =>
      rw [hnamed] at hr
      obtain ⟨name, colon, more, rfl, -⟩ := isNamed_moves [] hnamed
      exact h.reads trivial hr

end

section

variable {E : Prop} {round round' : α → Reader (ForInStep α)}
  (h : ∀ a, Mirrors x y (.always E) (round a) (round' a))
include h

lemma Iterates.suffix {ts rest : List Token} {a b : α} (hr : Iterates round b rest a ts) :
    rest <:+ ts := by
  induction hr with
  | done hdone => exact (h _).suffix trivial hdone
  | yield hyield _ ih => exact ih.trans ((h _).suffix trivial hyield)

lemma rounds_echoes {bound bound' ts rest : List Token} {a b : α}
    (hbound : bound.length ≤ bound'.length)
    (hr : rounds round bound a (ts ++ x) = .ok (b, rest ++ x)) :
    Echoes (.always E) y ts b rest (rounds round' bound' a) := by
  have hfinish : ∀ {a ts bound'}, round a (ts ++ x) = .ok (.done b, rest ++ x) →
      Echoes (.always E) y ts b rest (rounds round' bound' a) := by
    intro a ts bound' hdone
    rcases (h a).reads trivial hdone with hq | hq | hend
    · exact .inl (rounds_done hq)
    · exact .inr (.inl (rounds_error hq))
    · exact .inr (.inr hend)
  induction bound generalizing a ts bound' with
  | nil =>
    rcases rounds_ok hr with hdone | ⟨_, _, _, _, hnil, -⟩
    · exact hfinish hdone
    · cases hnil
  | cons t bound ih =>
    rcases rounds_ok hr with hdone | ⟨_, _, c, mid, hcons, hyield, hmore⟩
    · exact hfinish hdone
    · cases hcons
      obtain ⟨used, rfl⟩ := (Iterates.of_rounds hmore).suffix h
      rw [← List.append_assoc] at hyield hmore
      obtain ⟨t', fewer', rfl⟩ : ∃ t' fewer', bound' = t' :: fewer' :=
        List.exists_cons_of_length_pos (Nat.lt_of_lt_of_le (Nat.succ_pos _) hbound)
      rcases (h a).reads trivial hyield with hq | hq | ⟨hnil, he⟩
      · rw [Echoes, rounds_going hq]
        exact ih (Nat.le_of_succ_le_succ hbound) hmore
      · exact .inr (.inl (rounds_error hq))
      · exact .inr (.inr ⟨(List.append_eq_nil_iff.mp hnil).2, he⟩)

lemma Mirrors.iterate (hx : Endings x y) (a : α) :
    Mirrors x y (.always E) (iterate round a) (iterate round' a) := by
  constructor
  · intro ts rest b _ hr
    exact (Iterates.of_rounds hr).suffix h
  · intro ts rest b _ hr
    refine rounds_echoes h ?_ hr
    rw [List.length_append, List.length_append]
    exact Nat.add_le_add_left hx.length_le _

end

def isLoose (k : Kind) : Prop :=
  k = .symbol .question ∨ k = .keyword .kwInstanceof ∨ (binary? k).isSome = true

lemma access?_loose (nested : Nat → Reader Shape) (shape : Shape) {t : Token} (rest : List Token)
    (h : isLoose t.kind) : access? nested shape (t :: rest) = .ok (none, t :: rest) := by
  unfold access?
  split
  · rfl
  · rw [peek_bind, List.head?_cons, Option.map_some]
    generalize t.kind = k at h
    rcases h with rfl | rfl | h
    · rfl
    · rfl
    · unfold binary? at h
      split at h <;> first | rfl | cases h

lemma Endings.access?_none (hx : Endings x y) (nested nested' : Nat → Reader Shape) (shape : Shape) :
    access? nested shape x = .ok (none, x) ∧ access? nested' shape y = .ok (none, y) := by
  cases hx with
  | nothing => cases shape <;> exact ⟨rfl, rfl⟩
  | operator hsemi hop =>
    exact ⟨access?_fence nested shape [] (.inl hsemi), access?_loose nested' shape _ (.inr (.inr hop))⟩

lemma Loose.item (hx : Endings x y) {p q : Reader Unit} (hp : Loose x y p q) {close : Symbol}
    (h : isApart (.symbol close) = true) :
    Copies x y (do
      p
      if ← eatSymbol .comma then return ForInStep.yield ()
      else
        expect close
        return ForInStep.done ()) (do
      q
      if ← eatSymbol .comma then return ForInStep.yield ()
      else
        expect close
        return ForInStep.done ()) := by
  have hpure : ∀ step : ForInStep Unit, Copies x y (pure step) (pure step) := fun _ => .pure _
  refine hp.take (fun _ => ?_) fun _ => ?_
  · refine Copies.eat_ite hx rfl (hpure _) ?_
    exact (Copies.expectSpelled hx h).bind fun _ => hpure _
  · exact Takes.eat_ite (hpure _) (Takes.expectSpelled.bind fun _ => hpure _)

lemma typeDeclaration_loose (hx : Endings x y) : Loose x y typeDeclaration typeDeclaration := by
  have hname : Copies x y typeName typeName := by
    refine Mirrors.peek_unexpected hx (fun k => ?_) rfl rfl
    split
    iterate 6
      · exact Mirrors.skip (.pure ())
    · exact .unexpected
  refine (Loose.optional hx).bind fun _ => Mirrors.iterate (fun _ => ?_) hx ()
  refine hname.bind fun _ => ?_
  refine Loose.bind (.eat hx (.inr fun _ _ _ _ => trivial)) ?_
  rintro (_ | _)
  · exact .pure _
  · exact .pure _

lemma heredocRest_copies (hx : Endings x y) : Copies x y heredocRest heredocRest := by
  have hbody : Copies x y (iterate (fun _ => do
      if ← eat .heredocBody then return ForInStep.yield ()
      else return ForInStep.done ()) ()) (iterate (fun _ => do
      if ← eat .heredocBody then return ForInStep.yield ()
      else return ForInStep.done ()) ()) := by
    refine Mirrors.iterate (fun _ => ?_) hx ()
    exact Copies.eat_ite hx rfl (.pure _) (.pure _)
  exact hbody.bind fun _ => Copies.expectKind hx rfl

section

variable {nested nested' : Nat → Reader Shape} (hx : Endings x y)
  (hn : ∀ power < postfixPower, Loose x y (nested power) (nested' power))
include hn

lemma nested_loose : Loose x y (discard (nested 0)) (discard (nested' 0)) :=
  (hn 0 (by decide)).discard

include hx

lemma enclosed_copies {close : Symbol} (h : isApart (.symbol close) = true) :
    Copies x y (enclosed nested close) (enclosed nested' close) :=
  (nested_loose hn).take (fun _ => Copies.expectSpelled hx h) fun _ => .expectSpelled

lemma memberName_copies : Copies x y (memberName nested) (memberName nested') := by
  refine Mirrors.peek_unexpected hx (fun k => ?_) rfl rfl
  split
  iterate 2
    · exact Mirrors.skip (.pure ())
  · exact Mirrors.skip (enclosed_copies hx hn rfl)
  · exact .unexpected

lemma indirectName_copies : Copies x y (indirectName nested) (indirectName nested') := by
  refine Mirrors.iterate (fun _ => ?_) hx ()
  refine Mirrors.peek_unexpected hx (fun k => ?_) rfl rfl
  split
  iterate 2
    · exact Mirrors.skip (.pure _)
  · exact Mirrors.skip ((enclosed_copies hx hn rfl).bind fun _ => .pure _)
  · exact .unexpected

lemma classMembers_copies : Copies x y (classMembers nested) (classMembers nested') := by
  have hmember : Copies x y (do memberName nested; return ForInStep.yield ())
      (do memberName nested'; return ForInStep.yield ()) :=
    (memberName_copies hx hn).bind fun _ => .pure _
  refine Mirrors.iterate (fun _ => ?_) hx ()
  refine Copies.eat_ite hx rfl hmember ?_
  refine Copies.eat_ite hx rfl hmember ?_
  refine Copies.eat_ite hx rfl ?_ ?_
  · exact (Copies.expectKind hx rfl).bind fun _ => .pure _
  refine Copies.eat_ite hx rfl ?_ (.pure _)
  exact (enclosed_copies hx hn rfl).bind fun _ => .pure _

lemma classReference_copies : Copies x y (classReference nested) (classReference nested') := by
  refine Mirrors.peek_unexpected hx (fun k => ?_) rfl rfl
  split
  iterate 5
    · exact Mirrors.skip (.pure ())
  · exact Mirrors.skip (classMembers_copies hx hn)
  · exact Mirrors.skip (enclosed_copies hx hn rfl)
  · exact .unexpected

lemma argumentList_copies : Copies x y (argumentList nested) (argumentList nested') := by
  have hclose : isApart (.symbol .closeParen) = true := rfl
  have hitem := (nested_loose hn).item hx hclose
  refine Mirrors.iterate (fun _ => ?_) hx ()
  refine Copies.eat_ite hx rfl (.pure _) ?_
  refine Copies.eat_ite hx rfl hitem ?_
  exact Mirrors.argumentName hx hitem

lemma arguments_copies : Copies x y (arguments nested) (arguments nested') := by
  have hlist := argumentList_copies hx hn
  refine Copies.eat_ite hx rfl ?_ hlist
  refine Copies.eat_ite hx rfl (.pure _) ?_
  refine (nested_loose hn).take (fun _ => ?_) fun _ => ?_
  · exact Copies.eat_ite hx rfl hlist (Copies.expectSpelled hx rfl)
  · exact Takes.eat_ite hlist .expectSpelled

lemma writableList_copies : Copies x y (writableList nested) (writableList nested') := by
  have hdone : Copies x y (pure (ForInStep.done ())) (pure (ForInStep.done ())) := .pure _
  have hclose : Copies x y (do expect .closeParen; return ForInStep.done ())
      (do expect .closeParen; return ForInStep.done ()) :=
    (Copies.expectSpelled hx rfl).bind fun _ => hdone
  have hcomma : Copies x y (do
      if ← seesSymbol .closeParen then
        expect .closeParen
        return ForInStep.done ()
      else return ForInStep.yield ()) (do
      if ← seesSymbol .closeParen then
        expect .closeParen
        return ForInStep.done ()
      else return ForInStep.yield ()) :=
    Copies.sees_ite hx rfl hclose (.pure _)
  refine Mirrors.iterate (fun _ => ?_) hx ()
  refine (hn 0 (by decide)).take (fun shape => ?_) fun shape => ?_
  · split
    · exact Copies.eat_ite hx rfl hcomma hclose
    · exact .unexpected
  · split
    · exact Takes.eat_ite hcomma (Takes.expectSpelled.bind fun _ => hdone)
    · exact .unexpected

lemma arrayItem_loose : Loose x y (arrayItem nested) (arrayItem nested') := by
  have hzero := nested_loose hn
  refine Copies.eat_ite hx rfl hzero ?_
  refine (Loose.optional hx).bind fun _ => hzero.bind fun _ => ?_
  refine Copies.eat_ite hx rfl ?_ (.pure _)
  exact (Loose.optional hx).bind fun _ => hzero

lemma arrayItems_copies {close : Symbol} (h : isApart (.symbol close) = true) :
    Copies x y (arrayItems nested close) (arrayItems nested' close) := by
  refine Mirrors.iterate (fun _ => ?_) hx ()
  refine Copies.eat_ite hx h (.pure _) ?_
  refine Copies.eat_ite hx rfl (.pure _) ?_
  exact (arrayItem_loose hx hn).item hx h

lemma parameter_loose : Loose x y (parameter nested) (parameter nested') := by
  have hrest : ∀ _ : Unit, Loose x y (do
      discard (eatSymbol .ampersand)
      discard (eatSymbol .ellipsis)
      expectKind .variableName
      if ← eatSymbol .assign then discard (nested 0)) (do
      discard (eatSymbol .ampersand)
      discard (eatSymbol .ellipsis)
      expectKind .variableName
      if ← eatSymbol .assign then discard (nested' 0)) := by
    intro _
    refine (Loose.optional hx).bind fun _ => (Loose.optional hx).bind fun _ => ?_
    refine (Copies.expectKind hx rfl).bind fun _ => ?_
    exact Copies.eat_ite hx rfl (nested_loose hn) (.pure _)
  have htyped := (typeDeclaration_loose hx).bind hrest
  refine Loose.peek (fun k => ?_) fun h => List.suffix_nil.mp (htyped.suffix trivial h)
  split
  · exact (hrest ()).at k
  · exact (hrest ()).at k
  · exact (hrest ()).at k
  · exact htyped.at k

lemma parameterList_copies : Copies x y (parameterList nested) (parameterList nested') := by
  refine Mirrors.iterate (fun _ => ?_) hx ()
  refine Copies.eat_ite hx rfl (.pure _) ?_
  exact (parameter_loose hx hn).item hx rfl

lemma armConditions_loose : Loose x y (armConditions nested) (armConditions nested') := by
  refine Mirrors.iterate (fun _ => ?_) hx ()
  refine (nested_loose hn).bind fun _ => ?_
  refine Copies.eat_ite hx rfl ?_ (.pure _)
  exact Copies.sees_ite hx rfl (.pure _) (.pure _)

lemma matchArm_loose : Loose x y (matchArm nested) (matchArm nested') := by
  have hbody : Loose x y (do expect .doubleArrow; discard (nested 0))
      (do expect .doubleArrow; discard (nested' 0)) :=
    (Copies.expectSpelled hx rfl).bind fun _ => nested_loose hn
  refine Copies.eat_ite hx rfl ?_ ?_
  · exact (Loose.optional hx).bind fun _ => hbody
  · exact (armConditions_loose hx hn).bind fun _ => hbody

lemma matchBody_copies : Copies x y (matchBody nested) (matchBody nested') := by
  refine (Copies.expectSpelled hx rfl).bind fun _ => ?_
  refine (enclosed_copies hx hn rfl).bind fun _ => ?_
  refine (Copies.expectSpelled hx rfl).bind fun _ => ?_
  refine Mirrors.iterate (fun _ => ?_) hx ()
  refine Copies.eat_ite hx rfl (.pure _) ?_
  exact (matchArm_loose hx hn).item hx rfl

lemma access?_copies (shape : Shape) : Copies x y (access? nested shape) (access? nested' shape) := by
  have hend : ∀ s : Option Shape, Copies x y (pure s) (pure s) := fun _ => .pure _
  have hlast := hx.access?_none nested nested' shape
  unfold access? at hlast ⊢
  split
  · exact hend none
  rename_i hshape
  rw [if_neg hshape, if_neg hshape] at hlast
  refine Mirrors.peek (fun k => ?_) (fun h => (pure_ok.mp h).2.symm) fun {found rest} h => ?_
  · split
    · refine Mirrors.skip (Copies.eat_ite hx rfl (hend _) ?_)
      exact (enclosed_copies hx hn rfl).bind fun _ => hend _
    · exact Mirrors.skip ((arguments_copies hx hn).bind fun _ => hend _)
    · exact Mirrors.skip ((memberName_copies hx hn).bind fun _ => hend _)
    · exact Mirrors.skip ((memberName_copies hx hn).bind fun _ => hend _)
    · refine Mirrors.skip (Copies.eat_ite hx rfl (hend _) ?_)
      exact (memberName_copies hx hn).bind fun _ => hend _
    · split
      · exact Mirrors.skip (hend _)
      · exact (hend none).at _
    · split
      · exact Mirrors.skip (hend _)
      · exact (hend none).at _
    · exact (hend none).at _
  · rw [hlast.1] at h
    obtain ⟨rfl, heq⟩ := Prod.mk.inj (Except.ok.inj h)
    obtain rfl : [] = rest := List.append_cancel_right heq
    exact .inl hlast.2

end

end Stencil.Code.Statement

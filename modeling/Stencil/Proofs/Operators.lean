import Stencil.Proofs.Continuation
import Stencil.Proofs.Sites

/-!
Two expressions with a binary operator between them. It is read wherever the first one ends, be it deep
inside, and what is left of the second goes on with the operators outside.
-/

namespace Stencil.Code.Statement

open Lexer Outcome

variable {α β : Type} {x y : List Token}

section

variable {round : α → Reader (ForInStep α)}

lemma rounds_congr {bound ts : List Token} {a b : α} (h : round a ts = round b ts) :
    rounds round bound a ts = rounds round bound b ts := by
  refine rounds_eq h fun c rest hb => ?_
  cases bound with
  | nil => rw [rounds, rounds, bind_of_ok hb, bind_of_ok (h.trans hb)]
  | cons t fewer => rw [rounds_going hb, rounds_going (h.trans hb)]

lemma Iterates.last {ts rest : List Token} {a b : α} (h : Iterates round b rest a ts) :
    ∃ c mid, round c mid = .ok (.done b, rest) := by
  induction h with
  | done hdone => exact ⟨_, _, hdone⟩
  | yield _ _ ih => exact ih

lemma Leads.of_yield (h : Advances round) {a c : α} (hstable : Stable (round a)) {used ts y : List Token}
    (hyield : round a (used ++ ts ++ y) = .ok (.yield c, ts ++ y)) :
    Leads (iterate round a) used (iterate round c) ts := by
  intro front step last hts hstep more
  rw [hts, List.append_assoc, List.append_assoc, List.cons_append, ← List.append_assoc] at hyield
  rw [← List.append_assoc]
  exact iterate_yield h (hstable hstep trivial hyield)

end

section

variable {nested : Nat → Reader Shape} {power : Nat} {shape : Shape}

lemma operator_advances (hn : ∀ power, Steady (nested power)) (power : Nat) :
    Advances (operator nested power) :=
  fun shape _ _ _ h => (operator_round hn power shape []).advances trivial h rfl

lemma binary?_left {k : Kind} {b : Binding} (h : binary? k = some b) :
    0 < b.left ∧ b.left ≠ unaryPower + 1 := by
  unfold binary? at h
  split at h <;> first | (cases h; decide) | cases h

lemma binary?_right {k : Kind} {b : Binding} (h : binary? k = some b) : b.right < postfixPower := by
  unfold binary? at h
  split at h <;> first | (cases h; decide) | cases h

lemma isAssignment_of_isLoose {k : Kind} (h : isLoose k) : isAssignment k = false := by
  rcases h with rfl | rfl | h
  · rfl
  · rfl
  · unfold binary? at h
    split at h <;> first | rfl | cases h

lemma operator_loose (h : power < postfixPower) {t : Token} (ht : isLoose t.kind) (rest : List Token) :
    operator nested power shape (t :: rest) = looseOperator nested power shape t.kind (t :: rest) := by
  unfold operator
  rw [peek_bind, List.head?_cons, Option.map_some]
  dsimp only
  rw [if_neg (by rw [isAssignment_of_isLoose ht]; exact Bool.false_ne_true), if_pos h,
    bind_of_ok (access?_loose nested shape rest ht)]

lemma looseOperator_binary {k : Kind} {b : Binding} (h : binary? k = some b) :
    looseOperator nested power shape k = if b.left ≤ power then pure (.done shape) else do
      skip
      discard (nested b.right)
      return .yield .value := by
  unfold looseOperator
  split
  · cases h
  · cases h
  · rw [h]

lemma looseOperator_other {k : Kind} (h : ¬ isLoose k) :
    looseOperator nested power shape k = pure (.done shape) := by
  unfold looseOperator
  split
  · exact absurd (.inl rfl) h
  · exact absurd (.inr (.inl rfl)) h
  · split
    · rfl
    · rename_i hb
      exact absurd (.inr (.inr (by rw [hb]; rfl))) h

def Continues (p : Reader (ForInStep Shape)) : Prop :=
  ∀ ⦃ts e rest⦄, p ts ≠ .ok (.done e, rest)

lemma Continues.pure (s : Shape) : Continues (pure (.yield s)) := by
  intro ts e rest h
  cases (pure_ok.mp h).1

lemma Continues.bind {p : Reader α} {f : α → Reader (ForInStep Shape)} (h : ∀ a, Continues (f a)) :
    Continues (p >>= f) := by
  intro ts e rest hp
  obtain ⟨a, mid, -, hf⟩ := bind_ok.mp hp
  exact h a hf

lemma looseOperator_eq {k : Kind} (h : isLoose k) :
    ∃ (own : Nat) (body : (Nat → Reader Shape) → Reader (ForInStep Shape)),
      (0 < own ∧ own ≠ unaryPower + 1) ∧ (∀ nested, Continues (body nested)) ∧
      ∀ nested power shape, looseOperator nested power shape k =
        if own ≤ power then pure (.done shape) else body nested := by
  rcases h with rfl | rfl | h
  · refine ⟨ternaryPower, _, by decide, fun nested => ?_, fun _ _ _ => rfl⟩
    refine .bind fun _ => .bind fun found => ?_
    split
    · exact .bind fun _ => .pure _
    · exact .bind fun _ => .bind fun _ => .pure _
  · refine ⟨instanceofPower, _, by decide, fun nested => ?_, fun _ _ _ => rfl⟩
    exact .bind fun _ => .bind fun _ => .pure _
  · obtain ⟨b, hb⟩ := Option.isSome_iff_exists.mp h
    refine ⟨b.left, _, binary?_left hb, fun nested => ?_, fun _ _ _ => looseOperator_binary hb⟩
    exact .bind fun _ => .bind fun _ => .pure _

lemma looseOperator_done {k : Kind} {ts rest : List Token} {e : Shape}
    (h : looseOperator nested power shape k ts = .ok (.done e, rest)) : rest = ts := by
  by_cases hk : isLoose k
  · obtain ⟨own, body, -, hbody, heq⟩ := looseOperator_eq hk
    rw [heq] at h
    split at h
    · exact (pure_ok.mp h).2.symm
    · exact absurd h (hbody nested ·)
  · rw [looseOperator_other hk] at h
    exact (pure_ok.mp h).2.symm

lemma operator_done {ts rest : List Token} {e : Shape}
    (h : operator nested power shape ts = .ok (.done e, rest)) : rest = ts := by
  unfold operator at h
  rw [peek_bind] at h
  cases ts with
  | nil => exact (pure_ok.mp h).2.symm
  | cons t ts =>
    rw [List.head?_cons, Option.map_some] at h
    dsimp only at h
    split at h
    · exact absurd h (Continues.bind (fun s => Continues.pure s) ·)
    · split at h
      · obtain ⟨found, mid, ha, hb⟩ := bind_ok.mp h
        cases found with
        | none =>
          obtain rfl := access?_none ha
          exact looseOperator_done hb
        | some next => exact absurd hb (Continues.pure next ·)
      · exact looseOperator_done h

lemma operator_zero {t : Token} (ht : isLoose t.kind) (ts : List Token) {e : Shape} {rest : List Token} :
    operator nested 0 shape (t :: ts) ≠ .ok (.done e, rest) := by
  obtain ⟨own, body, hown, hbody, heq⟩ := looseOperator_eq ht
  rw [operator_loose (by decide) ht, heq, if_neg (Nat.not_le.mpr hown.1)]
  exact fun h => hbody nested h

lemma operator_power (h : power < postfixPower) (shape : Shape) (ts : List Token) :
    (∀ nested : Nat → Reader Shape, operator nested power shape ts = operator nested 0 shape ts) ∨
      (∀ (nested : Nat → Reader Shape) (s : Shape), operator nested power s ts = .ok (.done s, ts)) ∧
        ∀ (nested : Nat → Reader Shape) (s : Shape),
          operator nested 0 s ts = operator nested 0 shape ts := by
  cases ts with
  | nil => exact .inl fun _ => rfl
  | cons t ts =>
    by_cases ht : isLoose t.kind
    · obtain ⟨own, body, hown, -, heq⟩ := looseOperator_eq ht
      have hzero : ¬ own ≤ 0 := Nat.not_le.mpr hown.1
      by_cases hp : own ≤ power
      · refine .inr ⟨fun nested s => ?_, fun nested s => ?_⟩
        · rw [operator_loose h ht, heq, if_pos hp]
          rfl
        · rw [operator_loose (by decide) ht, operator_loose (by decide) ht, heq, heq, if_neg hzero,
            if_neg hzero]
      · left
        intro nested
        rw [operator_loose h ht, operator_loose (by decide) ht, heq, heq, if_neg hp, if_neg hzero]
    · left
      intro nested
      unfold operator
      rw [peek_bind, peek_bind, List.head?_cons, Option.map_some]
      dsimp only
      rw [if_pos h, if_pos (by decide : 0 < postfixPower), looseOperator_other ht,
        looseOperator_other ht]

end

lemma operator_ending (hx : Endings x y) (nested : Nat → Reader Shape) (power : Nat)
    (shape : Shape) : operator nested power shape x = .ok (.done shape, x) := by
  cases hx with
  | nothing => rfl
  | operator hsemi => exact operator_fence nested shape power [] (.inl hsemi)

lemma iterate_ending (hx : Endings x y) {nested : Nat → Reader Shape} {power : Nat} {s e : Shape}
    {rest : List Token} (h : iterate (operator nested power) s x = .ok (e, rest)) : e = s := by
  have hdone := iterate_done (operator_ending hx nested power s)
  exact (Prod.mk.inj (Except.ok.inj (h.symm.trans hdone))).1

def Shape.isPlain (s : Shape) : Prop :=
  s = .value ∨ s = .callable

lemma Shape.isPlain.ne_writable {s : Shape} (h : s.isPlain) : s ≠ .writable := by
  rcases h with rfl | rfl <;> exact Shape.noConfusion

/-- The tokens before `x` end in a step `++` or `--` and a writable operand of it. The step is where `q`
asks for an operand: whatever comes after it, if none can be read from there, `q` fails. -/
def EndsInStep (q : Reader α) (x ts : List Token) : Prop :=
  ∃ front step last levels, ts = front ++ step :: last ∧ isStep step.kind ∧ levels < maxDepth ∧
    expression levels unaryPower (last ++ x) = .ok (.writable, x) ∧
    ∀ more fault, operand (expression levels) (step :: more) = .error fault →
      q (front ++ step :: more) = .error fault

namespace EndsInStep

variable {q : Reader α} {ts : List Token} (h : EndsInStep q x ts)
include h

lemma lead {q' : Reader α} {used : List Token} (hlead : Leads q' used q ts) :
    EndsInStep q' x (used ++ ts) := by
  obtain ⟨front, step, last, levels, rfl, hstep, hlevels, hlast, hfault⟩ := h
  refine ⟨used ++ front, step, last, levels, by rw [List.append_assoc], hstep, hlevels, hlast, ?_⟩
  intro more fault hmore
  rw [List.append_assoc, hlead rfl hstep]
  exact hfault more fault hmore

lemma of_error {q' : Reader β} (hq : ∀ us fault, q us = .error fault → q' us = .error fault) :
    EndsInStep q' x ts := by
  obtain ⟨front, step, last, levels, hts, hstep, hlevels, hlast, hfault⟩ := h
  exact ⟨front, step, last, levels, hts, hstep, hlevels, hlast, fun more fault hmore =>
    hq _ _ (hfault more fault hmore)⟩

lemma bind (f : α → Reader β) : EndsInStep (q >>= f) x ts :=
  h.of_error fun _ _ herror => bind_error.mpr (.inl herror)

end EndsInStep

def prefixStep (nested : Nat → Reader Shape) : Reader Shape := do
  skip
  if (← nested unaryPower) = .writable then return .value
  else unexpected

def writableOnly (shape : Shape) : Reader Shape :=
  if shape = .writable then return .value else unexpected

lemma prefixStep_cons (nested : Nat → Reader Shape) (t : Token) (ts : List Token) :
    prefixStep nested (t :: ts) = (nested unaryPower >>= writableOnly) ts := rfl

lemma prefixStep_ok {nested : Nat → Reader Shape} {t : Token} {ts rest : List Token} {s : Shape}
    (h : prefixStep nested (t :: ts) = .ok (s, rest)) :
    s = .value ∧ nested unaryPower ts = .ok (.writable, rest) := by
  obtain ⟨shape, mid, hshape, hs⟩ := bind_ok.mp (prefixStep_cons nested t ts ▸ h)
  unfold writableOnly at hs
  split at hs
  · rename_i hwritable
    obtain ⟨rfl, rfl⟩ := pure_ok.mp hs
    exact ⟨rfl, hwritable ▸ hshape⟩
  · exact (unexpected_ok.mp hs).elim

lemma operand_step (nested : Nat → Reader Shape) {t : Token} (ht : isStep t.kind) (more : List Token) :
    operand nested (t :: more) = prefixStep nested (t :: more) := by
  unfold operand
  rw [peek_bind, List.head?_cons, Option.map_some]
  rcases ht with ht | ht <;> rw [ht] <;> rfl

lemma EndsInStep.of_prefixStep {levels : Nat} (h : levels < maxDepth) {t : Token} {ts : List Token}
    (ht : isStep t.kind) (hread : expression levels unaryPower (ts ++ x) = .ok (.writable, x)) :
    EndsInStep (prefixStep (expression levels)) x (t :: ts) := by
  refine ⟨[], t, ts, levels, rfl, ht, h, hread, fun more fault hfault => ?_⟩
  rwa [operand_step _ ht] at hfault

structure Join where
  Ends : List Token → Prop
  left : Nat

namespace Join

variable (j : Join)

def Spoils (x : List Token) (q : Reader α) (ts : List Token) : Prop :=
  unaryPower < j.left ∧ EndsInStep q x ts

def readsOn (x : List Token) (F : α → Prop) (R : α → α → Prop) : Remainder α where
  Holds q ts a out := F a ∧ j.Spoils x q ts ∨ ∃ a' z, out = .ok (a', z) ∧ R a a' ∧ j.Ends z
  lead hlead := .imp_left (.imp_right (.imp_right fun h => h.lead hlead))

def any (x : List Token) : Remainder α :=
  j.readsOn x (fun _ => True) fun _ _ => True

def plain (x : List Token) : Remainder Shape :=
  j.readsOn x Shape.isPlain fun s s' => s.isPlain ∧ s'.isPlain

def atPower (x : List Token) (power : Nat) : Remainder Shape :=
  j.readsOn x (· ≠ .writable) fun s _ => s = .writable → power < j.left

def atRound (x : List Token) (power : Nat) : Remainder (ForInStep Shape) :=
  j.readsOn x (fun step => ∃ s, step = .yield s ∧ s.isPlain) fun step step' =>
    (∃ s, step' = .yield s ∧ s.isPlain) ∧
      ((∃ s, step = .done s) ∧ power < j.left ∨ ∃ s, step = .yield s ∧ s.isPlain)

def ending (Final : List Token → Prop) : Join :=
  { j with Ends := Final }

def never : Join :=
  ⟨fun _ => False, 0⟩

lemma never_readsOn {F : α → Prop} {R : α → α → Prop} {q : Reader α} {ts : List Token} {a : α}
    {out : Except Fault (α × List Token)} (h : (never.readsOn x F R).Holds q ts a out) : False := by
  rcases h with ⟨-, hless, -⟩ | ⟨_, _, -, -, hfalse⟩
  · exact absurd hless (Nat.not_lt_zero _)
  · exact hfalse

end Join

section

variable {j : Join} {F : α → Prop} {R : α → α → Prop} {G : β → Prop} {Q : β → β → Prop}

lemma Mirrors.result {p q : Reader α} (h : Mirrors x y (j.readsOn x F R) p q) (hq : Stable q) {b : β}
    (hg : G b) (hb : Q b b) :
    Mirrors x y (j.readsOn x G Q) (p >>= fun _ => pure b) (q >>= fun _ => pure b) := by
  refine MirrorsFrom.bind h (fun _ => .pure b) hq ?_
  rintro ts a c (⟨-, hless, hstep⟩ | ⟨a', z, hok, -, hz⟩) hpure
  · obtain ⟨rfl, -⟩ := pure_ok.mp hpure
    exact .inr (.inl ⟨hg, hless, hstep.bind _⟩)
  · obtain ⟨rfl, -⟩ := pure_ok.mp hpure
    rw [bind_of_ok hok]
    exact .inr (.inr ⟨b, z, rfl, hb, hz⟩)

lemma Mirrors.discarded {p q : Reader α} (h : Mirrors x y (j.readsOn x F R) p q) (hq : Stable q) :
    Mirrors x y (j.any x) (Functor.discard p : Reader PUnit) (Functor.discard q) := by
  rw [discard_eq, discard_eq]
  exact h.result hq trivial trivial

lemma Echoes.goOn {round : Shape → Reader (ForInStep Shape)} (hadvances : Advances round)
    {Final : List Token → Prop} (hafter : ∀ (s : Shape) (z : List Token), s.isPlain → j.Ends z →
      iterate round s z = .error .nestingTooDeep ∨ ∃ s' z', iterate round s z = .ok (s', z') ∧ Final z')
    {power : Nat} {s s' e : Shape} {ts z : List Token} (hs' : s'.isPlain) (hz : j.Ends z)
    (hpower : e = .writable → power < j.left) (hq : round s (ts ++ y) = .ok (.yield s', z)) :
    Echoes ((j.ending Final).atPower x power) y ts e [] (iterate round s) := by
  rw [Echoes, iterate_yield hadvances hq]
  rcases hafter s' z hs' hz with hdeep | ⟨s'', z', hok, hz'⟩
  · exact .inr (.inl hdeep)
  · exact .inr (.inr ⟨rfl, .inr ⟨s'', z', hok, hpower, hz'⟩⟩)

lemma Echoes.spoilt {round : Shape → Reader (ForInStep Shape)} {Final : List Token → Prop} {power : Nat}
    {s e : Shape} {ts : List Token} (he : e ≠ .writable) (h : j.Spoils x (round s) ts) :
    Echoes ((j.ending Final).atPower x power) y ts e [] (iterate round s) := by
  obtain ⟨hless, hstep⟩ := h
  exact .inr (.inr ⟨rfl, .inl ⟨he, hless, hstep.of_error fun _ _ => iterate_error⟩⟩)

variable {nested nested' : Nat → Reader Shape}
  (hn : ∀ power < postfixPower, Mirrors x y (j.atPower x power) (nested power) (nested' power))
  (hn' : ∀ power, Steady (nested' power)) (hx : Endings x y)
include hn hn' hx

lemma arrowFunction_readsOn :
    Mirrors x y (j.any x) (arrowFunction nested) (arrowFunction nested') := by
  have hloose := fun power h => (hn power h).loose
  have harrow : Steady (expect .doubleArrow) := fun _ => Reads.expectSpelled ⟨rfl, rfl⟩
  have hopen : Stable (expect .openParen) :=
    .of_reads (Reads.expectSpelled ⟨rfl, rfl⟩ : Reads _ [] fun _ => [.closeParen])
  have hinner := (hn 0 (by decide)).discarded (hn' 0).stable
  have hbody : Mirrors x y (j.any x)
      (do expect .doubleArrow; discard (nested 0)) (do expect .doubleArrow; discard (nested' 0)) :=
    (Copies.expectSpelled hx rfl).then harrow.stable fun _ => hinner
  have htakes : Takes (do expect .doubleArrow; discard (nested 0)) :=
    Takes.expectSpelled.bind fun _ => hinner
  have hlist : ∀ _ : Unit, Mirrors x y (j.any x) (do
      parameterList nested
      if ← eatSymbol .colon then typeDeclaration
      expect .doubleArrow
      discard (nested 0)) (do
      parameterList nested'
      if ← eatSymbol .colon then typeDeclaration
      expect .doubleArrow
      discard (nested' 0)) := by
    intro _
    refine (parameterList_copies hx hloose).then (.of_reads (parameterList_reads hn' [])) fun _ => ?_
    refine Copies.eat_ite hx rfl ?_ hbody
    exact (typeDeclaration_loose hx).then typeDeclaration_steady.stable (fun _ => hbody) fun _ => htakes
  refine (Loose.optional hx).then (Steady.optional fun _ => ⟨rfl, rfl⟩).stable (fun _ => ?_)
    fun _ => Takes.expectSpelled.bind hlist
  exact (Copies.expectSpelled hx rfl).then hopen hlist

lemma looseOperator_readsOn (power : Nat) (shape : Shape) (k : Kind) :
    MirrorsFrom (some k) x y (j.atRound x power)
      (looseOperator nested power shape k) (looseOperator nested' power shape k) := by
  have hloose := fun power h => (hn power h).loose
  have hlast : ∀ own < postfixPower, Mirrors x y (j.atRound x power)
      (do discard (nested own); return ForInStep.yield Shape.value)
      (do discard (nested' own); return ForInStep.yield Shape.value) :=
    fun own h => ((hn own h).discarded (hn' own).stable).result
      (.of_reads (nested_reads hn' own [])) ⟨_, rfl, .inl rfl⟩
      ⟨⟨_, rfl, .inl rfl⟩, .inr ⟨_, rfl, .inl rfl⟩⟩
  unfold looseOperator
  split
  · split
    · exact .pure _
    · have hternary := hlast ternaryPower (by decide)
      have hcolon : Turns [] (.symbol .colon) [] := ⟨rfl, rfl⟩
      refine Mirrors.skip (Copies.eat_ite hx rfl hternary ?_)
      exact (enclosed_copies hx hloose rfl).then (.of_reads (enclosed_reads hn' hcolon))
        fun _ => hternary
  · split
    · exact .pure _
    · exact Mirrors.skip ((classReference_copies hx hloose).then (classReference_steady hn').stable
        (fun _ => .pure _))
  · split
    · exact .pure _
    · rename_i hb
      split
      · exact .pure _
      · exact (hlast _ (binary?_right hb)).skip

lemma accessOr_readsOn (power : Nat) (shape : Shape) (k : Kind) :
    MirrorsFrom (some k) x y (j.atRound x power) (do
      match ← access? nested shape with
      | some next => return .yield next
      | none => looseOperator nested power shape k) (do
      match ← access? nested' shape with
      | some next => return .yield next
      | none => looseOperator nested' power shape k) := by
  have haccess := access?_copies hx (fun power h => (hn power h).loose) shape
  have hloose := looseOperator_readsOn hn hn' hx power shape k
  constructor
  · intro ts rest step hk h
    obtain ⟨found, mid, ha, hb⟩ := bind_ok.mp h
    cases found with
    | none =>
      rw [access?_none ha] at hb
      exact hloose.suffix hk hb
    | some next =>
      obtain ⟨-, rfl⟩ := pure_ok.mp hb
      exact haccess.suffix trivial ha
  · intro ts rest step hk h
    obtain ⟨found, mid, ha, hb⟩ := bind_ok.mp h
    cases found with
    | none =>
      obtain rfl := access?_none ha
      rcases haccess.reads trivial ha with hq | hq | ⟨-, hfalse⟩
      · have hstable : Stable (access? nested' shape) :=
          .of_reads ((access?_reads hn' shape []).weaken fun _ => id)
        change Echoes _ y ([] ++ ts) step rest _
        refine (hloose.reads hk hb).lead ?_ ?_
        · exact bind_of_ok hq
        · rw [← List.nil_append ts] at hq
          exact hstable.leads trivial hq
      · exact .inr (.inl (bind_error.mpr (.inl hq)))
      · exact hfalse.elim
    | some next =>
      obtain ⟨rfl, rfl⟩ := pure_ok.mp hb
      rcases haccess.reads trivial ha with hq | hq | ⟨-, hfalse⟩
      · exact .inl (bind_of_ok hq)
      · exact .inr (.inl (bind_error.mpr (.inl hq)))
      · exact hfalse.elim

section

variable (hstep : ∀ t ts, isStep t.kind → nested unaryPower (ts ++ x) = .ok (.writable, x) →
    unaryPower < j.left → EndsInStep (prefixStep nested') x (t :: ts))
include hstep

omit hn' hx in
lemma prefixStep_readsOn {k : Kind} (hk : isStep k) :
    MirrorsFrom (some k) x y (j.plain x) (prefixStep nested) (prefixStep nested') := by
  have hunary := hn unaryPower (by decide)
  constructor
  · intro ts rest s hfirst h
    cases ts with
    | nil => cases hfirst
    | cons t ts => exact (hunary.suffix trivial (prefixStep_ok h).2).trans (List.suffix_cons t ts)
  · intro ts rest s hfirst h
    cases ts with
    | nil => cases hfirst
    | cons t ts =>
      obtain ⟨rfl, hwritable⟩ := prefixStep_ok h
      rw [Echoes, List.cons_append, prefixStep_cons]
      rcases hunary.reads trivial hwritable with hq | hq | ⟨rfl, ⟨hne, -⟩ | ⟨_, _, -, hpower, -⟩⟩
      · exact .inl (bind_of_ok hq)
      · exact .inr (.inl (bind_error.mpr (.inl hq)))
      · exact absurd rfl hne
      · have ht : isStep t.kind := Option.some.inj hfirst ▸ hk
        exact .inr (.inr ⟨rfl, .inl ⟨.inl rfl, hpower rfl, hstep t ts ht hwritable (hpower rfl)⟩⟩)

lemma operand_readsOn :
    Mirrors x y (j.plain x) (operand nested) (operand nested') := by
  have hloose := fun power h => (hn power h).loose
  have hend : ∀ s : Shape, Copies x y (pure s) (pure s) := fun _ => .pure _
  have hskip : ∀ {k : Kind} {p q : Reader Shape}, Copies x y p q →
      MirrorsFrom (some k) x y (j.plain x) (skip >>= fun _ => p) (skip >>= fun _ => q) :=
    fun h => h.mirrors.skip
  have hthen : ∀ {p q : Reader Unit} (s : Shape), Copies x y p q →
      Copies x y (p >>= fun _ => pure s) (q >>= fun _ => pure s) :=
    fun _ h => h.bind fun _ => hend _
  have hparen : ∀ {p q : Reader Unit} (s : Shape), Copies x y p q →
      Copies x y (do expect .openParen; p; return s) (do expect .openParen; q; return s) :=
    fun _ h => (Copies.expectSpelled hx rfl).bind fun _ => hthen _ h
  have hunary : ∀ power < postfixPower, Mirrors x y (j.plain x)
      (do discard (nested power); return Shape.value)
      (do discard (nested' power); return Shape.value) :=
    fun power h => ((hn power h).discarded (hn' power).stable).result
      (.of_reads (nested_reads hn' power [])) (.inl rfl) ⟨.inl rfl, .inl rfl⟩
  have harrow : Mirrors x y (j.plain x)
      (do arrowFunction nested; return Shape.callable)
      (do arrowFunction nested'; return Shape.callable) :=
    (arrowFunction_readsOn hn hn' hx).result (arrowFunction_steady hn').stable (.inr rfl)
      ⟨.inr rfl, .inr rfl⟩
  refine Mirrors.peek_unexpected hx (fun k => ?_) rfl rfl
  split <;> rename_i heq
  · exact hskip (hend _)
  · exact hskip (hthen _ (indirectName_copies hx hloose))
  -- names, strings and numbers
  iterate 8
    · exact hskip (hend _)
  · exact hskip (hthen _ (heredocRest_copies hx))
  · exact hskip (hthen _ (enclosed_copies hx hloose rfl))
  · exact hskip (hthen _ (arrayItems_copies hx hloose rfl))
  -- `array`, `list`, `isset` and `empty` open a parenthesis first
  · exact hskip (hparen _ (arrayItems_copies hx hloose rfl))
  · exact hskip (hparen _ (arrayItems_copies hx hloose rfl))
  · exact hskip (hparen _ (writableList_copies hx hloose))
  · exact hskip (hparen _ (enclosed_copies hx hloose rfl))
  · exact harrow.skip
  · refine Mirrors.skip (Copies.eat_ite hx rfl harrow ?_)
    exact Copies.sees_ite hx rfl (.pure _) .unexpected
  · refine hskip ((classReference_copies hx hloose).bind (fun _ => ?_))
    exact Copies.eat_ite hx rfl (hthen _ (arguments_copies hx hloose)) (hend _)
  · exact (hunary _ (by decide)).skip
  · exact (hunary _ (by decide)).skip
  · exact hskip (hthen _ (matchBody_copies hx hloose))
  -- casts and signs
  iterate 6
    · exact (hunary _ (by decide)).skip
  · exact prefixStep_readsOn hn hstep (.inl (Option.some.inj heq))
  · exact prefixStep_readsOn hn hstep (.inr (Option.some.inj heq))
  · exact .unexpected

end

variable (htakes : ∀ power, Takes (nested power))
include htakes

lemma assignment_readsOn (power : Nat) (shape : Shape) {k : Kind} (hk : isAssignment k = true) :
    MirrorsFrom (some k) x y (j.atRound x power)
      (do return .yield (← assignment nested shape k))
      (do return .yield (← assignment nested' shape k)) := by
  have hassigned := (hn assignmentPower (by decide)).discarded (hn' assignmentPower).stable
  have hlast : Mirrors x y (j.plain x)
      (do discard (nested assignmentPower); return Shape.value)
      (do discard (nested' assignmentPower); return Shape.value) :=
    hassigned.result (.of_reads (nested_reads hn' assignmentPower [])) (.inl rfl) ⟨.inl rfl, .inl rfl⟩
  have hend : Copies x y (pure Shape.value) (pure Shape.value) := .pure _
  have hread : MirrorsFrom (some k) x y (j.plain x) (assignment nested shape k)
      (assignment nested' shape k) := by
    unfold assignment
    split
    · refine Mirrors.skip ?_
      split
      · exact (Loose.optional hx).then (Steady.optional fun _ => ⟨rfl, rfl⟩).stable (fun _ => hlast)
          fun _ => (htakes assignmentPower).discard.bind fun _ => hend
      · exact hlast
    · exact .unexpected
  have hstable : StableFrom (some k) (assignment nested' shape k) :=
    fun _ _ _ _ _ _ ht hfirst => (assignment_reads hn' shape hk []).stable ht hfirst
  refine hread.bind (fun _ => .pure _) hstable ?_
  rintro ts s step (⟨hs, hless, hstep⟩ | ⟨s', z, hq, ⟨hs, hs'⟩, hz⟩) hpure
  · obtain ⟨rfl, -⟩ := pure_ok.mp hpure
    exact .inr (.inl ⟨⟨s, rfl, hs⟩, hless, hstep.bind _⟩)
  · obtain ⟨rfl, -⟩ := pure_ok.mp hpure
    rw [bind_of_ok hq]
    exact .inr (.inr ⟨_, z, rfl, ⟨⟨s', rfl, hs'⟩, .inr ⟨s, rfl, hs⟩⟩, hz⟩)

lemma operator_readsOn (power : Nat) (shape : Shape)
    (hlast : Echoes (j.atRound x power) y [] (.done shape) [] (operator nested' power shape)) :
    Mirrors x y (j.atRound x power) (operator nested power shape) (operator nested' power shape) := by
  refine Mirrors.peek (fun k => ?_) (fun h => (pure_ok.mp h).2.symm) fun {step rest} h => ?_
  · dsimp only
    split
    · rename_i hk
      exact assignment_readsOn hn hn' hx htakes power shape hk
    · split
      · exact accessOr_readsOn hn hn' hx power shape k
      · exact looseOperator_readsOn hn hn' hx power shape k
  · have hdone := operator_ending hx nested power shape
    obtain ⟨rfl, heq⟩ := Prod.mk.inj (Except.ok.inj (hdone.symm.trans h))
    obtain rfl : [] = rest := List.append_cancel_right heq
    exact hlast

variable {Final : List Token → Prop} {power : Nat}
  (hadvances : Advances (operator nested power)) (hadvances' : Advances (operator nested' power))
  (hlast : ∀ shape, Echoes (j.atRound x power) y [] (.done shape) [] (operator nested' power shape))
  (hafter : ∀ (s : Shape) (z : List Token), s.isPlain → j.Ends z →
    iterate (operator nested' power) s z = .error .nestingTooDeep ∨
      ∃ s' z', iterate (operator nested' power) s z = .ok (s', z') ∧ Final z')
include hadvances hadvances' hlast hafter

lemma operators_readsOn (shape : Shape) :
    Mirrors x y ((j.ending Final).atPower x power) (iterate (operator nested power) shape)
      (iterate (operator nested' power) shape) := by
  have hround := fun s => operator_readsOn hn hn' hx htakes power s (hlast s)
  have hloose := fun s => (hround s).loose
  have hstable : ∀ s, Stable (operator nested' power s) :=
    fun s => .of_reads ((operator_round hn' power s []).weaken fun _ => id)
  refine ⟨fun _ h => (Iterates.of_rounds h).suffix hloose, ?_⟩
  rintro ts rest e - h
  replace h := Iterates.of_rounds h
  generalize hus : ts ++ x = us at h
  induction h generalizing ts with
  | done hdone =>
    subst hus
    rcases (hround _).reads trivial hdone with hq | hq | ⟨rfl, hstepped | hon⟩
    · exact .inl (iterate_done hq)
    · exact .inr (.inl (iterate_error hq))
    · obtain ⟨⟨_, hstep, -⟩, -⟩ := hstepped
      cases hstep
    · obtain ⟨_, z, hq, ⟨⟨s', rfl, hs'⟩, ⟨-, hpower⟩ | ⟨_, hstep, -⟩⟩, hz⟩ := hon
      · exact .goOn hadvances' hafter hs' hz (fun _ => hpower) hq
      · cases hstep
  | yield hyield hmore ih =>
    subst hus
    obtain ⟨used, rfl⟩ := hmore.suffix hloose
    rw [← List.append_assoc] at hyield
    obtain ⟨before, rfl⟩ := suffix_of_append ((hround _).suffix trivial hyield)
    rcases (hround _).reads trivial hyield with hq | hq | ⟨hnil, hstepped | hon⟩
    · exact (ih (List.append_assoc ..)).lead (iterate_yield hadvances' hq)
        (.of_yield hadvances' (hstable _) hq)
    · exact .inr (.inl (iterate_error hq))
    · obtain ⟨rfl, rfl⟩ := List.append_eq_nil_iff.mp hnil
      obtain ⟨⟨_, hyielded, hplain⟩, hspoils⟩ := hstepped
      cases hyielded
      obtain rfl := iterate_ending hx (hmore.iterate_eq hadvances)
      exact .spoilt hplain.ne_writable hspoils
    · obtain ⟨rfl, rfl⟩ := List.append_eq_nil_iff.mp hnil
      obtain ⟨_, z, hq, ⟨⟨s', rfl, hs'⟩, ⟨⟨_, hdone⟩, -⟩ | ⟨_, hyielded, hplain⟩⟩, hz⟩ := hon
      · cases hdone
      · cases hyielded
        obtain rfl := iterate_ending hx (hmore.iterate_eq hadvances)
        exact .goOn hadvances' hafter hs' hz (fun he => absurd he hplain.ne_writable) hq

lemma expressionOver_readsOn
    (hstep : ∀ t ts, isStep t.kind → nested unaryPower (ts ++ x) = .ok (.writable, x) →
      unaryPower < j.left → EndsInStep (prefixStep nested') x (t :: ts)) :
    Mirrors x y ((j.ending Final).atPower x power) (expressionOver nested power)
      (expressionOver nested' power) := by
  have hloop := operators_readsOn hn hn' hx htakes hadvances hadvances' hlast hafter
  refine (operand_readsOn hn hn' hx hstep).bind hloop (operand_steady hn').stable ?_
  rintro ts s e (⟨hs, hless, hspoilt⟩ | ⟨s', z, hq, ⟨hs, hs'⟩, hz⟩) hrest
  · obtain rfl := iterate_ending hx hrest
    exact .inr (.inl ⟨hs.ne_writable, hless, hspoilt.bind _⟩)
  · rw [bind_of_ok hq]
    rcases hafter s' z hs' hz with hdeep | ⟨s'', z', hok, hz'⟩
    · exact .inl hdeep
    · refine .inr (.inr ⟨s'', z', hok, fun he => ?_, hz'⟩)
      obtain rfl := iterate_ending hx hrest
      exact absurd he hs.ne_writable

end

lemma expression_suffix {levels power : Nat} {ts rest : List Token} {s : Shape}
    (h : expression levels power ts = .ok (s, rest)) : rest <:+ ts := by
  obtain ⟨used, rfl, -⟩ := (expression_steady levels power []).moves trivial h
  exact List.suffix_append used rest

lemma expression_takes (levels power : Nat) : Takes (expression levels power) := by
  intro ts rest s h
  cases levels with
  | zero => exact (throw_ok.mp h).elim
  | succ levels =>
    have hn := expression_steady levels
    obtain ⟨first, mid, hfirst, hmore⟩ := bind_ok.mp h
    have hless := (operand_reads hn []).advances trivial hfirst rfl
    have hloop := Reads.iterate (fun s => operator_round hn power s []) first
    obtain ⟨used, rfl, -⟩ := hloop.moves trivial hmore
    rw [List.length_append] at hless
    omega

section

variable {nested nested' : Nat → Reader Shape} (hn : ∀ power, Copies [] [] (nested power) (nested' power))
  (hn' : ∀ power, Steady (nested' power))
include hn hn'

lemma operand_copies : Copies [] [] (operand nested) (operand nested') := by
  have hread := operand_readsOn (fun power _ => ((hn power).mirrors : Mirrors _ _ (Join.never.atPower _ power) _ _))
    hn' .nothing fun _ _ _ _ h => absurd h (Nat.not_lt_zero _)
  exact hread.mono Join.never_readsOn

lemma operator_copies (htakes : ∀ power, Takes (nested power)) (power : Nat) (shape : Shape) :
    Copies [] [] (operator nested power shape) (operator nested' power shape) := by
  have hread := operator_readsOn
    (fun power _ => ((hn power).mirrors : Mirrors _ _ (Join.never.atPower _ power) _ _))
    hn' .nothing htakes power shape (.inl rfl)
  exact hread.mono Join.never_readsOn

end

lemma expression_shallower {levels fewer : Nat} (h : fewer ≤ levels) (power : Nat) :
    Copies [] [] (expression levels power) (expression fewer power) := by
  induction levels generalizing fewer power with
  | zero => exact .failure fun ts => ⟨_, rfl⟩
  | succ levels ih =>
    cases fewer with
    | zero => exact ⟨fun _ => expression_suffix, fun _ _ => .inr (.inl rfl)⟩
    | succ fewer =>
      have hn := fun power => ih (Nat.le_of_succ_le_succ h) power
      have hn' := expression_steady fewer
      refine (operand_copies hn hn').bind (fun shape => ?_)
      exact Mirrors.iterate (operator_copies hn hn' (expression_takes levels) power) .nothing shape

lemma Copies.same_or_deep {p q : Reader α} (h : Copies [] [] p q) {ts rest : List Token} {a : α}
    (hp : p ts = .ok (a, rest)) : q ts = .ok (a, rest) ∨ q ts = .error .nestingTooDeep := by
  have hp' : p (ts ++ []) = .ok (a, rest ++ []) := by rwa [List.append_nil, List.append_nil]
  rcases h.reads trivial hp' with hq | hq | ⟨-, hfalse⟩
  · rw [List.append_nil, List.append_nil] at hq
    exact .inl hq
  · rw [List.append_nil] at hq
    exact .inr hq
  · exact hfalse.elim

abbrev operators (levels power : Nat) (shape : Shape) : Reader Shape :=
  iterate (operator (expression levels) power) shape

def Rests (power : Nat) (z : List Token) : Prop :=
  ∀ (nested : Nat → Reader Shape) (s : Shape), operator nested power s z = .ok (.done s, z)

lemma Rests.unary {z : List Token} (h : Rests (unaryPower + 1) z) : Rests unaryPower z := by
  intro nested s
  have hrest := h nested s
  cases z with
  | nil => rfl
  | cons t ts =>
    by_cases ht : isLoose t.kind
    · obtain ⟨own, body, ⟨-, hne⟩, hbody, heq⟩ := looseOperator_eq ht
      rw [operator_loose (by decide) ht, heq] at hrest ⊢
      split at hrest
      · rw [if_pos (by omega)]
        rfl
      · exact absurd hrest (hbody nested ·)
    · rw [← hrest]
      unfold operator
      rw [peek_bind, peek_bind, List.head?_cons, Option.map_some]
      dsimp only
      rw [if_pos (by decide : unaryPower < postfixPower),
        if_pos (by decide : unaryPower + 1 < postfixPower), looseOperator_other ht, looseOperator_other ht]

def Resumes (levels : Nat) (stop z : List Token) : Prop :=
  ∀ s : Shape, s.isPlain → ∃ e, operators levels 0 s z = .ok (e, stop)

section

variable {levels fewer power : Nat} {semi : Token} (hsemi : semi.kind = .symbol .semicolon)
  (hp : power < postfixPower)
include hsemi hp

lemma operators_resume (hl : fewer ≤ levels) {s e : Shape} {z : List Token}
    (h : operators levels 0 s z = .ok (e, [semi])) :
    operators fewer power s z = .error .nestingTooDeep ∨
      ∃ s' z', operators fewer power s z = .ok (s', z') ∧ Resumes levels [semi] z' ∧ Rests power z' := by
  have hadvances : ∀ levels power, Advances (operator (expression levels) power) :=
    fun levels => operator_advances (expression_steady levels)
  have hcopies := operator_copies (fun power => expression_shallower hl power) (expression_steady fewer)
    (expression_takes levels) 0
  have hstop : Resumes levels [semi] [semi] :=
    fun s _ => ⟨s, iterate_done (operator_fence _ s 0 [] (.inl hsemi))⟩
  have hrests : Rests power [semi] := fun nested s => operator_fence nested s power [] (.inl hsemi)
  have hleave : ∀ {s z}, operators levels 0 s z = .ok (e, [semi]) → Rests power z →
      (∀ (nested : Nat → Reader Shape) (s' : Shape), operator nested 0 s' z = operator nested 0 s z) →
      ∃ s' z', operators fewer power s z = .ok (s', z') ∧ Resumes levels [semi] z' ∧ Rests power z' :=
    fun hwhole hrest hany => ⟨_, _, iterate_done (hrest _ _),
      fun s' _ => ⟨e, (rounds_congr (hany _ s')).trans hwhole⟩, hrest⟩
  replace h := Iterates.of_rounds h
  induction h with
  | @done s z hdone =>
    rcases operator_power hp s z with hsame | ⟨hrest, hany⟩
    · have hlower := hsame (expression fewer)
      rcases (hcopies s).same_or_deep hdone with hq | hq
      · exact .inr ⟨e, [semi], iterate_done (hlower.trans hq), hstop, hrests⟩
      · exact .inl (iterate_error (hlower.trans hq))
    · exact .inr (hleave (iterate_done hdone) hrest hany)
  | @yield s c z mid hyield hmore ih =>
    rcases operator_power hp s z with hsame | ⟨hrest, hany⟩
    · have hlower := hsame (expression fewer)
      rcases (hcopies s).same_or_deep hyield with hq | hq
      · have hgoing : operators fewer power s z = operators fewer power c mid :=
          iterate_yield (hadvances fewer power) (hlower.trans hq)
        rw [hgoing]
        exact ih
      · exact .inl (iterate_error (hlower.trans hq))
    · exact .inr (hleave ((Iterates.yield hyield hmore).iterate_eq (hadvances levels 0)) hrest hany)

lemma expression_resume (hl : fewer ≤ levels + 1) {e : Shape} {ts : List Token}
    (h : expression (levels + 1) 0 ts = .ok (e, [semi])) :
    expression fewer power ts = .error .nestingTooDeep ∨
      ∃ s z, expression fewer power ts = .ok (s, z) ∧ Resumes levels [semi] z ∧ Rests power z := by
  cases fewer with
  | zero => exact .inl rfl
  | succ fewer =>
    have hfewer := Nat.le_of_succ_le_succ hl
    obtain ⟨first, mid, hfirst, hmore⟩ := bind_ok.mp h
    have hcopies := operand_copies (fun power => expression_shallower hfewer power) (expression_steady fewer)
    rcases hcopies.same_or_deep hfirst with hq | hq
    · rw [expression, expressionOver, bind_of_ok hq]
      exact operators_resume hsemi hp hfewer hmore
    · exact .inl (bind_error.mpr (.inl hq))

end

lemma binary?_tight {k : Kind} {b : Binding} (h : binary? k = some b) (hb : unaryPower < b.left) :
    k = .symbol .pow := by
  unfold binary? at h
  split at h <;> first | rfl | (cases h; exact absurd hb (by decide)) | cases h

def binaryJoin (levels : Nat) (semi : Token) (b : Binding) : Join where
  Ends := Resumes levels [semi]
  left := b.left

section

variable {semi op : Token} {more : List Token} {b : Binding} {levels : Nat} {e : Shape}
  (hsemi : semi.kind = .symbol .semicolon) (hop : binary? op.kind = some b) (hdepth : levels < maxDepth)
  (hmore : expression (levels + 1) 0 more = .ok (e, [semi]))
include hsemi hop hmore

lemma operator_binary {fewer power : Nat} (hl : fewer ≤ levels) (hp : power < postfixPower)
    (hleft : power < b.left) (shape : Shape) :
    operator (expression fewer) power shape (op :: more) = .error .nestingTooDeep ∨
      ∃ z, operator (expression fewer) power shape (op :: more) = .ok (.yield .value, z) ∧
        Resumes levels [semi] z ∧ Rests b.right z := by
  have hloose : isLoose op.kind := .inr (.inr (by rw [hop]; rfl))
  have hbody : (do
      skip
      discard (expression fewer b.right)
      return .yield .value : Reader (ForInStep Shape)) (op :: more) =
      (expression fewer b.right >>= fun _ => pure (.yield .value)) more := by
    rw [discard_eq]
    simp only [bind_assoc, pure_bind]
    rfl
  rw [operator_loose hp hloose, looseOperator_binary hop, if_neg (Nat.not_le.mpr hleft), hbody]
  rcases expression_resume hsemi (binary?_right hop) (Nat.le_succ_of_le hl) hmore with
    hdeep | ⟨s, z, hok, hz⟩
  · exact .inl (bind_error.mpr (.inl hdeep))
  · exact .inr ⟨z, bind_of_ok hok, hz⟩

lemma operator_last {fewer power : Nat} (hl : fewer ≤ levels) (hp : power < postfixPower) (shape : Shape) :
    Echoes ((binaryJoin levels semi b).atRound [semi] power) (op :: more) [] (.done shape) []
      (operator (expression fewer) power shape) := by
  have hloose : isLoose op.kind := .inr (.inr (by rw [hop]; rfl))
  by_cases hleft : b.left ≤ power
  · left
    rw [List.nil_append, operator_loose hp hloose, looseOperator_binary hop, if_pos hleft]
    rfl
  · have hless := Nat.not_le.mp hleft
    rcases operator_binary hsemi hop hmore hl hp hless shape with hdeep | ⟨z, hok, hz, -⟩
    · exact .inr (.inl hdeep)
    · refine .inr (.inr ⟨rfl, .inr ⟨.yield .value, z, hok, ?_, hz⟩⟩)
      exact ⟨⟨.value, rfl, .inl rfl⟩, .inl ⟨⟨shape, rfl⟩, hless⟩⟩

include hdepth

lemma expressionOver_join {Final : List Token → Prop} {fewer power : Nat} (hl : fewer ≤ levels)
    (hp : power < postfixPower)
    (hn : ∀ power < postfixPower, Mirrors [semi] (op :: more)
      ((binaryJoin levels semi b).atPower [semi] power) (expression fewer power) (expression fewer power))
    (hafter : ∀ (s : Shape) (z : List Token), s.isPlain → Resumes levels [semi] z →
      operators fewer power s z = .error .nestingTooDeep ∨
        ∃ s' z', operators fewer power s z = .ok (s', z') ∧ Final z') :
    Mirrors [semi] (op :: more) (((binaryJoin levels semi b).ending Final).atPower [semi] power)
      (expression (fewer + 1) power) (expression (fewer + 1) power) := by
  have hadvances := operator_advances (expression_steady fewer) power
  refine expressionOver_readsOn hn (expression_steady fewer) (.operator hsemi (by rw [hop]; rfl))
    (expression_takes fewer) hadvances hadvances (operator_last hsemi hop hmore hl hp) hafter ?_
  exact fun t ts ht hread _ => .of_prefixStep (Nat.lt_of_le_of_lt hl hdepth) ht hread

lemma expression_join {fewer : Nat} (hl : fewer ≤ levels) {power : Nat} (hp : power < postfixPower) :
    Mirrors [semi] (op :: more) ((binaryJoin levels semi b).atPower [semi] power) (expression fewer power)
      (expression fewer power) := by
  induction fewer generalizing power with
  | zero => exact .failure fun _ => ⟨_, rfl⟩
  | succ fewer ih =>
    have hfewer := Nat.le_of_succ_le hl
    refine expressionOver_join hsemi hop hdepth hmore hfewer hp (fun power h => ih hfewer h) ?_
    intro s z hs hz
    obtain ⟨e', he'⟩ := hz s hs
    exact (operators_resume hsemi hp hfewer he').imp_right fun ⟨s', z', hok, hz', _⟩ => ⟨s', z', hok, hz'⟩

lemma expression_binary {e₁ : Shape} {ts : List Token}
    (h : expression (levels + 1) 0 (ts ++ [semi]) = .ok (e₁, [semi])) :
    (∃ s, expression (levels + 1) 0 (ts ++ op :: more) = .ok (s, [semi])) ∨
      expression (levels + 1) 0 (ts ++ op :: more) = .error .nestingTooDeep ∨
      op.kind = .symbol .pow ∧ EndsInStep (expression (levels + 1) 0) [semi] ts := by
  have hjoin : Mirrors [semi] (op :: more) (((binaryJoin levels semi b).ending (· = [semi])).atPower [semi] 0)
      (expression (levels + 1) 0) (expression (levels + 1) 0) :=
    expressionOver_join hsemi hop hdepth hmore (Nat.le_refl levels) (by decide)
      (fun power h => expression_join hsemi hop hdepth hmore (Nat.le_refl _) h)
      fun s z hs hz => .inr ((hz s hs).imp fun e he => ⟨[semi], he, rfl⟩)
  have hread : expression (levels + 1) 0 (ts ++ [semi]) = .ok (e₁, [] ++ [semi]) := h
  rcases hjoin.reads trivial hread with hq | hq | ⟨-, ⟨-, hless, hstep⟩ | ⟨s, z, hq, -, rfl⟩⟩
  · -- The operator cannot be left, because it binds tighter than the least power.
    obtain ⟨first, mid, -, hloop⟩ := bind_ok.mp hq
    obtain ⟨s, last, hdone⟩ := (Iterates.of_rounds hloop).last
    obtain rfl := operator_done hdone
    exact absurd hdone (operator_zero (.inr (.inr (by rw [hop]; rfl))) more)
  · exact .inr (.inl hq)
  · exact .inr (.inr ⟨binary?_tight hop hless, hstep⟩)
  · exact .inl ⟨s, hq⟩

section

variable (hpow : op.kind = .symbol .pow)
include hpow

lemma operators_spoilt {fewer : Nat} (hl : fewer ≤ levels) {s : Shape} {ts z : List Token}
    (h : operators fewer unaryPower s (ts ++ [semi]) = .ok (.writable, [semi])) :
    operators fewer unaryPower s (ts ++ op :: more) ≠ .ok (.writable, z) := by
  have hn := expression_steady fewer
  have hadvances := operator_advances hn unaryPower
  have hx : Endings [semi] (op :: more) := .operator hsemi (by rw [hop]; rfl)
  have hunary : unaryPower < postfixPower := by decide
  have hround := fun s => operator_readsOn
    (fun power h => expression_join hsemi hop hdepth hmore hl h) hn hx (expression_takes fewer) unaryPower s
    (operator_last hsemi hop hmore hl hunary s)
  have hbinding : b = .rightAssoc 48 := by
    rw [hpow] at hop
    exact (Option.some.inj hop).symm
  intro heq
  replace h := Iterates.of_rounds h
  generalize hus : ts ++ [semi] = us at h
  induction h generalizing ts with
  | done hdone =>
    subst hus
    obtain rfl : [] = ts := List.append_cancel_right (operator_done hdone)
    rcases operator_binary hsemi hop hmore hl hunary (by rw [hbinding]; decide) _ with
      hdeep | ⟨z', hok, -, hz'⟩
    · cases (iterate_error hdeep).symm.trans heq
    · rw [hbinding] at hz'
      have hvalue := iterate_done (Rests.unary hz' (expression fewer) .value)
      cases ((iterate_yield hadvances hok).trans hvalue).symm.trans heq
  | yield hyield hrest ih =>
    subst hus
    obtain ⟨used, rfl, -⟩ := hrest.moves fun s => operator_round hn unaryPower s []
    have hending : ∀ {c : Shape}, c.isPlain → ¬ Iterates (operator (expression fewer) unaryPower) .writable
        [semi] c [semi] :=
      fun hplain hmore => hplain.ne_writable (iterate_ending hx (hmore.iterate_eq hadvances)).symm
    rcases (hround _).reads trivial hyield with hq | hq | ⟨rfl, ⟨⟨_, hc, hplain⟩, -⟩ | hon⟩
    · exact ih ((iterate_yield hadvances hq).symm.trans heq) rfl
    · cases (iterate_error hq).symm.trans heq
    · cases hc
      exact hending hplain hrest
    · obtain ⟨_, _, -, ⟨-, ⟨⟨_, hc⟩, -⟩ | ⟨_, hc, hplain⟩⟩, -⟩ := hon
      · cases hc
      · cases hc
        exact hending hplain hrest

lemma expression_spoilt {fewer : Nat} (hl : fewer ≤ levels) {ts z : List Token}
    (h : expression fewer unaryPower (ts ++ [semi]) = .ok (.writable, [semi])) :
    expression fewer unaryPower (ts ++ op :: more) ≠ .ok (.writable, z) := by
  cases fewer with
  | zero => cases h
  | succ fewer =>
    have hfewer := Nat.le_of_succ_le hl
    have hn := expression_steady fewer
    have hx : Endings [semi] (op :: more) := .operator hsemi (by rw [hop]; rfl)
    have hoperand := operand_readsOn
      (fun power h => expression_join hsemi hop hdepth hmore hfewer h) hn hx
      fun t ts ht hread _ => .of_prefixStep (Nat.lt_of_le_of_lt hfewer hdepth) ht hread
    obtain ⟨first, mid, hfirst, hloop⟩ := bind_ok.mp h
    obtain ⟨used, rfl, -⟩ := (Iterates.of_rounds hloop).moves fun s => operator_round hn unaryPower s []
    intro heq
    rcases hoperand.reads trivial hfirst with hq | hq | ⟨rfl, ⟨hplain, -⟩ | ⟨_, _, -, ⟨hplain, -⟩, -⟩⟩
    · exact operators_spoilt hsemi hop hdepth hmore hpow hfewer hloop ((bind_of_ok hq).symm.trans heq)
    · cases (bind_error.mpr (.inl hq)).symm.trans heq
    · exact hplain.ne_writable (iterate_ending hx hloop).symm
    · exact hplain.ne_writable (iterate_ending hx hloop).symm

lemma EndsInStep.refused {q : Reader α} {ts : List Token} (h : EndsInStep q [semi] ts)
    (hlevels : maxDepth ≤ levels + 1) : ∃ fault, q (ts ++ op :: more) = .error fault := by
  obtain ⟨front, step, last, fewer, rfl, hstep, hfewer, hlast, hfault⟩ := h
  have hrefused : ∃ fault, operand (expression fewer) (step :: (last ++ op :: more)) = .error fault := by
    rw [operand_step _ hstep, prefixStep_cons]
    cases hread : expression fewer unaryPower (last ++ op :: more) with
    | error fault => exact ⟨fault, bind_error.mpr (.inl hread)⟩
    | ok out =>
      obtain ⟨s, z⟩ := out
      have hs : s ≠ .writable := by
        rintro rfl
        exact expression_spoilt hsemi hop hdepth hmore hpow (by omega) hlast hread
      refine ⟨.unexpected z.head? none, ?_⟩
      rw [bind_of_ok hread, writableOnly, if_neg hs]
      rfl
  obtain ⟨fault, hrefused⟩ := hrefused
  refine ⟨fault, ?_⟩
  rw [List.append_assoc, List.cons_append]
  exact hfault _ _ hrefused

end

end

lemma filter_visible {t : Token} (h : t.kind.isTrivia = false) (ts : List Token) :
    ((t :: ts).filter fun t => !t.isTrivia) = t :: ts.filter fun t => !t.isTrivia := by
  apply List.filter_cons_of_pos
  rw [Token.isTrivia, h]
  rfl

lemma filter_semicolon {semi : Token} (h : semi.kind = .symbol .semicolon) :
    ([semi].filter fun t => !t.isTrivia) = [semi] := by
  apply filter_visible
  rw [h]
  rfl

lemma isTrivia_of_binary? {k : Kind} (h : (binary? k).isSome = true) : k.isTrivia = false := by
  unfold Kind.isTrivia
  split
  · cases h
  · cases h
  · cases h
  · rfl

lemma check_binding_iff {ts : List Token} {semi : Token} (hsemi : semi.kind = .symbol .semicolon) :
    check .binding (ts ++ [semi]) = .ok () ↔
      ∃ s, expression maxDepth 0 ((ts.filter fun t => !t.isTrivia) ++ [semi]) = .ok (s, [semi]) := by
  rw [check_iff, List.filter_append, filter_semicolon hsemi]
  constructor
  · rintro ⟨last, hclause, -⟩
    obtain ⟨s, hs⟩ := discard_ok.mp hclause
    rw [expression_rest hs rfl] at hs
    exact ⟨s, hs⟩
  · rintro ⟨s, hs⟩
    exact ⟨semi, discard_ok.mpr ⟨s, hs⟩, hsemi⟩

lemma check_binding_error {ts : List Token} {semi : Token} {fault : Fault}
    (hsemi : semi.kind = .symbol .semicolon)
    (h : expression maxDepth 0 ((ts.filter fun t => !t.isTrivia) ++ [semi]) = .error fault) :
    check .binding (ts ++ [semi]) = .error fault := by
  have hclause : clause (expression maxDepth) .binding
      ((ts.filter fun t => !t.isTrivia) ++ [semi]) = .error fault := by
    rw [clause, discard_eq]
    exact bind_error.mpr (.inl h)
  have hstatement : statement (expression maxDepth) .binding
      ((ts.filter fun t => !t.isTrivia) ++ [semi]) = .error fault :=
    bind_error.mpr (.inl hclause)
  rw [check, List.filter_append, filter_semicolon hsemi, hstatement]

/-- Two expressions with a binary operator between them are an expression or nested too deep, unless the
first ends in a step and the operator binds tighter than the step. Then they are not. -/
theorem check_binary {t₁ t₂ : List Token} {op semi : Token} (hop : (binary? op.kind).isSome = true)
    (hsemi : semi.kind = .symbol .semicolon) (h₁ : check .binding (t₁ ++ [semi]) = .ok ())
    (h₂ : check .binding (t₂ ++ [semi]) = .ok ()) :
    (check .binding (t₁ ++ op :: t₂ ++ [semi]) = .ok () ∨
      check .binding (t₁ ++ op :: t₂ ++ [semi]) = .error .nestingTooDeep ∨
      op.kind = .symbol .pow ∧
        EndsInStep (expression maxDepth 0) [semi] (t₁.filter fun t => !t.isTrivia)) ∧
    (op.kind = .symbol .pow →
      EndsInStep (expression maxDepth 0) [semi] (t₁.filter fun t => !t.isTrivia) →
      check .binding (t₁ ++ op :: t₂ ++ [semi]) ≠ .ok ()) := by
  obtain ⟨b, hb⟩ := Option.isSome_iff_exists.mp hop
  obtain ⟨s₁, hread₁⟩ := (check_binding_iff hsemi).mp h₁
  obtain ⟨s₂, hread₂⟩ := (check_binding_iff hsemi).mp h₂
  have hjoined : ((t₁ ++ op :: t₂).filter fun t => !t.isTrivia) ++ [semi] =
      (t₁.filter fun t => !t.isTrivia) ++ op :: ((t₂.filter fun t => !t.isTrivia) ++ [semi]) := by
    rw [List.filter_append, filter_visible (isTrivia_of_binary? hop), List.append_assoc,
      List.cons_append]
  have hdepth : maxDepth - 1 < maxDepth := by decide
  constructor
  · rcases expression_binary hsemi hb hdepth hread₂ hread₁ with ⟨s, hok⟩ | hdeep | hstep
    · left
      rw [check_binding_iff hsemi, hjoined]
      exact ⟨s, hok⟩
    · right
      left
      apply check_binding_error hsemi
      rw [hjoined]
      exact hdeep
    · exact .inr (.inr hstep)
  · intro hpow hstep hok
    obtain ⟨fault, hfault⟩ := hstep.refused hsemi hb hdepth hread₂ hpow (Nat.le_refl _)
    obtain ⟨s, hread⟩ := (check_binding_iff hsemi).mp hok
    rw [hjoined, hfault] at hread
    cases hread

def negation : List Token :=
  [⟨.variableName, ['$', 'x']⟩, sign .assign, sign .minus, ⟨.variableName, ['$', 'y']⟩]

def choice : List Token :=
  [⟨.integer, ['2']⟩, ⟨.whitespace, [' ']⟩, word .kwOr, ⟨.whitespace, [' ']⟩, ⟨.variableName, ['$', 'z']⟩]

def increment : List Token :=
  [sign .increment, ⟨.variableName, ['$', 'a']⟩]

lemma increment_endsInStep : EndsInStep (expression maxDepth 0) [sign .semicolon] increment := by
  refine ⟨[], sign .increment, [⟨.variableName, ['$', 'a']⟩], maxDepth - 1, rfl, .inl rfl, by decide, rfl, ?_⟩
  exact fun more fault h => bind_error.mpr (.inl h)

theorem check_binary_sign :
    (check .binding (negation ++ sign .pow :: choice ++ [sign .semicolon]) = .ok () ∨
      check .binding (negation ++ sign .pow :: choice ++ [sign .semicolon]) = .error .nestingTooDeep ∨
      (sign .pow).kind = .symbol .pow ∧ EndsInStep (expression maxDepth 0) [sign .semicolon]
        (negation.filter fun t => !t.isTrivia)) ∧
    check .binding (increment ++ sign .pow :: choice ++ [sign .semicolon]) ≠ .ok () := by
  have hnegation : check .binding (negation ++ [sign .semicolon]) = .ok () := by rfl
  have hincrement : check .binding (increment ++ [sign .semicolon]) = .ok () := by rfl
  have hchoice : check .binding (choice ++ [sign .semicolon]) = .ok () := by rfl
  exact ⟨(check_binary rfl rfl hnegation hchoice).1,
    (check_binary rfl rfl hincrement hchoice).2 rfl increment_endsInStep⟩

theorem increment_pow_refused :
    check .binding (increment ++ [sign .semicolon]) = .ok () ∧
      check .binding ([⟨.integer, ['2']⟩] ++ [sign .semicolon]) = .ok () ∧
      check .binding (increment ++ sign .pow :: [⟨.integer, ['2']⟩] ++ [sign .semicolon]) =
        .error (.unexpected (some (sign .semicolon)) none) := by
  exact ⟨rfl, rfl, rfl⟩

end Stencil.Code.Statement

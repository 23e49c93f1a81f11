import Stencil.Proofs.Continuation
import Stencil.Proofs.Parser
import Mathlib.Tactic.Common

/-!
The parser follows the readers. A round that goes on moves the cursor, so no loop outlasts the tokens and
no recursion the depth.
-/

namespace Stencil.Code.Parser

open Statement Outcome

def rest (p : Parser) : List Token :=
  p.tokens.drop p.cursor

/-- The cursor has never gone back or past the tokens and the depth has kept to its bound. Every call has
left the depth as it was, and has moved the cursor if it succeeded. -/
structure Sound (p : Parser) : Prop where
  ordered : p.history.Pairwise fun later earlier => earlier.cursor ≤ later.cursor
  bounded : ∀ c ∈ p.history, c.cursor ≤ p.tokens.length ∧ c.depth ≤ maxDepth
  settled : ∀ call ∈ p.calls, call.stop.depth = call.start.depth ∧
    (call.succeeded = true → call.start.cursor < call.stop.cursor)

structure Ready (d : Nat) (ts : List Token) (p : Parser) : Prop extends Sound p where
  depth : p.depth = d
  tokens : p.tokens = ts

variable {α β : Type} {budget d : Nat} {ts : List Token} {p q : Parser}

lemma Ready.cursor_le (h : Ready d ts p) : p.cursor ≤ ts.length := by
  rw [← h.tokens]
  exact (h.bounded p.toCounters List.mem_cons_self).1

lemma Ready.depth_le (h : Ready d ts p) : d ≤ maxDepth := by
  rw [← h.depth]
  exact (h.bounded p.toCounters List.mem_cons_self).2

lemma Ready.length_rest (h : Ready d ts p) : p.rest.length = ts.length - p.cursor := by
  rw [rest, List.length_drop, h.tokens]

lemma Ready.moved (h : Ready d ts p) {c e : Nat} (hc : p.cursor ≤ c) (hn : c ≤ ts.length)
    (he : e ≤ maxDepth) : Ready e ts (p.moved ⟨c, e⟩) where
  ordered := by
    refine List.pairwise_cons.mpr ⟨?_, h.ordered⟩
    intro earlier hmem
    rcases List.mem_cons.mp hmem with rfl | htrail
    · exact hc
    · exact Nat.le_trans ((List.pairwise_cons.mp h.ordered).1 earlier htrail) hc
  bounded := by
    intro earlier hmem
    rcases List.mem_cons.mp hmem with rfl | hmem
    · refine ⟨?_, he⟩
      change c ≤ p.tokens.length
      rw [h.tokens]
      exact hn
    · exact h.bounded earlier hmem
  settled := h.settled
  depth := rfl
  tokens := h.tokens

lemma Ready.recorded (h : Ready d ts p) {start : Counters} {succeeded : Bool} (hd : start.depth = d)
    (hc : succeeded = true → start.cursor < p.cursor) : Ready d ts (p.recorded start succeeded) where
  ordered := h.ordered
  bounded := h.bounded
  settled := by
    intro call hmem
    rcases List.mem_cons.mp hmem with rfl | hmem
    · exact ⟨h.depth.trans hd.symm, hc⟩
    · exact h.settled call hmem
  depth := h.depth
  tokens := h.tokens

lemma ofTokens_ready (tokens : List Token) :
    Ready 0 (tokens.filter fun t => !t.isTrivia) (ofTokens tokens) where
  ordered := List.pairwise_singleton _ _
  bounded := by
    intro c hmem
    rw [List.mem_singleton.mp hmem]
    exact ⟨Nat.zero_le _, Nat.zero_le _⟩
  settled := by
    intro call hmem
    cases hmem
  depth := rfl
  tokens := rfl

def next? (p : Parser) : Option Kind :=
  p.rest.head?.map Token.kind

lemma current_eq (p : Parser) : p.current = p.rest.head? :=
  List.head?_drop.symm

def stepped (p : Parser) : Parser :=
  p.moved ⟨p.cursor + 1, p.depth⟩

lemma rest_stepped (p : Parser) : p.stepped.rest = p.rest.tail :=
  List.tail_drop.symm

lemma Ready.stepped (h : Ready d ts p) {k : Kind} (hk : p.next? = some k) : Ready d ts p.stepped := by
  have hpos : 0 < p.rest.length := by
    cases hrest : p.rest with
    | nil =>
      rw [next?, hrest] at hk
      cases hk
    | cons t more => exact Nat.succ_pos _
  rw [h.length_rest] at hpos
  have hdepth := h.depth_le
  rw [← h.depth] at hdepth ⊢
  exact h.moved (Nat.le_succ _) (by omega) hdepth

structure Ends (d : Nat) (ts : List Token) (going : α → Bool) (p : Parser)
    (found : Except Fault (α × List Token)) (out : Except Fault α) (q : Parser) : Prop where
  ready : Ready d ts q
  same : found = out.map fun x => (x, q.rest)
  ahead : p.cursor ≤ q.cursor
  advances : ∀ x, out = .ok x → going x = true → p.cursor < q.cursor

def FollowsFrom (budget d : Nat) (ts : List Token) (P : Parser → Prop) (going : α → Bool) (a : Action budget α)
    (r : Reader α) : Prop :=
  ∀ p, Ready d ts p → P p → ∃ out q, a p = some (out, q) ∧ Ends d ts going p (r p.rest) out q

abbrev Follows (budget d : Nat) (ts : List Token) (a : Action budget α) (r : Reader α) : Prop :=
  FollowsFrom budget d ts (fun _ => True) (fun _ => false) a r

abbrev FollowsAt (budget d : Nat) (ts : List Token) (k : Option Kind) (going : α → Bool) (a : Action budget α)
    (r : Reader α) : Prop :=
  FollowsFrom budget d ts (fun p => p.next? = k) going a r

lemma bind_of_some {a : Action budget α} {f : α → Action budget β} {x : α} (h : a p = some (.ok x, q)) :
    (a >>= f) p = f x q := by
  change (a p >>= fun out => ExceptT.bindCont f out.1 out.2) = f x q
  rw [h]
  rfl

lemma bind_of_fault {a : Action budget α} {f : α → Action budget β} {fault : Fault}
    (h : a p = some (.error fault, q)) : (a >>= f) p = some (.error fault, q) := by
  change (a p >>= fun out => ExceptT.bindCont f out.1 out.2) = _
  rw [h]
  rfl

section

variable {going : α → Bool} {x : α} {found : Except Fault (α × List Token)} {out : Except Fault α}

lemma Ends.weaken (h : Ends d ts going p found out q) : Ends d ts (fun _ => false) p found out q :=
  ⟨h.ready, h.same, h.ahead, fun _ _ hgoing => absurd hgoing Bool.false_ne_true⟩

lemma Ends.fault {found' : Except Fault (β × List Token)} {going' : β → Bool} {fault : Fault}
    (h : Ends d ts going p found (.error fault) q) (hsame : found' = .error fault) :
    Ends d ts going' p found' (.error fault) q := by
  refine ⟨h.ready, hsame, h.ahead, ?_⟩
  rintro x ⟨⟩

lemma Ends.lt_of_isOk (h : Ends d ts (fun _ => true) p found out q) (hok : out.isOk = true) :
    p.cursor < q.cursor := by
  cases out with
  | error fault => cases hok
  | ok x => exact h.advances x rfl rfl

lemma Ends.trans {found' : Except Fault (β × List Token)} {out : Except Fault β} {later final : β → Bool}
    {s : Parser} (h : Ends d ts going p found (.ok x) q) (h' : Ends d ts later q found' out s)
    (hgoing : ∀ y, final y = true → going x = true ∨ later y = true) :
    Ends d ts final p found' out s := by
  refine ⟨h'.ready, h'.same, Nat.le_trans h.ahead h'.ahead, ?_⟩
  intro y hy hfinal
  rcases hgoing y hfinal with hx | hlater
  · exact Nat.lt_of_lt_of_le (h.advances x rfl hx) h'.ahead
  · exact Nat.lt_of_le_of_lt h.ahead (h'.advances y hy hlater)

end

section

variable {P Q : Parser → Prop} {going : α → Bool} {a : Action budget α} {r : Reader α}

lemma FollowsFrom.weaken (h : FollowsFrom budget d ts P going a r) (hQ : ∀ p, Q p → P p) :
    FollowsFrom budget d ts Q (fun _ => false) a r := by
  intro p hp hq
  obtain ⟨out, q, ha, he⟩ := h p hp (hQ p hq)
  exact ⟨out, q, ha, he.weaken⟩

lemma FollowsFrom.at (h : FollowsFrom budget d ts (fun _ => True) going a r) :
    FollowsFrom budget d ts P going a r :=
  fun p hp _ => h p hp trivial

lemma FollowsFrom.pure {x : α} (h : going x = false) :
    FollowsFrom budget d ts P going (pure x) (pure x) := by
  intro p hp _
  refine ⟨.ok x, p, rfl, hp, rfl, Nat.le_refl _, ?_⟩
  intro y hy hgoing
  cases hy
  rw [h] at hgoing
  cases hgoing

lemma Follows.pure {x : α} : Follows budget d ts (pure x) (pure x) :=
  FollowsFrom.pure rfl

lemma FollowsFrom.bind_of {started : α → Bool} {f : α → Action budget β} {g : α → Reader β} {going : β → Bool}
    (later : α → β → Bool) (ha : FollowsFrom budget d ts P started a r)
    (hf : ∀ x, FollowsFrom budget d ts (fun _ => True) (later x) (f x) (g x))
    (hgoing : ∀ x y, going y = true → started x = true ∨ later x y = true) :
    FollowsFrom budget d ts P going (a >>= f) (r >>= g) := by
  intro p hp hP
  obtain ⟨out, q, ha, he⟩ := ha p hp hP
  cases out with
  | error fault => exact ⟨_, q, bind_of_fault ha, he.fault (bind_error.mpr (.inl he.same))⟩
  | ok x =>
    rw [bind_of_some ha, bind_of_ok he.same]
    obtain ⟨out, s, hf, he'⟩ := hf x q he.ready trivial
    exact ⟨out, s, hf, he.trans he' (hgoing x)⟩

lemma FollowsFrom.bind {started : α → Bool} {f : α → Action budget β} {g : α → Reader β} {going : β → Bool}
    (ha : FollowsFrom budget d ts P started a r)
    (hf : ∀ x, FollowsFrom budget d ts (fun _ => True) going (f x) (g x)) :
    FollowsFrom budget d ts P going (a >>= f) (r >>= g) :=
  ha.bind_of (fun _ => going) hf fun _ _ => .inr

lemma FollowsFrom.after {f : α → Action budget β} {g : α → Reader β} {going : β → Bool}
    (ha : FollowsFrom budget d ts P (fun _ => true) a r) (hf : ∀ x, Follows budget d ts (f x) (g x)) :
    FollowsFrom budget d ts P going (a >>= f) (r >>= g) :=
  ha.bind_of (fun _ _ => false) hf fun _ _ _ => .inl rfl

lemma FollowsFrom.bind_none {a : Action budget (Option α)} {r : Reader (Option α)} {f : Option α → Action budget β}
    {g : Option α → Reader β} {going : β → Bool} {k : Option Kind}
    (ha : FollowsFrom budget d ts (fun _ => True) Option.isSome a r)
    (hr : ∀ us rest, r us = .ok (none, rest) → rest = us)
    (hsome : ∀ x, Follows budget d ts (f (some x)) (g (some x)))
    (hnone : FollowsAt budget d ts k going (f none) (g none)) :
    FollowsAt budget d ts k going (a >>= f) (r >>= g) := by
  intro p hp hk
  obtain ⟨out, q, ha, he⟩ := ha p hp trivial
  cases out with
  | error fault => exact ⟨_, q, bind_of_fault ha, he.fault (bind_error.mpr (.inl he.same))⟩
  | ok found =>
    rw [bind_of_some ha, bind_of_ok he.same]
    cases found with
    | none =>
      have hrest := hr _ _ he.same
      have hnext : q.next? = k := by
        rw [next?, hrest]
        exact hk
      obtain ⟨out, s, hf, he'⟩ := hnone q he.ready hnext
      exact ⟨out, s, hf, he.trans he' fun _ => .inr⟩
    | some x =>
      obtain ⟨out, s, hf, he'⟩ := hsome x q he.ready trivial
      exact ⟨out, s, hf, he.trans he' fun _ _ => .inl rfl⟩

lemma Follows.discard (h : Follows budget d ts a r) :
    Follows budget d ts (Functor.discard a) (Functor.discard r) := by
  have hbind := h.bind fun _ => Follows.pure (x := PUnit.unit)
  rw [discard_eq]
  simpa only [Functor.discard, map_const, Function.comp_apply, map_eq_pure_bind] using hbind

end

section

variable {P : Parser → Prop} {going : α → Bool} {a b : Action budget α} {r s : Reader α}
  {k : Kind}

lemma FollowsFrom.refuse {expected : Option String} :
    FollowsFrom budget d ts P going (refuse expected) (refuse expected) := by
  intro p hp _
  refine ⟨.error (.unexpected p.current expected), p, rfl, hp, ?_, Nat.le_refl _, ?_⟩
  · rw [current_eq]
    rfl
  · rintro x ⟨⟩

lemma FollowsFrom.peek {f : Option Kind → Action budget α} {g : Option Kind → Reader α}
    (h : ∀ k, FollowsAt budget d ts k going (f k) (g k)) :
    FollowsFrom budget d ts (fun _ => True) going (Statement.peek >>= f) (Statement.peek >>= g) := by
  intro p hp _
  have hpeek : (Statement.peek >>= f) p = f p.next? p := by
    rw [next?, ← current_eq]
    rfl
  rw [hpeek]
  exact h p.next? p hp rfl

lemma FollowsFrom.skip :
    FollowsAt budget d ts (some k) (fun _ => true) Statement.skip Statement.skip := by
  intro p hp hk
  refine ⟨.ok (), p.stepped, rfl, hp.stepped hk, ?_, Nat.le_succ _, fun _ _ _ => Nat.lt_succ_self _⟩
  rw [rest_stepped]
  rfl

lemma FollowsFrom.take (h : Follows budget d ts a r) :
    FollowsAt budget d ts (some k) going (Statement.skip >>= fun _ => a)
      (Statement.skip >>= fun _ => r) :=
  FollowsFrom.skip.after fun _ => h

lemma FollowsFrom.sees_ite (ha : FollowsAt budget d ts (some k) going a r)
    (hb : FollowsFrom budget d ts (fun p => p.next? ≠ some k) going b s) :
    FollowsFrom budget d ts (fun _ => True) going
      (Statement.sees k >>= fun found => if found = true then a else b)
      (Statement.sees k >>= fun found => if found = true then r else s) := by
  intro p hp _
  have hsees : (Statement.sees k : Action budget _) p = some (.ok (p.next? == some k), p) := by
    rw [next?, ← current_eq]
    rfl
  have hreads : (Statement.sees k : Reader _) p.rest = .ok (p.next? == some k, p.rest) := rfl
  rw [bind_of_some hsees, bind_of_ok hreads]
  by_cases hk : p.next? = some k
  · rw [if_pos (beq_iff_eq.mpr hk), if_pos (beq_iff_eq.mpr hk)]
    exact ha p hp hk
  · have hne : ¬(p.next? == some k) = true := fun h => hk (beq_iff_eq.mp h)
    rw [if_neg hne, if_neg hne]
    exact hb p hp hk

lemma FollowsFrom.eat :
    FollowsFrom budget d ts (fun _ => True) id (Statement.eat k) (Statement.eat k) :=
  FollowsFrom.sees_ite (FollowsFrom.take Follows.pure) (FollowsFrom.pure rfl)

lemma FollowsFrom.eat_ite (ha : Follows budget d ts a r) (hb : FollowsFrom budget d ts (fun _ => True) going b s) :
    FollowsFrom budget d ts (fun _ => True) going
      (Statement.eat k >>= fun found => if found = true then a else b)
      (Statement.eat k >>= fun found => if found = true then r else s) := by
  refine FollowsFrom.eat.bind_of (fun found => if found = true then fun _ => false else going) ?_ ?_
  · rintro (_ | _)
    · exact hb
    · exact ha
  · rintro (_ | _) y hy
    · exact .inr hy
    · exact .inl rfl

lemma Follows.optional :
    Follows budget d ts (Functor.discard (eat k)) (Functor.discard (eat k)) :=
  Follows.discard (FollowsFrom.eat.weaken fun _ => id)

lemma Follows.expectSpelled {spelling : String} :
    Follows budget d ts (Statement.expectSpelled k spelling) (Statement.expectSpelled k spelling) :=
  FollowsFrom.eat_ite Follows.pure FollowsFrom.refuse

lemma Follows.expectKind : Follows budget d ts (Statement.expectKind k) (Statement.expectKind k) :=
  FollowsFrom.eat_ite Follows.pure FollowsFrom.refuse

lemma seesArgumentName_eq (p : Parser) :
    (Statement.seesArgumentName : Action budget _) p = some (.ok (isNamed p.rest), p) := by
  have hnamed : isNamed p.rest = (p.current.map Token.kind == some .identifier &&
      p.tokens[p.cursor + 1]?.map Token.kind == some (.symbol .colon)) := by
    have hsecond : p.tokens[p.cursor + 1]? = p.rest[1]? := by
      rw [rest, List.getElem?_drop]
    rw [current_eq, hsecond]
    rcases p.rest with _ | ⟨first, _ | ⟨second, more⟩⟩
    · rfl
    · simp [isNamed]
    · rfl
  rw [hnamed]
  rfl

lemma FollowsFrom.argumentName {a : Unit → Action budget α} {r : Unit → Reader α}
    (h : ∀ u, FollowsFrom budget d ts (fun _ => True) going (a u) (r u)) :
    FollowsFrom budget d ts (fun _ => True) going
      (seesArgumentName >>= fun named => if named = true then
        (Statement.skip >>= fun _ => Statement.skip >>= fun u => a u) else a ())
      (seesArgumentName >>= fun named => if named = true then
        (Statement.skip >>= fun _ => Statement.skip >>= fun u => r u) else r ()) := by
  intro p hp _
  have hreads : (Statement.seesArgumentName : Reader _) p.rest = .ok (isNamed p.rest, p.rest) :=
    Statement.seesArgumentName_eq p.rest
  rw [bind_of_some (seesArgumentName_eq p), bind_of_ok hreads]
  split
  · rename_i hnamed
    obtain ⟨first, second, more, hrest, -⟩ := isNamed_moves [] hnamed
    have hfirst : p.next? = some first.kind := by
      rw [next?, hrest]
      rfl
    have hsecond : p.stepped.next? = some second.kind := by
      rw [next?, rest_stepped, hrest]
      rfl
    obtain ⟨out, q, ha, he⟩ := h () p.stepped.stepped ((hp.stepped hfirst).stepped hsecond) trivial
    have hcursor : p.cursor + 2 ≤ q.cursor := he.ahead
    have hsame := he.same
    rw [rest_stepped, rest_stepped] at hsame
    exact ⟨out, q, ha, he.ready, hsame, by omega, fun _ _ _ => by omega⟩
  · exact h () p hp trivial

end

lemma rounds_follow {round : α → Action budget (ForInStep α)} {round' : α → Reader (ForInStep α)}
    (h : ∀ x, FollowsFrom budget d ts (fun _ => True) goesOn (round x) (round' x)) {count : Nat}
    {bound : List Token} {x : α} {p : Parser} (hp : Ready d ts p) (hcount : p.rest.length < count)
    (hbound : p.rest.length ≤ bound.length) :
    ∃ out q, rounds round count x p = some (out, q) ∧
      Ends d ts (fun _ => false) p (Statement.rounds round' bound x p.rest) out q := by
  induction count generalizing bound x p with
  | zero => exact absurd hcount (Nat.not_lt_zero _)
  | succ count ih =>
    obtain ⟨out, q, hround, he⟩ := h x p hp trivial
    rw [rounds]
    cases out with
    | error fault => exact ⟨_, q, bind_of_fault hround, he.fault (rounds_error he.same)⟩
    | ok step =>
      rw [bind_of_some hround]
      cases step with
      | done y =>
        refine ⟨.ok y, q, rfl, he.ready, rounds_done he.same, he.ahead, ?_⟩
        exact fun _ _ hgoing => absurd hgoing Bool.false_ne_true
      | yield y =>
        have hless := he.advances _ rfl rfl
        have hle := he.ready.cursor_le
        have hrest := he.ready.length_rest
        rw [hp.length_rest] at hcount hbound
        obtain ⟨t, fewer, rfl⟩ := List.exists_cons_of_length_pos (by omega : 0 < bound.length)
        rw [List.length_cons] at hbound
        rw [rounds_going he.same]
        obtain ⟨out, s, hrounds, he'⟩ := @ih fewer y q he.ready (by omega) (by omega)
        exact ⟨out, s, hrounds, he.trans he' fun _ => .inr⟩

lemma FollowsFrom.iterate (hb : ts.length < budget) {round : α → Action budget (ForInStep α)}
    {round' : α → Reader (ForInStep α)}
    (h : ∀ x, FollowsFrom budget d ts (fun _ => True) goesOn (round x) (round' x)) (x : α) :
    Follows budget d ts (Statement.iterate round x) (Statement.iterate round' x) := by
  intro p hp _
  refine rounds_follow h hp ?_ (Nat.le_refl _)
  rw [hp.length_rest]
  omega

section

variable {nested : Nat → Action budget Shape} {inner : Nat → Reader Shape}

lemma typeName_follows : Follows budget d ts typeName typeName := by
  refine FollowsFrom.peek fun k => ?_
  split
  iterate 6
    · exact FollowsFrom.skip.weaken fun _ => id
  · exact FollowsFrom.refuse

lemma typeDeclaration_follows (hb : ts.length < budget) :
    Follows budget d ts typeDeclaration typeDeclaration := by
  refine Follows.optional.bind fun _ => FollowsFrom.iterate hb (fun _ => ?_) ()
  refine typeName_follows.bind fun _ => ?_
  exact FollowsFrom.eat_ite Follows.pure (FollowsFrom.pure rfl)

lemma heredocRest_follows (hb : ts.length < budget) :
    Follows budget d ts heredocRest heredocRest := by
  refine (FollowsFrom.iterate hb (fun _ => ?_) ()).bind fun _ => Follows.expectKind
  exact FollowsFrom.eat_ite Follows.pure (FollowsFrom.pure rfl)

variable (hn : ∀ power, Follows budget d ts (nested power) (inner power))
include hn

lemma enclosed_follows {close : Symbol} :
    Follows budget d ts (enclosed nested close) (enclosed inner close) :=
  (hn 0).discard.bind fun _ => Follows.expectSpelled

lemma memberName_follows :
    Follows budget d ts (memberName nested) (memberName inner) := by
  refine FollowsFrom.peek fun k => ?_
  split
  iterate 2
    · exact FollowsFrom.skip.weaken fun _ => id
  · exact FollowsFrom.take (enclosed_follows hn)
  · exact FollowsFrom.refuse

lemma arrayItem_follows : Follows budget d ts (arrayItem nested) (arrayItem inner) := by
  refine FollowsFrom.eat_ite (hn 0).discard ?_
  refine Follows.optional.bind fun _ => (hn 0).discard.bind fun _ => ?_
  exact FollowsFrom.eat_ite (Follows.optional.bind fun _ => (hn 0).discard) Follows.pure

lemma assignment_follows (shape : Shape) (k : Kind) :
    FollowsAt budget d ts (some k) (fun _ => true) (assignment nested shape k)
      (assignment inner shape k) := by
  unfold assignment
  split
  · refine FollowsFrom.take ?_
    split
    · exact Follows.optional.bind fun _ => (hn assignmentPower).discard.bind fun _ => Follows.pure
    · exact (hn assignmentPower).discard.bind fun _ => Follows.pure
  · exact FollowsFrom.refuse

lemma loopTarget_follows :
    Follows budget d ts (loopTarget nested) (loopTarget inner) := by
  refine Follows.optional.bind fun _ => (hn assignmentPower).bind fun shape => ?_
  split
  · exact Follows.pure
  · exact FollowsFrom.refuse

lemma loopClause_follows :
    Follows budget d ts (loopClause nested) (loopClause inner) := by
  refine (hn 0).discard.bind fun _ => Follows.expectSpelled.bind fun _ => ?_
  refine (loopTarget_follows hn).bind fun _ => ?_
  exact FollowsFrom.eat_ite ((loopTarget_follows hn).bind fun _ => Follows.expectSpelled)
    Follows.expectSpelled

variable (hb : ts.length < budget)
include hb

lemma indirectName_follows :
    Follows budget d ts (indirectName nested) (indirectName inner) := by
  refine FollowsFrom.iterate hb (fun _ => ?_) ()
  refine FollowsFrom.peek fun k => ?_
  split
  · exact FollowsFrom.take Follows.pure
  · exact FollowsFrom.take Follows.pure
  · exact FollowsFrom.take ((enclosed_follows hn).bind fun _ => Follows.pure)
  · exact FollowsFrom.refuse

lemma classMembers_follows :
    Follows budget d ts (classMembers nested) (classMembers inner) := by
  refine FollowsFrom.iterate hb (fun _ => ?_) ()
  refine FollowsFrom.eat_ite ((memberName_follows hn).bind fun _ => Follows.pure) ?_
  refine FollowsFrom.eat_ite ((memberName_follows hn).bind fun _ => Follows.pure) ?_
  refine FollowsFrom.eat_ite (Follows.expectKind.bind fun _ => Follows.pure) ?_
  exact FollowsFrom.eat_ite ((enclosed_follows hn).bind fun _ => Follows.pure) (FollowsFrom.pure rfl)

lemma classReference_follows :
    Follows budget d ts (classReference nested) (classReference inner) := by
  refine FollowsFrom.peek fun k => ?_
  split
  iterate 5
    · exact FollowsFrom.skip.weaken fun _ => id
  · exact FollowsFrom.take (classMembers_follows hn hb)
  · exact FollowsFrom.take (enclosed_follows hn)
  · exact FollowsFrom.refuse

lemma argumentList_follows :
    Follows budget d ts (argumentList nested) (argumentList inner) := by
  have hitem : ∀ _ : Unit, FollowsFrom budget d ts (fun _ => True) goesOn (do
      discard (nested 0)
      if ← eat (.symbol .comma) then return ForInStep.yield ()
      else
        expect .closeParen
        return ForInStep.done ()) (do
      discard (inner 0)
      if ← eat (.symbol .comma) then return ForInStep.yield ()
      else
        expect .closeParen
        return ForInStep.done ()) := by
    intro _
    refine (hn 0).discard.bind fun _ => FollowsFrom.eat_ite Follows.pure ?_
    exact Follows.expectSpelled.bind fun _ => FollowsFrom.pure rfl
  refine FollowsFrom.iterate hb (fun _ => FollowsFrom.eat_ite Follows.pure ?_) ()
  exact FollowsFrom.eat_ite ((hitem ()).weaken fun _ => id) (FollowsFrom.argumentName hitem)

lemma arguments_follows : Follows budget d ts (arguments nested) (arguments inner) := by
  refine FollowsFrom.eat_ite ?_ (argumentList_follows hn hb)
  refine FollowsFrom.eat_ite Follows.pure ((hn 0).discard.bind fun _ => ?_)
  exact FollowsFrom.eat_ite (argumentList_follows hn hb) Follows.expectSpelled

lemma arrayItems_follows {close : Symbol} :
    Follows budget d ts (arrayItems nested close) (arrayItems inner close) := by
  refine FollowsFrom.iterate hb (fun _ => FollowsFrom.eat_ite Follows.pure ?_) ()
  refine FollowsFrom.eat_ite Follows.pure ((arrayItem_follows hn).bind fun _ => ?_)
  exact FollowsFrom.eat_ite Follows.pure (Follows.expectSpelled.bind fun _ => FollowsFrom.pure rfl)

lemma writableList_follows :
    Follows budget d ts (writableList nested) (writableList inner) := by
  refine FollowsFrom.iterate hb (fun _ => (hn 0).bind fun shape => ?_) ()
  split
  · refine FollowsFrom.eat_ite ?_ (Follows.expectSpelled.bind fun _ => FollowsFrom.pure rfl)
    exact FollowsFrom.sees_ite (Follows.expectSpelled.bind fun _ => Follows.pure).at Follows.pure.at
  · exact FollowsFrom.refuse

lemma parameter_follows : Follows budget d ts (parameter nested) (parameter inner) := by
  have hrest : ∀ _ : Unit, Follows budget d ts (do
      discard (eat (.symbol .ampersand))
      discard (eat (.symbol .ellipsis))
      expectKind .variableName
      if ← eat (.symbol .assign) then discard (nested 0)) (do
      discard (eat (.symbol .ampersand))
      discard (eat (.symbol .ellipsis))
      expectKind .variableName
      if ← eat (.symbol .assign) then discard (inner 0)) := by
    intro _
    refine Follows.optional.bind fun _ => Follows.optional.bind fun _ => ?_
    exact Follows.expectKind.bind fun _ => FollowsFrom.eat_ite (hn 0).discard Follows.pure
  refine FollowsFrom.peek fun k => ?_
  split
  iterate 3
    · exact (hrest ()).at
  · exact ((typeDeclaration_follows hb).bind hrest).at

lemma parameterList_follows :
    Follows budget d ts (parameterList nested) (parameterList inner) := by
  refine FollowsFrom.iterate hb (fun _ => FollowsFrom.eat_ite Follows.pure ?_) ()
  refine (parameter_follows hn hb).bind fun _ => FollowsFrom.eat_ite Follows.pure ?_
  exact Follows.expectSpelled.bind fun _ => FollowsFrom.pure rfl

lemma arrowFunction_follows :
    Follows budget d ts (arrowFunction nested) (arrowFunction inner) := by
  refine Follows.optional.bind fun _ => Follows.expectSpelled.bind fun _ => ?_
  refine (parameterList_follows hn hb).bind fun _ => ?_
  refine FollowsFrom.eat_ite ((typeDeclaration_follows hb).bind fun _ => ?_) ?_
  all_goals exact Follows.expectSpelled.bind fun _ => (hn 0).discard

lemma armConditions_follows :
    Follows budget d ts (armConditions nested) (armConditions inner) := by
  refine FollowsFrom.iterate hb (fun _ => (hn 0).discard.bind fun _ => ?_) ()
  exact FollowsFrom.eat_ite (FollowsFrom.sees_ite Follows.pure.at Follows.pure.at) (FollowsFrom.pure rfl)

lemma matchArm_follows : Follows budget d ts (matchArm nested) (matchArm inner) := by
  refine FollowsFrom.eat_ite (Follows.optional.bind fun _ => ?_)
    ((armConditions_follows hn hb).bind fun _ => ?_)
  all_goals exact Follows.expectSpelled.bind fun _ => (hn 0).discard

lemma matchBody_follows : Follows budget d ts (matchBody nested) (matchBody inner) := by
  refine Follows.expectSpelled.bind fun _ => (enclosed_follows hn).bind fun _ => ?_
  refine Follows.expectSpelled.bind fun _ => FollowsFrom.iterate hb (fun _ => ?_) ()
  refine FollowsFrom.eat_ite Follows.pure ((matchArm_follows hn hb).bind fun _ => ?_)
  exact FollowsFrom.eat_ite Follows.pure (Follows.expectSpelled.bind fun _ => FollowsFrom.pure rfl)

lemma operand_follows :
    FollowsFrom budget d ts (fun _ => True) (fun _ => true) (operand nested)
      (operand inner) := by
  refine FollowsFrom.peek fun k => ?_
  split
  · exact FollowsFrom.take Follows.pure
  · exact FollowsFrom.take ((indirectName_follows hn hb).bind fun _ => Follows.pure)
  -- names, strings and numbers
  iterate 8
    · exact FollowsFrom.take Follows.pure
  · exact FollowsFrom.take ((heredocRest_follows hb).bind fun _ => Follows.pure)
  · exact FollowsFrom.take ((enclosed_follows hn).bind fun _ => Follows.pure)
  · exact FollowsFrom.take ((arrayItems_follows hn hb).bind fun _ => Follows.pure)
  -- `array`, `list`, `isset` and `empty` open a parenthesis first
  iterate 2
    · refine FollowsFrom.take (Follows.expectSpelled.bind fun _ => ?_)
      exact (arrayItems_follows hn hb).bind fun _ => Follows.pure
  · refine FollowsFrom.take (Follows.expectSpelled.bind fun _ => ?_)
    exact (writableList_follows hn hb).bind fun _ => Follows.pure
  · refine FollowsFrom.take (Follows.expectSpelled.bind fun _ => ?_)
    exact (enclosed_follows hn).bind fun _ => Follows.pure
  · exact FollowsFrom.take ((arrowFunction_follows hn hb).bind fun _ => Follows.pure)
  · refine FollowsFrom.take (FollowsFrom.eat_ite ?_ ?_)
    · exact (arrowFunction_follows hn hb).bind fun _ => Follows.pure
    · exact FollowsFrom.sees_ite Follows.pure.at FollowsFrom.refuse
  · refine FollowsFrom.take ((classReference_follows hn hb).bind fun _ => ?_)
    exact FollowsFrom.eat_ite ((arguments_follows hn hb).bind fun _ => Follows.pure) Follows.pure
  iterate 2
    · exact FollowsFrom.take ((hn _).discard.bind fun _ => Follows.pure)
  · exact FollowsFrom.take ((matchBody_follows hn hb).bind fun _ => Follows.pure)
  -- casts and signs
  iterate 6
    · exact FollowsFrom.take ((hn _).discard.bind fun _ => Follows.pure)
  iterate 2
    · refine FollowsFrom.take ((hn unaryPower).bind fun shape => ?_)
      split
      · exact Follows.pure
      · exact FollowsFrom.refuse
  · exact FollowsFrom.refuse

lemma access?_follows (shape : Shape) :
    FollowsFrom budget d ts (fun _ => True) Option.isSome (access? nested shape)
      (access? inner shape) := by
  unfold access?
  split
  · exact FollowsFrom.pure rfl
  refine FollowsFrom.peek fun k => ?_
  split
  · refine FollowsFrom.take (FollowsFrom.eat_ite Follows.pure ?_)
    exact (enclosed_follows hn).bind fun _ => Follows.pure
  · exact FollowsFrom.take ((arguments_follows hn hb).bind fun _ => Follows.pure)
  iterate 2
    · exact FollowsFrom.take ((memberName_follows hn).bind fun _ => Follows.pure)
  · refine FollowsFrom.take (FollowsFrom.eat_ite Follows.pure ?_)
    exact (memberName_follows hn).bind fun _ => Follows.pure
  iterate 2
    · split
      · exact FollowsFrom.take Follows.pure
      · exact FollowsFrom.pure rfl
  · exact FollowsFrom.pure rfl

lemma looseOperator_follows (power : Nat) (shape : Shape) (k : Kind) :
    FollowsAt budget d ts (some k) goesOn (looseOperator nested power shape k)
      (looseOperator inner power shape k) := by
  unfold looseOperator
  split
  · split
    · exact FollowsFrom.pure rfl
    · refine FollowsFrom.take (FollowsFrom.eat_ite ?_ ((enclosed_follows hn).bind fun _ => ?_))
      all_goals exact (hn ternaryPower).discard.bind fun _ => Follows.pure
  · split
    · exact FollowsFrom.pure rfl
    · exact FollowsFrom.take ((classReference_follows hn hb).bind fun _ => Follows.pure)
  · split
    · exact FollowsFrom.pure rfl
    · split
      · exact FollowsFrom.pure rfl
      · exact FollowsFrom.take ((hn _).discard.bind fun _ => Follows.pure)

lemma operator_follows (power : Nat) (shape : Shape) :
    FollowsFrom budget d ts (fun _ => True) goesOn (operator nested power shape)
      (operator inner power shape) := by
  refine FollowsFrom.peek fun k => ?_
  split
  · exact FollowsFrom.pure rfl
  · split
    · exact (assignment_follows hn shape _).after fun _ => Follows.pure
    · split
      · exact (access?_follows hn hb shape).bind_none (fun _ _ => access?_none)
          (fun _ => Follows.pure) (looseOperator_follows hn hb power shape _)
      · exact looseOperator_follows hn hb power shape _

lemma expressionOver_follows (power : Nat) :
    FollowsFrom budget d ts (fun _ => True) (fun _ => true) (expressionOver nested power)
      (expressionOver inner power) := by
  refine (operand_follows hn hb).after fun shape => ?_
  exact FollowsFrom.iterate hb (operator_follows hn hb power) shape

lemma unsetClause_follows :
    Follows budget d ts (unsetClause nested) (unsetClause inner) :=
  Follows.expectSpelled.bind fun _ => Follows.expectSpelled.bind fun _ => writableList_follows hn hb

lemma clause_follows (site : Site) :
    Follows budget d ts (clause nested site) (clause inner site) := by
  cases site with
  | binding => exact (hn 0).discard
  | tag => exact FollowsFrom.sees_ite (unsetClause_follows hn hb).at (hn 0).discard.at
  | condition =>
    refine Follows.expectSpelled.bind fun _ => Follows.expectSpelled.bind fun _ => ?_
    exact (hn 0).discard.bind fun _ => Follows.expectSpelled
  | loop =>
    refine Follows.expectSpelled.bind fun _ => Follows.expectSpelled.bind fun _ => ?_
    exact loopClause_follows hn

lemma statement_follows (site : Site) :
    Follows budget d ts (statement nested site) (statement inner site) := by
  refine (clause_follows hn hb site).bind fun _ => Follows.expectSpelled.bind fun _ => ?_
  refine FollowsFrom.peek fun k => ?_
  split
  · exact Follows.pure.at
  · exact FollowsFrom.refuse

end

lemma called_full {body : Action budget Shape} (h : p.depth = maxDepth) :
    called body p = some (.error .nestingTooDeep, p.recorded p.toCounters false) := by
  change (ite (p.depth = maxDepth) _ _ : StateT Parser Option _) p = _
  rw [if_pos h]
  rfl

lemma called_run {body : Action budget Shape} {out : Except Fault Shape} (h : p.depth ≠ maxDepth)
    (hbody : body (p.moved ⟨p.cursor, p.depth + 1⟩) = some (out, q)) :
    called body p =
      some (out, (q.moved ⟨q.cursor, q.depth - 1⟩).recorded p.toCounters out.isOk) := by
  change (ite (p.depth = maxDepth) _ _ : StateT Parser Option _) p = _
  rw [if_neg h]
  change (body (p.moved ⟨p.cursor, p.depth + 1⟩) >>= _) = _
  rw [hbody]
  rfl

lemma called_follows {body : Action budget Shape} {r : Reader Shape} (hd : d + 1 ≤ maxDepth)
    (h : FollowsFrom budget (d + 1) ts (fun _ => True) (fun _ => true) body r) :
    FollowsFrom budget d ts (fun _ => True) (fun _ => true) (called body) r := by
  intro p hp _
  obtain rfl := hp.depth
  obtain ⟨out, q, hbody, he⟩ := h _ (hp.moved (Nat.le_refl _) hp.cursor_le hd) trivial
  have hback : q.depth - 1 = p.depth := by
    rw [he.ready.depth, Nat.add_sub_cancel]
  refine ⟨out, _, called_run (by omega) hbody, ?_, he.same, he.ahead, he.advances⟩
  rw [hback]
  exact (he.ready.moved (Nat.le_refl _) he.ready.cursor_le hp.depth_le).recorded rfl he.lt_of_isOk

lemma expression_follows {levels calls : Nat} (hb : ts.length < budget)
    (hd : d + levels = maxDepth) (hc : levels < calls) (power : Nat) :
    FollowsFrom budget d ts (fun _ => True) (fun _ => true) (expression budget calls power)
      (Statement.expression levels power) := by
  induction levels generalizing d calls power with
  | zero =>
    obtain ⟨calls, rfl⟩ := Nat.exists_eq_succ_of_ne_zero (Nat.ne_of_gt hc)
    intro p hp _
    refine ⟨_, _, called_full (hp.depth.trans hd), hp.recorded hp.depth ?_, rfl, Nat.le_refl _, ?_⟩
    · exact fun hok => absurd hok Bool.false_ne_true
    · rintro shape ⟨⟩
  | succ levels ih =>
    obtain ⟨calls, rfl⟩ := Nat.exists_eq_succ_of_ne_zero (Nat.ne_of_gt (Nat.zero_lt_of_lt hc))
    refine called_follows (by omega) ?_
    rw [Statement.expression]
    refine expressionOver_follows (fun power => ?_) hb power
    exact (ih (by omega) (by omega) power).weaken fun _ => id

lemma check_of_statement {site : Site} {tokens rest : List Token} {out : Except Fault Unit}
    (h : statement (Statement.expression maxDepth) site (tokens.filter fun t => !t.isTrivia) = out.map fun u => (u, rest)) :
    check site tokens = out := by
  rw [check, h]
  cases out with
  | error fault => rfl
  | ok u => rfl

/-- Every run within a budget of more rounds than tokens, and more calls than levels, comes to its end. -/
theorem parse_ends (site : Site) (tokens : List Token) {budget : Nat}
    (hb : tokens.length + maxDepth < budget) :
    (∃ final, parse budget site tokens = some (check site tokens, final) ∧ final.Sound ∧
      final.depth = 0 ∧ final.tokens = tokens.filter fun t => !t.isTrivia) ∧
    ∀ (p : Parser) (power : Nat), p.Sound → p.tokens.length ≤ tokens.length →
      ∃ out q, expression budget budget power p = some (out, q) ∧ q.Sound ∧ q.depth = p.depth ∧
        p.cursor ≤ q.cursor ∧ (out.isOk = true → p.cursor < q.cursor) := by
  constructor
  · have hrounds : (tokens.filter fun t => !t.isTrivia).length < budget := by
      have := List.length_filter_le (fun t => !t.isTrivia) tokens
      omega
    have hcalls : maxDepth < budget := by omega
    have hn : ∀ power, Follows budget 0 (tokens.filter fun t => !t.isTrivia) (expression budget budget power)
        (Statement.expression maxDepth power) := fun power =>
      (expression_follows hrounds (Nat.zero_add maxDepth) hcalls power).weaken fun _ => id
    obtain ⟨out, final, hparse, he⟩ :=
      statement_follows hn hrounds site _ (ofTokens_ready tokens) trivial
    refine ⟨final, ?_, he.ready.toSound, he.ready.depth, he.ready.tokens⟩
    rw [check_of_statement he.same]
    exact hparse
  · intro p power hp htokens
    have hready : Ready p.depth p.tokens p := { hp with depth := rfl, tokens := rfl }
    have hrounds : p.tokens.length < budget := by omega
    have hcalls : maxDepth - p.depth < budget := by omega
    obtain ⟨out, q, hcall, he⟩ := expression_follows hrounds
      (Nat.add_sub_cancel' hready.depth_le) hcalls power p hready trivial
    exact ⟨out, q, hcall, he.ready.toSound, he.ready.depth, he.ahead, he.lt_of_isOk⟩

def callTokens : List Token :=
  [⟨.variableName, ['$', 'f']⟩, ⟨.symbol .openParen, ['(']⟩, ⟨.variableName, ['$', 'x']⟩,
    ⟨.whitespace, [' ']⟩, ⟨.symbol .closeParen, [')']⟩, ⟨.symbol .semicolon, [';']⟩]

def insideCall : Parser where
  cursor := 2
  depth := 1
  tokens := callTokens.filter fun t => !t.isTrivia
  trail := [⟨1, 1⟩, ⟨0, 1⟩, ⟨0, 0⟩]
  calls := []

theorem parse_ends_call : insideCall.Sound ∧ check .binding callTokens = .ok () ∧
    (∃ final, parse 263 .binding callTokens = some (.ok (), final) ∧ final.Sound ∧ final.depth = 0) ∧
    ∃ out q, expression 263 263 0 insideCall = some (out, q) ∧ q.depth = 1 ∧
      (out.isOk = true → 2 < q.cursor) := by
  have hsound : insideCall.Sound := ⟨by decide, by decide, by decide⟩
  have hcheck : check .binding callTokens = .ok () := by decide +kernel
  obtain ⟨⟨final, hparse, hfinal, hdepth, -⟩, hcalls⟩ :=
    parse_ends .binding callTokens (show callTokens.length + maxDepth < 263 by decide)
  obtain ⟨out, q, hcall, -, hq, -, hcursor⟩ := hcalls insideCall 0 hsound (by decide)
  rw [hcheck] at hparse
  exact ⟨hsound, hcheck, ⟨final, hparse, hfinal, hdepth⟩, out, q, hcall, hq, hcursor⟩

end Stencil.Code.Parser

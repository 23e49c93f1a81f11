import Stencil.Proofs.Nesting
import Mathlib.Tactic.Common

/-! The readers of the grammar, one by one. -/

namespace Stencil.Code.Statement

open Outcome

variable {α : Type} {start : List Symbol}

section

variable {nested : Nat → Reader Shape} (hn : ∀ power, Steady (nested power))
include hn

lemma nested_reads (power : Nat) (stack : List Symbol) :
    Reads (discard (nested power)) stack (fun _ => stack) :=
  (hn power stack).discard

lemma enclosed_reads {close : Symbol} {stop : List Symbol} (h : Turns start (.symbol close) stop) :
    Reads (enclosed nested close) start (fun _ => stop) :=
  (nested_reads hn 0 start).bind fun _ => Reads.expectSpelled h

lemma memberName_steady : Steady (memberName nested) := by
  intro stack
  refine Reads.peek Reads.unexpected (by rintro t rest (h | h) <;> rw [h]) fun k => ?_
  split <;> rename_i heq
  iterate 2
    · cases heq
      exact ReadsAt.skip ⟨rfl, rfl⟩
  · cases heq
    exact ReadsAt.take ⟨rfl, rfl⟩ (enclosed_reads hn ⟨rfl, rfl⟩)
  · exact Reads.unexpected.at k

lemma indirectName_steady : Steady (indirectName nested) := by
  intro stack
  refine Reads.iterate (fun _ => ?_) ()
  refine Reads.peek Reads.unexpected (by rintro t rest (h | h) <;> rw [h]) fun k => ?_
  split <;> rename_i heq
  · cases heq
    exact ReadsAt.take ⟨rfl, rfl⟩ (Reads.pure rfl)
  · cases heq
    exact ReadsAt.take ⟨rfl, rfl⟩ (Reads.pure rfl)
  · cases heq
    exact ReadsAt.take ⟨rfl, rfl⟩
      ((enclosed_reads hn ⟨rfl, rfl⟩).bind fun _ => Reads.pure rfl)
  · exact Reads.unexpected.at k

lemma classMembers_steady : Steady (classMembers nested) := by
  intro stack
  refine Reads.iterate (fun _ => ?_) ()
  refine Reads.eat_ite ⟨rfl, rfl⟩ ((memberName_steady hn stack).bind fun _ => Reads.pure rfl) ?_
  refine Reads.eat_ite ⟨rfl, rfl⟩ ((memberName_steady hn stack).bind fun _ => Reads.pure rfl) ?_
  refine Reads.eat_ite ⟨rfl, rfl⟩
    ((Reads.expectKind ⟨rfl, rfl⟩).bind fun _ => Reads.pure rfl) ?_
  exact Reads.eat_ite ⟨rfl, rfl⟩ ((enclosed_reads hn ⟨rfl, rfl⟩).bind fun _ => Reads.pure rfl)
    Round.done

lemma classReference_steady : Steady (classReference nested) := by
  intro stack
  refine Reads.peek Reads.unexpected (by rintro t rest (h | h) <;> rw [h]) fun k => ?_
  split <;> rename_i heq
  iterate 5
    · cases heq
      exact ReadsAt.skip ⟨rfl, rfl⟩
  · cases heq
    exact ReadsAt.take ⟨rfl, rfl⟩ (classMembers_steady hn stack)
  · cases heq
    exact ReadsAt.take ⟨rfl, rfl⟩ (enclosed_reads hn ⟨rfl, rfl⟩)
  · exact Reads.unexpected.at k

lemma argumentList_reads (stack : List Symbol) :
    Reads (argumentList nested) (.closeParen :: stack) (fun _ => stack) := by
  refine Reads.iterate (fun _ => ?_) ()
  refine Reads.eat_ite ⟨rfl, rfl⟩ (Reads.pure rfl) ?_
  have hitem : Round (do
      discard (nested 0)
      if ← eatSymbol .comma then return ForInStep.yield ()
      else
        expect .closeParen
        return ForInStep.done ()) (.closeParen :: stack) (.closeParen :: stack) stack := by
    refine (nested_reads hn 0 _).bind fun _ => ?_
    exact Reads.eat_ite ⟨rfl, rfl⟩ (Reads.pure rfl)
      ((Reads.expectSpelled ⟨rfl, rfl⟩).bind fun _ => Round.done)
  exact Reads.eat_ite ⟨rfl, rfl⟩ (hitem.weaken fun _ => id) (Reads.argumentName fun _ => hitem)

lemma arguments_reads (stack : List Symbol) :
    Reads (arguments nested) (.closeParen :: stack) (fun _ => stack) := by
  refine Reads.eat_ite ⟨rfl, rfl⟩ ?_ (argumentList_reads hn stack)
  refine Reads.eat_ite ⟨rfl, rfl⟩ (Reads.pure rfl) ?_
  refine (nested_reads hn 0 _).bind fun _ => ?_
  exact Reads.eat_ite ⟨rfl, rfl⟩ (argumentList_reads hn stack) (Reads.expectSpelled ⟨rfl, rfl⟩)

lemma arrayItem_steady : Steady (arrayItem nested) := by
  intro stack
  refine Reads.eat_ite ⟨rfl, rfl⟩ (nested_reads hn 0 stack) ?_
  refine (Steady.optional (fun _ => ⟨rfl, rfl⟩) stack).bind fun _ => ?_
  refine (nested_reads hn 0 stack).bind fun _ => ?_
  refine Reads.eat_ite ⟨rfl, rfl⟩ ?_ (Reads.pure rfl)
  exact (Steady.optional (fun _ => ⟨rfl, rfl⟩) stack).bind fun _ => nested_reads hn 0 stack

lemma arrayItems_reads {close : Symbol} {stop : List Symbol}
    (h : Turns start (.symbol close) stop) :
    Reads (arrayItems nested close) start (fun _ => stop) := by
  refine Reads.iterate (fun _ => ?_) ()
  refine Reads.eat_ite h (Reads.pure rfl) ?_
  refine Reads.eat_ite ⟨rfl, rfl⟩ (Reads.pure rfl) ?_
  refine (arrayItem_steady hn start).bind fun _ => ?_
  exact Reads.eat_ite ⟨rfl, rfl⟩ (Reads.pure rfl)
    ((Reads.expectSpelled h).bind fun _ => Round.done)

lemma writableList_reads (stack : List Symbol) :
    Reads (writableList nested) (.closeParen :: stack) (fun _ => stack) := by
  refine Reads.iterate (fun _ => ?_) ()
  refine (hn 0 _).bind fun shape => ?_
  split
  · refine Reads.eat_ite ⟨rfl, rfl⟩ ?_
      ((Reads.expectSpelled ⟨rfl, rfl⟩).bind fun _ => Round.done)
    have hclose : Turns (.closeParen :: stack) (.symbol .closeParen) stack := ⟨rfl, rfl⟩
    exact Reads.sees_ite hclose ((Reads.expectSpelled hclose).bind fun _ => Reads.pure rfl)
      (Reads.pure rfl)
  · exact Reads.unexpected

end

lemma typeName_steady : Steady typeName := by
  intro stack
  refine Reads.peek Reads.unexpected (by rintro t rest (h | h) <;> rw [h]) fun k => ?_
  split <;> rename_i heq
  iterate 6
    · cases heq
      exact ReadsAt.skip ⟨rfl, rfl⟩
  · exact Reads.unexpected.at k

lemma typeDeclaration_steady : Steady typeDeclaration := by
  intro stack
  refine (Steady.optional (fun _ => ⟨rfl, rfl⟩) stack).bind fun _ => ?_
  refine Reads.iterate (fun _ => ?_) ()
  refine (typeName_steady stack).bind fun _ => ?_
  exact Reads.eat_ite ⟨rfl, rfl⟩ (Reads.pure rfl) Round.done

lemma heredocRest_steady : Steady heredocRest := by
  intro stack
  have hbody : Reads (iterate (fun _ => do
      if ← eat .heredocBody then return ForInStep.yield ()
      else return ForInStep.done ()) ()) stack (fun _ => stack) := by
    refine Reads.iterate (fun _ => ?_) ()
    exact Reads.eat_ite ⟨rfl, rfl⟩ (Reads.pure rfl) Round.done
  exact hbody.bind fun _ => Reads.expectKind ⟨rfl, rfl⟩

def Finds (p : Reader (Option Shape)) : Prop :=
  ∀ (ts : List Token) (s : Option Shape) (rest : List Token), p ts = .ok (s, rest) → s ≠ none

lemma Finds.pure (s : Shape) : Finds (pure (some s)) := by
  intro ts found rest h
  obtain ⟨rfl, _⟩ := pure_ok.mp h
  exact Option.some_ne_none s

lemma Finds.bind {p : Reader α} {f : α → Reader (Option Shape)} (h : ∀ a, Finds (f a)) :
    Finds (p >>= f) := by
  intro ts found rest hp
  obtain ⟨a, mid, _, hf⟩ := bind_ok.mp hp
  exact h a mid found rest hf

lemma Finds.ite {c : Prop} [Decidable c] {p q : Reader (Option Shape)} (hp : Finds p) (hq : Finds q) :
    Finds (if c then p else q) := by
  split
  · exact hp
  · exact hq

lemma access?_none {nested : Nat → Reader Shape} {shape : Shape} {ts rest : List Token}
    (h : access? nested shape ts = .ok (none, rest)) : rest = ts := by
  unfold access? at h
  split at h
  · exact (pure_ok.mp h).2.symm
  obtain ⟨k, mid, hp, hk⟩ := bind_ok.mp h
  obtain ⟨_, rfl⟩ := peek_ok.mp hp
  split at hk
  · exact (Finds.bind (fun _ => Finds.bind fun _ => Finds.ite (Finds.pure _)
      (Finds.bind fun _ => Finds.pure _)) _ _ _ hk rfl).elim
  · exact (Finds.bind (fun _ => Finds.bind fun _ => Finds.pure _) _ _ _ hk rfl).elim
  · exact (Finds.bind (fun _ => Finds.bind fun _ => Finds.pure _) _ _ _ hk rfl).elim
  · exact (Finds.bind (fun _ => Finds.bind fun _ => Finds.pure _) _ _ _ hk rfl).elim
  · exact (Finds.bind (fun _ => Finds.bind fun _ => Finds.ite (Finds.pure _)
      (Finds.bind fun _ => Finds.pure _)) _ _ _ hk rfl).elim
  · split at hk
    · exact (Finds.bind (fun _ => Finds.pure _) _ _ _ hk rfl).elim
    · exact (pure_ok.mp hk).2.symm
  · split at hk
    · exact (Finds.bind (fun _ => Finds.pure _) _ _ _ hk rfl).elim
    · exact (pure_ok.mp hk).2.symm
  · exact (pure_ok.mp hk).2.symm

lemma binary?_turns {k : Kind} {binding : Binding} (h : binary? k = some binding)
    (stack : List Symbol) : Turns stack k stack := by
  unfold binary? at h
  split at h <;> first | exact ⟨rfl, rfl⟩ | cases h

lemma isAssignment_turns {k : Kind} (h : isAssignment k = true) (stack : List Symbol) :
    Turns stack k stack := by
  cases k with
  | symbol s => cases s <;> first | exact ⟨rfl, rfl⟩ | cases h
  | _ => cases h

section

variable (nested : Nat → Reader Shape) (shape : Shape) {t : Token}

lemma access?_fence (rest : List Token) (h : t.kind = .symbol .semicolon ∨ t.kind = .symbol .closeParen) :
    access? nested shape (t :: rest) = .ok (none, t :: rest) := by
  unfold access?
  split
  · rfl
  · rw [peek_bind, List.head?_cons, Option.map_some]
    rcases h with h | h <;> rw [h] <;> rfl

lemma operator_fence (power : Nat) (rest : List Token)
    (h : t.kind = .symbol .semicolon ∨ t.kind = .symbol .closeParen) :
    operator nested power shape (t :: rest) = .ok (.done shape, t :: rest) := by
  have hloose : looseOperator nested power shape t.kind (t :: rest) = .ok (.done shape, t :: rest) := by
    rcases h with h | h <;> rw [h] <;> rfl
  have hassign : isAssignment t.kind = false := by
    rcases h with h | h <;> rw [h] <;> rfl
  unfold operator
  rw [peek_bind, List.head?_cons, Option.map_some]
  dsimp only
  rw [if_neg (by rw [hassign]; exact Bool.false_ne_true)]
  split
  · rw [bind_of_ok (access?_fence nested shape rest h)]
    exact hloose
  · exact hloose

end

section

variable {nested : Nat → Reader Shape} (hn : ∀ power, Steady (nested power))
include hn

lemma parameter_steady : Steady (parameter nested) := by
  intro stack
  have hrest : ∀ _ : Unit, Reads (do
      discard (eatSymbol .ampersand)
      discard (eatSymbol .ellipsis)
      expectKind .variableName
      if ← eatSymbol .assign then discard (nested 0)) stack (fun _ => stack) := by
    intro _
    refine (Steady.optional (fun _ => ⟨rfl, rfl⟩) stack).bind fun _ => ?_
    refine (Steady.optional (fun _ => ⟨rfl, rfl⟩) stack).bind fun _ => ?_
    refine (Reads.expectKind ⟨rfl, rfl⟩).bind fun _ => ?_
    exact Reads.eat_ite ⟨rfl, rfl⟩ (nested_reads hn 0 stack) (Reads.pure rfl)
  have htyped := (typeDeclaration_steady stack).bind hrest
  refine Reads.peek htyped (by rintro t rest (h | h) <;> rw [h]) fun k => ?_
  split
  · exact (hrest ()).at k
  · exact (hrest ()).at k
  · exact (hrest ()).at k
  · exact htyped.at k

lemma parameterList_reads (stack : List Symbol) :
    Reads (parameterList nested) (.closeParen :: stack) (fun _ => stack) := by
  refine Reads.iterate (fun _ => ?_) ()
  refine Reads.eat_ite ⟨rfl, rfl⟩ (Reads.pure rfl) ?_
  refine (parameter_steady hn _).bind fun _ => ?_
  exact Reads.eat_ite ⟨rfl, rfl⟩ (Reads.pure rfl)
    ((Reads.expectSpelled ⟨rfl, rfl⟩).bind fun _ => Round.done)

lemma arrowBody_reads (stack : List Symbol) :
    Reads (do
      expect .doubleArrow
      discard (nested 0)) stack (fun _ => stack) :=
  (Reads.expectSpelled ⟨rfl, rfl⟩).bind fun _ => nested_reads hn 0 stack

lemma arrowFunction_steady : Steady (arrowFunction nested) := by
  intro stack
  refine (Steady.optional (fun _ => ⟨rfl, rfl⟩) stack).bind fun _ => ?_
  refine (Reads.expectSpelled ⟨rfl, rfl⟩).bind fun _ => ?_
  refine (parameterList_reads hn stack).bind fun _ => ?_
  exact Reads.eat_ite ⟨rfl, rfl⟩ ((typeDeclaration_steady stack).bind fun _ => arrowBody_reads hn stack)
    (arrowBody_reads hn stack)

lemma armConditions_steady : Steady (armConditions nested) := by
  intro stack
  refine Reads.iterate (fun _ => ?_) ()
  refine (nested_reads hn 0 stack).bind fun _ => ?_
  have harrow : Turns stack (.symbol .doubleArrow) stack := ⟨rfl, rfl⟩
  exact Reads.eat_ite ⟨rfl, rfl⟩ (Reads.sees_ite harrow (Reads.pure rfl) (Reads.pure rfl)) Round.done

lemma matchArm_steady : Steady (matchArm nested) := by
  intro stack
  exact Reads.eat_ite ⟨rfl, rfl⟩
    ((Steady.optional (fun _ => ⟨rfl, rfl⟩) stack).bind fun _ => arrowBody_reads hn stack)
    ((armConditions_steady hn stack).bind fun _ => arrowBody_reads hn stack)

lemma matchBody_steady : Steady (matchBody nested) := by
  intro stack
  refine (Reads.expectSpelled ⟨rfl, rfl⟩).bind fun _ => ?_
  refine (enclosed_reads hn ⟨rfl, rfl⟩).bind fun _ => ?_
  refine (Reads.expectSpelled ⟨rfl, rfl⟩).bind fun _ => ?_
  refine Reads.iterate (fun _ => ?_) ()
  refine Reads.eat_ite ⟨rfl, rfl⟩ (Reads.pure rfl) ?_
  refine (matchArm_steady hn _).bind fun _ => ?_
  exact Reads.eat_ite ⟨rfl, rfl⟩ (Reads.pure rfl)
    ((Reads.expectSpelled ⟨rfl, rfl⟩).bind fun _ => Round.done)

lemma operand_reads (stack : List Symbol) :
    ReadsFrom (fun _ => True) (operand nested) stack (fun _ => stack) fun _ => true := by
  have hend : ∀ shape : Shape, Reads (pure shape) stack (fun _ => stack) := fun _ => Reads.pure rfl
  have hunary : ∀ power, Reads (do
      discard (nested power)
      return Shape.value) stack (fun _ => stack) := fun power =>
    (nested_reads hn power stack).bind fun _ => hend _
  have hstep : Reads (do
      if (← nested unaryPower) = .writable then return Shape.value
      else unexpected) stack (fun _ => stack) := by
    refine (hn unaryPower stack).bind fun shape => ?_
    split
    · exact hend _
    · exact Reads.unexpected
  refine Reads.peek Reads.unexpected (by rintro t rest (h | h) <;> rw [h]) fun k => ?_
  split <;> rename_i heq
  · cases heq
    exact ReadsAt.take ⟨rfl, rfl⟩ (hend _)
  · cases heq
    exact ReadsAt.take ⟨rfl, rfl⟩ ((indirectName_steady hn stack).bind fun _ => hend _)
  -- names, strings and numbers
  iterate 8
    · cases heq
      exact ReadsAt.take ⟨rfl, rfl⟩ (hend _)
  · cases heq
    exact ReadsAt.take ⟨rfl, rfl⟩ ((heredocRest_steady stack).bind fun _ => hend _)
  · cases heq
    exact ReadsAt.take ⟨rfl, rfl⟩ ((enclosed_reads hn ⟨rfl, rfl⟩).bind fun _ => hend _)
  · cases heq
    exact ReadsAt.take ⟨rfl, rfl⟩ ((arrayItems_reads hn ⟨rfl, rfl⟩).bind fun _ => hend _)
  -- `array`, `list`, `isset` and `empty` open a parenthesis first
  · cases heq
    refine ReadsAt.take ⟨rfl, rfl⟩ ((Reads.expectSpelled ⟨rfl, rfl⟩).bind fun _ => ?_)
    exact (arrayItems_reads hn ⟨rfl, rfl⟩).bind fun _ => hend _
  · cases heq
    refine ReadsAt.take ⟨rfl, rfl⟩ ((Reads.expectSpelled ⟨rfl, rfl⟩).bind fun _ => ?_)
    exact (arrayItems_reads hn ⟨rfl, rfl⟩).bind fun _ => hend _
  · cases heq
    refine ReadsAt.take ⟨rfl, rfl⟩ ((Reads.expectSpelled ⟨rfl, rfl⟩).bind fun _ => ?_)
    exact (writableList_reads hn stack).bind fun _ => hend _
  · cases heq
    refine ReadsAt.take ⟨rfl, rfl⟩ ((Reads.expectSpelled ⟨rfl, rfl⟩).bind fun _ => ?_)
    exact (enclosed_reads hn ⟨rfl, rfl⟩).bind fun _ => hend _
  · cases heq
    exact ReadsAt.take ⟨rfl, rfl⟩ ((arrowFunction_steady hn stack).bind fun _ => hend _)
  · cases heq
    refine ReadsAt.take ⟨rfl, rfl⟩ (Reads.eat_ite ⟨rfl, rfl⟩ ?_ ?_)
    · exact (arrowFunction_steady hn stack).bind fun _ => hend _
    · have hcolon : Turns stack (.symbol .doubleColon) stack := ⟨rfl, rfl⟩
      exact Reads.sees_ite hcolon (hend _) Reads.unexpected
  · cases heq
    refine ReadsAt.take ⟨rfl, rfl⟩ ((classReference_steady hn stack).bind fun _ => ?_)
    exact Reads.eat_ite ⟨rfl, rfl⟩ ((arguments_reads hn stack).bind fun _ => hend _) (hend _)
  · cases heq
    exact ReadsAt.take ⟨rfl, rfl⟩ (hunary _)
  · cases heq
    exact ReadsAt.take ⟨rfl, rfl⟩ (hunary _)
  · cases heq
    exact ReadsAt.take ⟨rfl, rfl⟩ ((matchBody_steady hn stack).bind fun _ => hend _)
  -- casts and signs
  iterate 6
    · cases heq
      exact ReadsAt.take ⟨rfl, rfl⟩ (hunary _)
  · cases heq
    exact ReadsAt.take ⟨rfl, rfl⟩ hstep
  · cases heq
    exact ReadsAt.take ⟨rfl, rfl⟩ hstep
  · exact Reads.unexpected.at k

lemma operand_steady : Steady (operand nested) :=
  fun stack => (operand_reads hn stack).weaken fun _ => id

lemma access?_reads (shape : Shape) (stack : List Symbol) :
    ReadsFrom (fun _ => True) (access? nested shape) stack (fun _ => stack) Option.isSome := by
  have hend : ∀ s : Option Shape, Reads (pure s) stack (fun _ => stack) := fun _ => Reads.pure rfl
  have hnone : ∀ {P : List Token → Prop},
      ReadsFrom P (pure none) stack (fun _ => stack) (Option.isSome : Option Shape → Bool) :=
    ReadsFrom.pure rfl rfl
  unfold access?
  split
  · exact hnone
  refine Reads.peek hnone (by rintro t rest (h | h) <;> rw [h]) fun k => ?_
  split <;> rename_i heq
  · cases heq
    refine ReadsAt.take ⟨rfl, rfl⟩ (Reads.eat_ite ⟨rfl, rfl⟩ (hend _) ?_)
    exact (enclosed_reads hn ⟨rfl, rfl⟩).bind fun _ => hend _
  · cases heq
    exact ReadsAt.take ⟨rfl, rfl⟩ ((arguments_reads hn stack).bind fun _ => hend _)
  · cases heq
    exact ReadsAt.take ⟨rfl, rfl⟩ ((memberName_steady hn stack).bind fun _ => hend _)
  · cases heq
    exact ReadsAt.take ⟨rfl, rfl⟩ ((memberName_steady hn stack).bind fun _ => hend _)
  · cases heq
    refine ReadsAt.take ⟨rfl, rfl⟩ (Reads.eat_ite ⟨rfl, rfl⟩ (hend _) ?_)
    exact (memberName_steady hn stack).bind fun _ => hend _
  · cases heq
    split
    · exact ReadsAt.take ⟨rfl, rfl⟩ (hend _)
    · exact hnone
  · cases heq
    split
    · exact ReadsAt.take ⟨rfl, rfl⟩ (hend _)
    · exact hnone
  · exact hnone

lemma looseOperator_reads (power : Nat) (shape : Shape) (k : Kind) (stack : List Symbol) :
    ReadsFrom (fun ts => ts.head?.map Token.kind = some k) (looseOperator nested power shape k) stack
      (afterRound stack stack) goesOn := by
  have hend : ∀ s : Shape, Reads (pure (.yield s)) stack (afterRound stack stack) := fun _ =>
    Reads.pure rfl
  unfold looseOperator
  split
  · split
    · exact Round.done
    · have hlast : Reads (do
          discard (nested ternaryPower)
          return ForInStep.yield Shape.value) stack (afterRound stack stack) :=
        (nested_reads hn _ stack).bind fun _ => hend _
      refine ReadsAt.take ⟨rfl, rfl⟩ (Reads.eat_ite ⟨rfl, rfl⟩ hlast ?_)
      exact (enclosed_reads hn ⟨rfl, rfl⟩).bind fun _ => hlast
  · split
    · exact Round.done
    · exact ReadsAt.take ⟨rfl, rfl⟩ ((classReference_steady hn stack).bind fun _ => hend _)
  · split
    · exact Round.done
    · rename_i hb
      split
      · exact Round.done
      · exact ReadsAt.take (binary?_turns hb stack) ((nested_reads hn _ stack).bind fun _ => hend _)

lemma assignment_reads (shape : Shape) {k : Kind} (hk : isAssignment k = true) (stack : List Symbol) :
    ReadsFrom (fun ts => ts.head?.map Token.kind = some k) (assignment nested shape k) stack
      (fun _ => stack) fun _ => true := by
  have hlast : Reads (do
      discard (nested assignmentPower)
      return Shape.value) stack (fun _ => stack) :=
    (nested_reads hn _ stack).bind fun _ => Reads.pure rfl
  unfold assignment
  split
  · refine ReadsAt.take (isAssignment_turns hk stack) ?_
    split
    · exact (Steady.optional (fun _ => ⟨rfl, rfl⟩) stack).bind fun _ => hlast
    · exact hlast
  · exact Reads.unexpected

lemma accessOr_reads (power : Nat) (shape : Shape) (k : Kind) (stack : List Symbol) :
    ReadsFrom (fun ts => ts.head?.map Token.kind = some k) (do
      match ← access? nested shape with
      | some next => return .yield next
      | none => looseOperator nested power shape k) stack (afterRound stack stack) goesOn := by
  refine ((access?_reads hn shape stack).at k).bind_of
    (Q := fun found ts => found = none → ts.head?.map Token.kind = some k) ?_ ?_ ?_
  · rintro (_ | first) x rest found hk h rfl
    · cases hk
    · rw [access?_none h]
      exact hk
  · rintro ts x rest found hk h rfl
    rw [List.append_cancel_right (access?_none h)]
    exact hk
  · rintro (_ | next)
    · exact (looseOperator_reads hn power shape k stack).mono (fun _ hk => hk rfl) fun _ hgoing =>
        (Bool.and_eq_true_iff.mp hgoing).1
    · exact .pure rfl rfl

lemma operator_round (power : Nat) (shape : Shape) (stack : List Symbol) :
    Round (operator nested power shape) stack stack stack := by
  refine Reads.peek Round.done (fun t rest => operator_fence nested shape power rest) fun k => ?_
  dsimp only
  split
  · rename_i hk
    exact (assignment_reads hn shape hk stack).after fun _ => Reads.pure rfl
  · split
    · exact accessOr_reads hn power shape k stack
    · exact looseOperator_reads hn power shape k stack

lemma expressionOver_steady (power : Nat) : Steady (expressionOver nested power) := by
  intro stack
  refine (operand_steady hn stack).bind fun shape => ?_
  exact Reads.iterate (fun shape => operator_round hn power shape stack) shape

lemma loopTarget_steady : Steady (loopTarget nested) := by
  intro stack
  refine (Steady.optional (fun _ => ⟨rfl, rfl⟩) stack).bind fun _ => ?_
  refine (hn _ stack).bind fun shape => ?_
  split
  · exact Reads.pure rfl
  · exact Reads.unexpected

lemma unsetClause_steady : Steady (unsetClause nested) := by
  intro stack
  refine (Reads.expectSpelled ⟨rfl, rfl⟩).bind fun _ => ?_
  refine (Reads.expectSpelled ⟨rfl, rfl⟩).bind fun _ => ?_
  exact writableList_reads hn stack

lemma tagClause_reads : Reads (clause nested .tag) [] (fun _ => []) :=
  Reads.sees_ite ⟨rfl, rfl⟩ (unsetClause_steady hn []) (hn _ []).discard

end

lemma expression_steady (levels power : Nat) : Steady (expression levels power) := by
  induction levels generalizing power with
  | zero => exact fun _ => Reads.failure (fun _ => .nestingTooDeep) (fun _ => rfl) fun _ => rfl
  | succ levels ih => exact expressionOver_steady ih power

def Inner (site : Site) (used : List Token) : Prop :=
  match site with
  | .loop => ∃ before word after, used = before ++ word :: after ∧ word.kind = .keyword .kwAs ∧
      Moves [] before [] ∧ Moves [] after []
  | .binding | .condition | .tag => Moves [] used []

def headKinds (site : Site) : List Kind :=
  match site.keyword? with
  | some k => [.keyword k, .symbol .openParen]
  | none => []

def tailKinds (site : Site) : List Kind :=
  match site.keyword? with
  | some _ => [.symbol .closeParen, .symbol .semicolon]
  | none => [.symbol .semicolon]

lemma loopClause_ok {ts rest : List Token} {u : Unit}
    (h : loopClause (expression maxDepth) ts = .ok (u, rest)) :
    ∃ used close, ts = used ++ close :: rest ∧ close.kind = .symbol .closeParen ∧
      Inner .loop used := by
  obtain ⟨_, t₁, h₁, hk₁⟩ := bind_ok.mp h
  obtain ⟨_, t₂, h₂, hk₂⟩ := bind_ok.mp hk₁
  obtain ⟨_, t₃, h₃, hk₃⟩ := bind_ok.mp hk₂
  obtain ⟨before, rfl, hbefore⟩ := (expression_steady _ _ []).discard.moves trivial h₁
  obtain ⟨word, rfl, hword⟩ := expectSpelled_ok h₂
  obtain ⟨target, rfl, htarget⟩ := (loopTarget_steady (expression_steady _) []).moves trivial h₃
  obtain ⟨found, t₄, h₄, hk₄⟩ := bind_ok.mp hk₃
  rcases eat_ok h₄ with ⟨rfl, arrow, rfl, harrow⟩ | ⟨rfl, rfl⟩
  · obtain ⟨_, t₅, h₅, hk₅⟩ := bind_ok.mp hk₄
    obtain ⟨second, rfl, hsecond⟩ := (loopTarget_steady (expression_steady _) []).moves trivial h₅
    obtain ⟨close, rfl, hclose⟩ := expectSpelled_ok hk₅
    refine ⟨before ++ word :: (target ++ arrow :: second), close, by simp, hclose,
      before, word, _, rfl, hword, hbefore, ?_⟩
    exact htarget.append ((Moves.one (by rw [harrow]; rfl) (by rw [harrow]; rfl)).append hsecond)
  · obtain ⟨close, rfl, hclose⟩ := expectSpelled_ok hk₄
    exact ⟨before ++ word :: target, close, by simp, hclose, before, word, _, rfl, hword, hbefore,
      htarget⟩

lemma statement_clause {nested : Nat → Reader Shape} {site : Site} {ts rest : List Token} {u : Unit}
    (h : statement nested site ts = .ok (u, rest)) :
    ∃ semi, clause nested site ts = .ok ((), [semi]) ∧ semi.kind = .symbol .semicolon := by
  obtain ⟨_, t₁, hclause, hk₁⟩ := bind_ok.mp h
  obtain ⟨_, t₂, hsemi, hk₂⟩ := bind_ok.mp hk₁
  obtain ⟨semi, rfl, hkind⟩ := expectSpelled_ok hsemi
  obtain ⟨found, t₃, hpeek, hk₃⟩ := bind_ok.mp hk₂
  obtain ⟨rfl, rfl⟩ := peek_ok.mp hpeek
  cases t₃ with
  | nil => exact ⟨semi, hclause, hkind⟩
  | cons t ts => exact (unexpected_ok.mp hk₃).elim

lemma statement_ok {site : Site} {ts rest : List Token} {u : Unit}
    (h : statement (expression maxDepth) site ts = .ok (u, rest)) :
    ∃ front used back, ts = front ++ used ++ back ∧ front.map Token.kind = headKinds site ∧
      back.map Token.kind = tailKinds site ∧ Inner site used := by
  obtain ⟨semi, hclause, hkind⟩ := statement_clause h
  cases site with
  | binding =>
    obtain ⟨used, rfl, hm⟩ := (expression_steady _ _ []).discard.moves trivial hclause
    exact ⟨[], used, [semi], rfl, rfl, by simp [tailKinds, Site.keyword?, hkind], hm⟩
  | tag =>
    obtain ⟨used, rfl, hm⟩ := (tagClause_reads (expression_steady _)).moves trivial hclause
    exact ⟨[], used, [semi], rfl, rfl, by simp [tailKinds, Site.keyword?, hkind], hm⟩
  | condition =>
    obtain ⟨_, t₃, hif, hk₃⟩ := bind_ok.mp hclause
    obtain ⟨_, t₄, hopen, hk₄⟩ := bind_ok.mp hk₃
    obtain ⟨_, t₅, hexpr, hclose⟩ := bind_ok.mp hk₄
    obtain ⟨first, rfl, hfirst⟩ := expectSpelled_ok hif
    obtain ⟨second, rfl, hsecond⟩ := expectSpelled_ok hopen
    obtain ⟨used, rfl, hm⟩ := (expression_steady _ _ []).discard.moves trivial hexpr
    obtain ⟨close, rfl, hc⟩ := expectSpelled_ok hclose
    exact ⟨[first, second], used, [close, semi], by simp,
      by simp [headKinds, Site.keyword?, hfirst, hsecond],
      by simp [tailKinds, Site.keyword?, hkind, hc], hm⟩
  | loop =>
    obtain ⟨_, t₃, hfor, hk₃⟩ := bind_ok.mp hclause
    obtain ⟨_, t₄, hopen, hk₄⟩ := bind_ok.mp hk₃
    obtain ⟨first, rfl, hfirst⟩ := expectSpelled_ok hfor
    obtain ⟨second, rfl, hsecond⟩ := expectSpelled_ok hopen
    obtain ⟨used, close, rfl, hc, hi⟩ := loopClause_ok hk₄
    exact ⟨[first, second], used, [close, semi], by simp,
      by simp [headKinds, Site.keyword?, hfirst, hsecond],
      by simp [tailKinds, Site.keyword?, hkind, hc], hi⟩

lemma check_ok {site : Site} {tokens : List Token} {u : Unit} (h : check site tokens = .ok u) :
    ∃ front used back, (tokens.filter fun t => !t.isTrivia) = front ++ used ++ back ∧
      front.map Token.kind = headKinds site ∧ back.map Token.kind = tailKinds site ∧
      Inner site used := by
  unfold check at h
  split at h
  · rename_i hs
    exact statement_ok hs
  · cases h

def BlamesSyntax {α : Type} (p : Reader α) : Prop :=
  ∀ ts fault, p ts = .error fault → isSyntaxFault fault = true

lemma BlamesSyntax.bind {α β : Type} {p : Reader α} {f : α → Reader β} (hp : BlamesSyntax p)
    (hf : ∀ a, BlamesSyntax (f a)) : BlamesSyntax (p >>= f) := by
  intro ts fault h
  rcases bind_error.mp h with herror | ⟨a, mid, -, hrest⟩
  · exact hp ts fault herror
  · exact hf a mid fault hrest

lemma BlamesSyntax.of_reads {α : Type} {p : Reader α} {start : List Symbol} {stop : α → List Symbol}
    (h : Reads p start stop) : BlamesSyntax p :=
  fun _ _ herror => h.faults trivial herror

lemma expectSpelled_blames (k : Kind) (spelling : String) : BlamesSyntax (expectSpelled k spelling) := by
  intro ts fault h
  rw [expectSpelled_eq] at h
  split at h
  · cases h
  · cases h
    rfl

lemma eat_blames (k : Kind) : BlamesSyntax (eat k) := by
  intro ts fault h
  rw [eat_eq] at h
  split at h <;> cases h

lemma loopClause_blames : BlamesSyntax (loopClause (expression maxDepth)) := by
  refine (BlamesSyntax.of_reads (expression_steady _ _ []).discard).bind fun _ => ?_
  refine (expectSpelled_blames _ _).bind fun _ => ?_
  refine (BlamesSyntax.of_reads (loopTarget_steady (expression_steady _) [])).bind fun _ => ?_
  refine (eat_blames _).bind fun found => ?_
  cases found with
  | false => exact expectSpelled_blames _ _
  | true =>
    exact (BlamesSyntax.of_reads (loopTarget_steady (expression_steady _) [])).bind fun _ => expectSpelled_blames _ _

lemma clause_blames (site : Site) : BlamesSyntax (clause (expression maxDepth) site) := by
  have hexpression : BlamesSyntax (discard (expression maxDepth 0)) :=
    .of_reads (expression_steady _ _ []).discard
  cases site with
  | binding => exact hexpression
  | tag => exact .of_reads (tagClause_reads (expression_steady _))
  | condition =>
    refine (expectSpelled_blames _ _).bind fun _ => (expectSpelled_blames _ _).bind fun _ => ?_
    exact hexpression.bind fun _ => expectSpelled_blames _ _
  | loop =>
    exact (expectSpelled_blames _ _).bind fun _ => (expectSpelled_blames _ _).bind fun _ =>
      loopClause_blames

lemma statement_blames (site : Site) : BlamesSyntax (statement (expression maxDepth) site) := by
  refine (clause_blames site).bind fun _ => (expectSpelled_blames _ _).bind fun _ => ?_
  refine BlamesSyntax.bind (fun _ _ h => by cases h) fun next => ?_
  cases next with
  | none => exact fun _ _ h => by cases h
  | some k =>
    have hread : Reads (unexpected : Reader Unit) [] (fun _ => []) := Reads.unexpected
    exact .of_reads hread

lemma check_fault {site : Site} {tokens : List Token} {fault : Fault}
    (h : check site tokens = .error fault) : isSyntaxFault fault = true := by
  unfold check at h
  split at h
  · cases h
  · rename_i herror
    cases h
    exact statement_blames site _ _ herror

end Stencil.Code.Statement

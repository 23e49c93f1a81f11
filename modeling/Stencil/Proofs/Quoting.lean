import Stencil.Expression.DotAccess
import Stencil.Proofs.Locality
import Mathlib.Tactic.Common

namespace Stencil.Expression.DotAccess

open Code.Lexer

def isQuote (c : Char) : Bool :=
  c == '\'' || c == '"'

lemma isQuote_iff {c : Char} : isQuote c = true ↔ c = '\'' ∨ c = '"' := by
  rw [isQuote, Bool.or_eq_true, beq_iff_eq, beq_iff_eq]

lemma ne_escape_of_isQuote {c : Char} (h : isQuote c = true) : c ≠ '\\' :=
  ne_of_class h (by decide)

lemma literalWidth_le (quote : Char) (cs : Text) : literalWidth quote cs ≤ cs.length := by
  unfold literalWidth
  cases h : quotedWidth? quote cs with
  | none => exact Nat.le_refl _
  | some width => exact quotedWidth?_le h

lemma literalWidth_swap {quote : Char} {body rest : Text} (hq : isQuote quote = true)
    (h : literalWidth quote (body ++ rest) = body.length) {rest' : Text} (hr : rest = [] → rest' = []) :
    literalWidth quote (body ++ rest') = body.length := by
  unfold literalWidth at h ⊢
  cases hw : quotedWidth? quote (body ++ rest) with
  | none =>
    rw [hw, Option.getD_none, List.length_append] at h
    have hnil : rest = [] := List.length_eq_zero_iff.mp (by omega)
    rw [hr hnil, ← hnil, hw, Option.getD_none, hnil, List.append_nil]
  | some width =>
    rw [hw, Option.getD_some] at h
    subst h
    rw [quotedWidth?_append (ne_escape_of_isQuote hq) (quotedWidth?_of_append hw (Nat.le_refl _)),
      Option.getD_some]

lemma quotedWidth?_closed {quote : Char} {body : Text} (h : ∀ c ∈ body, c ≠ '\\' ∧ c ≠ quote)
    (hq : quote ≠ '\\') (rest : Text) :
    quotedWidth? quote (body ++ quote :: rest) = some (body.length + 1) := by
  induction body with
  | nil => rw [List.nil_append, quotedWidth?_plain _ hq, if_pos rfl, List.length_nil]
  | cons c body ih =>
    obtain ⟨hc, hne⟩ := h c List.mem_cons_self
    rw [List.cons_append, quotedWidth?_plain _ hc, if_neg hne,
      ih fun d hd => h d (List.mem_cons_of_mem _ hd), Option.map_some, List.length_cons]

lemma groupWidth_plain {depth : Nat} {cs : Text}
    (h : ∀ c ∈ cs, isQuote c = false ∧ c ≠ '[' ∧ c ≠ ']') (rest : Text) :
    groupWidth depth (cs ++ rest) = cs.length + groupWidth depth rest := by
  induction cs with
  | nil => rw [List.nil_append, List.length_nil, Nat.zero_add]
  | cons c cs ih =>
    obtain ⟨hq, hb, hc⟩ := h c List.mem_cons_self
    rw [List.cons_append, groupWidth, if_neg (by rw [← isQuote_iff, hq]; exact Bool.false_ne_true),
      if_neg hb, if_neg hc, ih fun d hd => h d (List.mem_cons_of_mem _ hd), List.length_cons]
    omega

lemma groupWidth_le (depth : Nat) (cs : Text) : groupWidth depth cs ≤ cs.length := by
  fun_induction groupWidth depth cs with
  | case1 => exact Nat.le_refl _
  | case2 depth c rest hc width ih =>
    have := literalWidth_le c rest
    rw [List.length_drop] at ih
    rw [List.length_cons]
    omega
  | case3 | case4 | case5 | case6 =>
    rw [List.length_cons]
    omega

/-- Reading a text to the end of `passed` leads out of the literals in it. -/
inductive Outside : Text → Text → Prop where
  | here {rest : Text} : Outside [] rest
  | literal {quote : Char} {body passed rest : Text} (hq : isQuote quote = true)
      (h : literalWidth quote (body ++ (passed ++ rest)) = body.length) (hr : Outside passed rest) :
      Outside (quote :: (body ++ passed)) rest
  | plain {c : Char} {passed rest : Text} (hq : isQuote c = false) (hr : Outside passed rest) :
      Outside (c :: passed) rest

namespace Outside

variable {xs ys rest : Text}

lemma append (h : Outside xs (ys ++ rest)) (g : Outside ys rest) : Outside (xs ++ ys) rest := by
  generalize hz : ys ++ rest = zs at h
  induction h with
  | here => exact g
  | @literal quote body passed _ hq hw _ ih =>
    subst hz
    rw [← List.append_assoc passed] at hw
    rw [List.cons_append, List.append_assoc]
    exact .literal hq hw (ih rfl)
  | plain hq _ ih =>
    subst hz
    exact .plain hq (ih rfl)

lemma swap (h : Outside xs rest) {rest' : Text} (hr : rest = [] → rest' = []) : Outside xs rest' := by
  induction h with
  | here => exact .here
  | @literal quote body passed rest hq hw _ ih =>
    refine .literal hq (literalWidth_swap hq hw ?_) (ih hr)
    intro hnil
    obtain ⟨rfl, hrest⟩ := List.append_eq_nil_iff.mp hnil
    exact hr hrest
  | plain hq _ ih => exact .plain hq (ih hr)

lemma of_plain (h : ∀ c ∈ xs, isQuote c = false) : Outside xs rest := by
  induction xs with
  | nil => exact .here
  | cons c xs ih =>
    exact .plain (h c List.mem_cons_self) (ih fun d hd => h d (List.mem_cons_of_mem _ hd))

lemma quoted {quote : Char} {body passed : Text} (hq : isQuote quote = true)
    (hw : literalWidth quote (body ++ ys) = body.length) (h : Outside passed rest)
    (heq : passed ++ rest = quote :: (body ++ ys)) :
    passed = [] ∨ ∃ more, passed = quote :: (body ++ more) ∧ Outside more rest := by
  cases h with
  | here => exact Or.inl rfl
  | @literal quote' body' more _ hq' hw' hr =>
    rw [List.cons_append, List.append_assoc] at heq
    obtain ⟨rfl, htail⟩ := List.cons.inj heq
    rw [htail, hw] at hw'
    obtain ⟨rfl, -⟩ := List.append_inj htail hw'.symm
    exact Or.inr ⟨more, rfl, hr⟩
  | plain hq' hr =>
    obtain ⟨rfl, -⟩ := List.cons.inj heq
    rw [hq] at hq'
    cases hq'

lemma unquoted {c : Char} {passed : Text} (hq : isQuote c = false) (h : Outside (c :: passed) rest) :
    Outside passed rest := by
  generalize hcs : c :: passed = cs at h
  cases h with
  | here => cases hcs
  | literal hq' =>
    obtain ⟨rfl, -⟩ := List.cons.inj hcs
    rw [hq] at hq'
    cases hq'
  | plain _ hr =>
    obtain ⟨-, rfl⟩ := List.cons.inj hcs
    exact hr

lemma tail (h : Outside xs (ys ++ rest)) (g : Outside (xs ++ ys) rest) : Outside ys rest := by
  generalize hz : ys ++ rest = zs at h
  induction h with
  | here => exact g
  | @literal quote body passed _ hq hw _ ih =>
    subst hz
    rw [List.cons_append, List.append_assoc] at g
    rcases g.quoted hq hw (by simp) with hnil | ⟨more, hmore, hr⟩
    · cases hnil
    · rw [← List.append_cancel_left (List.cons.inj hmore).2] at hr
      exact ih hr rfl
  | plain hq _ ih =>
    subst hz
    exact ih (g.unquoted hq) rfl

lemma of_literal {quote : Char} {body rest : Text} (hq : isQuote quote = true)
    (h : literalWidth quote (body ++ rest) = body.length) : Outside (quote :: body) rest := by
  have hliteral : Outside (quote :: (body ++ [])) rest := .literal hq h .here
  rwa [List.append_nil] at hliteral

lemma piece {before after piece out : Text} (h : Outside before after)
    (heq : before ++ after = piece ++ out) (hp : Outside piece out) :
    (∃ c mid, piece = before ++ c :: mid ∧ after = c :: mid ++ out) ∨
      ∃ more, before = piece ++ more ∧ more ++ after = out ∧ Outside more after := by
  rcases List.append_eq_append_iff.mp heq with ⟨mid, hpiece, hafter⟩ | ⟨more, hbefore, hout⟩
  · cases mid with
    | nil =>
      rw [List.append_nil] at hpiece
      subst hpiece
      exact Or.inr ⟨[], by simp, hafter, .here⟩
    | cons c mid => exact Or.inl ⟨c, mid, hpiece, hafter⟩
  · subst hbefore hout
    exact Or.inr ⟨more, rfl, rfl, hp.tail h⟩

end Outside

section

variable {depth : Nat} {c : Char} {cs : Text}

lemma take_group (width more : Nat) :
    (c :: cs).take (1 + width + more) = c :: (cs.take width ++ (cs.drop width).take more) := by
  rw [Nat.add_assoc, Nat.add_comm 1, List.take_succ_cons, List.take_add]

lemma drop_group (width more : Nat) :
    (c :: cs).drop (1 + width + more) = (cs.drop width).drop more := by
  rw [Nat.add_assoc, Nat.add_comm 1, List.drop_succ_cons, List.drop_drop]

lemma group_outside (depth : Nat) (cs : Text) :
    Outside (cs.take (groupWidth depth cs)) (cs.drop (groupWidth depth cs)) := by
  fun_induction groupWidth depth cs with
  | case1 => exact .here
  | case2 depth c cs hc width ih =>
    rw [take_group, drop_group]
    refine .literal (isQuote_iff.mpr hc) ?_ ih
    rw [List.take_append_drop, List.take_append_drop, List.length_take]
    exact (Nat.min_eq_left (literalWidth_le _ _)).symm
  | case3 depth cs _ ih =>
    rw [Nat.add_comm 1, List.take_succ_cons, List.drop_succ_cons]
    exact .plain rfl ih
  | case4 depth cs _ _ hd => exact .plain rfl .here
  | case5 depth cs _ _ hd ih =>
    rw [Nat.add_comm 1, List.take_succ_cons, List.drop_succ_cons]
    exact .plain rfl ih
  | case6 depth c cs hq _ _ ih =>
    rw [Nat.add_comm 1, List.take_succ_cons, List.drop_succ_cons]
    exact .plain (by simpa [isQuote] using hq) ih

lemma groupWidth_closed (h : groupWidth depth cs < cs.length) (rest : Text) :
    groupWidth depth (cs.take (groupWidth depth cs) ++ rest) = groupWidth depth cs := by
  fun_induction groupWidth depth cs with
  | case1 => cases h
  | case2 depth c cs hc width ih =>
    rw [List.length_cons] at h
    have hwidth : width ≤ cs.length := literalWidth_le c cs
    have hlength : (cs.take width).length = width := List.length_take_of_le hwidth
    have hmore : groupWidth depth (cs.drop width) < (cs.drop width).length := by
      rw [List.length_drop]
      omega
    have hbody : literalWidth c (cs.take width ++ cs.drop width) = (cs.take width).length := by
      rw [List.take_append_drop, hlength]
    have hne : cs.drop width ≠ [] := List.ne_nil_of_length_pos (by omega)
    have hliteral : literalWidth c (cs.take width ++
        ((cs.drop width).take (groupWidth depth (cs.drop width)) ++ rest)) = (cs.take width).length :=
      literalWidth_swap (isQuote_iff.mpr hc) hbody fun hnil => absurd hnil hne
    rw [take_group, List.cons_append, List.append_assoc, groupWidth, if_pos hc]
    dsimp only
    rw [hliteral, hlength, List.drop_left' hlength, ih hmore]
  | case3 depth cs hc ih =>
    rw [List.length_cons] at h
    rw [Nat.add_comm 1, List.take_succ_cons, List.cons_append, groupWidth, if_neg hc, if_pos rfl,
      ih (by omega), Nat.add_comm]
  | case4 depth cs hd hc hb =>
    rw [List.take_succ_cons, List.cons_append, groupWidth, if_neg hc, if_neg hb, if_pos rfl, if_pos hd]
  | case5 depth cs hd hc hb ih =>
    rw [List.length_cons] at h
    rw [Nat.add_comm 1, List.take_succ_cons, List.cons_append, groupWidth, if_neg hc, if_neg hb,
      if_pos rfl, if_neg hd, ih (by omega), Nat.add_comm]
  | case6 depth c cs hc hb he ih =>
    rw [List.length_cons] at h
    rw [Nat.add_comm 1, List.take_succ_cons, List.cons_append, groupWidth, if_neg hc, if_neg hb,
      if_neg he, ih (by omega), Nat.add_comm]

end

section

variable {depth : Nat} {inner rest : Text} (h : groupWidth depth (inner ++ rest) = inner.length)
include h

lemma groupWidth_swap {rest' : Text} (hr : rest = [] → rest' = []) :
    groupWidth depth (inner ++ rest') = inner.length := by
  cases rest with
  | nil => rwa [hr rfl]
  | cons c rest =>
    have hshort : groupWidth depth (inner ++ c :: rest) < (inner ++ c :: rest).length := by simp [h]
    have hclosed := groupWidth_closed hshort rest'
    rwa [h, List.take_left] at hclosed

lemma outside_of_groupWidth : Outside inner rest := by
  have hout := group_outside depth (inner ++ rest)
  rwa [h, List.take_left, List.drop_left] at hout

end

def literals (cs : Text) : List Text :=
  match cs with
  | [] => []
  | c :: rest =>
    if isQuote c then
      let width := literalWidth c rest
      (c :: rest.take width) :: literals (rest.drop width)
    else literals rest
termination_by cs.length
decreasing_by
  all_goals simp only [List.length_drop, List.length_cons]
  all_goals omega

lemma literals_quoted {quote : Char} {body rest : Text} (hq : isQuote quote = true)
    (h : literalWidth quote (body ++ rest) = body.length) :
    literals (quote :: (body ++ rest)) = (quote :: body) :: literals rest := by
  rw [literals, if_pos hq]
  dsimp only
  rw [h, List.take_left, List.drop_left]

lemma literals_plain {c : Char} (h : isQuote c = false) (rest : Text) :
    literals (c :: rest) = literals rest := by
  rw [literals, if_neg (by rw [h]; exact Bool.false_ne_true)]

lemma Outside.literals_append {passed rest : Text} (h : Outside passed rest) :
    literals (passed ++ rest) = literals passed ++ literals rest := by
  induction h with
  | here => rw [List.nil_append, literals, List.nil_append]
  | @literal quote body passed rest hq hw _ ih =>
    have hclosed : literalWidth quote (body ++ passed) = body.length :=
      literalWidth_swap hq hw fun hnil => (List.append_eq_nil_iff.mp hnil).1
    rw [List.cons_append, List.append_assoc, literals_quoted hq hw, literals_quoted hq hclosed, ih,
      List.cons_append]
  | plain hq _ ih => rw [List.cons_append, literals_plain hq, literals_plain hq, ih]

lemma literals_of_plain {cs : Text} (h : ∀ c ∈ cs, isQuote c = false) : literals cs = [] := by
  induction cs with
  | nil => rw [literals]
  | cons c cs ih =>
    rw [literals_plain (h c List.mem_cons_self), ih fun d hd => h d (List.mem_cons_of_mem _ hd)]

end Stencil.Expression.DotAccess

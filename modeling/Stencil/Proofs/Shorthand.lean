import Stencil.Proofs.Quoting
import Mathlib.Tactic.Common

namespace Stencil.Expression.DotAccess

open Code.Lexer

def startsMember : Text → Bool
  | '$' :: c :: _ => isNameStart c
  | c :: _ => c.isDigit || isNameStart c
  | [] => false

def opensOffset : Text → Bool
  | '[' :: _ => true
  | '.' :: rest => startsMember rest
  | _ => false

lemma opensOffset_cons {c : Char} {cs : Text} (hb : c ≠ '[') (hd : c ≠ '.') :
    opensOffset (c :: cs) = false :=
  opensOffset.eq_3 _ (fun _ h => hb (List.cons.inj h).1) fun _ h => hd (List.cons.inj h).1

lemma isNameChar_of_isNameStart {c : Char} (h : isNameStart c = true) : isNameChar c = true := by
  rw [isNameChar, h, Bool.true_or]

lemma isNameChar_of_isDigit {c : Char} (h : c.isDigit = true) : isNameChar c = true := by
  rw [isNameChar, h, Bool.or_true]

lemma isQuote_of_isNameChar {c : Char} (h : isNameChar c = true) : isQuote c = false := by
  rw [Bool.eq_false_iff, ne_eq, isQuote_iff, not_or]
  exact ⟨ne_of_class h (by decide), ne_of_class h (by decide)⟩

inductive Member : Text → Text → Prop where
  | name {spelled : Text} (h : ∀ c ∈ spelled, isNameChar c = true) :
      Member spelled ('[' :: '\'' :: spelled ++ ['\'', ']'])
  | key {spelled : Text} (h : ∀ c ∈ spelled, isNameChar c = true ∨ c = '$') :
      Member spelled ('[' :: spelled ++ [']'])

lemma startsMember_cons {c : Char} {cs : Text} (h : ∀ d ds, c = '$' → cs = d :: ds → False) :
    startsMember (c :: cs) = (c.isDigit || isNameStart c) :=
  startsMember.eq_2 c cs h

lemma forall_mem_name {p : Char → Bool} {c : Char} (cs : Text) (hc : isNameChar c = true)
    (hp : ∀ d, p d = true → isNameChar d = true) :
    ∀ d ∈ c :: cs.takeWhile p, isNameChar d = true := by
  intro d hd
  rcases List.mem_cons.mp hd with rfl | hd
  · exact hc
  · exact hp d (List.mem_takeWhile_imp hd)

lemma member?_spec (cs : Text) :
    (startsMember cs = false ∧ member? cs = none) ∨
      ∃ spelled rest offset, cs = spelled ++ rest ∧ startsMember cs = true ∧ Member spelled offset ∧
        member? cs = some (offset, spelled.length) := by
  fun_cases member? cs with
  | case1 c cs hc name =>
    refine Or.inr ⟨name, cs.dropWhile isNameChar, _, by simp [name], hc, .key ?_, rfl⟩
    intro d hd
    rcases List.mem_cons.mp hd with rfl | hd
    · exact Or.inr rfl
    · exact Or.inl (forall_mem_name cs (isNameChar_of_isNameStart hc) (fun _ => id) d hd)
  | case2 c cs hc => exact Or.inl ⟨by simpa [startsMember] using hc, rfl⟩
  | case3 c cs hno hd digits =>
    refine Or.inr ⟨digits, cs.dropWhile Char.isDigit, _, by simp [digits], ?_, .key ?_, rfl⟩
    · rw [startsMember_cons hno, hd, Bool.true_or]
    · intro d hmem
      exact Or.inl (forall_mem_name cs (isNameChar_of_isDigit hd)
        (fun _ => isNameChar_of_isDigit) d hmem)
  | case4 c cs hno hd hs name =>
    refine Or.inr ⟨name, cs.dropWhile isNameChar, _, by simp [name], ?_, .name ?_, rfl⟩
    · rw [startsMember_cons hno, hs, Bool.or_true]
    · exact forall_mem_name cs (isNameChar_of_isNameStart hs) fun _ => id
  | case5 c cs hno hd hs =>
    refine Or.inl ⟨?_, rfl⟩
    rw [startsMember_cons hno, Bool.eq_false_iff.mpr hd, Bool.eq_false_iff.mpr hs, Bool.or_false]
  | case6 => exact Or.inl ⟨rfl, rfl⟩

structure Named (letters rest : Text) : Prop where
  first : letters.head?.any isNameStart = true
  chars : ∀ c ∈ letters, isNameChar c = true
  ends : rest.head?.any isNameChar = false

inductive Offsets : Text → Text → Text → Prop where
  | stop {cs : Text} (h : opensOffset cs = false) : Offsets cs [] cs
  | group {inner rest out left : Text} (h : groupWidth 1 (inner ++ rest) = inner.length)
      (hr : Offsets rest out left) : Offsets ('[' :: (inner ++ rest)) ('[' :: (inner ++ out)) left
  | member {spelled offset rest out left : Text}
      (h : member? (spelled ++ rest) = some (offset, spelled.length)) (hm : Member spelled offset)
      (hr : Offsets rest out left) : Offsets ('.' :: (spelled ++ rest)) (offset ++ out) left

inductive Expansion : Text → Text → Text → Prop where
  | nil {written : Text} : Expansion written [] []
  | literal {written body rest out : Text} {quote : Char} (hq : isQuote quote = true)
      (h : literalWidth quote (body ++ rest) = body.length)
      (hr : Expansion (body.reverse ++ quote :: written) rest out) :
      Expansion written (quote :: (body ++ rest)) (quote :: (body ++ out))
  | member {written letters rest out : Text} (hn : Named letters rest)
      (hm : endsInMemberOperator written = true)
      (hr : Expansion (('$' :: letters).reverse ++ written) rest out) :
      Expansion written ('$' :: (letters ++ rest)) ('$' :: (letters ++ out))
  | access {written letters rest offsets left out : Text} (hn : Named letters rest)
      (hm : endsInMemberOperator written = false) (ho : Offsets rest offsets left)
      (hr : Expansion (offsets.reverse ++ (('$' :: letters).reverse ++ written)) left out) :
      Expansion written ('$' :: (letters ++ rest)) ('$' :: (letters ++ (offsets ++ out)))
  | plain {written rest out : Text} {c : Char} (hq : isQuote c = false)
      (hv : ¬(c = '$' ∧ rest.head?.any isNameStart = true))
      (hr : Expansion (c :: written) rest out) : Expansion written (c :: rest) (c :: out)

lemma exists_offsets (cs : Text) : ∃ out left, Offsets cs out left := by
  fun_induction accesses cs with
  | case1 rest width _ _ _ ih =>
    obtain ⟨out, left, hout⟩ := ih
    have hlength : (rest.take width).length = width := List.length_take_of_le (groupWidth_le 1 rest)
    have hgroup : groupWidth 1 (rest.take width ++ rest.drop width) = (rest.take width).length := by
      rw [List.take_append_drop, hlength]
    have hoffsets := Offsets.group hgroup hout
    rw [List.take_append_drop] at hoffsets
    exact ⟨_, _, hoffsets⟩
  | case2 rest offset width hm _ _ _ ih =>
    obtain ⟨out, left, hout⟩ := ih
    rcases member?_spec rest with ⟨-, hnone⟩ | ⟨spelled, more, offset', rfl, -, hspells, hsome⟩
    · rw [hm] at hnone
      cases hnone
    · rw [hm] at hsome
      cases hsome
      rw [List.drop_left] at hout
      exact ⟨_, _, .member hm hspells hout⟩
  | case3 rest hm =>
    rcases member?_spec rest with ⟨hstarts, -⟩ | ⟨_, _, _, _, -, -, hsome⟩
    · exact ⟨_, _, .stop hstarts⟩
    · rw [hm] at hsome
      cases hsome
  | case4 cs hb hd => exact ⟨_, _, .stop (opensOffset.eq_3 cs hb hd)⟩

lemma Offsets.accesses_eq {cs out left : Text} (h : Offsets cs out left) :
    accesses cs = (out, left) := by
  induction h with
  | @stop cs h =>
    rw [accesses.eq_def]
    split
    · cases h
    · rename_i rest
      rcases member?_spec rest with ⟨-, hnone⟩ | ⟨_, _, _, _, hstarts, -⟩
      · rw [hnone]
      · rw [opensOffset, hstarts] at h
        cases h
    · rfl
  | group h _ ih =>
    rw [accesses]
    dsimp only
    rw [h, List.drop_left, List.take_left, ih, List.cons_append]
  | member h _ _ ih =>
    rw [accesses, h]
    dsimp only
    rw [List.drop_left, ih]

lemma Named.takeWhile {letters rest : Text} (h : Named letters rest) :
    (letters ++ rest).takeWhile isNameChar = letters := by
  rw [List.takeWhile_append_of_pos h.chars]
  cases rest with
  | nil => exact List.append_nil _
  | cons c rest =>
    rw [List.takeWhile_cons_of_neg (by simpa using h.ends), List.append_nil]

lemma Named.dropWhile {letters rest : Text} (h : Named letters rest) :
    (letters ++ rest).dropWhile isNameChar = rest := by
  have hsplit := List.takeWhile_append_dropWhile (p := isNameChar) (l := letters ++ rest)
  rw [h.takeWhile] at hsplit
  exact List.append_cancel_left hsplit

lemma named_run {cs : Text} (h : cs.head?.any isNameStart = true) :
    Named (cs.takeWhile isNameChar) (cs.dropWhile isNameChar) := by
  refine ⟨?_, fun c hc => List.mem_takeWhile_imp hc, ?_⟩
  · cases cs with
    | nil => cases h
    | cons c cs =>
      have hc : isNameStart c = true := h
      rw [List.takeWhile_cons_of_pos (isNameChar_of_isNameStart hc)]
      exact hc
  · have hnot := List.head?_dropWhile_not isNameChar cs
    revert hnot
    cases (cs.dropWhile isNameChar).head? <;> simp

lemma exists_expansion (written cs : Text) : ∃ out, Expansion written cs out := by
  fun_induction expandAfter written cs with
  | case1 written => exact ⟨_, .nil⟩
  | case2 written c rest hc width ih =>
    obtain ⟨out, hout⟩ := ih
    have hbody : literalWidth c (rest.take width ++ rest.drop width) = (rest.take width).length := by
      rw [List.take_append_drop, List.length_take_of_le (literalWidth_le c rest)]
    have hliteral := Expansion.literal (isQuote_iff.mpr hc) hbody hout
    rw [List.take_append_drop] at hliteral
    exact ⟨_, hliteral⟩
  | case3 written c rest hq hv width name hm ih =>
    obtain ⟨out, hout⟩ := ih
    obtain ⟨rfl, hstart⟩ := hv
    rw [Text.drop_run] at hout
    have hmember := Expansion.member (named_run hstart) hm (by rwa [← Text.take_run])
    rw [List.takeWhile_append_dropWhile] at hmember
    exact ⟨_, hmember⟩
  | case4 written c rest hq hv width name hm offsets ih =>
    obtain ⟨out, hout⟩ := ih
    obtain ⟨rfl, hstart⟩ := hv
    obtain ⟨expanded, left, hoffsets⟩ := exists_offsets (rest.dropWhile isNameChar)
    have hread : offsets = (expanded, left) := by
      rw [← hoffsets.accesses_eq, ← Text.drop_run]
    rw [hread] at hout
    have haccess := Expansion.access (named_run hstart) (Bool.eq_false_iff.mpr hm) hoffsets
      (by rwa [← Text.take_run])
    rw [List.takeWhile_append_dropWhile] at haccess
    exact ⟨_, haccess⟩
  | case5 written c rest hq hv ih =>
    obtain ⟨out, hout⟩ := ih
    exact ⟨_, .plain (Bool.eq_false_iff.mpr fun h => hq (isQuote_iff.mp h)) hv hout⟩

lemma Named.head?_append {letters rest : Text} (h : Named letters rest) (more : Text) :
    (letters ++ more).head?.any isNameStart = true := by
  cases letters with
  | nil => cases h.first
  | cons c letters => exact h.first

lemma Expansion.expandAfter_eq {written cs out : Text} (h : Expansion written cs out) :
    expandAfter written cs = written.reverse ++ out := by
  induction h with
  | nil => rw [expandAfter, List.append_nil]
  | literal hq h _ ih =>
    rw [expandAfter, if_pos (isQuote_iff.mp hq)]
    dsimp only
    rw [h, List.take_left, List.drop_left, ih]
    simp
  | member hn hm _ ih =>
    rw [expandAfter, if_neg (by decide), if_pos ⟨rfl, hn.head?_append _⟩]
    dsimp only
    rw [if_pos hm, Text.take_run, Text.drop_run, hn.takeWhile, hn.dropWhile, ih]
    simp
  | access hn hm ho _ ih =>
    rw [expandAfter, if_neg (by decide), if_pos ⟨rfl, hn.head?_append _⟩]
    dsimp only
    rw [if_neg (by rw [hm]; exact Bool.false_ne_true), Text.take_run, Text.drop_run, hn.takeWhile,
      hn.dropWhile, ho.accesses_eq, ih]
    simp
  | plain hq hv _ ih =>
    rw [expandAfter, if_neg (by rw [← isQuote_iff, hq]; exact Bool.false_ne_true), if_neg hv, ih,
      List.reverse_cons, List.append_assoc, List.singleton_append]

lemma expand_eq_iff {source out : Text} : expand source = out ↔ Expansion [] source out := by
  constructor
  · rintro rfl
    obtain ⟨out, hout⟩ := exists_expansion [] source
    rwa [expand, hout.expandAfter_eq]
  · exact fun h => h.expandAfter_eq

namespace Expansion

variable {written cs out : Text}

lemma eq_nil (h : Expansion written cs out) (hcs : cs = []) : out = [] := by
  cases h with
  | nil => rfl
  | _ => cases hcs

lemma head? (h : Expansion written cs out) : out.head? = cs.head? := by
  cases h <;> rfl

lemma startsMember (h : Expansion written cs out) : startsMember out = startsMember cs := by
  cases h with
  | nil => rfl
  | literal hq =>
    have hne := ne_of_class hq (show isQuote '$' = false by decide)
    rw [startsMember_cons fun _ _ hc => absurd hc hne, startsMember_cons fun _ _ hc => absurd hc hne]
  | @member _ letters _ _ hn =>
    cases letters with
    | nil => cases hn.first
    | cons => rfl
  | @access _ letters _ _ _ _ hn =>
    cases letters with
    | nil => cases hn.first
    | cons => rfl
  | @plain _ rest out c hq hv hr =>
    have hhead := hr.head?
    rcases rest with _ | ⟨d, rest⟩ <;> rcases out with _ | ⟨d', out⟩
    · rfl
    · cases hhead
    · cases hhead
    · cases hhead
      by_cases hc : c = '$'
      · subst hc
        rfl
      · rw [startsMember_cons fun _ _ h => absurd h hc, startsMember_cons fun _ _ h => absurd h hc]

lemma opensOffset (h : Expansion written cs out) : opensOffset out = opensOffset cs := by
  cases h with
  | nil | member | access => rfl
  | literal hq =>
    have hb := ne_of_class hq (show isQuote '[' = false by decide)
    have hd := ne_of_class hq (show isQuote '.' = false by decide)
    rw [opensOffset_cons hb hd, opensOffset_cons hb hd]
  | @plain _ _ _ c hq hv hr =>
    by_cases hb : c = '['
    · subst hb
      rfl
    · by_cases hd : c = '.'
      · subst hd
        exact hr.startsMember
      · rw [opensOffset_cons hb hd, opensOffset_cons hb hd]

end Expansion

lemma Offsets.left_closed {cs offsets left : Text} (h : Offsets cs offsets left) :
    opensOffset left = false := by
  induction h with
  | stop h => exact h
  | group _ _ ih => exact ih
  | member _ _ _ ih => exact ih

lemma Offsets.append_eq_nil {cs offsets left out : Text} (h : Offsets cs offsets left)
    (hnil : left = [] → out = []) (hcs : cs = []) : offsets ++ out = [] := by
  cases h with
  | stop => exact hnil hcs
  | _ => cases hcs

lemma Member.group {spelled offset : Text} (h : Member spelled offset) :
    ∃ inner, offset = '[' :: inner ∧ ∀ rest, groupWidth 1 (inner ++ rest) = inner.length := by
  cases h with
  | name h =>
    refine ⟨_, rfl, fun rest => ?_⟩
    have hplain : ∀ c ∈ spelled, c ≠ '\\' ∧ c ≠ '\'' := fun c hc =>
      ⟨ne_of_class (h c hc) (by decide), ne_of_class (h c hc) (by decide)⟩
    have hliteral : literalWidth '\'' (spelled ++ '\'' :: ']' :: rest) = spelled.length + 1 := by
      rw [literalWidth, quotedWidth?_closed hplain (by decide), Option.getD_some]
    have hgroup : groupWidth 1 ('\'' :: (spelled ++ '\'' :: ']' :: rest)) = spelled.length + 3 := by
      rw [groupWidth, if_pos (Or.inl rfl)]
      dsimp only
      rw [hliteral, List.drop_append, List.drop_eq_nil_of_le (Nat.le_succ _), Nat.add_sub_cancel_left,
        List.nil_append, List.drop_one, List.tail_cons, groupWidth, if_neg (by decide),
        if_neg (by decide), if_pos rfl, if_pos (Nat.le_refl 1)]
      omega
    simpa using hgroup
  | key h =>
    refine ⟨_, rfl, fun rest => ?_⟩
    have hplain : ∀ c ∈ spelled, isQuote c = false ∧ c ≠ '[' ∧ c ≠ ']' := by
      intro c hc
      rcases h c hc with hname | rfl
      · exact ⟨isQuote_of_isNameChar hname, ne_of_class hname (by decide), ne_of_class hname (by decide)⟩
      · decide
    have hgroup : groupWidth 1 (spelled ++ ']' :: rest) = spelled.length + 1 := by
      rw [groupWidth_plain hplain, groupWidth, if_neg (by decide), if_neg (by decide), if_pos rfl,
        if_pos (Nat.le_refl 1)]
    simpa using hgroup

lemma Offsets.settled {cs offsets left : Text} (h : Offsets cs offsets left) {out : Text}
    (hnil : left = [] → out = []) (hout : opensOffset out = false) :
    Offsets (offsets ++ out) offsets out := by
  induction h with
  | stop => exact .stop hout
  | @group inner rest offsets left h hr ih =>
    rw [List.cons_append, List.append_assoc]
    exact .group (groupWidth_swap h (hr.append_eq_nil hnil)) (ih hnil)
  | member _ hm _ ih =>
    obtain ⟨inner, rfl, hgroup⟩ := hm.group
    rw [List.append_assoc, List.cons_append]
    exact .group (hgroup _) (ih hnil)

lemma Offsets.ends_name {cs offsets left : Text} (h : Offsets cs offsets left)
    (hcs : cs.head?.any isNameChar = false) {out : Text} (hout : out.head? = left.head?) :
    (offsets ++ out).head?.any isNameChar = false := by
  cases h with
  | stop => rwa [List.nil_append, hout]
  | group => exact (by decide : isNameChar '[' = false)
  | member _ hm =>
    obtain ⟨inner, rfl, -⟩ := hm.group
    exact (by decide : isNameChar '[' = false)

lemma Expansion.settled {written cs out : Text} (h : Expansion written cs out) :
    Expansion written out out := by
  induction h with
  | nil => exact .nil
  | literal hq h hr ih => exact .literal hq (literalWidth_swap hq h hr.eq_nil) ih
  | member hn hm hr ih => exact .member ⟨hn.first, hn.chars, by rw [hr.head?]; exact hn.ends⟩ hm ih
  | access hn hm ho hr ih =>
    have hopens := hr.opensOffset.trans ho.left_closed
    exact .access ⟨hn.first, hn.chars, ho.ends_name hn.ends hr.head?⟩ hm
      (ho.settled hr.eq_nil hopens) ih
  | plain hq hv hr ih => exact .plain hq (by rwa [hr.head?]) ih

def bare (cs : Text) : Text :=
  cs.filter fun c => !(c == '.' || c == '[' || c == ']' || c == '\'')

lemma bare_append (cs ds : Text) : bare (cs ++ ds) = bare cs ++ bare ds :=
  List.filter_append _ _

lemma bare_cons (c : Char) (cs : Text) : bare (c :: cs) = bare [c] ++ bare cs :=
  bare_append [c] cs

lemma Named.isQuote {letters rest : Text} (h : Named letters rest) :
    ∀ c ∈ '$' :: letters, isQuote c = false := by
  intro c hc
  rcases List.mem_cons.mp hc with rfl | hc
  · rfl
  · exact isQuote_of_isNameChar (h.chars c hc)

lemma Member.isQuote {spelled offset : Text} (h : Member spelled offset) :
    ∀ c ∈ '.' :: spelled, isQuote c = false := by
  intro c hc
  rcases List.mem_cons.mp hc with rfl | hc
  · rfl
  · cases h with
    | name h => exact isQuote_of_isNameChar (h c hc)
    | key h =>
      rcases h c hc with hname | rfl
      · exact isQuote_of_isNameChar hname
      · rfl

lemma Member.outside {spelled offset : Text} (h : Member spelled offset) (rest : Text) :
    Outside offset rest := by
  obtain ⟨inner, rfl, hgroup⟩ := h.group
  exact .plain rfl (outside_of_groupWidth (hgroup rest))

lemma Member.bare_eq {spelled offset : Text} (h : Member spelled offset) : bare offset = bare spelled := by
  cases h with
  | name =>
    rw [bare_append]
    exact List.append_nil _
  | key =>
    rw [bare_append]
    exact List.append_nil _

section

variable {cs offsets left out : Text} (h : Offsets cs offsets left)
include h

lemma Offsets.outside (hnil : left = [] → out = []) : Outside offsets out := by
  induction h with
  | stop => exact .here
  | @group inner rest offsets left h hr ih =>
    exact .plain rfl (((outside_of_groupWidth h).swap (hr.append_eq_nil hnil)).append (ih hnil))
  | member _ hm _ ih => exact (hm.outside _).append (ih hnil)

lemma Offsets.literals_sublist (hnil : left = [] → out = [])
    (hsub : (literals left).Sublist (literals out)) :
    (literals cs).Sublist (literals (offsets ++ out)) := by
  induction h with
  | stop => exact hsub
  | @group inner rest offsets left h hr ih =>
    have hout : Outside inner (offsets ++ out) :=
      (outside_of_groupWidth h).swap (hr.append_eq_nil hnil)
    rw [List.cons_append, List.append_assoc, literals_plain rfl, literals_plain rfl,
      (outside_of_groupWidth h).literals_append, hout.literals_append]
    exact (ih hnil hsub).append_left _
  | @member spelled offset rest offsets left _ hm _ ih =>
    have hspelled : Outside ('.' :: spelled) rest := .of_plain hm.isQuote
    rw [← List.cons_append, hspelled.literals_append, literals_of_plain hm.isQuote, List.nil_append,
      List.append_assoc, (hm.outside _).literals_append]
    exact (ih hnil hsub).trans (List.sublist_append_right _ _)

lemma Offsets.bare_eq (hbare : bare out = bare left) : bare (offsets ++ out) = bare cs := by
  induction h with
  | stop => exact hbare
  | group _ _ ih =>
    rw [List.cons_append, List.append_assoc, bare_cons, bare_append, ih hbare, ← bare_append, ← bare_cons]
  | @member spelled offset rest offsets left _ hm _ ih =>
    rw [List.append_assoc, bare_append, ih hbare, hm.bare_eq, ← bare_append]
    rfl

lemma Offsets.eq_self (hdot : '.' ∉ cs) : cs = offsets ++ left := by
  induction h with
  | stop => rfl
  | group _ _ ih =>
    simp only [List.mem_cons, List.mem_append, not_or] at hdot
    rw [List.cons_append, List.append_assoc, ← ih hdot.2.2]
  | member => exact absurd List.mem_cons_self hdot

end

namespace Expansion

variable {written cs out : Text} (h : Expansion written cs out)
include h

lemma literals_sublist : (literals cs).Sublist (literals out) := by
  induction h with
  | nil => exact List.Sublist.refl _
  | literal hq h hr ih =>
    rw [literals_quoted hq h, literals_quoted hq (literalWidth_swap hq h hr.eq_nil)]
    exact ih.cons_cons _
  | @member written letters rest out hn hm hr ih =>
    have hletters : ∀ more, Outside ('$' :: letters) more := fun _ => .of_plain hn.isQuote
    rw [← List.cons_append, ← List.cons_append, (hletters _).literals_append, (hletters _).literals_append]
    exact ih.append_left _
  | @access written letters rest offsets left out hn hm ho hr ih =>
    have hletters : ∀ more, Outside ('$' :: letters) more := fun _ => .of_plain hn.isQuote
    rw [← List.cons_append, ← List.cons_append, (hletters _).literals_append, (hletters _).literals_append]
    exact (ho.literals_sublist hr.eq_nil ih).append_left _
  | plain hq _ hr ih => rwa [literals_plain hq, literals_plain hq]

lemma bare_eq : bare out = bare cs := by
  induction h with
  | nil => rfl
  | literal _ _ _ ih => rw [bare_cons, bare_append, ih, ← bare_append, ← bare_cons]
  | member _ _ _ ih => rw [bare_cons, bare_append, ih, ← bare_append, ← bare_cons]
  | access _ _ ho _ ih => rw [bare_cons, bare_append, ho.bare_eq ih, ← bare_append, ← bare_cons]
  | plain _ _ _ ih => rw [bare_cons, ih, ← bare_cons]

lemma eq_self (hdot : '.' ∉ cs) : out = cs := by
  induction h with
  | nil => rfl
  | literal _ _ _ ih | member _ _ _ ih =>
    simp only [List.mem_cons, List.mem_append, not_or] at hdot
    rw [ih hdot.2.2]
  | access _ _ ho _ ih =>
    simp only [List.mem_cons, List.mem_append, not_or] at hdot
    have hrest := ho.eq_self hdot.2.2
    have hleft : '.' ∉ _ := fun hmem => hdot.2.2 (hrest ▸ List.mem_append_right _ hmem)
    rw [ih hleft, ← hrest]
  | plain _ _ _ ih =>
    rw [List.mem_cons, not_or] at hdot
    rw [ih hdot.2]

end Expansion

/-- Expanding the shorthand of expanded text changes nothing, a text without dots stays as it is, only the
marks of offsets come and go, and every literal is kept, in order. -/
theorem expand_idempotent_conservative (source : Text) :
    expand (expand source) = expand source ∧ ('.' ∉ source → expand source = source) ∧
      bare (expand source) = bare source ∧ (literals source).Sublist (literals (expand source)) := by
  have hexpansion : Expansion [] source (expand source) := expand_eq_iff.mp rfl
  exact ⟨expand_eq_iff.mpr hexpansion.settled, hexpansion.eq_self, hexpansion.bare_eq,
    hexpansion.literals_sublist⟩

def variableRest? (written : Text) : Text → Option Text
  | '$' :: cs =>
    if cs.head?.any isNameStart && !endsInMemberOperator written then some (cs.dropWhile isNameChar)
    else none
  | _ => none

def groupsWidth (cs : Text) : Nat :=
  match cs with
  | '[' :: rest =>
    let width := groupWidth 1 rest
    1 + width + groupsWidth (rest.drop width)
  | _ => 0
termination_by cs.length
decreasing_by
  simp only [List.length_drop, List.length_cons]
  omega

def startsDot : Text → Bool
  | '.' :: rest => startsMember rest
  | _ => false

/-- Whether a text after `written` starts with a variable that has shorthand right after it, or after
bracketed offsets. -/
def isDotted (written cs : Text) : Bool :=
  (variableRest? written cs).any fun rest => startsDot (rest.drop (groupsWidth rest))

/-- Whether the place between `before` and `after` lies in the bracketed offsets of a variable. -/
def InOffsets (written before after : Text) : Prop :=
  ∃ passed cs rest, passed ++ cs = before ++ after ∧ Outside passed cs ∧
    variableRest? (passed.reverse ++ written) cs = some rest ∧ after.length ≤ rest.length ∧
      rest.length < after.length + groupsWidth rest

lemma InOffsets.cons {written piece before after : Text}
    (h : InOffsets (piece.reverse ++ written) before after) (hp : Outside piece (before ++ after)) :
    InOffsets written (piece ++ before) after := by
  obtain ⟨passed, cs, rest, heq, hout, hrest, hle, hlt⟩ := h
  refine ⟨piece ++ passed, cs, rest, ?_, ?_, ?_, hle, hlt⟩
  · rw [List.append_assoc, heq, List.append_assoc]
  · rw [← heq] at hp
    exact hp.append hout
  · rwa [List.reverse_append, List.append_assoc]

lemma isDotted_cons {c : Char} (h : c ≠ '$') (written cs : Text) : isDotted written (c :: cs) = false := by
  have hnone : variableRest? written (c :: cs) = none := by
    unfold variableRest?
    split
    · rename_i heq
      exact absurd (List.cons.inj heq).1 h
    · rfl
  rw [isDotted, hnone, Option.any_none]

lemma Offsets.groupsWidth_eq {cs offsets left out : Text} (h : Offsets cs offsets left)
    (hnil : left = [] → out = []) (hout : opensOffset out = false) :
    groupsWidth (offsets ++ out) = offsets.length := by
  induction h with
  | stop =>
    rw [List.nil_append, groupsWidth.eq_def]
    split
    · cases hout
    · rfl
  | @group inner rest offsets left h hr ih =>
    have hinner : groupWidth 1 (inner ++ (offsets ++ out)) = inner.length :=
      groupWidth_swap h (hr.append_eq_nil hnil)
    rw [List.cons_append, List.append_assoc, groupsWidth, hinner, List.drop_left, ih hnil, List.length_cons, List.length_append]
    omega
  | @member spelled offset rest offsets left _ hm _ ih =>
    obtain ⟨inner, rfl, hgroup⟩ := hm.group
    rw [List.append_assoc, List.cons_append, groupsWidth, hgroup, List.drop_left, ih hnil, List.length_append, List.length_cons]
    omega

lemma startsDot_of_opensOffset {cs : Text} (h : opensOffset cs = false) : startsDot cs = false := by
  unfold startsDot
  split
  · exact h
  · rfl

section

variable {letters rest : Text} (h : Named letters rest)
include h

lemma Named.outside (more : Text) : Outside ('$' :: letters) more :=
  .of_plain h.isQuote

lemma Named.variableRest? {written : Text} (hm : endsInMemberOperator written = false) :
    variableRest? written ('$' :: (letters ++ rest)) = some rest := by
  rw [DotAccess.variableRest?, h.head?_append, hm, Bool.not_false, Bool.and_self, if_pos rfl, h.dropWhile]

lemma Named.place {before after out : Text} (ho : Outside before after)
    (heq : before ++ after = '$' :: letters ++ out) {written : Text}
    (hd : isDotted written after = true) :
    before = [] ∨ ∃ more, before = '$' :: letters ++ more ∧ more ++ after = out ∧ Outside more after := by
  rcases ho.piece heq (h.outside out) with ⟨c, mid, hc, rfl⟩ | hmore
  · cases before with
    | nil => exact Or.inl rfl
    | cons d before =>
      have hmem : c ∈ letters := by
        rw [(List.cons.inj hc).2]
        exact List.mem_append_right _ List.mem_cons_self
      rw [List.cons_append, isDotted_cons (ne_of_class (h.chars c hmem) (by decide))] at hd
      cases hd
  · exact Or.inr hmore

end

lemma Expansion.undotted {written cs out : Text} (h : Expansion written cs out) {before after : Text}
    (heq : before ++ after = out) (ho : Outside before after)
    (hd : isDotted (before.reverse ++ written) after = true) : InOffsets written before after := by
  induction h generalizing before with
  | nil =>
    obtain ⟨rfl, rfl⟩ := List.append_eq_nil_iff.mp heq
    cases hd
  | @literal written body rest out quote hq h hr ih =>
    have hw := literalWidth_swap hq h hr.eq_nil
    rcases ho.quoted hq hw heq with rfl | ⟨more, rfl, hmore⟩
    · rw [List.nil_append] at heq
      rw [heq, isDotted_cons (ne_of_class hq (by decide))] at hd
      cases hd
    · rw [List.cons_append, List.append_assoc] at heq
      have hout : more ++ after = out := List.append_cancel_left (List.cons.inj heq).2
      rw [← hout] at hw
      have hin : InOffsets ((quote :: body).reverse ++ written) more after := by
        simpa using ih hout hmore (by simpa using hd)
      exact hin.cons (.of_literal hq hw)
  | @member written letters rest out hn hm hr ih =>
    rcases hn.place ho heq hd with rfl | ⟨more, rfl, hout, hmore⟩
    · have hnone : variableRest? written ('$' :: (letters ++ out)) = none := by
        rw [variableRest?, hm, Bool.not_true, Bool.and_false, if_neg Bool.false_ne_true]
      rw [List.reverse_nil, List.nil_append, isDotted, ← List.nil_append after, heq, hnone] at hd
      cases hd
    · exact InOffsets.cons (ih hout hmore (by simpa using hd)) (hn.outside _)
  | @access written letters rest offsets left out hn hm hof hr ih =>
    have hopens := hr.opensOffset.trans hof.left_closed
    have hwidth := hof.groupsWidth_eq hr.eq_nil hopens
    have hname : Named letters (offsets ++ out) := ⟨hn.first, hn.chars, hof.ends_name hn.ends hr.head?⟩
    rcases hn.place ho heq hd with rfl | ⟨more, rfl, hout, hmore⟩
    · rw [List.reverse_nil, List.nil_append, isDotted, ← List.nil_append after, heq,
        hname.variableRest? hm, Option.any_some, hwidth, List.drop_left,
        startsDot_of_opensOffset hopens] at hd
      cases hd
    · rcases hmore.piece hout (hof.outside hr.eq_nil) with ⟨c, mid, -, hafter⟩ | ⟨later, rfl, hout', hlater⟩
      · -- The place lies in the offsets of the variable at hand.
        refine ⟨[], '$' :: (letters ++ (offsets ++ out)), offsets ++ out, heq.symm, .here,
          hname.variableRest? hm, ?_, ?_⟩
        · rw [← hout, List.length_append]
          omega
        · rw [hwidth, hafter, List.length_append, List.length_append, List.length_cons]
          omega
      · have hin := ih hout' hlater (by simpa using hd)
        have hoffsets : Outside offsets (later ++ after) :=
          hof.outside fun hleft => by rw [hout', hr.eq_nil hleft]
        exact InOffsets.cons (hin.cons hoffsets) (hn.outside _)
  | @plain written rest out c hq hv hr ih =>
    cases before with
    | nil =>
      rw [List.nil_append] at heq
      have hnone : variableRest? written (c :: out) = none := by
        unfold variableRest?
        split
        · rename_i hcs
          obtain ⟨rfl, rfl⟩ := List.cons.inj hcs
          rw [hr.head?, Bool.eq_false_iff.mpr fun hstart => hv ⟨rfl, hstart⟩, Bool.false_and,
            if_neg Bool.false_ne_true]
        · rfl
      rw [List.reverse_nil, List.nil_append, isDotted, heq, hnone] at hd
      cases hd
    | cons d before =>
      obtain ⟨rfl, hout⟩ := List.cons.inj heq
      have hin : InOffsets ([d].reverse ++ written) before after :=
        ih hout (ho.unquoted hq) (by simpa using hd)
      exact hin.cons (.plain hq .here)

/-- In expanded text, shorthand outside of literals lies in the bracketed offsets of a variable. -/
theorem expand_undotted (source before after : Text) (h : before ++ after = expand source)
    (ho : Outside before after) :
    isDotted before.reverse after = false ∨ InOffsets [] before after := by
  cases hd : isDotted before.reverse after with
  | false => exact Or.inl rfl
  | true =>
    have hexpansion : Expansion [] source (expand source) := expand_eq_iff.mp rfl
    exact Or.inr (hexpansion.undotted h ho (by rwa [List.append_nil]))

theorem expand_undotted_offset :
    "$a[".toList ++ "$b.c]['d']".toList = expand "$a[$b.c].d".toList ∧
      Outside "$a[".toList "$b.c]['d']".toList ∧
      (isDotted "[a$".toList "$b.c]['d']".toList = false ∨
        InOffsets [] "$a[".toList "$b.c]['d']".toList) := by
  have hexpand : "$a[".toList ++ "$b.c]['d']".toList = expand "$a[$b.c].d".toList := by decide +kernel
  have hout : Outside "$a[".toList "$b.c]['d']".toList := .of_plain (by decide)
  exact ⟨hexpand, hout, expand_undotted _ _ _ hexpand hout⟩

theorem offsets_keep_shorthand :
    ∃ before after, before ++ after = expand "$a[$b.c]".toList ∧ Outside before after ∧
      isDotted before.reverse after = true :=
  ⟨"$a[".toList, "$b.c]".toList, by decide +kernel, .of_plain (by decide), by decide +kernel⟩

end Stencil.Expression.DotAccess

import Stencil.Proofs.Vocabulary
import Mathlib.Data.List.Nodup
import Mathlib.Tactic.Common

/-! Whether a word is reserved hangs on one flag that the lexer carries from token to token. -/

namespace Stencil.Code

open Lexer

def Kind.isForeign : Kind → Bool
  | .inlineHtml | .heredocBody | .endHeredoc => true
  | _ => false

def Token.isWord (t : Token) : Bool :=
  !t.kind.isForeign && isIdentifier t.text

def Token.isLineComment (t : Token) : Bool :=
  t.kind == .comment && !(['/', '*'].isPrefixOf t.text)

/-- The nearest token before that is not trivia is a member operator. -/
def followsMember (front : List Token) : Bool :=
  (front.reverse.find? fun t => !t.isTrivia).any fun t => t.kind.isMemberOperator

def followsLineComment (front : List Token) : Bool :=
  (front.reverse.takeWhile Token.isTrivia).any Token.isLineComment

namespace Keyword

lemma mem_all (k : Keyword) : k ∈ all := by
  cases k <;> decide

lemma spelling_nodup : (all.map spelling).Nodup := by
  decide +kernel

lemma ofWord?_eq_some {word : Text} {k : Keyword} :
    ofWord? word = some k ↔ k.spelling.toList = Text.lower word := by
  constructor
  · exact ofWord?_spelling
  · intro h
    cases hfound : ofWord? word with
    | none =>
      have hnone := List.find?_eq_none.mp hfound k (mem_all k)
      simp [h] at hnone
    | some j =>
      have hsame : j.spelling = k.spelling :=
        String.toList_inj.mp ((ofWord?_spelling hfound).trans h.symm)
      rw [List.inj_on_of_nodup_map spelling_nodup (mem_all j) (mem_all k) hsame]

end Keyword

namespace Lexer

def Mode.member : Mode → Bool
  | .code member => member
  | _ => false

def carried (flag : Bool) (t : Token) : Bool :=
  if t.isTrivia && !t.isLineComment then flag else t.kind.isMemberOperator

lemma carried_visible {t : Token} (h : t.isTrivia = false) (flag : Bool) :
    carried flag t = t.kind.isMemberOperator := by
  rw [carried, h]
  rfl

lemma isLineComment_of_lineComment {text : Text} (h : LineComment text) :
    Token.isLineComment ⟨.comment, text⟩ = true := by
  rcases h.opens with ⟨more, rfl⟩ | ⟨more, rfl⟩ <;> rfl

lemma CodeToken.member {member : Bool} {c : Char} {cs : Text} {l : Lexeme} (h : CodeToken member c cs l) :
    l.next.member = carried member ⟨l.kind, c :: cs.take l.width⟩ := by
  cases h with
  | double => dsimp only; split <;> rfl
  | number =>
    have hkind := number_kind (c :: cs)
    rw [carried_visible (by rcases hkind with hk | hk <;> simp only [Token.isTrivia, hk] <;> rfl),
      number_not_member]
    rfl
  | name =>
    have hkind := name_kind member c cs
    rw [carried_visible (by
      rcases hkind with hk | hk | hk | ⟨k, hk⟩ <;> simp only [Token.isTrivia, hk] <;> rfl), name_not_member]
    rfl
  | _ => rfl

lemma OtherToken.member {member : Bool} {c : Char} {cs : Text} {l : Lexeme} (h : OtherToken member c cs l) :
    l.next.member = carried member ⟨l.kind, c :: cs.take l.width⟩ := by
  cases h with
  | lineComment hopen =>
    rw [carried, isLineComment_of_lineComment (lineComment_spells hopen)]
    rfl
  | blockComment hc hstar hkind =>
    cases cs with
    | nil => cases hstar
    | cons d cs =>
      cases hstar
      subst hc
      rw [Nat.add_comm, List.take_succ_cons]
      rcases hkind with rfl | rfl <;> rfl
  | _ => rfl

lemma lexeme_member {mode : Mode} {c : Char} {cs : Text} {l : Lexeme} (h : lexeme mode c cs = .ok l) :
    l.next.member = carried mode.member ⟨l.kind, c :: cs.take l.width⟩ := by
  cases mode with
  | markup =>
    rw [lexeme] at h
    split at h
    · rename_i kind length htag
      cases h
      rcases openTag?_kind htag with rfl | rfl <;> rfl
    · cases h
      rfl
  | code member =>
    have hresult := codeLexeme_result member c cs
    rw [show codeLexeme member c cs = .ok l from h] at hresult
    cases hresult with
    | plain htoken => exact htoken.member
    | other htoken => exact htoken.member
  | heredoc label =>
    rw [lexeme] at h
    split at h <;> cases h <;> rfl

lemma Scans.member {mode stop : Mode} {source rest : Text} {ts : List Token}
    (h : Scans mode source ts stop rest) : stop.member = ts.foldl carried mode.member := by
  induction h with
  | done => rfl
  | step hl _ ih => rw [ih, List.foldl_cons, lexeme_member hl]

lemma followsMember_concat (front : List Token) (t : Token) :
    followsMember (front ++ [t]) = if t.isTrivia then followsMember front else t.kind.isMemberOperator := by
  rw [followsMember, List.reverse_append, List.reverse_singleton, List.singleton_append, List.find?_cons]
  cases t.isTrivia <;> rfl

lemma followsLineComment_concat (front : List Token) (t : Token) :
    followsLineComment (front ++ [t]) = (t.isTrivia && (t.isLineComment || followsLineComment front)) := by
  rw [followsLineComment, List.reverse_append, List.reverse_singleton, List.singleton_append,
    List.takeWhile_cons]
  cases t.isTrivia <;> rfl

lemma isMemberOperator_of_isLineComment {t : Token} (h : t.isLineComment = true) :
    t.kind.isMemberOperator = false := by
  rw [beq_iff_eq.mp (Bool.and_eq_true_iff.mp h).1]
  rfl

lemma foldl_carried (front : List Token) :
    front.foldl carried false = (followsMember front && !followsLineComment front) := by
  induction front using List.reverseRecOn with
  | nil => rfl
  | append_singleton front t ih =>
    rw [List.foldl_append, List.foldl_cons, List.foldl_nil, ih, followsMember_concat,
      followsLineComment_concat, carried]
    cases t.isTrivia with
    | false => simp
    | true =>
      cases hline : t.isLineComment with
      | false => simp
      | true => simp [isMemberOperator_of_isLineComment hline]

def wordKind (member : Bool) (word : Text) : Kind :=
  if member then .identifier else (Keyword.ofWord? word).elim .identifier .keyword

lemma wordKind_eq (member : Bool) (word : Text) :
    wordKind member word = .identifier ∨ ∃ k, wordKind member word = .keyword k := by
  cases member with
  | true => exact Or.inl rfl
  | false =>
    cases h : Keyword.ofWord? word with
    | none => exact Or.inl (by rw [wordKind, h]; rfl)
    | some k => exact Or.inr ⟨k, by rw [wordKind, h]; rfl⟩

lemma wordKind_keyword {member : Bool} {word : Text} {k : Keyword} :
    wordKind member word = .keyword k ↔ k.spelling.toList = Text.lower word ∧ member = false := by
  rw [← Keyword.ofWord?_eq_some]
  cases member with
  | true => simp [wordKind]
  | false => cases h : Keyword.ofWord? word <;> simp [wordKind, h]

lemma isNameChar_of_isIdentifier {text : Text} (h : isIdentifier text = true) :
    ∀ c ∈ text, isNameChar c = true := by
  cases text with
  | nil => cases h
  | cons c cs =>
    obtain ⟨hc, hcs⟩ := Bool.and_eq_true_iff.mp h
    exact List.forall_mem_cons.mpr ⟨by rw [isNameChar, hc, Bool.true_or], List.all_eq_true.mp hcs⟩

lemma not_isIdentifier_of_joins {first : Text} {more : List Text} {text : Text} (h : Joins first more text)
    (hmore : more ≠ []) : isIdentifier text = false := by
  obtain ⟨second, rest, rfl⟩ := List.exists_cons_of_ne_nil hmore
  rw [Bool.eq_false_iff]
  intro hid
  have hslash : '\\' ∈ text := by
    rw [h.1, intercalate_cons, List.flatMap_cons]
    simp
  exact absurd (isNameChar_of_isIdentifier hid _ hslash) (by decide)

lemma name_reserved {member : Bool} {c : Char} {cs : Text} (hc : isNameStart c = true)
    (hid : isIdentifier (c :: cs.take (name member c cs).2) = true) :
    (name member c cs).1 = wordKind member (c :: cs.take (name member c cs).2) := by
  have hword := isIdentifier_name hc cs
  obtain ⟨more, hjoins, hmore⟩ := joins_segments hword (cs.drop (Text.run isNameChar cs))
  rw [List.cons_append, ← List.take_add] at hjoins
  have hnone : segmentsWidth (cs.drop (Text.run isNameChar cs)) = 0 := by
    by_contra hsegments
    rw [name, not_isIdentifier_of_joins hjoins (mt hmore.mp hsegments)] at hid
    cases hid
  simp only [name, wordKind, hnone, ne_eq, not_true_eq_false, if_false, Nat.add_zero]
  cases Keyword.ofWord? (c :: cs.take (Text.run isNameChar cs)) <;> rfl

lemma lexeme_word {mode : Mode} {c : Char} {cs : Text} {l : Lexeme} (h : lexeme mode c cs = .ok l)
    (hw : Token.isWord ⟨l.kind, c :: cs.take l.width⟩ = true) :
    l.kind = wordKind mode.member (c :: cs.take l.width) := by
  obtain ⟨hcode, hid⟩ := Bool.and_eq_true_iff.mp hw
  have hc : isNameStart c = true := (Bool.and_eq_true_iff.mp hid).1
  cases mode with
  | markup =>
    rw [lexeme, openTag?_of_head (ne_of_class hc (by decide))] at h
    cases h
    cases hcode
  | code member =>
    have hname : lexeme (.code member) c cs = _ := codeLexeme_of_codeToken (.name hc)
    rw [hname] at h
    cases h
    exact name_reserved hc hid
  | heredoc label =>
    rw [lexeme] at h
    split at h <;> cases h <;> cases hcode

end Lexer

/-- A word is reserved exactly if it spells a keyword and is no member name. A line comment between the
operator and the name hides the operator. -/
theorem word_reserved_iff {source : Text} {tokens front back : List Token} {t : Token}
    (h : tokenize source = .ok tokens) (ht : tokens = front ++ t :: back) (hw : t.isWord = true) :
    (t.kind = .identifier ∨ ∃ k, t.kind = .keyword k) ∧
      ∀ k, t.kind = .keyword k ↔ k.spelling.toList = Text.lower t.text ∧
        (followsMember front = true → followsLineComment front = true) := by
  obtain ⟨stop, hscans⟩ := scans_of_tokensFrom h
  rw [ht] at hscans
  obtain ⟨mid, inner, hfront, hback⟩ := hscans.split
  have hflag : mid.member = (followsMember front && !followsLineComment front) :=
    hfront.member.trans (foldl_carried front)
  cases hback with
  | @step _ _ c cs _ l _ hl hs =>
    have hkind := lexeme_word hl hw
    dsimp only
    rw [hkind]
    refine ⟨wordKind_eq _ _, fun k => ?_⟩
    rw [wordKind_keyword, hflag]
    cases followsMember front <;> simp

def accessTokens : List Token :=
  [⟨.openTag, "<?php ".toList⟩, ⟨.variableName, "$a".toList⟩, ⟨.symbol .arrow, "->".toList⟩]

theorem word_reserved_iff_member :
    ∃ t : Token, tokenize "<?php $a->/**/If".toList =
        .ok (accessTokens ++ [⟨.comment, "/**/".toList⟩] ++ t :: []) ∧ t.isWord = true ∧
      Text.lower t.text = Keyword.kwIf.spelling.toList ∧ t.kind ≠ .keyword .kwIf := by
  have hok : tokenize "<?php $a->/**/If".toList =
      .ok (accessTokens ++ [⟨.comment, "/**/".toList⟩] ++ ⟨.identifier, "If".toList⟩ :: []) :=
    tokenize_of_toOption (by decide +kernel)
  refine ⟨⟨.identifier, "If".toList⟩, hok, by decide +kernel, by decide +kernel, fun hk => ?_⟩
  have hline := (((word_reserved_iff hok rfl (by decide +kernel)).2 .kwIf).mp hk).2 (by decide +kernel)
  exact absurd hline (by decide +kernel)

theorem member_name_reserved_after_line_comment :
    tokenize "<?php $a->#\nclass".toList =
        .ok (accessTokens ++ [⟨.comment, ['#']⟩, ⟨.whitespace, ['\n']⟩] ++
          [⟨.keyword .kwClass, "class".toList⟩]) ∧
      followsMember (accessTokens ++ [⟨.comment, ['#']⟩, ⟨.whitespace, ['\n']⟩]) = true ∧
      Token.isWord ⟨.keyword .kwClass, "class".toList⟩ = true :=
  ⟨tokenize_of_toOption (by decide +kernel), by decide +kernel, by decide +kernel⟩

end Stencil.Code

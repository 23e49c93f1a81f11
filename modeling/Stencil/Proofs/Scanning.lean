import Stencil.Code.Token.Lexer
import Mathlib.Tactic.Common

/-! A scan is checked with the characters that come after it, so that scans compose. -/

namespace Stencil.Code.Lexer

/-- A check of all members goes along the list, not through all characters. -/
instance (priority := 2000) decidableForallMem {α : Type} {p : α → Prop} [DecidablePred p]
    (l : List α) : Decidable (∀ x ∈ l, p x) :=
  List.decidableBAll p l

inductive Scans : Mode → Text → List Token → Mode → Text → Prop
  | done {mode : Mode} {source : Text} : Scans mode source [] mode source
  | step {mode stop : Mode} {c : Char} {cs rest : Text} {l : Lexeme} {ts : List Token} :
      lexeme mode c cs = .ok l → Scans l.next (cs.drop l.width) ts stop rest →
      Scans mode (c :: cs) (⟨l.kind, c :: cs.take l.width⟩ :: ts) stop rest

namespace Scans

variable {mode mid stop : Mode} {source inner rest : Text} {as bs ts : List Token}

lemma append (h : Scans mode source as mid inner) (g : Scans mid inner bs stop rest) :
    Scans mode source (as ++ bs) stop rest := by
  induction h with
  | done => exact g
  | step hl _ ih => exact .step hl (ih g)

lemma text (h : Scans mode source ts stop rest) : source = ts.flatMap Token.text ++ rest := by
  induction h with
  | done => rfl
  | step _ _ ih =>
    rw [List.flatMap_cons, List.cons_append, List.cons_append, List.append_assoc, ← ih,
      List.take_append_drop]

lemma split (h : Scans mode source (as ++ bs) stop rest) :
    ∃ mid inner, Scans mode source as mid inner ∧ Scans mid inner bs stop rest := by
  induction as generalizing mode source with
  | nil => exact ⟨mode, source, .done, h⟩
  | cons a as ih =>
    cases h with
    | step hl hs =>
      obtain ⟨mid, inner, ha, hb⟩ := ih hs
      exact ⟨mid, inner, .step hl ha, hb⟩

lemma tokensFrom_eq (h : Scans mode source ts stop rest) :
    tokensFrom mode source = (tokensFrom stop rest).map (ts ++ ·) := by
  induction h with
  | done =>
    cases hr : tokensFrom _ _ <;> rfl
  | step hl _ ih =>
    rw [tokensFrom, hl]
    simp only [ih]
    cases tokensFrom _ _ <;> rfl

lemma tokensFrom_ok (h : Scans mode source as mid inner) (ht : tokensFrom mode source = .ok ts) :
    ∃ more, ts = as ++ more ∧ tokensFrom mid inner = .ok more := by
  rw [h.tokensFrom_eq] at ht
  cases hr : tokensFrom mid inner with
  | error fault =>
    rw [hr] at ht
    cases ht
  | ok more =>
    rw [hr] at ht
    cases ht
    exact ⟨more, rfl, rfl⟩

end Scans

lemma scans_of_tokensFrom {mode : Mode} {source : Text} {ts : List Token}
    (h : tokensFrom mode source = .ok ts) : ∃ stop, Scans mode source ts stop [] := by
  induction ts generalizing mode source with
  | nil =>
    cases source with
    | nil => exact ⟨mode, .done⟩
    | cons c cs =>
      rw [tokensFrom] at h
      split at h
      · cases h
      · split at h <;> cases h
  | cons t ts ih =>
    cases source with
    | nil =>
      rw [tokensFrom] at h
      cases h
    | cons c cs =>
      rw [tokensFrom] at h
      split at h
      · cases h
      · rename_i l hl
        split at h
        · cases h
        · rename_i tokens ht
          cases h
          obtain ⟨stop, hs⟩ := ih ht
          exact ⟨stop, .step hl hs⟩

lemma openTag?_eq (cs : Text) :
    openTag? cs =
      if "<?=".toList.isPrefixOf cs = true then some (.openTagWithEcho, 3)
      else if Text.lower (cs.take 5) = "<?php".toList then
        if cs.drop 5 = [] then some (.openTag, 5)
        else if "\r\n".toList.isPrefixOf (cs.drop 5) = true then some (.openTag, 7)
        else if (cs.drop 5).head?.any isWhitespace = true then some (.openTag, 6)
        else none
      else none := by
  unfold openTag?
  generalize cs.drop 5 = rest
  split
  · rfl
  split
  · split
    · rfl
    · rfl
    · rename_i c rest hrest
      have hbreak : "\r\n".toList.isPrefixOf (c :: rest) = false := by
        rw [Bool.eq_false_iff, Ne, List.isPrefixOf_iff_prefix]
        rintro ⟨more, hmore⟩
        cases hmore
        exact hrest _ rfl rfl
      rw [hbreak]
      rfl
  · rfl

lemma lineBreakWidth_eq (cs : Text) :
    lineBreakWidth cs =
      if "\r\n".toList.isPrefixOf cs = true then 2 else if cs.head? = some '\n' then 1 else 0 := by
  fun_cases lineBreakWidth cs with
  | case1 => rfl
  | case2 => rfl
  | case3 cs hbreak hfeed =>
    rw [if_neg, if_neg]
    · intro h
      cases cs with
      | nil => cases h
      | cons c cs =>
        cases h
        exact hfeed cs rfl
    · rw [List.isPrefixOf_iff_prefix]
      rintro ⟨more, rfl⟩
      exact hbreak more rfl

lemma read?_some {cs spelling : Text} {s : Symbol} (h : Symbol.read? cs = some (spelling, s)) :
    (spelling, s) ∈ Symbol.spellings ∧ spelling <+: cs := by
  have hp := List.find?_some h
  exact ⟨List.mem_of_find?_eq_some h, List.isPrefixOf_iff_prefix.mp hp⟩

lemma spellings_ne_nil : ∀ entry ∈ Symbol.spellings, entry.1 ≠ [] := by decide +kernel

lemma read?_text {c : Char} {cs spelling : Text} {s : Symbol}
    (h : Symbol.read? (c :: cs) = some (spelling, s)) : c :: cs.take (spelling.length - 1) = spelling := by
  obtain ⟨hm, more, hmore⟩ := read?_some h
  cases spelling with
  | nil => exact absurd rfl (spellings_ne_nil _ hm)
  | cons d ds =>
    cases hmore
    simp

lemma name_kind (member : Bool) (c : Char) (cs : Text) :
    (name member c cs).1 = .relativeName ∨ (name member c cs).1 = .qualifiedName ∨
      (name member c cs).1 = .identifier ∨ ∃ k, (name member c cs).1 = .keyword k := by
  unfold name
  dsimp only
  split
  · split
    · exact Or.inl rfl
    · exact Or.inr (Or.inl rfl)
  · split
    · exact Or.inr (Or.inr (Or.inl rfl))
    · split
      · exact Or.inr (Or.inr (Or.inr ⟨_, rfl⟩))
      · exact Or.inr (Or.inr (Or.inl rfl))

lemma number_kind (cs : Text) : (number cs).1 = .integer ∨ (number cs).1 = .float := by
  have hd : ∀ cs, (decimal cs).1 = .integer ∨ (decimal cs).1 = .float := by
    intro cs
    unfold decimal
    dsimp only
    split
    · exact Or.inl rfl
    · exact Or.inr rfl
  unfold number
  split
  · split
    · exact Or.inl rfl
    · exact hd _
  · exact hd _

def Kind.isPlain : Kind → Bool
  | .openTag | .openTagWithEcho | .closeTag | .inlineHtml | .comment | .docComment
  | .startHeredoc | .heredocBody | .endHeredoc | .backtick | .attributeStart => false
  | _ => true

structure IsLate (c : Char) (cs : Text) : Prop where
  notSpace : isWhitespace c = false
  notHash : c ≠ '#'
  notComment : ¬ (c = '/' ∧ (cs.head? = some '/' ∨ cs.head? = some '*'))
  notVariable : ¬ (c = '$' ∧ cs.head?.any isNameStart = true)
  notQuote : c ≠ '\'' ∧ c ≠ '"' ∧ c ≠ '\x60'
  notTag : ¬ (c = '?' ∧ cs.head? = some '>')
  notHeredoc : ¬ (c = '<' ∧ "<<".toList.isPrefixOf cs = true)
  notParen : c ≠ '('

structure IsSign (c : Char) (cs : Text) : Prop extends IsLate c cs where
  notNumber : ¬ (c.isDigit = true ∨ (c = '.' ∧ cs.head?.any Char.isDigit = true))
  notQualified : ¬ (c = '\\' ∧ cs.head?.any isNameStart = true)
  notName : isNameStart c = false

inductive CodeToken (member : Bool) (c : Char) (cs : Text) : Lexeme → Prop
  | whitespace : isWhitespace c = true →
      CodeToken member c cs ⟨.whitespace, Text.run isWhitespace cs, .code member⟩
  | variableName : c = '$' → cs.head?.any isNameStart = true →
      CodeToken member c cs ⟨.variableName, Text.run isNameChar cs, .code false⟩
  | single {width : Nat} : c = '\'' → quotedWidth? '\'' cs = some width →
      CodeToken member c cs ⟨.string, width, .code false⟩
  | double {width : Nat} : c = '"' → quotedWidth? '"' cs = some width →
      CodeToken member c cs ⟨if interpolates cs then .interpolatedString else .string, width, .code false⟩
  | cast {type : Cast} {width : Nat} : c = '(' → cast? cs = some (type, width) →
      CodeToken member c cs ⟨.cast type, width, .code false⟩
  | paren : c = '(' → cast? cs = none →
      CodeToken member c cs ⟨.symbol .openParen, 0, .code false⟩
  | number : (c.isDigit = true ∨ (c = '.' ∧ cs.head?.any Char.isDigit = true)) →
      CodeToken member c cs ⟨(number (c :: cs)).1, (number (c :: cs)).2 - 1, .code false⟩
  | qualified : c = '\\' → cs.head?.any isNameStart = true →
      CodeToken member c cs ⟨.fullyQualifiedName,
        Text.run isNameChar cs + segmentsWidth (cs.drop (Text.run isNameChar cs)), .code false⟩
  | name : isNameStart c = true →
      CodeToken member c cs ⟨(name member c cs).1, (name member c cs).2, .code false⟩
  | sign {spelling : Text} {s : Symbol} : IsSign c cs → Symbol.read? (c :: cs) = some (spelling, s) →
      CodeToken member c cs ⟨.symbol s, spelling.length - 1, .code (Kind.symbol s).isMemberOperator⟩

lemma name_not_member (member : Bool) (c : Char) (cs : Text) :
    (name member c cs).1.isMemberOperator = false := by
  rcases name_kind member c cs with h | h | h | ⟨k, h⟩ <;> rw [h] <;> rfl

lemma number_not_member (cs : Text) : (number cs).1.isMemberOperator = false := by
  rcases number_kind cs with h | h <;> rw [h] <;> rfl

inductive OtherToken (member : Bool) (c : Char) (cs : Text) : Lexeme → Prop
  | attributeStart : c = '#' → cs.head? = some '[' →
      OtherToken member c cs ⟨.attributeStart, 1, .code false⟩
  | lineComment : (c = '#' ∨ (c = '/' ∧ cs.head? = some '/')) →
      OtherToken member c cs ⟨.comment, lineCommentWidth cs, .code false⟩
  | blockComment {kind : Kind} : c = '/' → cs.head? = some '*' → (kind = .comment ∨ kind = .docComment) →
      OtherToken member c cs ⟨kind, 1 + blockCommentWidth (cs.drop 1), .code member⟩
  | backtick : c = '\x60' → OtherToken member c cs ⟨.backtick, 0, .code false⟩
  | closeTag : c = '?' → cs.head? = some '>' →
      OtherToken member c cs ⟨.closeTag, 1 + lineBreakWidth (cs.drop 1), .markup⟩
  | startHeredoc {width : Nat} {label : Text} : c = '<' →
      OtherToken member c cs ⟨.startHeredoc, width, .heredoc label⟩

lemma OtherToken.not_plain {member : Bool} {c : Char} {cs : Text} {l : Lexeme}
    (h : OtherToken member c cs l) : Kind.isPlain l.kind = false := by
  cases h with
  | blockComment _ _ hkind => rcases hkind with rfl | rfl <;> rfl
  | _ => rfl

inductive CodeResult (member : Bool) (c : Char) (cs : Text) : Except Fault Lexeme → Prop
  | plain {l : Lexeme} : CodeToken member c cs l → CodeResult member c cs (.ok l)
  | other {l : Lexeme} : OtherToken member c cs l → CodeResult member c cs (.ok l)
  | string : (c = '\'' ∨ c = '"') → quotedWidth? c cs = none →
      CodeResult member c cs (.error .unterminatedString)
  | heredoc {fault : Fault} : c = '<' → "<<".toList.isPrefixOf cs = true →
      heredocStart (cs.drop 2) = .error fault → CodeResult member c cs (.error fault)
  | unread : IsSign c cs → Symbol.read? (c :: cs) = none →
      CodeResult member c cs (.error (.unexpectedCharacter c))

lemma codeLexeme_result (member : Bool) (c : Char) (cs : Text) :
    CodeResult member c cs (codeLexeme member c cs) := by
  unfold codeLexeme
  extract_lets token next
  by_cases hspace : isWhitespace c = true
  · rw [if_pos hspace]
    exact .plain (.whitespace hspace)
  rw [if_neg hspace]
  by_cases hattribute : c = '#' ∧ next = some '['
  · rw [if_pos hattribute]
    exact .other (.attributeStart hattribute.1 hattribute.2)
  rw [if_neg hattribute]
  by_cases hline : c = '#' ∨ (c = '/' ∧ next = some '/')
  · rw [if_pos hline]
    exact .other (.lineComment hline)
  rw [if_neg hline]
  by_cases hblock : c = '/' ∧ next = some '*'
  · rw [if_pos hblock]
    refine .other (.blockComment hblock.1 hblock.2 ?_)
    split
    · exact Or.inr rfl
    · exact Or.inl rfl
  rw [if_neg hblock]
  by_cases hvariable : c = '$' ∧ next.any isNameStart = true
  · rw [if_pos hvariable]
    exact .plain (.variableName hvariable.1 hvariable.2)
  rw [if_neg hvariable]
  by_cases hsingle : c = '\''
  · rw [if_pos hsingle]
    cases hw : quotedWidth? c cs with
    | none => exact .string (Or.inl hsingle) hw
    | some width => exact .plain (.single hsingle (hsingle ▸ hw))
  rw [if_neg hsingle]
  by_cases hdouble : c = '"'
  · rw [if_pos hdouble]
    cases hw : quotedWidth? c cs with
    | none => exact .string (Or.inr hdouble) hw
    | some width =>
      have hnext : (if interpolates cs = true then Kind.interpolatedString else .string).isMemberOperator =
          false := by
        split <;> rfl
      apply CodeResult.plain
      rw [hnext]
      exact .double hdouble (hdouble ▸ hw)
  rw [if_neg hdouble]
  by_cases hbacktick : c = '\x60'
  · rw [if_pos hbacktick]
    exact .other (.backtick hbacktick)
  rw [if_neg hbacktick]
  by_cases htag : c = '?' ∧ next = some '>'
  · rw [if_pos htag]
    exact .other (.closeTag htag.1 htag.2)
  rw [if_neg htag]
  by_cases hheredoc : c = '<' ∧ "<<".toList.isPrefixOf cs = true
  · rw [if_pos hheredoc]
    split
    · exact .other (.startHeredoc hheredoc.1)
    · rename_i fault hfault
      exact .heredoc hheredoc.1 hheredoc.2 hfault
  rw [if_neg hheredoc]
  by_cases hparen : c = '('
  · rw [if_pos hparen]
    split
    · rename_i hcast
      exact .plain (.cast hparen hcast)
    · rename_i hcast
      exact .plain (.paren hparen hcast)
  rw [if_neg hparen]
  by_cases hnumber : c.isDigit = true ∨ (c = '.' ∧ next.any Char.isDigit = true)
  · rw [if_pos hnumber]
    change CodeResult member c cs (.ok ⟨(number (c :: cs)).1, (number (c :: cs)).2 - 1,
      .code (number (c :: cs)).1.isMemberOperator⟩)
    rw [number_not_member]
    exact .plain (.number hnumber)
  rw [if_neg hnumber]
  by_cases hqualified : c = '\\' ∧ next.any isNameStart = true
  · rw [if_pos hqualified]
    exact .plain (.qualified hqualified.1 hqualified.2)
  rw [if_neg hqualified]
  by_cases hname : isNameStart c = true
  · rw [if_pos hname]
    change CodeResult member c cs (.ok ⟨(name member c cs).1, (name member c cs).2,
      .code (name member c cs).1.isMemberOperator⟩)
    rw [name_not_member]
    exact .plain (.name hname)
  rw [if_neg hname]
  have hsign : IsSign c cs := by
    refine ⟨⟨?_, ?_, ?_, hvariable, ⟨hsingle, hdouble, hbacktick⟩, htag, hheredoc, hparen⟩, hnumber,
      hqualified, ?_⟩
    · simpa using hspace
    · exact fun hc => hline (Or.inl hc)
    · rintro ⟨hc, hn | hn⟩
      · exact hline (Or.inr ⟨hc, hn⟩)
      · exact hblock ⟨hc, hn⟩
    · simpa using hname
  split
  · rename_i hread
    exact .plain (.sign hsign hread)
  · rename_i hread
    exact .unread hsign hread

lemma codeToken_of_codeLexeme {member : Bool} {c : Char} {cs : Text} {l : Lexeme}
    (h : codeLexeme member c cs = .ok l) (hp : Kind.isPlain l.kind = true) : CodeToken member c cs l := by
  have hresult := codeLexeme_result member c cs
  rw [h] at hresult
  cases hresult with
  | plain ht => exact ht
  | other hother =>
    have hnot := hother.not_plain
    rw [hp] at hnot
    cases hnot

lemma IsLate.codeLexeme_eq {c : Char} {cs : Text} (h : IsLate c cs) (member : Bool) :
    codeLexeme member c cs =
      if c.isDigit = true ∨ (c = '.' ∧ cs.head?.any Char.isDigit = true) then
        .ok ⟨(number (c :: cs)).1, (number (c :: cs)).2 - 1, .code (number (c :: cs)).1.isMemberOperator⟩
      else if c = '\\' ∧ cs.head?.any isNameStart = true then
        .ok ⟨.fullyQualifiedName,
          Text.run isNameChar cs + segmentsWidth (cs.drop (Text.run isNameChar cs)), .code false⟩
      else if isNameStart c = true then
        .ok ⟨(name member c cs).1, (name member c cs).2, .code (name member c cs).1.isMemberOperator⟩
      else
        match Symbol.read? (c :: cs) with
        | some (spelling, s) =>
          .ok ⟨.symbol s, spelling.length - 1, .code (Kind.symbol s).isMemberOperator⟩
        | none => .error (.unexpectedCharacter c) := by
  unfold codeLexeme
  extract_lets token next
  rw [if_neg (by simp [h.notSpace]), if_neg (fun hc => h.notHash hc.1), if_neg, if_neg,
    if_neg h.notVariable, if_neg h.notQuote.1, if_neg h.notQuote.2.1, if_neg h.notQuote.2.2,
    if_neg h.notTag, if_neg h.notHeredoc, if_neg h.notParen]
  · rfl
  · exact fun hc => h.notComment ⟨hc.1, Or.inr hc.2⟩
  · rintro (hc | hc)
    · exact h.notHash hc
    · exact h.notComment ⟨hc.1, Or.inl hc.2⟩

lemma ne_of_class {p : Char → Bool} {c d : Char} (hc : p c = true) (hd : p d = false) : c ≠ d := by
  rintro rfl
  rw [hc] at hd
  cases hd

lemma isLate_of_class {p : Char → Bool} {c : Char} (cs : Text) (hc : p c = true)
    (hp : ∀ d ∈ " \t\n\r#/$'\"?<(".toList, p d = false) (hb : p '\x60' = false) : IsLate c cs := by
  have hne : ∀ d ∈ " \t\n\r#/$'\"?<(".toList, c ≠ d := fun d hd => ne_of_class hc (hp d hd)
  refine ⟨?_, hne _ (by decide), ?_, ?_, ⟨hne _ (by decide), hne _ (by decide), ne_of_class hc hb⟩, ?_,
    ?_, hne _ (by decide)⟩
  · simp only [isWhitespace, Bool.or_eq_false_iff, beq_eq_false_iff_ne]
    exact ⟨⟨⟨hne _ (by decide), hne _ (by decide)⟩, hne _ (by decide)⟩, hne _ (by decide)⟩
  · exact fun h => hne _ (by decide) h.1
  · exact fun h => hne _ (by decide) h.1
  · exact fun h => hne _ (by decide) h.1
  · exact fun h => hne _ (by decide) h.1

lemma isUpper_iff {c : Char} : c.isUpper = true ↔ 65 ≤ c.toNat ∧ c.toNat ≤ 90 := by
  have hupper : c.isUpper = decide (c.val ≥ 'A'.val ∧ c.val ≤ 'Z'.val) := rfl
  rw [hupper, decide_eq_true_eq, ge_iff_le, UInt32.le_iff_toNat_le, UInt32.le_iff_toNat_le]
  rfl

lemma isLower_iff {c : Char} : c.isLower = true ↔ 97 ≤ c.toNat ∧ c.toNat ≤ 122 := by
  have hlower : c.isLower = (decide (c.val ≥ 'a'.val) && decide (c.val ≤ 'z'.val)) := rfl
  rw [hlower, Bool.and_eq_true, decide_eq_true_eq, decide_eq_true_eq, ge_iff_le,
    UInt32.le_iff_toNat_le, UInt32.le_iff_toNat_le]
  rfl

lemma isAlpha_eq (c : Char) : c.isAlpha = (c.isUpper || c.isLower) := rfl

lemma eq_of_toLower {c d : Char} (h : c.toLower = d) (hd : d.isLower = false) : c = d := by
  by_cases hu : c.isUpper = true
  · have hrange := isUpper_iff.mp hu
    have hlower : c.toLower = _ := dif_pos (of_decide_eq_true hu)
    rw [hlower] at h
    have hval : (c.val + 32).toNat = d.toNat := congrArg Char.toNat h
    rw [UInt32.toNat_add] at hval
    have hc : c.val.toNat = c.toNat := rfl
    have hmod : (32 : UInt32).toNat = 32 := rfl
    have hletter : d.isLower = true := isLower_iff.mpr (by omega)
    rw [hd] at hletter
    cases hletter
  · rwa [Text.toLower_eq_self hu] at h

lemma openTag?_of_head {c : Char} {cs : Text} (h : c ≠ '<') : openTag? (c :: cs) = none := by
  rw [openTag?_eq, if_neg, if_neg]
  · intro heq
    have hhead : c.toLower = '<' := (List.cons.inj heq).1
    exact h (eq_of_toLower hhead (by decide))
  · rw [List.isPrefixOf_iff_prefix]
    exact fun hecho => h (List.cons_prefix_cons.mp hecho).1.symm

lemma not_isNameStart_of_isDigit {c : Char} (h : c.isDigit = true) : isNameStart c = false := by
  have hval : 48 ≤ c.toNat ∧ c.toNat ≤ 57 := by
    simpa [Char.isDigit, UInt32.le_iff_toNat_le] using h
  have halpha : c.isAlpha = false := by
    rw [Bool.eq_false_iff, isAlpha_eq, Ne, Bool.or_eq_true, isUpper_iff, isLower_iff]
    omega
  have hunder : c ≠ '_' := ne_of_class h (by decide)
  simp only [isNameStart, halpha, Bool.false_or, Bool.or_eq_false_iff, beq_eq_false_iff_ne,
    decide_eq_false_iff_not]
  exact ⟨hunder, by omega⟩

lemma codeLexeme_of_codeToken {member : Bool} {c : Char} {cs : Text} {l : Lexeme}
    (h : CodeToken member c cs l) : codeLexeme member c cs = .ok l := by
  cases h with
  | whitespace hspace =>
    unfold codeLexeme
    extract_lets token next
    rw [if_pos hspace]
  | variableName hc hn =>
    subst hc
    simp [codeLexeme, isWhitespace, hn, Kind.isMemberOperator]
  | single hc hw =>
    subst hc
    simp [codeLexeme, isWhitespace, hw, Kind.isMemberOperator]
  | double hc hw =>
    subst hc
    have hnext : (if interpolates cs = true then Kind.interpolatedString else .string).isMemberOperator =
        false := by
      split <;> rfl
    simp [codeLexeme, isWhitespace, hw, hnext]
  | cast hc hcast =>
    subst hc
    simp [codeLexeme, isWhitespace, hcast, Kind.isMemberOperator]
  | paren hc hcast =>
    subst hc
    simp [codeLexeme, isWhitespace, hcast, Kind.isMemberOperator]
  | number hn =>
    have hlate : IsLate c cs := by
      rcases hn with hd | ⟨rfl, _⟩
      · exact isLate_of_class cs hd (by decide) (by decide)
      · exact isLate_of_class (p := fun d => d == '.') cs rfl (by decide) (by decide)
    rw [hlate.codeLexeme_eq, if_pos hn, number_not_member]
  | qualified hc hn =>
    subst hc
    simp [codeLexeme, isWhitespace, hn, Kind.isMemberOperator]
  | name hn =>
    have hlate : IsLate c cs := isLate_of_class cs hn (by decide) (by decide)
    have hdigit : c.isDigit = false := by
      rw [Bool.eq_false_iff]
      intro hd
      rw [not_isNameStart_of_isDigit hd] at hn
      cases hn
    have hdot : c ≠ '.' := ne_of_class hn (by decide)
    have hslash : c ≠ '\\' := ne_of_class hn (by decide)
    rw [hlate.codeLexeme_eq, if_neg (by simp [hdigit, hdot]), if_neg (by simp [hslash]), if_pos hn,
      name_not_member]
  | sign hs hr =>
    rw [hs.toIsLate.codeLexeme_eq, if_neg hs.notNumber, if_neg hs.notQualified,
      if_neg (by simp [hs.notName]), hr]

def WellSpelled (t : Token) : Prop :=
  (∀ s, t.kind = .symbol s → (t.text, s) ∈ Symbol.spellings) ∧
    (t.kind = .whitespace → ∀ c ∈ t.text, isWhitespace c = true) ∧ t.text ≠ []

lemma mem_take_run {p : Char → Bool} {cs : Text} {c : Char} (h : c ∈ cs.take (Text.run p cs)) :
    p c = true := by
  rw [Text.take_run] at h
  exact List.all_eq_true.mp List.all_takeWhile c h

lemma codeToken_wellSpelled {member : Bool} {c : Char} {cs : Text} {l : Lexeme}
    (h : CodeToken member c cs l) : WellSpelled ⟨l.kind, c :: cs.take l.width⟩ := by
  refine ⟨?_, ?_, by simp⟩
  · intro s hs
    cases h with
    | whitespace | variableName | single | cast | qualified => cases hs
    | double => split at hs <;> cases hs
    | paren hc =>
      cases hs
      subst hc
      simp only [List.take_zero]
      decide +kernel
    | number => rcases number_kind (c :: cs) with hk | hk <;> rw [hk] at hs <;> cases hs
    | name => rcases name_kind member c cs with hk | hk | hk | ⟨k, hk⟩ <;> rw [hk] at hs <;> cases hs
    | sign _ hr =>
      cases hs
      simp only [read?_text hr]
      exact (read?_some hr).1
  · intro hk
    cases h with
    | whitespace hspace =>
      intro d hd
      rcases List.mem_cons.mp hd with rfl | hd
      · exact hspace
      · exact mem_take_run hd
    | variableName | single | cast | qualified | paren | sign => cases hk
    | double => split at hk <;> cases hk
    | number => rcases number_kind (c :: cs) with hn | hn <;> rw [hn] at hk <;> cases hk
    | name => rcases name_kind member c cs with hn | hn | hn | ⟨k, hn⟩ <;> rw [hn] at hk <;> cases hk

end Stencil.Code.Lexer

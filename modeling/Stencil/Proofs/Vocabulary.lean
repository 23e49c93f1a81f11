import Stencil.Proofs.Readers
import Mathlib.Data.List.Infix
import Mathlib.Tactic.Common

namespace Stencil.Code

open Lexer Text

def isIdentifier : Text → Bool
  | [] => false
  | c :: cs => isNameStart c && cs.all isNameChar

def isEscaped (before : Text) : Bool :=
  (before.reverse.takeWhile (· == '\\')).length % 2 == 1

def Quoted (quote : Char) (text : Text) : Prop :=
  ∃ body, text = quote :: (body ++ [quote]) ∧ isEscaped body = false ∧
    ∀ before after, body = before ++ quote :: after → isEscaped before = true

def Joins (first : Text) (more : List Text) (text : Text) : Prop :=
  text = Text.intercalate ['\\'] (first :: more) ∧ ∀ part ∈ first :: more, isIdentifier part = true

structure LineComment (text : Text) : Prop where
  opens : ['#'] <+: text ∨ ['/', '/'] <+: text
  oneLine : '\n' ∉ text
  noTag : ¬ ['?', '>'] <:+: text

def Kind.Spells : Kind → Text → Prop
  | .variableName, text => ∃ name, text = '$' :: name ∧ isIdentifier name = true
  | .identifier, text => isIdentifier text = true
  | .keyword word, text => isIdentifier text = true ∧ word.spelling.toList = Text.lower text
  | .qualifiedName, text => ∃ first more, Joins first more text ∧ more ≠ [] ∧
      Text.lower first ≠ "namespace".toList
  | .relativeName, text => ∃ first more, Joins first more text ∧ more ≠ [] ∧
      Text.lower first = "namespace".toList
  | .fullyQualifiedName, text => ∃ first more path, text = '\\' :: path ∧ Joins first more path
  | .string, text => Quoted '\'' text ∨ Quoted '"' text
  | .interpolatedString, text => Quoted '"' text
  | .cast type, text => ∃ before word after, text = '(' :: (before ++ word ++ after ++ [')']) ∧
      (∀ c ∈ before ++ after, c = ' ' ∨ c = '\t') ∧
      ∃ entry ∈ Cast.typeNames, entry.2 = type ∧ entry.1.toList = Text.lower word
  | .symbol sign, text => (text, sign) ∈ Symbol.spellings
  | .whitespace, text => text ≠ [] ∧ ∀ c ∈ text, c = ' ' ∨ c = '\t' ∨ c = '\r' ∨ c = '\n'
  | .comment, text => LineComment text ∨ ['/', '*'] <+: text
  | _, _ => True

end Stencil.Code

namespace Stencil.Code.Lexer

open Text

lemma isIdentifier_takeWhile {cs : Text} (h : cs.head?.any isNameStart = true) :
    isIdentifier (cs.takeWhile isNameChar) = true := by
  cases cs with
  | nil => cases h
  | cons c cs =>
    have hc : isNameStart c = true := h
    rw [List.takeWhile_cons_of_pos (by rw [isNameChar, hc, Bool.true_or]), isIdentifier, hc, Bool.true_and]
    exact List.all_takeWhile

lemma isIdentifier_name {c : Char} (hc : isNameStart c = true) (cs : Text) :
    isIdentifier (c :: cs.take (Text.run isNameChar cs)) = true := by
  rw [isIdentifier, hc, Bool.true_and, Text.take_run]
  exact List.all_takeWhile

lemma intercalate_cons (separator first : Text) (more : List Text) :
    Text.intercalate separator (first :: more) = first ++ more.flatMap (separator ++ ·) := by
  induction more generalizing first with
  | nil => rw [Text.intercalate, List.flatMap_nil, List.append_nil]
  | cons second more ih =>
    rw [Text.intercalate, ih, List.flatMap_cons, List.append_assoc, List.append_assoc]
    exact fun h => List.cons_ne_nil _ _ h

lemma take_segmentsWidth (cs : Text) :
    ∃ parts : List Text, cs.take (segmentsWidth cs) = parts.flatMap (['\\'] ++ ·) ∧
      (∀ part ∈ parts, isIdentifier part = true) ∧ (parts = [] ↔ segmentsWidth cs = 0) := by
  fun_induction segmentsWidth cs with
  | case1 c rest hc tail ih =>
    obtain ⟨parts, htake, hparts, -⟩ := ih
    refine ⟨(c :: rest.take tail) :: parts, ?_, ?_, by simp⟩
    · have hwidth : 2 + tail + segmentsWidth (rest.drop tail) = tail + segmentsWidth (rest.drop tail) + 1 + 1 := by
        omega
      rw [hwidth, List.take_succ_cons, List.take_succ_cons, List.take_add, htake]
      rfl
    · exact List.forall_mem_cons.mpr ⟨isIdentifier_name hc rest, hparts⟩
  | case2 => exact ⟨[], rfl, by simp, by simp⟩
  | case3 => exact ⟨[], by simp, by simp, by simp⟩

lemma joins_segments {first : Text} (hfirst : isIdentifier first = true) (cs : Text) :
    ∃ more, Joins first more (first ++ cs.take (segmentsWidth cs)) ∧ (more = [] ↔ segmentsWidth cs = 0) := by
  obtain ⟨parts, htake, hparts, hnil⟩ := take_segmentsWidth cs
  refine ⟨parts, ⟨?_, List.forall_mem_cons.mpr ⟨hfirst, hparts⟩⟩, hnil⟩
  rw [intercalate_cons, htake]

lemma ofWord?_spelling {word : Text} {k : Keyword} (h : Keyword.ofWord? word = some k) :
    k.spelling.toList = Text.lower word := by
  simpa using List.find?_some h

lemma name_spells (member : Bool) {c : Char} (hc : isNameStart c = true) (cs : Text) :
    (name member c cs).1.Spells (c :: cs.take (name member c cs).2) := by
  have hword := isIdentifier_name hc cs
  obtain ⟨more, hjoins, hmore⟩ := joins_segments hword (cs.drop (Text.run isNameChar cs))
  rw [List.cons_append, ← List.take_add] at hjoins
  unfold name
  dsimp only
  split
  · rename_i hsegments
    have hne : more ≠ [] := mt hmore.mp hsegments
    split
    · rename_i hnamespace
      exact ⟨_, more, hjoins, hne, hnamespace⟩
    · rename_i hnamespace
      exact ⟨_, more, hjoins, hne, hnamespace⟩
  · rename_i hsegments
    rw [ne_eq, not_not] at hsegments
    rw [hsegments, Nat.add_zero]
    split
    · exact hword
    · split
      · rename_i k hk
        exact ⟨hword, ofWord?_spelling hk⟩
      · exact hword

lemma isEscaped_concat (before : Text) (c : Char) :
    isEscaped (before ++ [c]) = (c == '\\' && !isEscaped before) := by
  rw [isEscaped, isEscaped, List.reverse_append, List.reverse_singleton, List.singleton_append]
  by_cases hc : c = '\\'
  · rw [List.takeWhile_cons_of_pos (by simpa using hc), List.length_cons, hc]
    rcases Nat.mod_two_eq_zero_or_one (before.reverse.takeWhile (· == '\\')).length with h | h
    · rw [h, Nat.add_mod, h]
      rfl
    · rw [h, Nat.add_mod, h]
      rfl
  · rw [List.takeWhile_cons_of_neg (by simpa using hc), beq_eq_false_iff_ne.mpr hc, Bool.false_and]
    rfl

lemma quotedWidth?_quoted {quote : Char} (hq : quote ≠ '\\') {cs : Text} {width : Nat}
    (h : quotedWidth? quote cs = some width) {passed : Text} (hpassed : isEscaped passed = false) :
    ∃ body, cs.take width = body ++ [quote] ∧ isEscaped (passed ++ body) = false ∧
      ∀ before after, body = before ++ quote :: after → isEscaped (passed ++ before) = true := by
  fun_induction quotedWidth? quote cs generalizing width passed with
  | case1 => cases h
  | case2 => cases h
  | case3 c cs ih =>
    obtain ⟨w, hw, rfl⟩ := Option.map_eq_some_iff.mp h
    have hslash : isEscaped (passed ++ ['\\']) = true := by
      rw [isEscaped_concat, hpassed]
      rfl
    have hpair : isEscaped (passed ++ ['\\'] ++ [c]) = false := by
      rw [isEscaped_concat, hslash, Bool.not_true, Bool.and_false]
    obtain ⟨body, htake, hend, hinside⟩ := ih hw hpair
    rw [List.append_assoc, List.append_assoc] at hend
    refine ⟨'\\' :: c :: body, ?_, hend, ?_⟩
    · rw [List.take_succ_cons, List.take_succ_cons, htake]
      rfl
    · rintro (_ | ⟨_, _ | ⟨_, before⟩⟩) after hbody
      · exact absurd (List.cons.inj hbody).1.symm hq
      · cases hbody
        exact hslash
      · cases hbody
        have hescaped := hinside before after rfl
        rw [List.append_assoc, List.append_assoc] at hescaped
        exact hescaped
  | case4 cs =>
    cases h
    refine ⟨[], rfl, by rwa [List.append_nil], ?_⟩
    rintro (_ | ⟨_, before⟩) after hbody <;> cases hbody
  | case5 c cs hlast hpair hc ih =>
    obtain ⟨w, hw, rfl⟩ := Option.map_eq_some_iff.mp h
    have hplain : c ≠ '\\' := not_escape hlast hpair
    have hnext : isEscaped (passed ++ [c]) = false := by
      rw [isEscaped_concat, beq_eq_false_iff_ne.mpr hplain, Bool.false_and]
    obtain ⟨body, htake, hend, hinside⟩ := ih hw hnext
    rw [List.append_assoc] at hend
    refine ⟨c :: body, by rw [List.take_succ_cons, htake]; rfl, hend, ?_⟩
    rintro (_ | ⟨_, before⟩) after hbody
    · exact absurd (List.cons.inj hbody).1 hc
    · cases hbody
      have hescaped := hinside before after rfl
      rw [List.append_assoc] at hescaped
      exact hescaped

lemma quoted_of_width {quote : Char} (hq : quote ≠ '\\') {cs : Text} {width : Nat}
    (h : quotedWidth? quote cs = some width) : Quoted quote (quote :: cs.take width) := by
  have hstart : isEscaped [] = false := rfl
  obtain ⟨body, htake, hend, hinside⟩ := quotedWidth?_quoted hq h hstart
  exact ⟨body, by rw [htake], hend, hinside⟩

lemma isBlank_iff {c : Char} : Lexer.isBlank c = true ↔ c = ' ' ∨ c = '\t' := by
  rw [Lexer.isBlank, Bool.or_eq_true, beq_iff_eq, beq_iff_eq]

lemma trimBy_splits (p : Char → Bool) (cs : Text) :
    ∃ before after, cs = before ++ Text.trimBy p cs ++ after ∧ ∀ c ∈ before ++ after, p c = true := by
  refine ⟨cs.takeWhile p, ((cs.dropWhile p).reverse.takeWhile p).reverse, ?_, ?_⟩
  · rw [Text.trimBy, List.append_assoc, ← List.reverse_append, List.takeWhile_append_dropWhile,
      List.reverse_reverse, List.takeWhile_append_dropWhile]
  · intro c hc
    rcases List.mem_append.mp hc with hc | hc
    · exact List.all_eq_true.mp List.all_takeWhile c hc
    · exact List.all_eq_true.mp List.all_takeWhile c (List.mem_reverse.mp hc)

lemma take_takeWhile_succ {p : Char → Bool} {cs : Text} (h : (cs.takeWhile p).length < cs.length) :
    ∃ d, p d = false ∧ cs.take ((cs.takeWhile p).length + 1) = cs.takeWhile p ++ [d] := by
  induction cs with
  | nil => cases h
  | cons c cs ih =>
    by_cases hc : p c = true
    · rw [List.takeWhile_cons_of_pos hc, List.length_cons, List.length_cons] at h
      obtain ⟨d, hd, htake⟩ := ih (Nat.lt_of_succ_lt_succ h)
      refine ⟨d, hd, ?_⟩
      rw [List.takeWhile_cons_of_pos hc, List.length_cons, List.take_succ_cons, htake]
      rfl
    · exact ⟨c, by simpa using hc, by rw [List.takeWhile_cons_of_neg hc]; rfl⟩

lemma cast_spells {cs : Text} {type : Cast} {width : Nat} (h : cast? cs = some (type, width)) :
    (Kind.cast type).Spells ('(' :: cs.take width) := by
  unfold cast? at h
  dsimp only at h
  split at h
  · rename_i hlt
    obtain ⟨found, hfound, heq⟩ := Option.map_eq_some_iff.mp h
    cases heq
    obtain ⟨d, hd, htake⟩ := take_takeWhile_succ hlt
    obtain rfl : d = ')' := by simpa using hd
    obtain ⟨before, after, hinner, hblanks⟩ := trimBy_splits Lexer.isBlank (cs.takeWhile (· ≠ ')'))
    obtain ⟨entry, hentry, rfl⟩ := Option.map_eq_some_iff.mp hfound
    refine ⟨before, Text.trimBy Lexer.isBlank (cs.takeWhile (· ≠ ')')), after, ?_,
      fun c hc => isBlank_iff.mp (hblanks c hc), entry, List.mem_of_find?_eq_some hentry, rfl,
      by simpa using List.find?_some hentry⟩
    rw [htake, ← hinner]
  · cases h

lemma lineComment_rest (cs : Text) :
    '\n' ∉ cs.take (lineCommentWidth cs) ∧ ¬ ['?', '>'] <:+: cs.take (lineCommentWidth cs) := by
  fun_induction lineCommentWidth cs with
  | case1 => simp
  | case2 => simp
  | case3 => simp
  | case4 c cs hfeed htag ih =>
    rw [List.take_succ_cons]
    refine ⟨?_, ?_⟩
    · rw [List.mem_cons, not_or]
      exact ⟨fun hc => hfeed hc.symm, ih.1⟩
    · rw [List.infix_cons_iff, not_or]
      refine ⟨fun hstart => ?_, ih.2⟩
      obtain ⟨rfl, hrest⟩ := List.cons_prefix_cons.mp hstart
      obtain ⟨more, hmore⟩ := hrest.trans (List.take_prefix _ _)
      exact htag more rfl hmore.symm

lemma lineComment_spells {c : Char} {cs : Text} (h : c = '#' ∨ (c = '/' ∧ cs.head? = some '/')) :
    LineComment (c :: cs.take (lineCommentWidth cs)) := by
  obtain ⟨hfeed, htag⟩ := lineComment_rest cs
  refine ⟨?_, ?_, ?_⟩
  · rcases h with rfl | ⟨rfl, hslash⟩
    · exact Or.inl ⟨_, rfl⟩
    · cases cs with
      | nil => cases hslash
      | cons d cs =>
        cases hslash
        exact Or.inr ⟨_, rfl⟩
  · rw [List.mem_cons, not_or]
    exact ⟨by rcases h with rfl | ⟨rfl, -⟩ <;> decide, hfeed⟩
  · rw [List.infix_cons_iff, not_or]
    refine ⟨fun hstart => ?_, htag⟩
    have hc := (List.cons_prefix_cons.mp hstart).1
    rcases h with rfl | ⟨rfl, -⟩ <;> cases hc

lemma openTag?_within {c : Char} {n : Nat} (h : n + 1 < c.utf8Size) (more : Text) :
    openTag? ((charBytes c).drop (n + 1) ++ more) = none := by
  have hhigh : 128 ≤ c.toNat := by
    by_contra hlow
    rw [utf8Size_ascii (Nat.lt_of_not_le hlow)] at h
    omega
  obtain ⟨b, bs, hb⟩ : ∃ b bs, (charBytes c).drop (n + 1) = b :: bs := by
    apply List.exists_cons_of_ne_nil
    rw [Ne, List.drop_eq_nil_iff, length_charBytes]
    omega
  rw [hb]
  exact openTag?_high (charBytes_high hhigh b (List.mem_of_mem_drop (hb ▸ List.mem_cons_self))) _

lemma openTag?_inline (front : Text) {cs : Text} (h : front.length ≤ inlineWidth (front ++ cs)) {n : Nat}
    (hn : n < byteSize front) : openTag? ((bytes (front ++ cs)).drop n) = none := by
  induction front generalizing n with
  | nil => cases hn
  | cons c front ih =>
    have hopen : openTag? (c :: (front ++ cs)) = none := by
      by_contra hsome
      rw [List.cons_append, inlineWidth, if_pos (Option.isSome_iff_ne_none.mpr hsome)] at h
      cases h
    rw [List.cons_append] at h ⊢
    rcases Nat.lt_or_ge n c.utf8Size with hwithin | hpast
    · cases n with
      | zero => rw [List.drop_zero, openTag?_bytes, hopen]
      | succ n =>
        rw [bytes_cons, List.drop_append_of_le_length (by rw [length_charBytes]; omega)]
        exact openTag?_within hwithin _
    · rw [inlineWidth, hopen, if_neg (by simp)] at h
      have hrest : n - c.utf8Size < byteSize front := by
        rw [byteSize_cons] at hn
        omega
      rw [bytes_cons, List.drop_append, List.drop_of_length_le (by rwa [length_charBytes]),
        length_charBytes, List.nil_append]
      exact ih (Nat.le_of_succ_le_succ h) hrest

lemma CodeToken.spells {member : Bool} {c : Char} {cs : Text} {l : Lexeme} (h : CodeToken member c cs l) :
    l.kind.Spells (c :: cs.take l.width) := by
  have hspelled := codeToken_wellSpelled h
  cases h with
  | whitespace =>
    refine ⟨List.cons_ne_nil _ _, fun d hd => ?_⟩
    have hspace := hspelled.2.1 rfl d hd
    simp only [Lexer.isWhitespace, Bool.or_eq_true, beq_iff_eq] at hspace
    tauto
  | variableName hc hname =>
    rw [hc, Text.take_run]
    exact ⟨_, rfl, isIdentifier_takeWhile hname⟩
  | single hc hwidth =>
    rw [hc]
    exact Or.inl (quoted_of_width (by decide) hwidth)
  | double hc hwidth =>
    rw [hc]
    have hquoted := quoted_of_width (by decide) hwidth
    dsimp only
    split
    · exact hquoted
    · exact Or.inr hquoted
  | cast hc hcast =>
    rw [hc]
    exact cast_spells hcast
  | paren | sign => exact hspelled.1 _ rfl
  | number => rcases number_kind (c :: cs) with hk | hk <;> dsimp only <;> rw [hk] <;> trivial
  | qualified hc hname =>
    obtain ⟨more, hjoins, -⟩ := joins_segments (isIdentifier_takeWhile hname)
      (cs.drop (Text.run isNameChar cs))
    rw [← Text.take_run, ← List.take_add] at hjoins
    rw [hc]
    exact ⟨_, more, _, rfl, hjoins⟩
  | name hc => exact name_spells member hc cs

lemma OtherToken.spells {member : Bool} {c : Char} {cs : Text} {l : Lexeme} (h : OtherToken member c cs l) :
    l.kind.Spells (c :: cs.take l.width) := by
  cases h with
  | lineComment hopen => exact Or.inl (lineComment_spells hopen)
  | blockComment hc hstar hkind =>
    cases cs with
    | nil => cases hstar
    | cons d cs =>
      cases hstar
      rw [hc, Nat.add_comm, List.take_succ_cons]
      rcases hkind with rfl | rfl
      · exact Or.inr ⟨_, rfl⟩
      · trivial
  | _ => trivial

lemma CodeToken.ne_inlineHtml {member : Bool} {c : Char} {cs : Text} {l : Lexeme}
    (h : CodeToken member c cs l) : l.kind ≠ .inlineHtml := by
  cases h with
  | double => dsimp only; split <;> exact Kind.noConfusion
  | number => rcases number_kind (c :: cs) with hk | hk <;> rw [hk] <;> exact Kind.noConfusion
  | name => rcases name_kind member c cs with hk | hk | hk | ⟨k, hk⟩ <;> rw [hk] <;> exact Kind.noConfusion
  | _ => exact Kind.noConfusion

lemma OtherToken.ne_inlineHtml {member : Bool} {c : Char} {cs : Text} {l : Lexeme}
    (h : OtherToken member c cs l) : l.kind ≠ .inlineHtml := by
  cases h with
  | blockComment _ _ hkind => rcases hkind with rfl | rfl <;> exact Kind.noConfusion
  | _ => exact Kind.noConfusion

lemma codeLexeme_spells {member : Bool} {c : Char} {cs : Text} {l : Lexeme}
    (h : codeLexeme member c cs = .ok l) : l.kind.Spells (c :: cs.take l.width) ∧ l.kind ≠ .inlineHtml := by
  have hresult := codeLexeme_result member c cs
  rw [h] at hresult
  cases hresult with
  | plain htoken => exact ⟨htoken.spells, htoken.ne_inlineHtml⟩
  | other htoken => exact ⟨htoken.spells, htoken.ne_inlineHtml⟩

lemma openTag?_kind {cs : Text} {kind : Kind} {length : Nat} (h : openTag? cs = some (kind, length)) :
    kind = .openTag ∨ kind = .openTagWithEcho := by
  rw [openTag?_eq] at h
  repeat' split at h
  all_goals cases h
  all_goals simp

lemma lexeme_spells {mode : Mode} {c : Char} {cs : Text} {l : Lexeme} (h : lexeme mode c cs = .ok l) :
    l.kind.Spells (c :: cs.take l.width) := by
  cases mode with
  | markup =>
    rw [lexeme] at h
    split at h
    · rename_i kind length htag
      cases h
      rcases openTag?_kind htag with rfl | rfl <;> trivial
    · cases h
      trivial
  | code member => exact (codeLexeme_spells h).1
  | heredoc label =>
    rw [lexeme] at h
    split at h <;> cases h <;> trivial

lemma lexeme_inline {mode : Mode} {c : Char} {cs : Text} {l : Lexeme} (h : lexeme mode c cs = .ok l)
    (hk : l.kind = .inlineHtml) : l.width + 1 = inlineWidth (c :: cs) := by
  cases mode with
  | markup =>
    rw [lexeme] at h
    split at h
    · rename_i kind length htag
      cases h
      rcases openTag?_kind htag with rfl | rfl <;> cases hk
    · rename_i htag
      cases h
      rw [inlineWidth, htag]
      rfl
  | code member => exact absurd hk (codeLexeme_spells h).2
  | heredoc label =>
    rw [lexeme] at h
    split at h <;> cases h <;> cases hk

lemma Scans.spells {mode stop : Mode} {source rest : Text} {ts : List Token}
    (h : Scans mode source ts stop rest) : ∀ t ∈ ts, t.kind.Spells t.text := by
  induction h with
  | done => simp
  | step hl _ ih => exact List.forall_mem_cons.mpr ⟨lexeme_spells hl, ih⟩

lemma Scans.inline_silent {mode stop : Mode} {source rest : Text} {front back : List Token} {t : Token}
    (h : Scans mode source (front ++ t :: back) stop rest) (hk : t.kind = .inlineHtml) {n : Nat}
    (hn : n < byteSize t.text) :
    openTag? ((bytes source).drop (byteSize (front.flatMap Token.text) + n)) = none := by
  obtain ⟨mid, inner, hfront, hback⟩ := h.split
  rw [hfront.text, bytes_append, ← length_bytes, List.drop_append, List.drop_of_length_le (Nat.le_add_right _ _),
    List.nil_append, Nat.add_sub_cancel_left]
  cases hback with
  | @step _ _ c cs _ l _ hl hs =>
    have hwidth := lexeme_inline hl hk
    rw [← List.take_append_drop l.width cs, ← List.cons_append]
    refine openTag?_inline (c :: cs.take l.width) ?_ hn
    rw [List.cons_append, List.take_append_drop, ← hwidth, List.length_cons]
    exact Nat.succ_le_succ (List.length_take_le _ _)

end Stencil.Code.Lexer

namespace Stencil.Code

open Lexer Text

/-- The text of every token has the form of its kind, and no open tag of the source starts at a byte of a
text outside code. -/
theorem tokens_spelled_by_kind {source : Text} {tokens : List Token} (h : tokenize source = .ok tokens) :
    (∀ t ∈ tokens, t.kind.Spells t.text) ∧
      ∀ front t back, tokens = front ++ t :: back → t.kind = .inlineHtml →
        ∀ n < byteSize t.text,
          openTag? ((bytes source).drop (byteSize (front.flatMap Token.text) + n)) = none := by
  obtain ⟨stop, hscans⟩ := scans_of_tokensFrom h
  refine ⟨hscans.spells, ?_⟩
  rintro front t back rfl hk n hn
  exact hscans.inline_silent hk hn

lemma tokenize_of_toOption {source : Text} {tokens : List Token}
    (h : (tokenize source).toOption = some tokens) : tokenize source = .ok tokens := by
  cases hok : tokenize source with
  | error fault =>
    rw [hok] at h
    cases h
  | ok found =>
    rw [hok] at h
    rw [Option.some.inj h]

def mixedSource : Text :=
  "<é<?php \\A\\b( Int )'\\''\"$x\"<>#\n/*?>*/If".toList

def mixedTokens : List Token :=
  [⟨.inlineHtml, ['<', 'é']⟩, ⟨.openTag, "<?php ".toList⟩, ⟨.fullyQualifiedName, "\\A\\b".toList⟩,
    ⟨.cast .int, "( Int )".toList⟩, ⟨.string, "'\\''".toList⟩, ⟨.interpolatedString, "\"$x\"".toList⟩,
    ⟨.symbol .notEqual, "<>".toList⟩, ⟨.comment, ['#']⟩, ⟨.whitespace, ['\n']⟩,
    ⟨.comment, "/*?>*/".toList⟩, ⟨.keyword .kwIf, "If".toList⟩]

theorem tokens_spelled_by_kind_mixed :
    tokenize mixedSource = .ok mixedTokens ∧ (∀ t ∈ mixedTokens, t.kind.Spells t.text) ∧
      ∀ n < 3, openTag? ((bytes mixedSource).drop n) = none := by
  have hok : tokenize mixedSource = .ok mixedTokens := tokenize_of_toOption (by decide +kernel)
  obtain ⟨hspells, hinline⟩ := tokens_spelled_by_kind hok
  refine ⟨hok, hspells, fun n hn => ?_⟩
  have hnone := hinline [] ⟨.inlineHtml, ['<', 'é']⟩ mixedTokens.tail rfl rfl n hn
  rwa [List.flatMap_nil, byteSize_nil, Nat.zero_add] at hnone

end Stencil.Code

import Stencil.Proofs.Encoding
import Stencil.Proofs.Wrappers
import Mathlib.Tactic.Common

/-! A reader that is given the bytes of a text stops at the byte where it stops in the text. -/

namespace Stencil.Code.Lexer

open Text

lemma isNameStart_high {c : Char} (h : 128 ≤ c.toNat) : isNameStart c = true := by
  simp only [isNameStart, Bool.or_eq_true, decide_eq_true_eq]
  exact Or.inr h

lemma toNat_of_isDigit {c : Char} (h : c.isDigit = true) : 48 ≤ c.toNat ∧ c.toNat ≤ 57 := by
  simpa [Char.isDigit, UInt32.le_iff_toNat_le] using h

lemma uniform_isNameStart : Uniform isNameStart := fun c d hc hd => by
  rw [isNameStart_high hc, isNameStart_high hd]

lemma uniform_isNameChar : Uniform isNameChar := fun c d hc hd => by
  simp only [isNameChar, isNameStart_high hc, isNameStart_high hd, Bool.true_or]

lemma uniform_isDigit : Uniform Char.isDigit :=
  uniform_of_ascii fun c hc => by have := toNat_of_isDigit hc; omega

lemma isWhitespace_ascii {c : Char} (h : isWhitespace c = true) : c.toNat < 128 := by
  simp only [isWhitespace, Bool.or_eq_true, beq_iff_eq] at h
  rcases h with ((rfl | rfl) | rfl) | rfl <;> decide

lemma uniform_isWhitespace : Uniform isWhitespace :=
  uniform_of_ascii fun _ hc => isWhitespace_ascii hc

lemma uniform_isBlank : Uniform isBlank := by
  apply uniform_of_ascii
  intro c hc
  simp only [isBlank, Bool.or_eq_true, beq_iff_eq] at hc
  rcases hc with rfl | rfl <;> decide

lemma uniform_isDecimal : Uniform isDecimal :=
  uniform_or uniform_isDigit (uniform_eq (by decide))

lemma uniform_isBinary : Uniform isBinary :=
  uniform_or (uniform_or (uniform_eq (by decide)) (uniform_eq (by decide))) (uniform_eq (by decide))

lemma uniform_isOctal : Uniform isOctal :=
  uniform_or (uniform_between (by decide)) (uniform_eq (by decide))

lemma uniform_isHexadecimal : Uniform isHexadecimal :=
  uniform_or (uniform_or (uniform_or uniform_isDigit (uniform_between (by decide)))
    (uniform_between (by decide))) (uniform_eq (by decide))

lemma segmentsWidth_slash (cs : Text) :
    segmentsWidth ('\\' :: cs) =
      if cs.head?.any isNameStart = true then
        1 + Text.run isNameChar cs + segmentsWidth (cs.drop (Text.run isNameChar cs))
      else 0 := by
  cases cs with
  | nil => exact segmentsWidth_zero (by simp)
  | cons c rest =>
    cases hc : isNameStart c with
    | false =>
      rw [if_neg (by simp [hc])]
      apply segmentsWidth_zero
      intro d ds hcs
      cases hcs
      exact hc
    | true =>
      have hrun : Text.run isNameChar (c :: rest) = Text.run isNameChar rest + 1 := by
        simp [Text.run, isNameChar, hc]
      rw [if_pos (by simp [hc]), segmentsWidth_name rest hc, hrun, List.drop_succ_cons]
      omega

lemma segmentsWidth_other {cs : Text} (h : cs.head? ≠ some '\\') : segmentsWidth cs = 0 := by
  apply segmentsWidth_zero
  intro c rest hcs
  rw [hcs] at h
  exact absurd rfl h

lemma segmentsWidth_bytes (cs : Text) :
    segmentsWidth (bytes cs) = byteSize (cs.take (segmentsWidth cs)) := by
  induction hlength : cs.length using Nat.strongRecOn generalizing cs with
  | ind length ih =>
    by_cases hslash : cs.head? = some '\\'
    · cases cs with
      | nil => cases hslash
      | cons c cs =>
        cases hslash
        have hrest := ih (cs.drop (Text.run isNameChar cs)).length
          (by rw [← hlength, List.length_drop, List.length_cons]; omega) _ rfl
        rw [bytes_ascii (by decide), segmentsWidth_slash, segmentsWidth_slash,
          uniform_isNameStart.head?, uniform_isNameChar.run, drop_bytes, hrest]
        split
        · rw [Nat.add_assoc, Nat.add_assoc, byteSize_take_ascii (by decide), byteSize_take_add]
        · rfl
    · rw [segmentsWidth_other hslash, segmentsWidth_other]
      · rfl
      · rwa [Ne, head?_bytes (by decide)]

lemma fractionWidth_bytes (cs : Text) :
    fractionWidth (bytes cs) = byteSize (cs.take (fractionWidth cs)) := by
  by_cases hdot : cs.head? = some '.'
  · cases cs with
    | nil => cases hdot
    | cons c cs =>
      cases hdot
      simp only [bytes_ascii (c := '.') (by decide), fractionWidth_dot, uniform_isDecimal.run,
        head?_bytes (x := '.') (by decide), head?_bytes (x := '=') (by decide)]
      split
      · rfl
      · rw [byteSize_take_ascii (by decide)]
  · rw [fractionWidth_zero hdot, fractionWidth_zero]
    · rfl
    · rwa [Ne, head?_bytes (by decide)]

lemma exponentWidth_other {cs : Text} (h : cs.head? ≠ some 'e' ∧ cs.head? ≠ some 'E') :
    exponentWidth cs = 0 := by
  cases cs with
  | nil => rfl
  | cons e cs =>
    have he : ¬ (e = 'e' ∨ e = 'E') := by simpa [not_or] using h
    cases cs <;> simp only [exponentWidth, if_neg he]

lemma exponentWidth_signed {e sign : Char} (he : e = 'e' ∨ e = 'E') (hs : sign = '+' ∨ sign = '-')
    (cs : Text) :
    exponentWidth (e :: sign :: cs) =
      if cs.head?.any Char.isDigit = true then 2 + Text.run isDecimal cs else 0 := by
  simp only [exponentWidth, if_pos he, if_pos hs]

lemma exponentWidth_unsigned {e : Char} {cs : Text} (he : e = 'e' ∨ e = 'E')
    (hs : cs.head? ≠ some '+' ∧ cs.head? ≠ some '-') :
    exponentWidth (e :: cs) =
      if cs.head?.any Char.isDigit = true then 1 + Text.run isDecimal cs else 0 := by
  cases cs with
  | nil => simp [exponentWidth]
  | cons d cs =>
    have hd : ¬ (d = '+' ∨ d = '-') := by simpa [not_or] using hs
    simp only [exponentWidth, if_pos he, if_neg hd, List.head?_cons, Option.any_some]
    rfl

lemma exponentWidth_bytes (cs : Text) :
    exponentWidth (bytes cs) = byteSize (cs.take (exponentWidth cs)) := by
  by_cases hletter : cs.head? ≠ some 'e' ∧ cs.head? ≠ some 'E'
  · rw [exponentWidth_other hletter, exponentWidth_other]
    · rfl
    · rwa [Ne, Ne, head?_bytes (by decide), head?_bytes (by decide)]
  · cases cs with
    | nil => simp at hletter
    | cons e cs =>
      have he : e = 'e' ∨ e = 'E' := or_iff_not_imp_left.2 (by simpa using hletter)
      have hascii : e.toNat < 128 := by rcases he with rfl | rfl <;> decide
      rw [bytes_ascii hascii]
      by_cases hs : cs.head? ≠ some '+' ∧ cs.head? ≠ some '-'
      · have hs' : (bytes cs).head? ≠ some '+' ∧ (bytes cs).head? ≠ some '-' := by
          rwa [Ne, Ne, head?_bytes (by decide), head?_bytes (by decide)]
        rw [exponentWidth_unsigned he hs, exponentWidth_unsigned he hs', uniform_isDigit.head?,
          uniform_isDecimal.run]
        split
        · rw [byteSize_take_ascii hascii]
        · rfl
      · cases cs with
        | nil => simp at hs
        | cons sign cs =>
          have hsign : sign = '+' ∨ sign = '-' := or_iff_not_imp_left.2 (by simpa using hs)
          have hascii' : sign.toNat < 128 := by rcases hsign with rfl | rfl <;> decide
          rw [bytes_ascii hascii', exponentWidth_signed he hsign, exponentWidth_signed he hsign,
            uniform_isDigit.head?, uniform_isDecimal.run]
          split
          · rw [show 2 + Text.run isDecimal cs = 1 + (1 + Text.run isDecimal cs) by omega,
              byteSize_take_ascii hascii, byteSize_take_ascii hascii']
            omega
          · rfl

lemma decimal_bytes (cs : Text) :
    decimal (bytes cs) = ((decimal cs).1, byteSize (cs.take (decimal cs).2)) := by
  have hfraction := fractionWidth_le (cs.drop (Text.run isDecimal cs))
  have hexponent := exponentWidth_le (cs.drop (Text.run isDecimal cs +
    fractionWidth (cs.drop (Text.run isDecimal cs))))
  have hzero := byteSize_take_eq_zero hfraction
  have hzero' := byteSize_take_eq_zero hexponent
  simp only [decimal, uniform_isDecimal.run, drop_bytes, fractionWidth_bytes, ← byteSize_take_add,
    exponentWidth_bytes]
  simp only [Nat.add_eq_zero_iff, hzero, hzero']

lemma baseDigits?_uniform {c : Char} {digits : Char → Bool} (h : baseDigits? c = some digits) :
    c.toNat < 128 ∧ Uniform digits := by
  unfold baseDigits? at h
  split at h
  case isTrue hc =>
    cases h
    exact ⟨by rcases hc with rfl | rfl <;> decide, uniform_isHexadecimal⟩
  case isFalse =>
    split at h
    case isTrue hc =>
      cases h
      exact ⟨by rcases hc with rfl | rfl <;> decide, uniform_isBinary⟩
    case isFalse =>
      split at h
      case isTrue hc =>
        cases h
        exact ⟨by rcases hc with rfl | rfl <;> decide, uniform_isOctal⟩
      case isFalse => cases h

lemma number_plain {c d : Char} {cs : Text} (h : baseDigits? d = none) :
    number (c :: d :: cs) = decimal (c :: d :: cs) := by
  by_cases hc : c = '0'
  · subst hc
    rw [number_base, h]
  · exact number_decimal hc

lemma number_bytes {c : Char} (h : c.toNat < 128) (cs : Text) :
    number (c :: bytes cs) = ((number (c :: cs)).1, byteSize ((c :: cs).take (number (c :: cs)).2)) := by
  have hdecimal := decimal_bytes (c :: cs)
  rw [bytes_ascii h] at hdecimal
  by_cases hc : c = '0'
  · subst hc
    cases cs with
    | nil => exact hdecimal
    | cons d cs =>
      cases hd : baseDigits? d with
      | some digits =>
        obtain ⟨hascii, huniform⟩ := baseDigits?_uniform hd
        simp only [bytes_ascii hascii, number_base, hd, huniform.run]
        rw [show 2 + Text.run digits cs = 1 + (1 + Text.run digits cs) by omega,
          byteSize_take_ascii h, byteSize_take_ascii hascii]
        simp only [Prod.mk.injEq, true_and]
        omega
      | none =>
        rw [number_plain hd, ← hdecimal]
        obtain ⟨b, bs, hb⟩ := List.exists_cons_of_ne_nil (charBytes_ne_nil d)
        rw [bytes_cons, hb, List.cons_append]
        apply number_plain
        rcases Nat.lt_or_ge d.toNat 128 with hascii | hhigh
        · rw [charBytes_ascii hascii] at hb
          cases hb
          exact hd
        · rw [Option.eq_none_iff_forall_ne_some]
          intro digits hdigits
          have := charBytes_high hhigh b (by rw [hb]; exact List.mem_cons_self)
          have := (baseDigits?_uniform hdigits).1
          omega
  · rw [number_decimal hc, number_decimal hc, hdecimal]

lemma quotedWidth?_skip {quote : Char} {front : Text} (h : ∀ c ∈ front, c ≠ '\\' ∧ c ≠ quote)
    (cs : Text) : quotedWidth? quote (front ++ cs) = (quotedWidth? quote cs).map (· + front.length) := by
  induction front with
  | nil => simp
  | cons c front ih =>
    obtain ⟨⟨hslash, hquote⟩, hfront⟩ := List.forall_mem_cons.1 h
    rw [List.cons_append, quotedWidth?_plain _ hslash, if_neg hquote, ih hfront, Option.map_map]
    rfl

lemma quotedWidth?_bytes {quote : Char} (hq : quote.toNat < 128) (cs : Text) :
    quotedWidth? quote (bytes cs) = (quotedWidth? quote cs).map fun n => byteSize (cs.take n) := by
  fun_induction quotedWidth? quote cs with
  | case1 => rfl
  | case2 => rfl
  | case3 c cs ih =>
    -- An escape hides the first byte of a character; the others are beyond ASCII.
    obtain ⟨b, bs, hb⟩ := List.exists_cons_of_ne_nil (charBytes_ne_nil c)
    have hsize : c.utf8Size = bs.length + 1 := by rw [← length_charBytes, hb, List.length_cons]
    have hskip : ∀ d ∈ bs, d ≠ '\\' ∧ d ≠ quote := fun d hd =>
      ⟨ne_of_high (charBytes_tail hb d hd) (by decide), ne_of_high (charBytes_tail hb d hd) hq⟩
    rw [bytes_ascii (by decide), bytes_cons, hb, List.cons_append, quotedWidth?,
      quotedWidth?_skip hskip, ih, Option.map_map, Option.map_map, Option.map_map]
    congr 1
    funext n
    simp only [Function.comp_apply, List.take_succ_cons, byteSize_cons, hsize,
      utf8Size_ascii (c := '\\') (by decide)]
    omega
  | case4 cs hnil hcons =>
    rw [bytes_ascii hq, quotedWidth?_plain _ (not_escape hnil hcons), if_pos rfl, Option.map_some,
      byteSize_take_ascii hq cs 0]
    rfl
  | case5 c cs hnil hcons hc ih =>
    have hskip : ∀ d ∈ charBytes c, d ≠ '\\' ∧ d ≠ quote := fun d hd =>
      ⟨ne_of_charBytes (by decide) (not_escape hnil hcons) hd, ne_of_charBytes hq hc hd⟩
    rw [bytes_cons, quotedWidth?_skip hskip, ih, Option.map_map, Option.map_map]
    congr 1
    funext n
    simp only [Function.comp_apply, List.take_succ_cons, byteSize_cons, length_charBytes]
    omega

lemma interpolates_skip {front : Text}
    (h : ∀ c ∈ front, c ≠ '\\' ∧ c ≠ '"' ∧ c ≠ '$' ∧ c ≠ '\x7b') (cs : Text) :
    interpolates (front ++ cs) = interpolates cs := by
  induction front with
  | nil => rfl
  | cons c front ih =>
    obtain ⟨⟨hslash, hquote, hdollar, hbrace⟩, hfront⟩ := List.forall_mem_cons.1 h
    rw [List.cons_append, interpolates.eq_7, ih hfront]
    · exact fun hc _ => hslash hc
    · exact fun _ _ hc _ => hslash hc
    · exact hquote
    · exact fun _ _ hc _ => hdollar hc
    · exact fun _ hc _ => hbrace hc

lemma interpolates_bytes (cs : Text) : interpolates (bytes cs) = interpolates cs := by
  fun_induction interpolates cs with
  | case1 => rfl
  | case2 => rfl
  | case3 c cs ih =>
    obtain ⟨b, bs, hb⟩ := List.exists_cons_of_ne_nil (charBytes_ne_nil c)
    rw [bytes_ascii (by decide), bytes_cons, hb, List.cons_append, interpolates, interpolates_skip, ih]
    intro d hd
    have hhigh := charBytes_tail hb d hd
    exact ⟨ne_of_high hhigh (by decide), ne_of_high hhigh (by decide), ne_of_high hhigh (by decide),
      ne_of_high hhigh (by decide)⟩
  | case4 cs =>
    rw [bytes_ascii (by decide)]
    rfl
  | case5 c cs ih =>
    obtain ⟨b, bs, hb⟩ := List.exists_cons_of_ne_nil (charBytes_ne_nil c)
    have hmem : b ∈ charBytes c := by rw [hb]; exact List.mem_cons_self
    have hbrace : (b == '\x7b') = (c == '\x7b') := (uniform_eq (by decide)).mem hmem
    rw [bytes_cons, hb, List.cons_append] at ih
    rw [bytes_ascii (by decide), bytes_cons, hb, List.cons_append, interpolates, ih,
      uniform_isNameStart.mem hmem, hbrace]
  | case6 cs =>
    rw [bytes_ascii (by decide), bytes_ascii (by decide)]
    rfl
  | case7 c cs hnil hcons hquote hdollar hbrace ih =>
    have hslash := not_escape hnil hcons
    rcases Nat.lt_or_ge c.toNat 128 with hascii | hhigh
    · rw [bytes_ascii hascii, interpolates.eq_7, ih]
      · exact fun hc _ => hslash hc
      · exact fun _ _ hc _ => hslash hc
      · exact hquote
      · intro d ds hc hds
        cases cs with
        | nil => cases hds
        | cons e es => exact hdollar e es hc rfl
      · intro ds hc hds
        have hhead : cs.head? = some '$' := by rw [← head?_bytes (by decide), hds]; rfl
        cases cs with
        | nil => cases hhead
        | cons e es =>
          cases hhead
          exact hbrace es hc rfl
    · rw [bytes_cons, interpolates_skip, ih]
      intro d hd
      have hd := charBytes_high hhigh d hd
      exact ⟨ne_of_high hd (by decide), ne_of_high hd (by decide), ne_of_high hd (by decide),
        ne_of_high hd (by decide)⟩

lemma toLower_high {c : Char} (h : 128 ≤ c.toNat) : c.toLower = c := by
  apply Text.toLower_eq_self
  rw [isUpper_iff]
  omega

lemma lower_cons (c : Char) (cs : Text) : Text.lower (c :: cs) = c.toLower :: Text.lower cs := rfl

lemma lower_take_bytes (word : Text) (hw : ∀ c ∈ word, c.toNat < 128) (cs : Text) :
    Text.lower ((bytes cs).take word.length) = word ↔ Text.lower (cs.take word.length) = word := by
  induction word generalizing cs with
  | nil => rfl
  | cons w word ih =>
    obtain ⟨hascii, hword⟩ := List.forall_mem_cons.1 hw
    cases cs with
    | nil => rfl
    | cons c cs =>
      rcases Nat.lt_or_ge c.toNat 128 with hc | hc
      · rw [bytes_ascii hc, List.length_cons, List.take_succ_cons, List.take_succ_cons, lower_cons,
          lower_cons, List.cons.injEq, List.cons.injEq, ih hword]
      · obtain ⟨b, bs, hb⟩ := List.exists_cons_of_ne_nil (charBytes_ne_nil c)
        have hhigh := charBytes_high hc b (by rw [hb]; exact List.mem_cons_self)
        rw [bytes_cons, hb, List.cons_append, List.length_cons, List.take_succ_cons,
          List.take_succ_cons, lower_cons, lower_cons, toLower_high hc, toLower_high hhigh]
        exact iff_of_false (fun h => ne_of_high hhigh hascii (List.cons.inj h).1)
          (fun h => ne_of_high hc hascii (List.cons.inj h).1)

lemma byteSize_of_lower {word cs : Text} (hw : ∀ c ∈ word, c.toNat < 128) (h : Text.lower cs = word) :
    byteSize cs = word.length := by
  induction cs generalizing word with
  | nil =>
    subst h
    rfl
  | cons c cs ih =>
    subst h
    obtain ⟨hascii, hrest⟩ := List.forall_mem_cons.1 hw
    have hc : c.toNat < 128 := by
      by_contra hc
      rw [toLower_high (by omega)] at hascii
      exact hc hascii
    rw [byteSize_cons, utf8Size_ascii hc, ih hrest rfl, lower_cons, List.length_cons]
    exact Nat.add_comm _ _

lemma openTag?_bytes (cs : Text) : openTag? (bytes cs) = openTag? cs := by
  have hphp : Text.lower ((bytes cs).take 5) = "<?php".toList ↔
      Text.lower (cs.take 5) = "<?php".toList := lower_take_bytes "<?php".toList (by decide) cs
  rw [openTag?_eq, openTag?_eq, isPrefixOf_bytes _ (by decide)]
  by_cases hlower : Text.lower (cs.take 5) = "<?php".toList
  · have hdrop := drop_bytes cs 5
    rw [byteSize_of_lower (by decide) hlower] at hdrop
    have hdrop : (bytes cs).drop 5 = bytes (cs.drop 5) := hdrop
    simp only [if_pos hlower, if_pos (hphp.2 hlower), hdrop, bytes_eq_nil,
      isPrefixOf_bytes "\r\n".toList (by decide), uniform_isWhitespace.head?]
  · rw [if_neg hlower, if_neg (fun h => hlower (hphp.1 h))]

lemma openTag?_high {c : Char} (h : 128 ≤ c.toNat) (cs : Text) : openTag? (c :: cs) = none :=
  openTag?_of_head (ne_of_high h (by decide))

lemma inlineWidth_skip {front : Text} (h : ∀ c ∈ front, 128 ≤ c.toNat) (cs : Text) :
    inlineWidth (front ++ cs) = front.length + inlineWidth cs := by
  induction front with
  | nil => simp
  | cons c front ih =>
    obtain ⟨hc, hfront⟩ := List.forall_mem_cons.1 h
    rw [List.cons_append, inlineWidth, openTag?_high hc, if_neg (by simp), ih hfront, List.length_cons]
    omega

lemma inlineWidth_bytes (cs : Text) :
    inlineWidth (bytes cs) = byteSize (cs.take (inlineWidth cs)) := by
  induction cs with
  | nil => rfl
  | cons c cs ih =>
    rcases Nat.lt_or_ge c.toNat 128 with hc | hc
    · have htag := openTag?_bytes (c :: cs)
      rw [bytes_ascii hc] at htag
      rw [bytes_ascii hc, inlineWidth, inlineWidth, htag, ih]
      split
      · rfl
      · rw [List.take_succ_cons, byteSize_cons, utf8Size_ascii hc, Nat.add_comm]
    · rw [bytes_cons, inlineWidth_skip (charBytes_high hc), inlineWidth, openTag?_high hc,
        if_neg (by simp), List.take_succ_cons, byteSize_cons, ih, length_charBytes]

lemma lineBreakWidth_bytes (cs : Text) : lineBreakWidth (bytes cs) = lineBreakWidth cs := by
  simp only [lineBreakWidth_eq, isPrefixOf_bytes "\r\n".toList (by decide),
    head?_bytes (x := '\n') (by decide)]

lemma byteSize_lineBreak (cs : Text) : byteSize (cs.take (lineBreakWidth cs)) = lineBreakWidth cs := by
  rw [lineBreakWidth_eq]
  split
  · rename_i hbreak
    obtain ⟨more, rfl⟩ := List.isPrefixOf_iff_prefix.1 hbreak
    rfl
  · split
    · rename_i hfeed
      cases cs with
      | nil => cases hfeed
      | cons c cs =>
        cases hfeed
        rfl
    · rfl

end Stencil.Code.Lexer

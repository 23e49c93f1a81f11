import Stencil.Proofs.Scanning
import Mathlib.Data.List.Find
import Mathlib.Data.List.TakeWhile
import Mathlib.Tactic.Common

namespace Stencil.Code.Lexer

def boundaries : List Char :=
  [')', ';', ',', '(', '{', '}']

def Boundary (cs : Text) : Prop :=
  ∀ c, cs.head? = some c → c ∈ boundaries

namespace Boundary

lemma nil : Boundary [] := by
  intro c h
  cases h

lemma cons {c : Char} (h : c ∈ boundaries) (cs : Text) : Boundary (c :: cs) := by
  intro d hd
  cases hd
  exact h

variable {x tail : Text} {p : Char → Bool}

lemma head?_any (h : Boundary tail) (hp : ∀ c ∈ boundaries, p c = false) :
    (x ++ tail).head?.any p = x.head?.any p := by
  cases x with
  | cons c x => rfl
  | nil =>
    cases tail with
    | nil => rfl
    | cons c tail => exact hp c (h c rfl)

lemma head?_eq (h : Boundary tail) {d : Char} (hd : d ∉ boundaries) :
    (x ++ tail).head? = some d ↔ x.head? = some d := by
  cases x with
  | cons c x => rfl
  | nil =>
    constructor
    · exact fun ht => absurd (h d ht) hd
    · exact fun ht => by cases ht

lemma run (h : Boundary tail) (hp : ∀ c ∈ boundaries, p c = false) :
    Text.run p (x ++ tail) = Text.run p x := by
  induction x with
  | nil =>
    cases tail with
    | nil => rfl
    | cons c tail => simp [Text.run, hp c (h c rfl)]
  | cons c x ih =>
    by_cases hc : p c = true
    · simp only [Text.run, List.cons_append, List.takeWhile_cons, hc, if_true, List.length_cons] at ih ⊢
      rw [ih]
    · simp [Text.run, hc]

end Boundary

lemma nameStart_boundary : ∀ c ∈ boundaries, isNameStart c = false := by decide

lemma nameChar_boundary : ∀ c ∈ boundaries, isNameChar c = false := by decide

lemma decimal_boundary : ∀ c ∈ boundaries, isDecimal c = false := by decide

lemma digit_boundary : ∀ c ∈ boundaries, c.isDigit = false := by decide

lemma space_boundary : ∀ c ∈ boundaries, isWhitespace c = false := by decide

lemma segmentsWidth_name {c : Char} (rest : Text) (h : isNameStart c = true) :
    segmentsWidth ('\\' :: c :: rest) =
      2 + Text.run isNameChar rest + segmentsWidth (rest.drop (Text.run isNameChar rest)) := by
  rw [segmentsWidth, if_pos h]

lemma segmentsWidth_zero {cs : Text}
    (h : ∀ c rest, cs = '\\' :: c :: rest → isNameStart c = false) : segmentsWidth cs = 0 := by
  rw [segmentsWidth.eq_def]
  split
  · rename_i c rest
    rw [if_neg (by simp [h c rest rfl])]
  · rfl

lemma segmentsWidth_le (cs : Text) : segmentsWidth cs ≤ cs.length := by
  fun_induction segmentsWidth cs with
  | case1 c rest hc tail ih =>
    have htail : tail ≤ rest.length := Text.run_le_length _ _
    simp only [List.length_drop, List.length_cons] at ih ⊢
    omega
  | case2 => exact Nat.zero_le _
  | case3 => exact Nat.zero_le _

lemma fractionWidth_dot (cs : Text) :
    fractionWidth ('.' :: cs) =
      if cs.head? = some '.' ∨ cs.head? = some '=' then 0 else 1 + Text.run isDecimal cs := by
  cases cs with
  | nil => rfl
  | cons c cs =>
    by_cases hdot : c = '.'
    · subst hdot
      rfl
    · by_cases hequal : c = '='
      · subst hequal
        rfl
      · simp [fractionWidth, hdot, hequal]

lemma fractionWidth_zero {cs : Text} (h : cs.head? ≠ some '.') : fractionWidth cs = 0 := by
  unfold fractionWidth
  split
  · exact absurd rfl h
  · rfl

lemma fractionWidth_le (cs : Text) : fractionWidth cs ≤ cs.length := by
  by_cases h : cs.head? = some '.'
  · cases cs with
    | nil => cases h
    | cons c cs =>
      cases h
      have := Text.run_le_length isDecimal cs
      rw [fractionWidth_dot, List.length_cons]
      split <;> omega
  · rw [fractionWidth_zero h]
    exact Nat.zero_le _

lemma number_base (c : Char) (cs : Text) :
    number ('0' :: c :: cs) =
      match baseDigits? c with
      | some digits => (.integer, 2 + Text.run digits cs)
      | none => decimal ('0' :: c :: cs) := rfl

lemma number_decimal {c : Char} {cs : Text} (h : c ≠ '0') : number (c :: cs) = decimal (c :: cs) := by
  unfold number
  split
  · rename_i heq
    cases heq
    exact absurd rfl h
  · rfl

lemma baseDigits_boundary {c : Char} {digits : Char → Bool} (h : baseDigits? c = some digits) :
    ∀ d ∈ boundaries, digits d = false := by
  unfold baseDigits? at h
  split at h
  · cases h
    decide
  · split at h
    · cases h
      decide
    · split at h
      · cases h
        decide
      · cases h

lemma spellings_tail : ∀ entry ∈ Symbol.spellings, ∀ c ∈ entry.1.tail, c ∉ boundaries := by
  decide +kernel

section

variable {x tail : Text} (hb : Boundary tail)
include hb

lemma segmentsWidth_append : segmentsWidth (x ++ tail) = segmentsWidth x := by
  induction hlength : x.length using Nat.strongRecOn generalizing x with
  | ind length ih =>
    by_cases hname : ∃ c rest, x = '\\' :: c :: rest ∧ isNameStart c = true
    · obtain ⟨c, rest, rfl, hc⟩ := hname
      have hrun : Text.run isNameChar (rest ++ tail) = Text.run isNameChar rest :=
        hb.run nameChar_boundary
      have hle : Text.run isNameChar rest ≤ rest.length := Text.run_le_length _ _
      rw [List.cons_append, List.cons_append, segmentsWidth_name _ hc, segmentsWidth_name _ hc, hrun,
        List.drop_append_of_le_length hle]
      rw [ih (rest.drop (Text.run isNameChar rest)).length _ rfl]
      rw [← hlength, List.length_drop, List.length_cons, List.length_cons]
      omega
    · have hx : ∀ c rest, x = '\\' :: c :: rest → isNameStart c = false := by
        intro c rest hx
        rw [Bool.eq_false_iff]
        exact fun hc => hname ⟨c, rest, hx, hc⟩
      rw [segmentsWidth_zero hx]
      apply segmentsWidth_zero
      intro c rest hcs
      match x, hx, hcs with
      | [], _, hcs =>
        have hhead := hb '\\' (by rw [List.nil_append] at hcs; rw [hcs]; rfl)
        exact absurd hhead (by decide)
      | [a], _, hcs =>
        cases hcs
        exact nameStart_boundary c (hb c rfl)
      | a :: b :: xs, hx, hcs =>
        cases hcs
        exact hx _ _ rfl

lemma name_append (member : Bool) (c : Char) : name member c (x ++ tail) = name member c x := by
  have hrun : Text.run isNameChar (x ++ tail) = Text.run isNameChar x := hb.run nameChar_boundary
  have hle : Text.run isNameChar x ≤ x.length := Text.run_le_length _ _
  unfold name
  rw [hrun]
  dsimp only
  rw [List.drop_append_of_le_length hle, List.take_append_of_le_length hle,
    segmentsWidth_append hb]

lemma fractionWidth_append : fractionWidth (x ++ tail) = fractionWidth x := by
  cases x with
  | nil =>
    rw [List.nil_append]
    exact fractionWidth_zero fun h => absurd (hb _ h) (by decide)
  | cons c x =>
    by_cases hc : c = '.'
    · subst hc
      have hdot : (x ++ tail).head? = some '.' ↔ x.head? = some '.' := hb.head?_eq (by decide)
      have hequal : (x ++ tail).head? = some '=' ↔ x.head? = some '=' := hb.head?_eq (by decide)
      have hrun : Text.run isDecimal (x ++ tail) = Text.run isDecimal x := hb.run decimal_boundary
      simp only [List.cons_append, fractionWidth_dot, hdot, hequal, hrun]
    · rw [List.cons_append, fractionWidth_zero (by simpa using hc), fractionWidth_zero (by simpa using hc)]

lemma exponentWidth_append : exponentWidth (x ++ tail) = exponentWidth x := by
  match x with
  | [] =>
    cases tail with
    | nil => rfl
    | cons c tail =>
      have hc := hb c rfl
      have hne : ¬ (c = 'e' ∨ c = 'E') := by
        rintro (rfl | rfl)
        · exact absurd hc (by decide)
        · exact absurd hc (by decide)
      simp [exponentWidth, hne]
  | [e] =>
    cases tail with
    | nil => rfl
    | cons c tail =>
      have hc := hb c rfl
      have hsign : ¬ (c = '+' ∨ c = '-') := by
        rintro (rfl | rfl)
        · exact absurd hc (by decide)
        · exact absurd hc (by decide)
      simp [exponentWidth, hsign, digit_boundary c hc]
  | e :: sign :: digits =>
    have hrun : Text.run isDecimal (digits ++ tail) = Text.run isDecimal digits :=
      hb.run decimal_boundary
    have hrun' : Text.run isDecimal (sign :: digits ++ tail) = Text.run isDecimal (sign :: digits) :=
      hb.run decimal_boundary
    have hany : (digits ++ tail).head?.any Char.isDigit = digits.head?.any Char.isDigit :=
      hb.head?_any digit_boundary
    simp only [List.cons_append, exponentWidth] at hrun' ⊢
    rw [hrun, hrun', hany]

lemma decimal_append : decimal (x ++ tail) = decimal x := by
  have hrun : Text.run isDecimal (x ++ tail) = Text.run isDecimal x := hb.run decimal_boundary
  have hle : Text.run isDecimal x ≤ x.length := Text.run_le_length _ _
  have hfraction := fractionWidth_le (x.drop (Text.run isDecimal x))
  rw [List.length_drop] at hfraction
  unfold decimal
  rw [hrun]
  dsimp only
  rw [List.drop_append_of_le_length hle, fractionWidth_append hb,
    List.drop_append_of_le_length (by omega), exponentWidth_append hb]

lemma number_append {c : Char} : number (c :: x ++ tail) = number (c :: x) := by
  have hdecimal : decimal (c :: x ++ tail) = decimal (c :: x) := decimal_append hb
  by_cases hc : c = '0'
  · subst hc
    cases x with
    | nil =>
      cases tail with
      | nil => rfl
      | cons d tail =>
        have hnone : ∀ e ∈ boundaries, (baseDigits? e).isNone = true := by decide
        have hd : baseDigits? d = none := Option.isNone_iff_eq_none.mp (hnone d (hb d rfl))
        simp only [List.cons_append, List.nil_append] at hdecimal ⊢
        rw [number_base, hd]
        exact hdecimal
    | cons d x =>
      simp only [List.cons_append] at hdecimal ⊢
      rw [number_base, number_base]
      cases hd : baseDigits? d with
      | none => exact hdecimal
      | some digits =>
        have hrun : Text.run digits (x ++ tail) = Text.run digits x :=
          hb.run (baseDigits_boundary hd)
        dsimp only
        rw [hrun]
  · rw [List.cons_append, number_decimal hc, number_decimal hc]
    exact hdecimal

lemma isPrefixOf_append {spelling : Text} (hs : ∀ c ∈ spelling, c ∉ boundaries) :
    spelling.isPrefixOf (x ++ tail) = spelling.isPrefixOf x := by
  induction spelling generalizing x with
  | nil => simp
  | cons d spelling ih =>
    obtain ⟨hd, hs⟩ := List.forall_mem_cons.mp hs
    cases x with
    | nil =>
      cases tail with
      | nil => rfl
      | cons c tail =>
        have hne : d ≠ c := by
          rintro rfl
          exact hd (hb d rfl)
        simp [List.isPrefixOf, hne]
    | cons c x =>
      rw [List.cons_append, List.isPrefixOf_cons_cons, List.isPrefixOf_cons_cons, ih hs]

lemma read?_append (c : Char) : Symbol.read? (c :: x ++ tail) = Symbol.read? (c :: x) := by
  unfold Symbol.read?
  apply List.find?_congr
  intro entry hentry
  cases hsp : entry.1 with
  | nil => rfl
  | cons d spelling =>
    have hs : ∀ c ∈ spelling, c ∉ boundaries := by
      have := spellings_tail entry hentry
      rwa [hsp] at this
    rw [List.cons_append, List.isPrefixOf_cons_cons, List.isPrefixOf_cons_cons, isPrefixOf_append hb hs]

lemma IsLate.append_iff (c : Char) : IsLate c (x ++ tail) ↔ IsLate c x := by
  have hstart : (x ++ tail).head?.any isNameStart = x.head?.any isNameStart :=
    hb.head?_any nameStart_boundary
  have hslash : (x ++ tail).head? = some '/' ↔ x.head? = some '/' := hb.head?_eq (by decide)
  have hstar : (x ++ tail).head? = some '*' ↔ x.head? = some '*' := hb.head?_eq (by decide)
  have hgreater : (x ++ tail).head? = some '>' ↔ x.head? = some '>' := hb.head?_eq (by decide)
  have hheredoc : "<<".toList.isPrefixOf (x ++ tail) = "<<".toList.isPrefixOf x :=
    isPrefixOf_append hb (by decide)
  constructor
  · rintro ⟨h₁, h₂, h₃, h₄, h₅, h₆, h₇, h₈⟩
    rw [hslash, hstar] at h₃
    rw [hstart] at h₄
    rw [hgreater] at h₆
    rw [hheredoc] at h₇
    exact ⟨h₁, h₂, h₃, h₄, h₅, h₆, h₇, h₈⟩
  · rintro ⟨h₁, h₂, h₃, h₄, h₅, h₆, h₇, h₈⟩
    rw [← hslash, ← hstar] at h₃
    rw [← hstart] at h₄
    rw [← hgreater] at h₆
    rw [← hheredoc] at h₇
    exact ⟨h₁, h₂, h₃, h₄, h₅, h₆, h₇, h₈⟩

lemma IsSign.append_iff (c : Char) : IsSign c (x ++ tail) ↔ IsSign c x := by
  have hstart : (x ++ tail).head?.any isNameStart = x.head?.any isNameStart :=
    hb.head?_any nameStart_boundary
  have hdigit : (x ++ tail).head?.any Char.isDigit = x.head?.any Char.isDigit :=
    hb.head?_any digit_boundary
  constructor
  · rintro ⟨hlate, hn, hq, hs⟩
    rw [hdigit] at hn
    rw [hstart] at hq
    exact ⟨(IsLate.append_iff hb c).mp hlate, hn, hq, hs⟩
  · rintro ⟨hlate, hn, hq, hs⟩
    rw [← hdigit] at hn
    rw [← hstart] at hq
    exact ⟨(IsLate.append_iff hb c).mpr hlate, hn, hq, hs⟩

end

lemma not_escape {c : Char} {cs : Text} (hnil : c = '\\' → cs = [] → False)
    (hcons : ∀ d ds, c = '\\' → cs = d :: ds → False) : c ≠ '\\' := by
  intro hc
  cases cs with
  | nil => exact hnil hc rfl
  | cons d ds => exact hcons d ds hc rfl

lemma quotedWidth?_plain {quote c : Char} (cs : Text) (hc : c ≠ '\\') :
    quotedWidth? quote (c :: cs) =
      if c = quote then some 1 else (quotedWidth? quote cs).map (· + 1) := by
  rw [quotedWidth?.eq_4]
  · exact fun h _ => hc h
  · exact fun _ _ h _ => hc h

lemma quotedWidth?_le {quote : Char} {cs : Text} {width : Nat} (h : quotedWidth? quote cs = some width) :
    width ≤ cs.length := by
  fun_induction quotedWidth? quote cs generalizing width with
  | case1 => cases h
  | case2 => cases h
  | case3 c cs ih =>
    obtain ⟨w, hw, rfl⟩ := Option.map_eq_some_iff.mp h
    have := ih hw
    simp only [List.length_cons]
    omega
  | case4 cs =>
    cases h
    simp
  | case5 c cs _ _ hc ih =>
    obtain ⟨w, hw, rfl⟩ := Option.map_eq_some_iff.mp h
    have := ih hw
    simp only [List.length_cons]
    omega

lemma quotedWidth?_pos {quote : Char} {cs : Text} {width : Nat} (h : quotedWidth? quote cs = some width) :
    0 < width := by
  fun_induction quotedWidth? quote cs generalizing width with
  | case1 => cases h
  | case2 => cases h
  | case3 c cs ih =>
    obtain ⟨w, hw, rfl⟩ := Option.map_eq_some_iff.mp h
    omega
  | case4 cs =>
    cases h
    decide
  | case5 c cs _ _ hc ih =>
    obtain ⟨w, hw, rfl⟩ := Option.map_eq_some_iff.mp h
    omega

lemma quotedWidth?_append {quote : Char} {x : Text} {width : Nat} (hq : quote ≠ '\\')
    (h : quotedWidth? quote x = some width) (tail : Text) :
    quotedWidth? quote (x ++ tail) = some width := by
  fun_induction quotedWidth? quote x generalizing width with
  | case1 => cases h
  | case2 => cases h
  | case3 c cs ih =>
    obtain ⟨w, hw, rfl⟩ := Option.map_eq_some_iff.mp h
    simp only [List.cons_append, quotedWidth?, ih hw, Option.map_some]
  | case4 cs =>
    cases h
    rw [List.cons_append, quotedWidth?_plain _ hq, if_pos rfl]
  | case5 c cs hnil hcons hc ih =>
    have hne : c ≠ '\\' := not_escape hnil hcons
    obtain ⟨w, hw, rfl⟩ := Option.map_eq_some_iff.mp h
    rw [List.cons_append, quotedWidth?_plain _ hne, if_neg hc, ih hw, Option.map_some]

lemma quotedWidth?_of_append {quote : Char} {x tail : Text} {width : Nat}
    (h : quotedWidth? quote (x ++ tail) = some width) (hw : width ≤ x.length) :
    quotedWidth? quote x = some width := by
  have hpos := quotedWidth?_pos h
  fun_induction quotedWidth? quote x generalizing width with
  | case1 =>
    simp only [List.length_nil] at hw
    omega
  | case2 =>
    cases tail with
    | nil => cases h
    | cons d tail =>
      obtain ⟨w, _, rfl⟩ := Option.map_eq_some_iff.mp h
      simp only [List.length_cons, List.length_nil] at hw
      omega
  | case3 c cs ih =>
    obtain ⟨w, hcs, rfl⟩ := Option.map_eq_some_iff.mp h
    simp only [List.length_cons] at hw
    rw [ih hcs (by omega) (quotedWidth?_pos hcs), Option.map_some]
  | case4 cs hnil hcons =>
    have hne : quote ≠ '\\' := not_escape hnil hcons
    rwa [List.cons_append, quotedWidth?_plain _ hne, if_pos rfl] at h
  | case5 c cs hnil hcons hc ih =>
    have hne : c ≠ '\\' := not_escape hnil hcons
    rw [List.cons_append, quotedWidth?_plain _ hne, if_neg hc] at h
    obtain ⟨w, hcs, rfl⟩ := Option.map_eq_some_iff.mp h
    simp only [List.length_cons] at hw
    rw [ih hcs (by omega) (quotedWidth?_pos hcs), Option.map_some]

lemma interpolates_append {x : Text} {width : Nat} (h : quotedWidth? '"' x = some width) (tail : Text) :
    interpolates (x ++ tail) = interpolates x := by
  fun_induction interpolates x generalizing width with
  | case1 => cases h
  | case2 => cases h
  | case3 c cs ih =>
    obtain ⟨w, hw, rfl⟩ := Option.map_eq_some_iff.mp h
    simp only [List.cons_append, interpolates]
    exact ih hw
  | case4 => rfl
  | case5 c cs ih =>
    rw [quotedWidth?_plain _ (by decide), if_neg (by decide)] at h
    obtain ⟨w, hw, rfl⟩ := Option.map_eq_some_iff.mp h
    simp only [List.cons_append, interpolates]
    rw [← List.cons_append, ih hw]
  | case6 => rfl
  | case7 c cs hnil hcons hquote hdollar hbrace ih =>
    have hne : c ≠ '\\' := not_escape hnil hcons
    rw [quotedWidth?_plain _ hne, if_neg hquote] at h
    obtain ⟨w, hw, rfl⟩ := Option.map_eq_some_iff.mp h
    rw [← ih hw]
    cases cs with
    | nil => cases hw
    | cons d ds =>
      rw [List.cons_append, interpolates.eq_7]
      · exact fun hs => absurd hs hne
      · exact fun _ _ hs => absurd hs hne
      · exact hquote
      · exact fun e es hd he => hdollar d ds hd rfl
      · intro es hb he
        cases he
        exact hbrace _ hb rfl

lemma takeWhile_append_of_mem {p : Char → Bool} {x : Text} (h : ∃ c ∈ x, p c = false) (tail : Text) :
    (x ++ tail).takeWhile p = x.takeWhile p := by
  induction x with
  | nil =>
    obtain ⟨c, hc, _⟩ := h
    cases hc
  | cons d x ih =>
    by_cases hd : p d = true
    · obtain ⟨c, hc, hp⟩ := h
      rcases List.mem_cons.mp hc with rfl | hc
      · rw [hp] at hd
        cases hd
      · rw [List.cons_append, List.takeWhile_cons_of_pos hd, List.takeWhile_cons_of_pos hd,
          ih ⟨c, hc, hp⟩]
    · rw [List.cons_append, List.takeWhile_cons_of_neg hd, List.takeWhile_cons_of_neg hd]

lemma length_takeWhile_lt {x : Text} (h : ')' ∈ x) : (x.takeWhile (· ≠ ')')).length < x.length := by
  induction x with
  | nil => cases h
  | cons c x ih =>
    by_cases hc : c = ')'
    · simp [hc]
    · have hx : ')' ∈ x := by
        rcases List.mem_cons.mp h with he | hx
        · exact absurd he.symm hc
        · exact hx
      rw [List.takeWhile_cons_of_pos (by simpa using hc)]
      simpa using ih hx

lemma cast?_append {x : Text} (h : ')' ∈ x) (tail : Text) : cast? (x ++ tail) = cast? x := by
  have hinner : (x ++ tail).takeWhile (· ≠ ')') = x.takeWhile (· ≠ ')') :=
    takeWhile_append_of_mem ⟨')', h, by decide⟩ tail
  have hlt := length_takeWhile_lt h
  unfold cast?
  rw [hinner]
  dsimp only
  rw [if_pos hlt, if_pos (by rw [List.length_append]; omega)]

lemma mem_of_cast? {x tail : Text} {type : Cast} {width : Nat}
    (h : cast? (x ++ tail) = some (type, width)) (hw : width ≤ x.length) : ')' ∈ x := by
  by_contra hnot
  unfold cast? at h
  dsimp only at h
  split at h
  · obtain ⟨t, _, ht⟩ := Option.map_eq_some_iff.mp h
    cases ht
    have hall : x.takeWhile (· ≠ ')') = x := by
      rw [List.takeWhile_eq_self_iff]
      intro c hc
      have : c ≠ ')' := by
        rintro rfl
        exact hnot hc
      simpa using this
    rw [List.takeWhile_append, if_pos (by rw [hall]), List.length_append] at hw
    omega
  · cases h

lemma exponentWidth_le (cs : Text) : exponentWidth cs ≤ cs.length := by
  match cs with
  | [] => exact Nat.zero_le _
  | [e] =>
    simp only [exponentWidth]
    split <;> exact Nat.zero_le _
  | e :: sign :: digits =>
    have hdigits := Text.run_le_length isDecimal digits
    have hall := Text.run_le_length isDecimal (sign :: digits)
    simp only [exponentWidth, List.length_cons] at hall ⊢
    split
    · split
      · split <;> omega
      · split <;> omega
    · omega

lemma number_le (cs : Text) : (number cs).2 ≤ cs.length := by
  have hdecimal : ∀ cs, (decimal cs).2 ≤ cs.length := by
    intro cs
    have hwhole := Text.run_le_length isDecimal cs
    have hfraction := fractionWidth_le (cs.drop (Text.run isDecimal cs))
    have hexponent := exponentWidth_le (cs.drop (Text.run isDecimal cs +
      fractionWidth (cs.drop (Text.run isDecimal cs))))
    simp only [List.length_drop] at hfraction hexponent
    simp only [decimal]
    omega
  unfold number
  split
  · split
    · rename_i digits _
      have := Text.run_le_length digits (by assumption)
      simp only [List.length_cons]
      omega
    · exact hdecimal _
  · exact hdecimal _

lemma CodeToken.width_le {member : Bool} {c : Char} {cs : Text} {l : Lexeme}
    (h : CodeToken member c cs l) : l.width ≤ cs.length := by
  cases h with
  | whitespace => exact Text.run_le_length _ _
  | variableName => exact Text.run_le_length _ _
  | single _ hw => exact quotedWidth?_le hw
  | double _ hw => exact quotedWidth?_le hw
  | cast _ hcast =>
    unfold cast? at hcast
    dsimp only at hcast
    split at hcast
    · obtain ⟨_, _, ht⟩ := Option.map_eq_some_iff.mp hcast
      cases ht
      dsimp only
      omega
    · cases hcast
  | paren => exact Nat.zero_le _
  | number =>
    have := number_le (c :: cs)
    simp only [List.length_cons] at this
    dsimp only
    omega
  | qualified =>
    have hrun := Text.run_le_length isNameChar cs
    have hsegments := segmentsWidth_le (cs.drop (Text.run isNameChar cs))
    rw [List.length_drop] at hsegments
    dsimp only
    omega
  | name =>
    have hrun := Text.run_le_length isNameChar cs
    have hsegments := segmentsWidth_le (cs.drop (Text.run isNameChar cs))
    rw [List.length_drop] at hsegments
    simp only [Lexer.name]
    omega
  | sign _ hr =>
    have := (read?_some hr).2.length_le
    simp only [List.length_cons] at this
    dsimp only
    omega

variable {member : Bool} {c : Char} {x tail : Text} {l : Lexeme}

lemma CodeToken.of_append (h : CodeToken member c (x ++ tail) l) (hb : Boundary tail)
    (hw : l.width ≤ x.length) (hparen : l.kind = .symbol .openParen → ')' ∈ x) :
    CodeToken member c x l := by
  have hstart : (x ++ tail).head?.any isNameStart = x.head?.any isNameStart :=
    hb.head?_any nameStart_boundary
  have hrun : Text.run isNameChar (x ++ tail) = Text.run isNameChar x := hb.run nameChar_boundary
  have hle : Text.run isNameChar x ≤ x.length := Text.run_le_length _ _
  cases h with
  | whitespace hspace =>
    rw [hb.run space_boundary]
    exact .whitespace hspace
  | variableName hc hn =>
    rw [hrun]
    exact .variableName hc (by rwa [hstart] at hn)
  | single hc hq => exact .single hc (quotedWidth?_of_append hq hw)
  | double hc hq =>
    have hx := quotedWidth?_of_append hq hw
    rw [interpolates_append hx]
    exact .double hc hx
  | cast hc hcast =>
    rw [cast?_append (mem_of_cast? hcast hw)] at hcast
    exact .cast hc hcast
  | paren hc hcast =>
    rw [cast?_append (hparen rfl)] at hcast
    exact .paren hc hcast
  | number hn =>
    rw [hb.head?_any digit_boundary] at hn
    rw [← List.cons_append, number_append hb]
    exact .number hn
  | qualified hc hn =>
    rw [hrun, List.drop_append_of_le_length hle, segmentsWidth_append hb]
    exact .qualified hc (by rwa [hstart] at hn)
  | name hn =>
    rw [name_append hb]
    exact .name hn
  | sign hs hr =>
    rw [← List.cons_append, read?_append hb] at hr
    exact .sign ((IsSign.append_iff hb c).mp hs) hr

lemma CodeToken.append (h : CodeToken member c x l) (hb : Boundary tail)
    (hparen : l.kind = .symbol .openParen → ')' ∈ x) : CodeToken member c (x ++ tail) l := by
  have hstart : (x ++ tail).head?.any isNameStart = x.head?.any isNameStart :=
    hb.head?_any nameStart_boundary
  have hrun : Text.run isNameChar (x ++ tail) = Text.run isNameChar x := hb.run nameChar_boundary
  have hle : Text.run isNameChar x ≤ x.length := Text.run_le_length _ _
  have hw := h.width_le
  cases h with
  | whitespace hspace =>
    rw [← hb.run space_boundary]
    exact .whitespace hspace
  | variableName hc hn =>
    rw [← hrun]
    exact .variableName hc (by rwa [hstart])
  | single hc hq => exact .single hc (quotedWidth?_append (by decide) hq tail)
  | double hc hq =>
    rw [← interpolates_append hq tail]
    exact .double hc (quotedWidth?_append (by decide) hq tail)
  | cast hc hcast =>
    have hmem : ')' ∈ x := by
      rw [← List.append_nil x] at hcast
      exact mem_of_cast? hcast hw
    rw [← cast?_append hmem tail] at hcast
    exact .cast hc hcast
  | paren hc hcast =>
    rw [← cast?_append (hparen rfl) tail] at hcast
    exact .paren hc hcast
  | number hn =>
    rw [← hb.head?_any digit_boundary] at hn
    rw [← number_append hb]
    exact .number hn
  | qualified hc hn =>
    rw [← hrun, ← segmentsWidth_append hb, ← List.drop_append_of_le_length (by rwa [hrun])]
    exact .qualified hc (by rwa [hstart])
  | name hn =>
    rw [← name_append hb]
    exact .name hn
  | sign hs hr =>
    rw [← read?_append hb] at hr
    exact .sign ((IsSign.append_iff hb c).mpr hs) hr

lemma CodeToken.scans (h : CodeToken member c x l) :
    Scans (.code member) (c :: x) [⟨l.kind, c :: x.take l.width⟩] l.next (x.drop l.width) :=
  .step (codeLexeme_of_codeToken h) .done

lemma CodeToken.next_code (h : CodeToken member c x l) : ∃ after, l.next = .code after := by
  cases h <;> exact ⟨_, rfl⟩

lemma Scans.step_code {source rest : Text} {stop : Mode} {t : Token} {ts : List Token}
    (h : Scans (.code member) source (t :: ts) stop rest) (hp : Kind.isPlain t.kind = true) :
    ∃ c cs l after, source = c :: cs ∧ t = ⟨l.kind, c :: cs.take l.width⟩ ∧
      CodeToken member c cs l ∧ l.next = .code after ∧
      Scans (.code after) (cs.drop l.width) ts stop rest := by
  cases h with
  | step hl hs =>
    have htoken := codeToken_of_codeLexeme hl hp
    obtain ⟨after, hafter⟩ := htoken.next_code
    rw [hafter] at hs
    exact ⟨_, _, _, after, rfl, rfl, htoken, hafter, hs⟩

lemma Scans.stop_code {source rest : Text} {stop : Mode} {ts : List Token}
    (h : Scans (.code member) source ts stop rest) (hp : ∀ t ∈ ts, Kind.isPlain t.kind = true) :
    ∃ after, stop = .code after := by
  induction ts generalizing member source with
  | nil =>
    cases h
    exact ⟨member, rfl⟩
  | cons t ts ih =>
    obtain ⟨_, _, _, _, _, _, _, _, hs⟩ := h.step_code (hp t (List.mem_cons_self ..))
    exact ih hs fun u hu => hp u (List.mem_cons_of_mem _ hu)

lemma Scans.wellSpelled {source rest : Text} {stop : Mode} {ts : List Token}
    (h : Scans (.code member) source ts stop rest) (hp : ∀ t ∈ ts, Kind.isPlain t.kind = true) :
    ∀ t ∈ ts, WellSpelled t := by
  induction ts generalizing member source with
  | nil => simp
  | cons t ts ih =>
    obtain ⟨c, cs, l, after, _, rfl, htoken, _, hs⟩ := h.step_code (hp t (List.mem_cons_self ..))
    intro u hu
    rcases List.mem_cons.mp hu with rfl | hu
    · exact codeToken_wellSpelled htoken
    · exact ih hs (fun v hv => hp v (List.mem_cons_of_mem _ hv)) u hu

def ParensClosed : List Token → Prop
  | [] => True
  | t :: ts => (t.kind = .symbol .openParen → ')' ∈ ts.flatMap Token.text) ∧ ParensClosed ts

lemma Scans.relocate {stop : Bool} {ts : List Token} {tail' : Text}
    (h : Scans (.code member) (x ++ tail) ts (.code stop) tail)
    (hp : ∀ t ∈ ts, Kind.isPlain t.kind = true) (hc : ParensClosed ts)
    (hb : Boundary tail) (hb' : Boundary tail') :
    Scans (.code member) (x ++ tail') ts (.code stop) tail' := by
  have htext : x = ts.flatMap Token.text := List.append_cancel_right h.text
  induction ts generalizing member x with
  | nil =>
    subst htext
    cases h
    exact .done
  | cons t ts ih =>
    obtain ⟨c, cs, l, after, hsource, rfl, htoken, hnext, hs⟩ :=
      h.step_code (hp t (List.mem_cons_self ..))
    rw [List.flatMap_cons, List.cons_append] at htext
    -- The first token stands in front of the boundary, and so does the rest of the scan.
    obtain ⟨x', rfl⟩ : ∃ x', x = c :: x' := ⟨_, htext⟩
    obtain rfl : cs = x' ++ tail := (List.cons.inj hsource).2.symm
    have hx' : x' = (x' ++ tail).take l.width ++ ts.flatMap Token.text := (List.cons.inj htext).2
    have hdrop : (x' ++ tail).drop l.width = ts.flatMap Token.text ++ tail := hs.text
    have hw : l.width ≤ x'.length := by
      have hlen := congrArg List.length hdrop
      have hlen' := congrArg List.length hx'
      simp only [List.length_drop, List.length_append, List.length_take] at hlen hlen'
      have := htoken.width_le
      simp only [List.length_append] at this
      omega
    have hrest : x'.drop l.width = ts.flatMap Token.text := by
      rw [List.drop_append_of_le_length hw] at hdrop
      exact List.append_cancel_right hdrop
    have hparen : l.kind = .symbol .openParen → ')' ∈ x' := fun hk =>
      List.mem_of_mem_drop (hrest ▸ hc.1 hk)
    have htoken' : CodeToken member c (x' ++ tail') l :=
      (htoken.of_append hb hw hparen).append hb' hparen
    rw [List.drop_append_of_le_length hw] at hs
    have hmore : Scans (.code after) (x'.drop l.width ++ tail') ts (.code stop) tail' :=
      ih hs (fun u hu => hp u (List.mem_cons_of_mem _ hu)) hc.2 hrest
    have htake : (x' ++ tail).take l.width = (x' ++ tail').take l.width := by
      rw [List.take_append_of_le_length hw, List.take_append_of_le_length hw]
    rw [htake, List.cons_append]
    refine .step (codeLexeme_of_codeToken htoken') ?_
    rwa [hnext, List.drop_append_of_le_length hw]

lemma scans_word {cs : Text} {kind : Kind} (hc : isNameStart c = true)
    (hn : name false c cs = (kind, cs.length)) (hb : Boundary tail) :
    Scans (.code false) (c :: cs ++ tail) [⟨kind, c :: cs⟩] (.code false) tail := by
  have htoken : CodeToken false c (cs ++ tail) _ := .name hc
  rw [name_append hb, hn] at htoken
  simpa using htoken.scans

end Stencil.Code.Lexer

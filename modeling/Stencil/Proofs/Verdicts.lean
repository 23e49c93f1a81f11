import Stencil.Proofs.Cursor

namespace Stencil.Code.Lexer

def closers : List Char :=
  ['\'', '"', ')']

lemma quotedWidth?_split {quote : Char} {cs : Text} {width : Nat}
    (h : quotedWidth? quote cs = some width) :
    ∃ body rest, cs = body ++ quote :: rest ∧ width = body.length + 1 := by
  fun_induction quotedWidth? quote cs generalizing width with
  | case1 => cases h
  | case2 => cases h
  | case3 c cs ih =>
    obtain ⟨w, hw, rfl⟩ := Option.map_eq_some_iff.mp h
    obtain ⟨body, rest, rfl, rfl⟩ := ih hw
    exact ⟨'\\' :: c :: body, rest, rfl, rfl⟩
  | case4 cs =>
    cases h
    exact ⟨[], cs, rfl, rfl⟩
  | case5 c cs _ _ hc ih =>
    obtain ⟨w, hw, rfl⟩ := Option.map_eq_some_iff.mp h
    obtain ⟨body, rest, rfl, rfl⟩ := ih hw
    exact ⟨c :: body, rest, rfl, rfl⟩

lemma length_lt_of_split {q : Char} {x tail body rest : Text} (h : x ++ tail = body ++ q :: rest)
    (hq : q ∉ tail) : body.length < x.length := by
  by_contra hle
  have hdrop := congrArg (List.drop x.length) h
  rw [List.drop_left, List.drop_append_of_le_length (Nat.le_of_not_lt hle)] at hdrop
  exact hq (by rw [hdrop]; simp)

lemma CodeToken.width_before {member : Bool} {c : Char} {x tail : Text} {l : Lexeme}
    (h : CodeToken member c (x ++ tail) l) (hb : Boundary tail) (ht : ∀ q ∈ closers, q ∉ tail) :
    l.width ≤ x.length := by
  have hrun : Text.run isNameChar (x ++ tail) = Text.run isNameChar x := hb.run nameChar_boundary
  have hle : Text.run isNameChar x ≤ x.length := Text.run_le_length _ _
  cases h with
  | whitespace =>
    dsimp only
    rw [hb.run space_boundary]
    exact Text.run_le_length _ _
  | variableName =>
    dsimp only
    rwa [hrun]
  | single _ hw =>
    obtain ⟨body, rest, hsplit, rfl⟩ := quotedWidth?_split hw
    exact length_lt_of_split hsplit (ht _ (by decide))
  | double _ hw =>
    obtain ⟨body, rest, hsplit, rfl⟩ := quotedWidth?_split hw
    exact length_lt_of_split hsplit (ht _ (by decide))
  | cast hc hcast =>
    obtain ⟨body, rest, hsplit, -⟩ := cast?_letters hcast
    have hmem : ')' ∈ x := by
      have hall : ')' ∈ x ++ tail := by rw [hsplit]; simp
      exact (List.mem_append.mp hall).resolve_right (ht _ (by decide))
    rw [cast?_append hmem] at hcast
    have htoken : CodeToken member c x _ := .cast hc hcast
    exact htoken.width_le
  | paren => exact Nat.zero_le _
  | number =>
    have := number_le (c :: x)
    rw [List.length_cons] at this
    dsimp only
    rw [← List.cons_append, number_append hb]
    omega
  | qualified =>
    have := segmentsWidth_le (x.drop (Text.run isNameChar x))
    rw [List.length_drop] at this
    dsimp only
    rw [hrun, List.drop_append_of_le_length hle, segmentsWidth_append hb]
    omega
  | name hn =>
    rw [name_append hb]
    have htoken : CodeToken member c x _ := .name hn
    exact htoken.width_le
  | sign hs hr =>
    rw [← List.cons_append, read?_append hb] at hr
    have htoken : CodeToken member c x _ := .sign ((IsSign.append_iff hb c).mp hs) hr
    exact htoken.width_le

lemma Scans.semicolon {member : Bool} {y : Text} {ts : List Token} {stop : Mode}
    (h : Scans (.code member) (y ++ [';']) ts stop []) (hp : ∀ t ∈ ts, Kind.isPlain t.kind = true) :
    ∃ init, ts = init ++ [sign .semicolon] ∧ init.flatMap Token.text = y := by
  have hb : Boundary [';'] := Boundary.cons (by decide) []
  induction ts generalizing member y with
  | nil =>
    have := congrArg List.length h.text
    simp at this
  | cons t ts ih =>
    obtain ⟨c, cs, l, after, hsource, rfl, htoken, hnext, hs⟩ := h.step_code (hp t (by simp))
    cases y with
    | nil =>
      cases hsource
      obtain rfl := htoken.unique (punctuation_token (s := .semicolon) (by decide) member [])
      cases hs
      exact ⟨[], rfl, rfl⟩
    | cons d y =>
      rw [List.cons_append] at hsource
      obtain ⟨rfl, rfl⟩ := List.cons.inj hsource
      have hwidth : l.width ≤ y.length := htoken.width_before hb (by decide)
      rw [List.drop_append_of_le_length hwidth] at hs
      obtain ⟨init, rfl, hinit⟩ := ih hs fun u hu => hp u (List.mem_cons_of_mem _ hu)
      refine ⟨_ :: init, rfl, ?_⟩
      rw [List.flatMap_cons, hinit, List.take_append_of_le_length hwidth, List.cons_append,
        List.take_append_drop]

lemma tokensFrom_semicolon (mode : Mode) (y : Text) :
    tokensFrom mode (y ++ [';']) ≠ .error .truncatedHeredoc := by
  intro h
  obtain ⟨ts, member, rest, hs, blanks, quote, label, rfl, -, hquote, hlabel⟩ :=
    tokensFrom_truncated.mp h
  have hlast : (quote :: label).getLast? = some ';' := by
    have := congrArg List.getLast? hs.text
    simpa [List.getLast?_append, List.getLast?_cons] using this.symm
  rcases List.mem_cons.mp (List.mem_of_getLast? hlast) with hmem | hmem
  · subst hmem
    exact absurd hquote (by decide)
  · exact absurd (hlabel _ hmem) (by decide)

lemma tokensFrom_not_stalled (mode : Mode) (source : Text) :
    tokensFrom mode source ≠ .error .stalled := by
  intro h
  obtain ⟨ts, mid, c, cs, hs, hl⟩ := exists_fault h
  obtain ⟨member, rfl, hstop⟩ := lexeme_stops hl
  cases hstop

end Stencil.Code.Lexer

namespace Stencil.Expression

open Code Code.Lexer Code.Statement

def leadWord (site : Site) : List Token :=
  (site.keyword?.map word).toList

def guarded : Site → Text → Text
  | .binding, source | .tag, source => source
  | .condition, source | .loop, source => '(' :: source ++ [')']

/-- The tokens of a statement start with its open tag and its keyword and end with its semicolon, and
those between them spell what stands there. -/
structure Framed (site : Site) (source : Text) (all inner : List Token) : Prop where
  shape : all = ⟨.openTag, "<?php ".toList⟩ :: (leadWord site ++ inner ++ [sign .semicolon])
  text : inner.flatMap Token.text = guarded site source

lemma scans_leadWord (site : Site) (source : Text) :
    Scans (.code false) (lead site ++ (source ++ closing site)) (leadWord site) (.code false)
      (guarded site source ++ [';']) := by
  have hparen : Boundary ('(' :: (source ++ ");".toList)) := Boundary.cons (by decide) _
  have hguarded : '(' :: source ++ [')'] ++ [';'] = '(' :: (source ++ ");".toList) := by simp
  cases site with
  | binding | tag => exact .done
  | condition =>
    have hname : name false 'i' ['f'] = (.keyword .kwIf, 1) := by decide +kernel
    rw [guarded, hguarded]
    exact scans_word (by decide) hname hparen
  | loop =>
    have hname : name false 'f' "oreach".toList = (.keyword .kwForeach, 6) := by decide +kernel
    rw [guarded, hguarded]
    exact scans_word (by decide) hname hparen

lemma tokenize_led {site : Site} {source : Text} {all : List Token}
    (h : tokenize (wrap site source) = .ok all) :
    ∃ tokens, all = ⟨.openTag, "<?php ".toList⟩ :: (leadWord site ++ tokens) ∧
      tokensFrom (.code false) (guarded site source ++ [';']) = .ok tokens := by
  rw [tokenize, wrap_eq] at h
  obtain ⟨more, rfl, hmore⟩ := (scans_openTag _).tokensFrom_ok h
  obtain ⟨tokens, rfl, htokens⟩ := (scans_leadWord site source).tokensFrom_ok hmore
  exact ⟨tokens, rfl, htokens⟩

lemma isLed_leadWord (site : Site) (tokens : List Token) :
    isLed site (leadWord site ++ tokens) = true := by
  cases site <;> rfl

lemma exists_framed {site : Site} {source : Text} {all : List Token}
    (h : tokenize (wrap site source) = .ok all) (ha : disallowed? site true all.tail = none) :
    ∃ inner, Framed site source all inner := by
  obtain ⟨tokens, rfl, htokens⟩ := tokenize_led h
  obtain ⟨stop, hs⟩ := scans_of_tokensFrom htokens
  -- Comments, close tags and heredocs could take the semicolon, but none of them is allowed.
  obtain ⟨inner, rfl, hinner⟩ := hs.semicolon fun t ht =>
    plain_of_allowed ha t (List.mem_append_right _ ht)
  exact ⟨inner, by rw [List.append_assoc], hinner⟩

inductive Judged (site : Site) (source : Text) : Except Refusal Expression → Prop
  | unread {fault : Fault} : tokenize (wrap site source) = .error fault →
      Judged site source (.error (.parseFailure fault))
  | barred {all : List Token} {kind : Kind} : tokenize (wrap site source) = .ok all →
      disallowed? site true all.tail = some kind → Judged site source (.error (.disallowedToken kind))
  | unparsed {all : List Token} {fault : Fault} : tokenize (wrap site source) = .ok all →
      disallowed? site true all.tail = none → check site all.tail = .error fault →
      Judged site source (.error (.parseFailure fault))
  | admitted {all : List Token} : tokenize (wrap site source) = .ok all →
      disallowed? site true all.tail = none → check site all.tail = .ok () →
      Judged site source (.ok ⟨source, unwrap site all.tail.dropLast⟩)

lemma accept_judged {site : Site} {source : Text} (hb : Text.isBlank source = false) :
    Judged site source (accept site source) := by
  unfold accept
  rw [hb]
  simp only [Bool.false_eq_true, if_false]
  cases ht : tokenize (wrap site source) with
  | error fault => exact .unread ht
  | ok all =>
    obtain ⟨tokens, rfl, -⟩ := tokenize_led ht
    have hled := isLed_leadWord site tokens
    simp only [if_true]
    cases ha : disallowed? site true (leadWord site ++ tokens) with
    | some kind =>
      rw [acceptTokens, hled, ha]
      exact .barred ht ha
    | none =>
      obtain ⟨inner, hframed⟩ := exists_framed ht ha
      have hend : (leadWord site ++ tokens).getLast? = some (sign .semicolon) := by
        obtain ⟨-, hshape⟩ := List.cons.inj hframed.shape
        rw [hshape]
        simp
      rw [acceptTokens, hled, ha, hend]
      cases hc : check site (leadWord site ++ tokens) with
      | error fault => exact .unparsed ht ha hc
      | ok u => exact .admitted ht ha hc

lemma wrap_ends (site : Site) (source : Text) : ∃ y, wrap site source = y ++ [';'] := by
  obtain ⟨close, hclose⟩ : ∃ close, closing site = close ++ [';'] := by
    cases site with
    | binding | tag => exact ⟨[], rfl⟩
    | condition | loop => exact ⟨[')'], rfl⟩
  exact ⟨opening site ++ source ++ close, by rw [wrap, hclose, ← List.append_assoc]⟩

lemma accept_fault {site : Site} {source : Text} {fault : Fault}
    (h : accept site source = .error (.parseFailure fault)) :
    fault ≠ .truncatedHeredoc ∧ fault ≠ .stalled := by
  cases hb : Text.isBlank source with
  | true =>
    rw [accept, if_pos hb] at h
    cases h
  | false =>
    have hjudged : Judged site source (accept site source) := accept_judged hb
    rw [h] at hjudged
    cases hjudged with
    | unread ht =>
      obtain ⟨y, hy⟩ := wrap_ends site source
      rw [tokenize, hy] at ht
      refine ⟨?_, ?_⟩
      · rintro rfl
        exact tokensFrom_semicolon _ _ ht
      · rintro rfl
        exact tokensFrom_not_stalled _ _ ht
    | unparsed _ _ hc =>
      have hsyntax := check_fault hc
      refine ⟨?_, ?_⟩
      · rintro rfl
        cases hsyntax
      · rintro rfl
        cases hsyntax

lemma cursor_reads (site : Site) (source : Text) :
    ∃ result, Cursor.tokensFrom .markup (wrap site source) = .ok result := by
  obtain ⟨y, hy⟩ := wrap_ends site source
  have hsafe := tokensFrom_semicolon .markup y
  rw [hy, Cursor.tokensFrom_eq]
  cases ht : tokensFrom .markup (y ++ [';']) with
  | ok tokens => exact ⟨_, rfl⟩
  | error fault =>
    rw [ht] at hsafe
    cases fault with
    | truncatedHeredoc => exact absurd rfl hsafe
    | _ => exact ⟨_, rfl⟩

def body (all : List Token) : List Token :=
  all.tail.dropLast.filter fun t => !t.isTrivia

lemma body_eq (site : Site) (inner : List Token) :
    body (headTokens site ++ inner ++ tailTokens site) =
      (headTokens site).tail ++ (inner.filter fun t => !t.isTrivia) ++ (tailTokens site).dropLast := by
  obtain ⟨before, hhead, hbefore⟩ : ∃ before, headTokens site = ⟨.openTag, "<?php ".toList⟩ :: before ∧
      (before.filter fun t => !t.isTrivia) = before := by
    cases site <;> exact ⟨_, rfl, rfl⟩
  obtain ⟨after, htail, hafter⟩ : ∃ after, tailTokens site = after ++ [sign .semicolon] ∧
      (after.filter fun t => !t.isTrivia) = after := by
    cases site with
    | binding | tag => exact ⟨[], rfl, rfl⟩
    | condition | loop => exact ⟨[sign .closeParen], rfl, rfl⟩
  rw [body, hhead, htail, List.cons_append, List.cons_append, List.tail_cons, List.tail_cons,
    ← List.append_assoc, List.dropLast_concat, List.dropLast_concat, List.filter_append,
    List.filter_append, hbefore, hafter]

/-- An expression is admitted, or refused for a fault of its text or for a token: the statement around
it is never taken for another one, no slice of its text fails, and what is taken off an admitted one
are the tokens of its site. -/
theorem accept_never_misparses (site : Site) (source : Text) :
    ((∃ e, accept site source = .ok e) ∨
      (∃ fault, accept site source = .error (.parseFailure fault) ∧ fault ≠ .truncatedHeredoc ∧
        fault ≠ .stalled) ∨
      ∃ kind, accept site source = .error (.disallowedToken kind)) ∧
    (∃ result, Cursor.tokensFrom .markup (wrap site source) = .ok result) ∧
    (∀ all, tokenize (wrap site source) = .ok all → disallowed? site true all.tail = none →
      ∃ inner, Framed site source all inner) ∧
    ∀ e, accept site source = .ok e → Text.isBlank source = false →
      ∃ all, tokenize (wrap site source) = .ok all ∧
        body all = (headTokens site).tail ++ e.tokens ++ (tailTokens site).dropLast := by
  refine ⟨?_, cursor_reads site source, fun all => exists_framed, ?_⟩
  · cases hb : Text.isBlank source with
    | true => exact Or.inl ⟨_, if_pos hb⟩
    | false =>
      have hjudged : Judged site source (accept site source) := accept_judged hb
      cases hr : accept site source with
      | ok e => exact Or.inl ⟨e, rfl⟩
      | error refusal =>
        rw [hr] at hjudged
        cases hjudged with
        | unread | unparsed => exact Or.inr (Or.inl ⟨_, rfl, accept_fault hr⟩)
        | barred => exact Or.inr (Or.inr ⟨_, rfl⟩)
  · intro e h hb
    obtain ⟨rfl, inner, stop, he⟩ := accept_embedded h hb
    exact ⟨_, he.lexed, by rw [body_eq, he.visible]⟩

end Stencil.Expression

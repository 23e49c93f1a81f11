import Stencil.Expression
import Stencil.Proofs.Grammar
import Stencil.Proofs.Locality
import Mathlib.Tactic.Common

namespace Stencil.Expression

open Code Code.Lexer Code.Statement

def headTokens : Site → List Token
  | .binding | .tag => [⟨.openTag, "<?php ".toList⟩]
  | .condition =>
    [⟨.openTag, "<?php ".toList⟩, ⟨.keyword .kwIf, "if".toList⟩, ⟨.symbol .openParen, "(".toList⟩]
  | .loop =>
    [⟨.openTag, "<?php ".toList⟩, ⟨.keyword .kwForeach, "foreach".toList⟩,
      ⟨.symbol .openParen, "(".toList⟩]

def tailTokens : Site → List Token
  | .binding | .tag => [⟨.symbol .semicolon, ";".toList⟩]
  | .condition | .loop => [⟨.symbol .closeParen, ")".toList⟩, ⟨.symbol .semicolon, ";".toList⟩]

/-- The tokens `inner` are the expression `e`, and they keep to their place in its statement. -/
structure Confined (site : Site) (e : Expression) (inner : List Token) : Prop where
  lexed : tokenize (wrap site e.source) = .ok (headTokens site ++ inner ++ tailTokens site)
  text : inner.flatMap Token.text = e.source
  visible : e.tokens = inner.filter fun t => t.kind != .whitespace
  nonempty : e.tokens ≠ []
  plain : ∀ t ∈ inner, Kind.isPlain t.kind = true
  unended : ∀ t ∈ inner, t.kind ≠ .symbol .semicolon ∧ t.kind ≠ .symbol .backslash
  keywords : ∀ before t after k, inner = before ++ t :: after → t.kind = .keyword k →
    k ∈ allowedKeywords ∨ (site = .tag ∧ k = .kwUnset ∧ ∀ u ∈ before, u.kind = .whitespace) ∨
      (site = .loop ∧ k = .kwAs)
  loopWord : site = .loop → ∃ before t after, inner = before ++ t :: after ∧
    t.kind = .keyword .kwAs ∧ nest [] before = some [] ∧
    ∀ u ∈ before ++ after, u.kind ≠ .keyword .kwAs
  nested : nest [] inner = some []

lemma allows_plain {site : Site} {leading : Bool} {k : Kind} (h : allows site leading k = true) :
    Kind.isPlain k = true ∧ k ≠ .symbol .backslash := by
  cases k with
  | symbol s =>
    refine ⟨rfl, ?_⟩
    rintro ⟨⟩
    cases h
  | _ => first | exact ⟨rfl, by simp⟩ | cases h

lemma allows_keyword {site : Site} {leading : Bool} {k : Keyword}
    (h : allows site leading (.keyword k) = true) :
    k ∈ allowedKeywords ∨ (leading = true ∧ site.keyword? = some k) ∨ (site = .loop ∧ k = .kwAs) ∨
      (leading = true ∧ site = .tag ∧ k = .kwUnset) := by
  simp only [allows, Bool.or_eq_true, Bool.and_eq_true, List.contains_iff_mem, beq_iff_eq] at h
  rcases h with ((h | h) | h) | h
  · exact Or.inl h
  · exact Or.inr (Or.inl h)
  · exact Or.inr (Or.inr (Or.inl h))
  · exact Or.inr (Or.inr (Or.inr ⟨h.1.1, h.1.2, h.2⟩))

lemma disallowed?_none {site : Site} {leading : Bool} {before after : List Token} {t : Token}
    (h : disallowed? site leading (before ++ t :: after) = none) :
    allows site (leading && before.all Token.isTrivia) t.kind = true := by
  induction before generalizing leading with
  | nil =>
    simp only [List.nil_append, disallowed?] at h
    split at h
    · rename_i hallows
      simpa using hallows
    · cases h
  | cons u before ih =>
    simp only [List.cons_append, disallowed?] at h
    split at h
    · simpa [Bool.and_assoc] using ih h
    · cases h

lemma plain_of_allowed {site : Site} {tokens : List Token} (h : disallowed? site true tokens = none) :
    ∀ t ∈ tokens, Kind.isPlain t.kind = true := by
  intro t ht
  obtain ⟨before, after, rfl⟩ := List.append_of_mem ht
  exact (allows_plain (disallowed?_none h)).1

lemma isSpace_of_isWhitespace {c : Char} (h : isWhitespace c = true) : Text.isSpace c = true := by
  simp only [isWhitespace, Bool.or_eq_true, beq_iff_eq] at h
  rcases h with ((rfl | rfl) | rfl) | rfl <;> decide

lemma isTrivia_iff {t : Token} (h : Kind.isPlain t.kind = true) :
    t.isTrivia = true ↔ t.kind = .whitespace := by
  unfold Token.isTrivia
  cases hk : t.kind <;> simp_all [Kind.isTrivia, Kind.isPlain]

lemma filter_visible {ts : List Token} (h : ∀ t ∈ ts, Kind.isPlain t.kind = true) :
    (ts.filter fun t => !t.isTrivia) = ts.filter fun t => t.kind != .whitespace := by
  apply List.filter_congr
  intro t ht
  have := isTrivia_iff (h t ht)
  by_cases hk : t.kind = .whitespace <;> simp_all

lemma nest_filter (stack : List Symbol) (ts : List Token) :
    nest stack (ts.filter fun t => !t.isTrivia) = nest stack ts := by
  induction ts generalizing stack with
  | nil => rfl
  | cons t ts ih =>
    cases ht : t.isTrivia with
    | false =>
      rw [List.filter_cons_of_pos (by simp [ht])]
      simp only [nest, ih]
    | true =>
      rw [List.filter_cons_of_neg (by simp [ht]), ih]
      have hkind : nestKind stack t.kind = some stack := by
        unfold Token.isTrivia at ht
        cases hk : t.kind <;> simp_all [Kind.isTrivia, nestKind]
      simp [nest, hkind]

def lead : Site → Text
  | .binding | .tag => []
  | .condition => "if(".toList
  | .loop => "foreach(".toList

def leadTokens (site : Site) : List Token :=
  (headTokens site).tail

lemma scans_openTag (rest : Text) :
    Scans .markup ("<?php ".toList ++ rest) [⟨.openTag, "<?php ".toList⟩] (.code false) rest := by
  have htag : openTag? ('<' :: ("?php ".toList ++ rest)) = some (.openTag, 6) := by
    simp [openTag?, Text.lower, isWhitespace]
  have hlexeme : lexeme .markup '<' ("?php ".toList ++ rest) = .ok ⟨.openTag, 5, .code false⟩ := by
    simp only [lexeme, htag]
  exact .step hlexeme .done

lemma opening_eq (site : Site) : opening site = "<?php ".toList ++ lead site := by
  cases site <;> decide

lemma wrap_eq (site : Site) (source : Text) :
    wrap site source = "<?php ".toList ++ (lead site ++ (source ++ closing site)) := by
  rw [wrap, opening_eq, List.append_assoc, List.append_assoc]

lemma tokenize_of_scans {site : Site} {source : Text} {inner : List Token} {stop last : Mode}
    (hbefore : Scans (.code false) (lead site ++ (source ++ closing site)) (leadTokens site)
      (.code false) (source ++ closing site))
    (hwithin : Scans (.code false) (source ++ closing site) inner stop (closing site))
    (hafter : Scans stop (closing site) (tailTokens site) last []) :
    tokenize (wrap site source) = .ok (headTokens site ++ inner ++ tailTokens site) := by
  have hscan := (scans_openTag _).append (hbefore.append (hwithin.append hafter))
  have hhead : headTokens site = ⟨.openTag, "<?php ".toList⟩ :: leadTokens site := by
    cases site <;> rfl
  rw [tokenize, wrap_eq, hscan.tokensFrom_eq, tokensFrom, hhead]
  simp [Except.map]

lemma accept_ok {site : Site} {source : Text} {e : Expression} (h : accept site source = .ok e)
    (hb : Text.isBlank source = false) :
    ∃ tokens, tokensFrom (.code false) (lead site ++ (source ++ closing site)) = .ok tokens ∧
      disallowed? site true tokens = none ∧ Statement.check site tokens = .ok () ∧
      e = ⟨source, unwrap site tokens.dropLast⟩ := by
  unfold accept at h
  rw [hb] at h
  simp only [Bool.false_eq_true, if_false] at h
  cases ht : tokenize (wrap site source) with
  | error fault =>
    rw [ht] at h
    cases h
  | ok all =>
    rw [ht] at h
    have hall := ht
    rw [tokenize, wrap_eq] at hall
    obtain ⟨tokens, rfl, htokens⟩ := (scans_openTag _).tokensFrom_ok hall
    refine ⟨tokens, htokens, ?_⟩
    simp only [List.singleton_append, if_true, acceptTokens] at h
    split at h
    · cases h
    · split at h
      · cases h
      · rename_i hdisallowed
        split at h
        · split at h
          · cases h
          · rename_i hcheck
            cases h
            exact ⟨hdisallowed, hcheck, rfl⟩
        · cases h

lemma paren_token {member : Bool} {cs : Text} {l : Lexeme} (h : CodeToken member '(' cs l) :
    (∃ type, l.kind = .cast type) ∨ (l = ⟨.symbol .openParen, 0, .code false⟩ ∧ cast? cs = none) := by
  cases h with
  | cast => exact Or.inl ⟨_, rfl⟩
  | paren _ hcast => exact Or.inr ⟨rfl, hcast⟩
  | sign hs => exact absurd rfl hs.notParen
  | whitespace h => exact absurd h (by decide)
  | number h => exact absurd h (by simp)
  | name h => exact absurd h (by decide)
  | variableName h | single h | double h | qualified h => exact absurd h (by decide)

lemma scans_keyword (c : Char) (cs : Text) {rest : Text} {k : Keyword}
    {tokens front more : List Token} (hc : isNameStart c = true) (hn : name false c cs = (.keyword k, cs.length))
    (ht : tokensFrom (.code false) (c :: cs ++ '(' :: rest) = .ok tokens)
    (hp : ∀ t ∈ tokens, Kind.isPlain t.kind = true)
    (hf : (tokens.filter fun t => !t.isTrivia) = front ++ more)
    (hk : front.map Token.kind = [.keyword k, .symbol .openParen]) :
    Scans (.code false) (c :: cs ++ '(' :: rest)
      [⟨.keyword k, c :: cs⟩, ⟨.symbol .openParen, ['(']⟩] (.code false) rest := by
  have hword : Scans (.code false) (c :: cs ++ '(' :: rest) [⟨.keyword k, c :: cs⟩] (.code false)
      ('(' :: rest) := scans_word hc hn (Boundary.cons (by decide) rest)
  obtain ⟨after, rfl, hafter⟩ := hword.tokensFrom_ok ht
  obtain ⟨stop, hs⟩ := scans_of_tokensFrom hafter
  cases after with
  | nil => cases hs
  | cons t ts =>
    obtain ⟨_, _, l, _, hsource, rfl, htoken, -, -⟩ := hs.step_code (hp t (by simp))
    cases hsource
    rcases paren_token htoken with ⟨type, hkind⟩ | ⟨rfl, -⟩
    · have hkinds := congrArg (List.map Token.kind) hf
      rw [List.map_append, hk] at hkinds
      simp [Token.isTrivia, hkind, Kind.isTrivia] at hkinds
    · exact hword.append htoken.scans

lemma scans_lead {site : Site} {rest : Text} {tokens front more : List Token}
    (ht : tokensFrom (.code false) (lead site ++ rest) = .ok tokens)
    (hp : ∀ t ∈ tokens, Kind.isPlain t.kind = true)
    (hf : (tokens.filter fun t => !t.isTrivia) = front ++ more)
    (hk : front.map Token.kind = headKinds site) :
    Scans (.code false) (lead site ++ rest) (leadTokens site) (.code false) rest := by
  cases site with
  | binding | tag => exact .done
  | condition => exact scans_keyword 'i' ['f'] (by decide) (by decide +kernel) ht hp hf hk
  | loop => exact scans_keyword 'f' "oreach".toList (by decide) (by decide +kernel) ht hp hf hk

lemma scans_sign {member stop : Bool} {d : Char} {y rest : Text} {s : Symbol} {ts us : List Token}
    {t : Token} (h : Scans (.code member) (y ++ d :: rest) ts (.code stop) rest)
    (hp : ∀ t ∈ ts, Kind.isPlain t.kind = true) (hd : isWhitespace d = false)
    (hf : (ts.filter fun t => !t.isTrivia) = us ++ [t]) (hk : t.kind = .symbol s)
    (hs : ∀ entry ∈ Symbol.spellings, entry.2 = s → entry.1 = [d]) :
    ∃ init mid, ts = init ++ [⟨.symbol s, [d]⟩] ∧ (init.filter fun t => !t.isTrivia) = us ∧
      Scans (.code member) (y ++ d :: rest) init (.code mid) (d :: rest) ∧
      Scans (.code mid) (d :: rest) [⟨.symbol s, [d]⟩] (.code stop) rest := by
  rcases List.eq_nil_or_concat ts with rfl | ⟨init, last, rfl⟩
  · simp at hf
  rw [List.concat_eq_append] at *
  have hlast : last ∈ init ++ [last] := by simp
  have hspelled := h.wellSpelled hp last hlast
  have htext : (init ++ [last]).flatMap Token.text = y ++ [d] := by
    have hall := h.text
    rw [List.append_cons] at hall
    exact (List.append_cancel_right hall).symm
  have hvisible : last.isTrivia = false := by
    by_contra hne
    have hspace := hspelled.2.1 ((isTrivia_iff (hp last hlast)).mp (by simpa using hne))
    have hend : last.text.getLast hspelled.2.2 = d := by
      have := congrArg List.getLast? htext
      simpa [List.getLast?_append, List.getLast?_eq_some_getLast hspelled.2.2] using this
    rw [← hend, hspace _ (List.getLast_mem _)] at hd
    cases hd
  rw [List.filter_append, List.filter_cons_of_pos (by simp [hvisible]), List.filter_nil] at hf
  obtain ⟨hus, ht⟩ := List.append_inj' hf rfl
  obtain rfl : last = t := (List.cons.inj ht).1
  have hd : last = ⟨.symbol s, [d]⟩ := by
    have hspelling := hs _ (hspelled.1 s hk) rfl
    cases last
    cases hk
    cases hspelling
    rfl
  obtain ⟨mid, inner, hinit, hend⟩ := h.split
  obtain ⟨after, rfl⟩ := hinit.stop_code fun u hu => hp u (by simp [hu])
  have hinner : inner = d :: rest := by
    rw [hend.text, hd]
    rfl
  subst hinner
  rw [hd] at hend
  exact ⟨init, after, by rw [hd], hus, hinit, hend⟩

lemma semicolon_spelling : ∀ entry ∈ Symbol.spellings, entry.2 = .semicolon → entry.1 = [';'] := by
  decide +kernel

lemma closeParen_spelling : ∀ entry ∈ Symbol.spellings, entry.2 = .closeParen → entry.1 = [')'] := by
  decide +kernel

lemma scans_closing {site : Site} {source : Text} {stop : Bool} {ts used back : List Token}
    (h : Scans (.code false) (source ++ closing site) ts (.code stop) [])
    (hp : ∀ t ∈ ts, Kind.isPlain t.kind = true)
    (hf : (ts.filter fun t => !t.isTrivia) = used ++ back)
    (hk : back.map Token.kind = tailKinds site) :
    ∃ inner mid, ts = inner ++ tailTokens site ∧ (inner.filter fun t => !t.isTrivia) = used ∧
      Scans (.code false) (source ++ closing site) inner (.code mid) (closing site) ∧
      Scans (.code mid) (closing site) (tailTokens site) (.code stop) [] := by
  cases site with
  | binding | tag =>
    obtain ⟨semi, rest, rfl, hsemi, hrest⟩ := List.map_eq_cons_iff.mp hk
    obtain rfl := List.map_eq_nil_iff.mp hrest
    exact scans_sign h hp (by decide) hf hsemi semicolon_spelling
  | condition | loop =>
    obtain ⟨close, rest, rfl, hclose, hrest⟩ := List.map_eq_cons_iff.mp hk
    obtain ⟨semi, rest, rfl, hsemi, hrest⟩ := List.map_eq_cons_iff.mp hrest
    obtain rfl := List.map_eq_nil_iff.mp hrest
    have hclosing : ");".toList = [')', ';'] := rfl
    simp only [closing, hclosing] at h ⊢
    rw [List.append_cons] at h hf
    obtain ⟨init, mid, rfl, hinit, hs, hsemi⟩ := scans_sign h hp (by decide) hf hsemi semicolon_spelling
    rw [← List.append_cons] at hs
    obtain ⟨inner, mid', rfl, hinner, hs', hclose⟩ := scans_sign hs
      (fun t ht => hp t (List.mem_append_left _ ht)) (by decide) hinit hclose closeParen_spelling
    exact ⟨inner, mid', by simp [tailTokens], hinner, hs', hclose.append hsemi⟩

structure Embedded (site : Site) (e : Expression) (inner : List Token) (stop : Bool) : Prop where
  before : Scans (.code false) (lead site ++ (e.source ++ closing site)) (leadTokens site)
    (.code false) (e.source ++ closing site)
  within : Scans (.code false) (e.source ++ closing site) inner (.code stop) (closing site)
  after : ∃ last, Scans (.code stop) (closing site) (tailTokens site) last []
  plain : ∀ t ∈ inner, Kind.isPlain t.kind = true
  visible : e.tokens = inner.filter fun t => !t.isTrivia
  shape : Inner site e.tokens
  allowed : disallowed? site true (leadTokens site ++ (inner ++ tailTokens site)) = none

lemma unwrap_eq (site : Site) (inner : List Token) :
    unwrap site (leadTokens site ++ (inner ++ tailTokens site)).dropLast =
      inner.filter fun t => !t.isTrivia := by
  cases site with
  | binding | tag => simp [unwrap, Site.keyword?, leadTokens, headTokens, tailTokens]
  | condition | loop =>
    have htail : [(⟨.symbol .closeParen, ")".toList⟩ : Token), ⟨.symbol .semicolon, ";".toList⟩] =
      [⟨.symbol .closeParen, ")".toList⟩] ++ [⟨.symbol .semicolon, ";".toList⟩] := rfl
    have hclose : ([⟨.symbol .closeParen, ")".toList⟩].filter fun t : Token => !t.isTrivia) =
      [⟨.symbol .closeParen, ")".toList⟩] := rfl
    simp only [unwrap, Site.keyword?, tailTokens]
    rw [htail, ← List.append_assoc, ← List.append_assoc, List.dropLast_concat, List.filter_append,
      List.filter_append, hclose, List.dropLast_concat]
    exact List.drop_left' rfl

lemma accept_embedded {site : Site} {source : Text} {e : Expression}
    (h : accept site source = .ok e) (hb : Text.isBlank source = false) :
    e.source = source ∧ ∃ inner stop, Embedded site e inner stop := by
  obtain ⟨tokens, htokens, hallowed, hcheck, rfl⟩ := accept_ok h hb
  obtain ⟨front, used, back, hfilter, hfront, hback, hshape⟩ := check_ok hcheck
  have hp := plain_of_allowed hallowed
  rw [List.append_assoc] at hfilter
  have hlead := scans_lead htokens hp hfilter hfront
  obtain ⟨more, rfl, hmore⟩ := hlead.tokensFrom_ok htokens
  have hp' : ∀ t ∈ more, Kind.isPlain t.kind = true := fun t ht => hp t (List.mem_append_right _ ht)
  obtain ⟨stop, hs⟩ := scans_of_tokensFrom hmore
  obtain ⟨last, rfl⟩ := hs.stop_code hp'
  -- The tokens of the lead are the first that are no white space.
  have hrest : (more.filter fun t => !t.isTrivia) = used ++ back := by
    have hleads : ((leadTokens site).filter fun t => !t.isTrivia).length = front.length := by
      have := congrArg List.length hfront
      rw [List.length_map] at this
      rw [this]
      cases site <;> rfl
    rw [List.filter_append] at hfilter
    exact (List.append_inj hfilter hleads).2
  obtain ⟨inner, mid, rfl, rfl, hinner, htail⟩ := scans_closing hs hp' hrest hback
  refine ⟨rfl, inner, mid, hlead, hinner, ⟨_, htail⟩, ?_, unwrap_eq site inner, ?_, hallowed⟩
  · exact fun t ht => hp' t (List.mem_append_left _ ht)
  · rw [unwrap_eq]
    exact hshape

namespace Embedded

variable {site : Site} {e : Expression} {inner : List Token} {stop : Bool}

lemma text (h : Embedded site e inner stop) : inner.flatMap Token.text = e.source :=
  (List.append_cancel_right h.within.text).symm

lemma nested (h : Embedded site e inner stop) : nest [] inner = some [] := by
  rw [← nest_filter, ← h.visible]
  have hshape := h.shape
  cases site with
  | binding | condition | tag => exact hshape.nests
  | loop =>
    obtain ⟨before, word, after, hused, hword, hbefore, hafter⟩ := hshape
    rw [hused, nest_append, hbefore.nests, Option.bind_some, nest, hword]
    exact hafter.nests

lemma isInner (h : Embedded site e inner stop) {t : Token} (ht : t ∈ inner) :
    t.kind.isInner = true ∨ (site = .loop ∧ t.kind = .keyword .kwAs) := by
  cases hk : t.isTrivia with
  | true =>
    rw [(isTrivia_iff (h.plain t ht)).mp hk]
    exact Or.inl rfl
  | false =>
    have hmem : t ∈ e.tokens := by
      rw [h.visible]
      exact List.mem_filter.mpr ⟨ht, by simp [hk]⟩
    have hshape := h.shape
    cases site with
    | binding | condition | tag => exact Or.inl (hshape.inner t hmem)
    | loop =>
      obtain ⟨before, word, after, hused, hword, hbefore, hafter⟩ := hshape
      rw [hused] at hmem
      rcases List.mem_append.mp hmem with hb | hb
      · exact Or.inl (hbefore.inner t hb)
      · rcases List.mem_cons.mp hb with rfl | ha
        · exact Or.inr ⟨rfl, hword⟩
        · exact Or.inl (hafter.inner t ha)

lemma allows (h : Embedded site e inner stop) {before after : List Token} {t : Token}
    (ht : inner = before ++ t :: after) :
    Expression.allows site ((leadTokens site).isEmpty && before.all Token.isTrivia) t.kind = true := by
  have hsplit : leadTokens site ++ (inner ++ tailTokens site) =
      (leadTokens site ++ before) ++ t :: (after ++ tailTokens site) := by
    rw [ht]
    simp
  have hallowed := h.allowed
  rw [hsplit] at hallowed
  have hlead : (leadTokens site).all Token.isTrivia = (leadTokens site).isEmpty := by
    cases site <;> rfl
  simpa [hlead] using disallowed?_none hallowed

lemma nonempty (h : Embedded site e inner stop) (hb : Text.isBlank e.source = false) :
    e.tokens ≠ [] := by
  intro hempty
  rw [h.visible, List.filter_eq_nil_iff] at hempty
  have hblank : Text.isBlank e.source = true := by
    rw [Text.isBlank, List.all_eq_true, ← h.text]
    intro c hc
    obtain ⟨t, ht, hct⟩ := List.mem_flatMap.mp hc
    have hkind := (isTrivia_iff (h.plain t ht)).mp (by simpa using hempty t ht)
    exact isSpace_of_isWhitespace ((h.within.wellSpelled h.plain t ht).2.1 hkind c hct)
  rw [hblank] at hb
  cases hb

lemma loopWord (h : Embedded .loop e inner stop) :
    ∃ before t after, inner = before ++ t :: after ∧ t.kind = .keyword .kwAs ∧
      nest [] before = some [] ∧ ∀ u ∈ before ++ after, u.kind ≠ .keyword .kwAs := by
  obtain ⟨first, word, second, hused, hword, hfirst, hsecond⟩ := h.shape
  rw [h.visible] at hused
  obtain ⟨before, rest, rfl, hbefore, hrest⟩ := List.filter_eq_append_iff.mp hused
  obtain ⟨space, after, rfl, hspace, -, hafter⟩ := List.filter_eq_cons_iff.mp hrest
  have hskip : (space.filter fun t => !t.isTrivia) = [] := List.filter_eq_nil_iff.mpr hspace
  refine ⟨before ++ space, word, after, by simp, hword, ?_, ?_⟩
  · rw [← nest_filter, List.filter_append, hskip, List.append_nil, hbefore]
    exact hfirst.nests
  · intro u hu
    cases hk : u.isTrivia with
    | true =>
      intro has
      rw [Token.isTrivia, has] at hk
      cases hk
    | false =>
      have hmem : u ∈ first ++ second := by
        rw [← hbefore, ← hafter, ← List.filter_append]
        refine List.mem_filter.mpr ⟨?_, by simp [hk]⟩
        rcases List.mem_append.mp hu with hu | hu
        · rcases List.mem_append.mp hu with hu | hu
          · exact List.mem_append_left _ hu
          · exact absurd hk (by simpa using hspace u hu)
        · exact List.mem_append_right _ hu
      have hinner : u.kind.isInner = true := by
        rcases List.mem_append.mp hmem with hu | hu
        · exact hfirst.inner u hu
        · exact hsecond.inner u hu
      rintro has
      rw [has] at hinner
      cases hinner

lemma lexed (h : Embedded site e inner stop) :
    tokenize (wrap site e.source) = .ok (headTokens site ++ inner ++ tailTokens site) := by
  obtain ⟨last, hafter⟩ := h.after
  exact tokenize_of_scans h.before h.within hafter

lemma noCast (h : Embedded site e inner stop) (hsite : site = .condition ∨ site = .loop)
    (rest : Text) : cast? (e.source ++ ')' :: rest) = none := by
  have hclosing : closing site = ')' :: [';'] := by
    rcases hsite with rfl | rfl <;> rfl
  obtain ⟨word, hword⟩ : ∃ word, leadTokens site = [word] ++ [⟨.symbol .openParen, ['(']⟩] := by
    rcases hsite with rfl | rfl <;> exact ⟨_, rfl⟩
  have hbefore := h.before
  rw [hword, hclosing] at hbefore
  have hplain : Kind.isPlain word.kind = true := by
    rcases hsite with rfl | rfl <;> cases hword <;> rfl
  obtain ⟨mid, text, hfirst, hsecond⟩ := hbefore.split
  obtain ⟨member, rfl⟩ := hfirst.stop_code (by simpa using hplain)
  obtain rfl : text = '(' :: (e.source ++ ')' :: [';']) := hsecond.text
  obtain ⟨_, _, l, _, hsource, hparen, htoken, -, -⟩ := hsecond.step_code rfl
  obtain ⟨rfl, rfl⟩ := List.cons.inj hsource
  rcases paren_token htoken with ⟨type, hkind⟩ | ⟨-, hcast⟩
  · rw [← show Kind.symbol .openParen = l.kind from congrArg Token.kind hparen] at hkind
    cases hkind
  · rw [List.append_cons, cast?_append (by simp)] at hcast
    rw [List.append_cons, cast?_append (by simp), hcast]

end Embedded

/-- No expression breaks out of the statement that it is read in. -/
theorem accept_confined {site : Site} {source : Text} {e : Expression}
    (h : accept site source = .ok e) (hb : Text.isBlank source = false) :
    e.source = source ∧ ∃ inner, Confined site e inner := by
  obtain ⟨rfl, inner, stop, he⟩ := accept_embedded h hb
  refine ⟨rfl, inner, he.lexed, he.text, ?_, he.nonempty hb, he.plain, ?_, ?_, ?_, he.nested⟩
  · rw [he.visible]
    exact filter_visible he.plain
  · intro t ht
    refine ⟨?_, ?_⟩
    · intro hsemi
      rcases he.isInner ht with hinner | ⟨-, has⟩
      · rw [hsemi] at hinner
        cases hinner
      · rw [has] at hsemi
        cases hsemi
    · obtain ⟨before, after, hsplit⟩ := List.append_of_mem ht
      exact (allows_plain (he.allows hsplit)).2
  · intro before t after k hsplit hk
    have hallows := he.allows hsplit
    rw [hk] at hallows
    rcases allows_keyword hallows with hallowed | ⟨hleading, hlead⟩ | hloop | ⟨hleading, htag, hunset⟩
    · exact Or.inl hallowed
    · -- The keyword of a site that has one stands in the lead, before the expression.
      cases site with
      | binding | tag => cases hlead
      | condition | loop => cases hleading
    · exact Or.inr (Or.inr hloop)
    · refine Or.inr (Or.inl ⟨htag, hunset, ?_⟩)
      intro u hu
      have htrivia := List.all_eq_true.mp (Bool.and_eq_true_iff.mp hleading).2 u hu
      exact (isTrivia_iff (he.plain u (by rw [hsplit]; simp [hu]))).mp htrivia
  · rintro rfl
    exact he.loopWord

theorem accept_confined_loop :
    ∃ e, accept .loop "f((int) $a, [2]) as $k => $row".toList = .ok e ∧
      ∃ inner, Confined .loop e inner := by
  have hok : (accept .loop "f((int) $a, [2]) as $k => $row".toList).isOk = true := by decide +kernel
  cases h : accept .loop "f((int) $a, [2]) as $k => $row".toList with
  | error refusal =>
    rw [h] at hok
    cases hok
  | ok e => exact ⟨e, rfl, (accept_confined h (by decide)).2⟩

end Stencil.Expression

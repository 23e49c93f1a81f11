import Stencil.Proofs.Confinement
import Stencil.Proofs.Resolution
import Mathlib.Tactic.Common

/-!
An expression is admitted in one statement and written into another; its tokens are the same in both.
-/

namespace Stencil.Code.Lexer

lemma CodeToken.unique {member : Bool} {c : Char} {cs : Text} {l k : Lexeme}
    (hl : CodeToken member c cs l) (hk : CodeToken member c cs k) : l = k := by
  have h := codeLexeme_of_codeToken hl
  rw [codeLexeme_of_codeToken hk] at h
  exact (Except.ok.inj h).symm

def word (k : Keyword) : Token := ⟨.keyword k, k.spelling.toList⟩

def sign (s : Symbol) : Token := ⟨.symbol s, s.spelling.toList⟩

def punctuation : List (Char × Symbol) :=
  [(')', .closeParen), (';', .semicolon), (',', .comma), ('{', .openBrace), ('}', .closeBrace)]

lemma punctuation_alone : ∀ entry ∈ punctuation, ∀ spelled ∈ Symbol.spellings,
    spelled.1.head? = some entry.1 → spelled = ([entry.1], entry.2) := by decide +kernel

lemma punctuation_spelled : ∀ entry ∈ punctuation, entry.2.spelling.toList = [entry.1] := by
  decide +kernel

lemma punctuation_listed : ∀ entry ∈ punctuation, ([entry.1], entry.2) ∈ Symbol.spellings := by
  decide +kernel

lemma punctuation_class : ∀ entry ∈ punctuation,
    (∀ d ∈ " \t\n\r#/$'\"?<(".toList, (d == entry.1) = false) ∧ ('\x60' == entry.1) = false ∧
      entry.1.isDigit = false ∧ entry.1 ≠ '.' ∧ entry.1 ≠ '\\' ∧ isNameStart entry.1 = false ∧
      (Kind.symbol entry.2).isMemberOperator = false := by decide

lemma read?_punctuation {d : Char} {s : Symbol} (h : (d, s) ∈ punctuation) (rest : Text) :
    Symbol.read? (d :: rest) = some ([d], s) := by
  unfold Symbol.read?
  cases hf : Symbol.spellings.find? fun entry => entry.1.isPrefixOf (d :: rest) with
  | none =>
    have := List.find?_eq_none.mp hf _ (punctuation_listed _ h)
    simp at this
  | some entry =>
    obtain ⟨hm, hp⟩ := read?_some hf
    have hhead : entry.1.head? = some d := by
      cases he : entry.1 with
      | nil => exact absurd he (spellings_ne_nil _ hm)
      | cons e es =>
        rw [he] at hp
        simp [(List.cons_prefix_cons.mp hp).1]
    exact congrArg some (punctuation_alone _ h _ hm hhead)

lemma punctuation_token {d : Char} {s : Symbol} (h : (d, s) ∈ punctuation) (member : Bool)
    (rest : Text) : CodeToken member d rest ⟨.symbol s, 0, .code false⟩ := by
  obtain ⟨hp, hb, hdigit, hdot, hslash, hname, hmember⟩ := punctuation_class _ h
  have hlate : IsLate d rest := isLate_of_class (p := fun e => e == d) rest (by simp) hp hb
  have hsign : IsSign d rest :=
    ⟨hlate, by simp_all, fun hc => hslash hc.1, hname⟩
  have htoken : CodeToken member d rest _ := .sign hsign (read?_punctuation h rest)
  rw [hmember] at htoken
  exact htoken

lemma scans_punctuation {d : Char} {s : Symbol} (h : (d, s) ∈ punctuation) (member : Bool)
    (rest : Text) : Scans (.code member) (d :: rest) [sign s] (.code false) rest := by
  rw [sign, punctuation_spelled _ h]
  exact (punctuation_token h member rest).scans

lemma scans_paren {rest : Text} (h : cast? rest = none) (member : Bool) :
    Scans (.code member) ('(' :: rest) [sign .openParen] (.code false) rest :=
  (CodeToken.paren rfl h).scans

lemma name_word (member : Bool) (c : Char) {cs : Text} {d : Char}
    (hcs : ∀ e ∈ cs, isNameChar e = true) (hd : isNameChar d = false) (hs : d ≠ '\\') (rest : Text) :
    name member c (cs ++ d :: rest) = name member c cs := by
  have hrun : Text.run isNameChar (cs ++ d :: rest) = cs.length := by
    rw [Text.run, List.takeWhile_append_of_pos hcs, List.takeWhile_cons_of_neg (by simp [hd])]
    simp
  have halone : Text.run isNameChar cs = cs.length := by
    rw [Text.run, List.takeWhile_eq_self_iff.mpr hcs]
  have hnone : segmentsWidth (d :: rest) = 0 := segmentsWidth_zero (by simp_all)
  have hnil : segmentsWidth [] = 0 := segmentsWidth_zero (by simp)
  simp only [name, hrun, halone, List.drop_left, List.drop_length, hnone, hnil, List.take_left,
    List.take_length]

lemma toLower_isAlpha {c : Char} (h : c.toLower.isAlpha = true) : c.isAlpha = true := by
  by_cases hu : c.isUpper = true
  · rw [isAlpha_eq, hu, Bool.true_or]
  · rwa [Text.toLower_eq_self hu] at h

lemma typeNames_isAlpha : ∀ entry ∈ Cast.typeNames, ∀ c ∈ entry.1.toList, c.isAlpha = true := by
  decide +kernel

lemma ofTypeName?_isAlpha {word : Text} {type : Cast} (h : Cast.ofTypeName? word = some type) :
    ∀ c ∈ word, c.isAlpha = true := by
  obtain ⟨entry, hentry, -⟩ := Option.map_eq_some_iff.mp h
  have hname : entry.1.toList = Text.lower word := by simpa using List.find?_some hentry
  intro c hc
  apply toLower_isAlpha
  apply typeNames_isAlpha entry (List.mem_of_find?_eq_some hentry)
  rw [hname]
  exact List.mem_map_of_mem hc

lemma mem_dropWhile {p : Char → Bool} {cs : Text} {c : Char} (h : c ∈ cs) :
    p c = true ∨ c ∈ cs.dropWhile p := by
  rw [← List.takeWhile_append_dropWhile (p := p) (l := cs)] at h
  rcases List.mem_append.mp h with h | h
  · exact Or.inl (List.all_eq_true.mp List.all_takeWhile c h)
  · exact Or.inr h

lemma mem_trimBy {p : Char → Bool} {cs : Text} {c : Char} (h : c ∈ cs) :
    p c = true ∨ c ∈ Text.trimBy p cs := by
  rcases mem_dropWhile h with hp | h
  · exact Or.inl hp
  · simp only [Text.trimBy, List.mem_reverse]
    exact mem_dropWhile (List.mem_reverse.mpr h)

lemma cast?_letters {cs : Text} {type : Cast} {width : Nat} (h : cast? cs = some (type, width)) :
    ∃ word more, cs = word ++ ')' :: more ∧ ∀ c ∈ word, isBlank c = true ∨ c.isAlpha = true := by
  unfold cast? at h
  dsimp only at h
  split at h
  · rename_i hlt
    obtain ⟨found, hfound, -⟩ := Option.map_eq_some_iff.mp h
    have hsplit := List.takeWhile_append_dropWhile (p := (· ≠ ')')) (l := cs)
    cases hd : cs.dropWhile (· ≠ ')') with
    | nil =>
      rw [hd, List.append_nil] at hsplit
      rw [hsplit] at hlt
      exact absurd hlt (Nat.lt_irrefl _)
    | cons d more =>
      have hne := List.head?_dropWhile_not (· ≠ ')') cs
      rw [hd] at hsplit hne
      obtain rfl : d = ')' := by simpa using hne
      refine ⟨_, more, hsplit.symm, ?_⟩
      intro c hc
      rcases mem_trimBy hc with hb | ht
      · exact Or.inl hb
      · exact Or.inr (ofTypeName?_isAlpha hfound c ht)
  · cases h

lemma run_le_of_stop {p : Char → Bool} {d : Char} (hd : p d = false) (word rest : Text) :
    Text.run p (word ++ d :: rest) ≤ word.length := by
  induction word with
  | nil => simp [Text.run, hd]
  | cons c word ih =>
    simp only [Text.run, List.cons_append, List.takeWhile_cons] at ih ⊢
    split
    · simpa using ih
    · exact Nat.zero_le _

lemma word_token {member : Bool} {c : Char} {word rest : Text} {l : Lexeme}
    (h : CodeToken member c (word ++ ')' :: rest) l) (hc : isBlank c = true ∨ c.isAlpha = true)
    (hw : ∀ d ∈ word, isBlank d = true ∨ d.isAlpha = true) :
    l.width ≤ word.length ∧ ∀ stack, nestKind stack l.kind = some stack := by
  rcases hc with hblank | halpha
  · have hspace : isWhitespace c = true := by
      simp only [isBlank, isWhitespace, Bool.or_eq_true] at hblank ⊢
      exact Or.inl (Or.inl hblank)
    obtain rfl := h.unique (.whitespace hspace)
    exact ⟨run_le_of_stop (by decide) word rest, fun _ => rfl⟩
  · have hstart : isNameStart c = true := by simp [isNameStart, halpha]
    obtain rfl := h.unique (.name hstart)
    have hrun : Text.run isNameChar (word ++ ')' :: rest) ≤ word.length :=
      run_le_of_stop (by decide) word rest
    -- No backslash follows, so the name has one segment.
    have hnone : segmentsWidth ((word ++ ')' :: rest).drop
        (Text.run isNameChar (word ++ ')' :: rest))) = 0 := by
      apply segmentsWidth_zero
      intro d ds hd
      rw [List.drop_append_of_le_length hrun] at hd
      cases hdrop : word.drop (Text.run isNameChar (word ++ ')' :: rest)) with
      | nil =>
        rw [hdrop] at hd
        cases hd
      | cons e es =>
        rw [hdrop, List.cons_append] at hd
        obtain rfl := (List.cons.inj hd).1
        have hmem : '\\' ∈ word := List.mem_of_mem_drop (by rw [hdrop]; simp)
        exact absurd (hw _ hmem) (by decide)
    refine ⟨by simp only [name, hnone]; omega, ?_⟩
    intro stack
    rcases name_kind member c (word ++ ')' :: rest) with hk | hk | hk | ⟨k, hk⟩ <;> rw [hk] <;> rfl

lemma nest_word {member stop : Bool} {word more tail : Text} {ts : List Token}
    (h : Scans (.code member) (word ++ ')' :: more ++ tail) ts (.code stop) tail)
    (hp : ∀ t ∈ ts, Kind.isPlain t.kind = true)
    (hw : ∀ c ∈ word, isBlank c = true ∨ c.isAlpha = true) : nest [] ts = none := by
  induction hn : word.length using Nat.strongRecOn generalizing word member ts with
  | ind n ih =>
    cases ts with
    | nil =>
      have := congrArg List.length h.text
      simp at this
      omega
    | cons t ts =>
      obtain ⟨c, cs, l, after, hsource, rfl, htoken, hnext, hs⟩ := h.step_code (hp t (by simp))
      rw [List.append_assoc, List.cons_append] at hsource
      cases word with
      | nil =>
        cases hsource
        have hclose : (')', Symbol.closeParen) ∈ punctuation := by decide
        obtain rfl := htoken.unique (punctuation_token hclose member _)
        rfl
      | cons d word =>
        rw [List.cons_append] at hsource
        obtain ⟨rfl, rfl⟩ := List.cons.inj hsource
        obtain ⟨hwidth, hkind⟩ := word_token htoken (hw d (by simp))
          fun e he => hw e (List.mem_cons_of_mem _ he)
        rw [nest, hkind, Option.bind_some]
        rw [List.drop_append_of_le_length hwidth, ← List.cons_append, ← List.append_assoc] at hs
        refine ih _ ?_ hs (fun u hu => hp u (List.mem_cons_of_mem _ hu)) ?_ rfl
        · simp only [List.length_drop, ← hn, List.length_cons]
          omega
        · exact fun e he => hw e (List.mem_cons_of_mem _ (List.mem_of_mem_drop he))

lemma cast?_balanced {source tail : Text} {stop : Bool} {ts : List Token} {rest : Text}
    (h : Scans (.code false) (source ++ tail) ts (.code stop) tail)
    (hp : ∀ t ∈ ts, Kind.isPlain t.kind = true) (hn : nest [] ts = some []) :
    cast? (source ++ ',' :: rest) = none := by
  cases hc : cast? (source ++ ',' :: rest) with
  | none => rfl
  | some found =>
    obtain ⟨type, width⟩ := found
    obtain ⟨word, more, hsplit, hword⟩ := cast?_letters hc
    -- The parenthesis that ends the cast stands before the comma, since no type name has one.
    rcases List.append_eq_append_iff.mp hsplit with ⟨gap, hgap, hrest⟩ | ⟨gap, hgap, hrest⟩
    · cases gap with
      | nil => cases hrest
      | cons e gap =>
        cases hrest
        have hcomma : ',' ∈ word := by rw [hgap]; simp
        exact absurd (hword _ hcomma) (by decide)
    · cases gap with
      | nil => cases hrest
      | cons e gap =>
        cases hrest
        rw [nest_word (by rwa [hgap] at h) hp hword] at hn
        cases hn

end Stencil.Code.Lexer

namespace Stencil.Expression

open Code Code.Lexer

lemma nestKind_mem {stack after : List Symbol} {k : Kind} {s : Symbol}
    (h : nestKind stack k = some after) (hs : s ∈ stack) : s ∈ after ∨ k = .symbol s := by
  cases k with
  | symbol sign =>
    simp only [nestKind] at h
    split at h
    · cases h
      exact Or.inl (List.mem_cons_of_mem _ hs)
    · split at h
      · cases stack with
        | nil => cases h
        | cons top rest =>
          dsimp only at h
          split at h
          · rename_i htop
            cases h
            rcases List.mem_cons.mp hs with rfl | hs
            · exact Or.inr (by rw [htop])
            · exact Or.inl hs
          · cases h
      · cases h
        exact Or.inl hs
  | _ =>
    cases h
    exact Or.inl hs

lemma parensClosed_of_nest {stack : List Symbol} {ts : List Token} (h : nest stack ts = some [])
    (hs : ∀ t ∈ ts, WellSpelled t) :
    ParensClosed ts ∧ (.closeParen ∈ stack → ')' ∈ ts.flatMap Token.text) := by
  induction ts generalizing stack with
  | nil =>
    cases h
    exact ⟨trivial, by simp⟩
  | cons t ts ih =>
    obtain ⟨after, hafter, hrest⟩ := Option.bind_eq_some_iff.mp h
    obtain ⟨hclosed, hlater⟩ := ih hrest fun u hu => hs u (List.mem_cons_of_mem _ hu)
    refine ⟨⟨?_, hclosed⟩, ?_⟩
    · intro hk
      rw [hk] at hafter
      cases hafter
      exact hlater (List.mem_cons_self ..)
    · intro hmem
      rw [List.flatMap_cons, List.mem_append]
      rcases nestKind_mem hafter hmem with hm | hk
      · exact Or.inr (hlater hm)
      · have hspelled : t.text = [')'] :=
          closeParen_spelling _ ((hs t (List.mem_cons_self ..)).1 _ hk) rfl
        rw [hspelled]
        exact Or.inl (List.mem_singleton_self _)

def isLinkWord (k : Kind) : Bool :=
  k == .keyword .kwElse || k == .keyword .kwElseIf

structure Portable (source : Text) (inner : List Token) : Prop where
  plain : ∀ t ∈ inner, Kind.isPlain t.kind = true
  unlinked : ∀ t ∈ inner, isLinkWord t.kind = false
  nested : nest [] inner = some []
  scans : ∃ stop, ∀ tail, Boundary tail → Scans (.code false) (source ++ tail) inner (.code stop) tail

lemma closing_boundary (site : Site) : Boundary (closing site) := by
  cases site <;> exact Boundary.cons (by decide) _

lemma Portable.nil : Portable [] [] :=
  ⟨by simp, by simp, rfl, false, fun _ _ => .done⟩

lemma Embedded.unlinked {site : Site} {e : Expression} {inner : List Token} {stop : Bool}
    (h : Embedded site e inner stop) : ∀ t ∈ inner, isLinkWord t.kind = false := by
  intro t ht
  have hallowed : ∀ k ∈ allowedKeywords, isLinkWord (.keyword k) = false := by decide
  obtain ⟨before, after, hsplit⟩ := List.append_of_mem ht
  have hallows := h.allows hsplit
  cases hk : t.kind with
  | keyword k =>
    rw [hk] at hallows
    rcases allows_keyword hallows with hm | ⟨hlead, hm⟩ | ⟨-, rfl⟩ | ⟨-, -, rfl⟩
    · exact hallowed k hm
    · cases site <;> first | cases hlead | cases hm
    · rfl
    · rfl
  | _ => rfl

lemma Embedded.portable {site : Site} {e : Expression} {inner : List Token} {stop : Bool}
    (h : Embedded site e inner stop) : Portable e.source inner := by
  have hclosed := (parensClosed_of_nest h.nested (h.within.wellSpelled h.plain)).1
  refine ⟨h.plain, h.unlinked, h.nested, stop, ?_⟩
  intro tail hb
  exact h.within.relocate h.plain hclosed (closing_boundary site) hb

lemma Portable.tokensFrom_eq {source : Text} {inner : List Token} (h : Portable source inner) :
    tokensFrom (.code false) source = .ok inner := by
  obtain ⟨stop, hs⟩ := h.scans
  have halone := (hs [] Boundary.nil).tokensFrom_eq
  rw [List.append_nil, tokensFrom] at halone
  rw [halone]
  simp [Except.map]

lemma parensClosed_of_none {ts : List Token} (h : ∀ t ∈ ts, t.kind ≠ .symbol .openParen) :
    ParensClosed ts := by
  induction ts with
  | nil => trivial
  | cons t ts ih =>
    exact ⟨fun hk => absurd hk (h t (by simp)), ih fun u hu => h u (List.mem_cons_of_mem _ hu)⟩

lemma scans_fixed {x tail : Text} {ts : List Token}
    (h : (tokensFrom (.code false) x).toOption = some ts)
    (hp : ∀ t ∈ ts, Kind.isPlain t.kind = true ∧ t.kind ≠ .symbol .openParen)
    (hb : Boundary tail) : ∃ stop, Scans (.code false) (x ++ tail) ts (.code stop) tail := by
  cases ht : tokensFrom (.code false) x with
  | error fault =>
    rw [ht] at h
    cases h
  | ok found =>
    rw [ht] at h
    cases h
    have hplain : ∀ t ∈ ts, Kind.isPlain t.kind = true := fun t hm => (hp t hm).1
    have hclosed : ParensClosed ts := parensClosed_of_none fun t hm => (hp t hm).2
    obtain ⟨stop, hs⟩ := scans_of_tokensFrom ht
    obtain ⟨after, rfl⟩ := hs.stop_code hplain
    rw [← List.append_nil x] at hs
    exact ⟨after, hs.relocate hplain hclosed Boundary.nil hb⟩

end Stencil.Expression

namespace Stencil.Template

open Code Code.Lexer Expression

lemma expandAfter_extends (written cs : Text) :
    ∃ more, DotAccess.expandAfter written cs = written.reverse ++ more := by
  fun_induction DotAccess.expandAfter written cs with
  | case1 => exact ⟨[], by simp⟩
  | case2 written c rest _ width ih =>
    obtain ⟨more, hmore⟩ := ih
    exact ⟨_, by rw [hmore, List.reverse_append, List.reverse_cons, List.append_assoc, List.append_assoc]⟩
  | case3 written c rest _ _ width name _ ih =>
    obtain ⟨more, hmore⟩ := ih
    exact ⟨_, by rw [hmore, List.reverse_append, List.append_assoc]⟩
  | case4 written c rest _ _ width name _ offsets ih =>
    obtain ⟨more, hmore⟩ := ih
    exact ⟨_, by rw [hmore, List.reverse_append, List.reverse_append, List.append_assoc, List.append_assoc]⟩
  | case5 written c rest _ _ ih =>
    obtain ⟨more, hmore⟩ := ih
    exact ⟨_, by rw [hmore, List.reverse_cons, List.append_assoc]⟩

lemma expand_head (c : Char) (rest : Text) : (DotAccess.expand (c :: rest)).head? = some c := by
  have hfirst : ∀ written cs : Text, (DotAccess.expandAfter (written ++ [c]) cs).head? = some c := by
    intro written cs
    obtain ⟨more, hmore⟩ := expandAfter_extends (written ++ [c]) cs
    rw [hmore]
    simp
  unfold DotAccess.expand
  rw [DotAccess.expandAfter]
  split
  · exact hfirst _ _
  · split
    · dsimp only
      split
      · rw [List.append_nil, List.reverse_cons]
        exact hfirst _ _
      · rw [List.append_nil, List.reverse_cons, ← List.append_assoc]
        exact hfirst _ _
    · exact hfirst [] _

lemma trimBy_head {p : Char → Bool} {cs : Text} {c : Char} (h : (Text.trimBy p cs).head? = some c) :
    p c = false := by
  have hprefix : Text.trimBy p cs <+: cs.dropWhile p := by
    unfold Text.trimBy
    rw [← List.reverse_suffix, List.reverse_reverse]
    exact List.dropWhile_suffix p
  obtain ⟨more, hmore⟩ := hprefix
  have hhead : (cs.dropWhile p).head? = some c := by
    rw [← hmore, List.head?_append, h]
    rfl
  have hnot := List.head?_dropWhile_not p cs
  rw [hhead] at hnot
  simpa using hnot

lemma code_head {o : Options} {raw : Text} {c : Char} (h : (o.code raw).head? = some c) :
    Text.isSpace c = false := by
  suffices htrim : (Text.trim raw).head? = some c from trimBy_head htrim
  unfold Options.code at h
  dsimp only at h
  split at h
  · cases ht : Text.trim raw with
    | nil =>
      rw [ht, DotAccess.expand, DotAccess.expandAfter] at h
      cases h
    | cons d ds =>
      rw [ht, expand_head] at h
      exact h
  · exact h

lemma isBlank_of_head {cs : Text} {c : Char} (h : cs.head? = some c) (hc : Text.isSpace c = false) :
    Text.isBlank cs = false := by
  obtain ⟨rest, rfl⟩ := List.head?_eq_some_iff.mp h
  simp [Text.isBlank, hc]

lemma code_isBlank {o : Options} {raw : Text} (h : Text.isBlank raw = false) :
    Text.isBlank (o.code raw) = false := by
  obtain ⟨c, hc, hspace⟩ : ∃ c ∈ raw, Text.isSpace c = false := by
    simpa [Text.isBlank] using h
  have hmem : c ∈ Text.trim raw := by
    rcases mem_trimBy (p := Text.isSpace) hc with hs | hm
    · rw [hspace] at hs
      cases hs
    · exact hm
  obtain ⟨d, ds, hd⟩ := List.exists_cons_of_ne_nil (List.ne_nil_of_mem hmem)
  have hhead : (o.code raw).head? = some d := by
    unfold Options.code
    dsimp only
    rw [hd]
    split
    · exact expand_head d ds
    · rfl
  exact isBlank_of_head hhead (code_head hhead)

lemma code_starts {o : Options} {raw : Text} (h : Text.isBlank (o.code raw) = false) :
    ∃ c cs, o.code raw = c :: cs ∧ isWhitespace c = false := by
  cases hcode : o.code raw with
  | nil =>
    rw [hcode] at h
    cases h
  | cons c cs =>
    refine ⟨c, cs, rfl, ?_⟩
    have hspace : Text.isSpace c = false := code_head (by rw [hcode]; rfl)
    rw [Bool.eq_false_iff]
    intro hw
    rw [isSpace_of_isWhitespace hw] at hspace
    cases hspace

lemma accept_isBlank {site : Site} {source : Text} {e : Expression}
    (h : Expression.accept site source = .ok e) (he : e.isEmpty = false) :
    Text.isBlank source = false := by
  cases hb : Text.isBlank source with
  | false => rfl
  | true =>
    rw [Expression.accept, if_pos hb] at h
    cases h
    cases he

namespace Fragment

def expression : Fragment → Text
  | .ifOpen source | .elseIfOpen source | .foreachOpen source | .escapedEcho source
  | .rawEcho source | .statement source => source
  | .elseOpen => []

def blockTokens (k : Keyword) (inner : List Token) : List Token :=
  [word k, sign .openParen] ++ inner ++ [sign .closeParen, sign .openBrace]

def echoTokens : List Token :=
  [word .kwEcho, ⟨.whitespace, " ".toList⟩]

def flagTokens : List Token :=
  [⟨.whitespace, " ".toList⟩, ⟨.fullyQualifiedName, "\\ENT_QUOTES".toList⟩, sign .pipe,
    ⟨.fullyQualifiedName, "\\ENT_SUBSTITUTE".toList⟩, sign .pipe,
    ⟨.fullyQualifiedName, "\\ENT_DISALLOWED".toList⟩, sign .pipe,
    ⟨.fullyQualifiedName, "\\ENT_HTML5".toList⟩, sign .comma, ⟨.whitespace, " ".toList⟩,
    ⟨.string, "'UTF-8'".toList⟩]

def around (inner : List Token) : Fragment → List Token
  | .ifOpen _ => blockTokens .kwIf inner
  | .elseIfOpen _ => blockTokens .kwElseIf inner
  | .elseOpen => [word .kwElse, sign .openBrace]
  | .foreachOpen _ => blockTokens .kwForeach inner
  | .escapedEcho _ =>
    echoTokens ++ [⟨.fullyQualifiedName, "\\htmlspecialchars".toList⟩, sign .openParen] ++ inner ++
      [sign .comma] ++ flagTokens ++ [sign .closeParen, sign .semicolon]
  | .rawEcho _ => echoTokens ++ inner ++ [sign .semicolon]
  | .statement _ => inner ++ [sign .semicolon]

end Fragment

lemma scans_block {k : Keyword} {before source : Text} {inner : List Token} (rest : Text)
    (hk : (tokensFrom (.code false) k.spelling.toList).toOption = some [word k])
    (hbefore : before = k.spelling.toList ++ ['(']) (h : Portable source inner)
    (hcast : ∀ rest, cast? (source ++ ')' :: rest) = none) :
    Scans (.code false) (before ++ source ++ ")\x7b".toList ++ rest)
      (Fragment.blockTokens k inner) (.code false) rest := by
  obtain ⟨member, hword⟩ := scans_fixed hk (by simp [Kind.isPlain, word])
    (Boundary.cons (c := '(') (by decide) (source ++ ')' :: '{' :: rest))
  obtain ⟨stop, hinner⟩ := h.scans
  have hclose := scans_punctuation (d := ')') (s := .closeParen) (by decide) stop ('{' :: rest)
  have hbrace := scans_punctuation (d := '{') (s := .openBrace) (by decide) false rest
  have hbody := (hinner _ (Boundary.cons (by decide) ('{' :: rest))).append (hclose.append hbrace)
  have hall := hword.append ((scans_paren (hcast ('{' :: rest)) member).append hbody)
  have hafter : ")\x7b".toList = [')', '{'] := rfl
  rw [hbefore, hafter]
  simpa only [Fragment.blockTokens, List.append_assoc, List.cons_append, List.nil_append] using hall

lemma scans_echo {source : Text} (h : ∀ c, source.head? = some c → isWhitespace c = false) :
    Scans (.code false) ("echo ".toList ++ source) Fragment.echoTokens (.code false) source := by
  have hword : CodeToken false 'e' ("cho".toList ++ ' ' :: source) _ := .name (by decide)
  have hname : name false 'e' "cho".toList = (.keyword .kwEcho, 3) := by decide +kernel
  rw [name_word _ _ (by decide) (by decide) (by decide), hname] at hword
  have hrun : Text.run isWhitespace source = 0 := by
    cases source with
    | nil => rfl
    | cons c cs => simp [Text.run, h c rfl]
  have hblank : CodeToken false ' ' source _ := .whitespace (by decide)
  rw [hrun] at hblank
  exact hword.scans.append hblank.scans

def Fragment.flagText : Text :=
  " ".toList ++ escapeFlags.toList ++ ", 'UTF-8'".toList

lemma scans_flags {tail : Text} (hb : Boundary tail) : ∃ stop,
    Scans (.code false) (Fragment.flagText ++ tail) Fragment.flagTokens (.code stop) tail :=
  scans_fixed (by decide +kernel) (by decide) hb

lemma escapedEcho_code (source rest : Text) : (Fragment.escapedEcho source).code ++ rest =
    "echo ".toList ++ ("\\htmlspecialchars".toList ++ '(' ::
      (source ++ ',' :: (Fragment.flagText ++ ')' :: ';' :: rest))) := by
  have hhead : "echo \\htmlspecialchars(".toList =
    "echo ".toList ++ ("\\htmlspecialchars".toList ++ ['(']) := by decide +kernel
  have htail : ", ".toList ++ (Fragment.escapeFlags.toList ++ ", 'UTF-8');".toList) =
    ',' :: (Fragment.flagText ++ [')', ';']) := by decide +kernel
  have hrest : ", ".toList ++ (Fragment.escapeFlags.toList ++ (", 'UTF-8');".toList ++ rest)) =
      ',' :: (Fragment.flagText ++ ')' :: ';' :: rest) := by
    rw [← List.append_assoc, ← List.append_assoc, List.append_assoc ", ".toList, htail,
      List.cons_append, List.append_assoc]
    rfl
  unfold Fragment.code
  rw [hhead]
  simp only [List.append_assoc]
  exact congrArg (fun arguments => "echo ".toList ++ ("\\htmlspecialchars".toList ++ '(' ::
    (source ++ arguments))) hrest

lemma scans_escape {source : Text} {inner : List Token} (rest : Text) (h : Portable source inner) :
    Scans (.code false) ((Fragment.escapedEcho source).code ++ rest)
      ((Fragment.escapedEcho source).around inner) (.code false) rest := by
  have hfunction : (tokensFrom (.code false) "\\htmlspecialchars".toList).toOption =
      some [⟨.fullyQualifiedName, "\\htmlspecialchars".toList⟩] := by decide +kernel
  obtain ⟨last, hflags⟩ := scans_flags (Boundary.cons (c := ')') (by decide) (';' :: rest))
  obtain ⟨stop, hinner⟩ := h.scans
  have hcast : cast? (source ++ ',' :: (Fragment.flagText ++ ')' :: ';' :: rest)) = none :=
    cast?_balanced (hinner [] Boundary.nil) h.plain h.nested
  obtain ⟨member, hcall⟩ := scans_fixed hfunction (by decide) (Boundary.cons (c := '(') (by decide)
    (source ++ ',' :: (Fragment.flagText ++ ')' :: ';' :: rest)))
  have hcomma := scans_punctuation (d := ',') (s := .comma) (by decide) stop
    (Fragment.flagText ++ ')' :: ';' :: rest)
  have hclose := scans_punctuation (d := ')') (s := .closeParen) (by decide) last (';' :: rest)
  have hsemi := scans_punctuation (d := ';') (s := .semicolon) (by decide) false rest
  have harguments := (hinner _ (Boundary.cons (by decide) _)).append
    (hcomma.append (hflags.append (hclose.append hsemi)))
  have hall := (scans_echo (by simp [isWhitespace])).append
    (hcall.append ((scans_paren hcast member).append harguments))
  rw [escapedEcho_code]
  simpa only [Fragment.around, List.append_assoc, List.cons_append, List.nil_append] using hall

lemma scans_final {source : Text} {inner : List Token} (rest : Text) (h : Portable source inner) :
    Scans (.code false) (source ++ ";".toList ++ rest) (inner ++ [sign .semicolon]) (.code false)
      rest := by
  obtain ⟨stop, hinner⟩ := h.scans
  have hsemi := scans_punctuation (d := ';') (s := .semicolon) (by decide) stop rest
  rw [List.append_assoc]
  exact (hinner _ (Boundary.cons (by decide) rest)).append hsemi

lemma scans_rawEcho {source : Text} {inner : List Token} (rest : Text) (h : Portable source inner)
    (hs : ∃ c cs, source = c :: cs ∧ isWhitespace c = false) :
    Scans (.code false) ((Fragment.rawEcho source).code ++ rest)
      ((Fragment.rawEcho source).around inner) (.code false) rest := by
  obtain ⟨c, cs, rfl, hc⟩ := hs
  have hcode : (Fragment.rawEcho (c :: cs)).code ++ rest =
      "echo ".toList ++ (c :: cs ++ ";".toList ++ rest) := by
    unfold Fragment.code
    rw [List.append_assoc, List.append_assoc, List.append_assoc]
  have hecho : Scans (.code false) ("echo ".toList ++ (c :: cs ++ ";".toList ++ rest))
      Fragment.echoTokens (.code false) (c :: cs ++ ";".toList ++ rest) := by
    apply scans_echo
    rintro d ⟨⟩
    exact hc
  have hall := hecho.append (scans_final rest h)
  rw [hcode]
  simpa only [Fragment.around, List.append_assoc] using hall

lemma accept_portable {site : Site} {source : Text} {e : Expression}
    (h : Expression.accept site source = .ok e) (hb : Text.isBlank source = false) :
    ∃ inner, Portable source inner ∧ (site = .condition ∨ site = .loop →
      ∀ rest, cast? (source ++ ')' :: rest) = none) := by
  obtain ⟨hsource, inner, stop, he⟩ := accept_embedded h hb
  rw [← hsource]
  exact ⟨inner, he.portable, he.noCast⟩

lemma accept_block {site : Site} {k : Keyword} {before source : Text} {e : Expression}
    (h : Expression.accept site source = .ok e) (hb : Text.isBlank source = false)
    (hsite : site = .condition ∨ site = .loop)
    (hk : (tokensFrom (.code false) k.spelling.toList).toOption = some [word k])
    (hbefore : before = k.spelling.toList ++ ['(']) :
    ∃ inner, Portable source inner ∧
      ∀ rest, Scans (.code false) (before ++ source ++ ")\x7b".toList ++ rest)
        (Fragment.blockTokens k inner) (.code false) rest := by
  obtain ⟨inner, hp, hcast⟩ := accept_portable h hb
  exact ⟨inner, hp, fun rest => scans_block rest hk hbefore hp (hcast hsite)⟩

lemma Admitted.scans {o : Options} {f : Fragment} (h : Admitted o f) :
    ∃ inner, Portable f.expression inner ∧
      ∀ rest, Scans (.code false) (f.code ++ rest) (f.around inner) (.code false) rest := by
  cases h with
  | ifOpen hraw haccept =>
    exact accept_block haccept (code_isBlank hraw) (Or.inl rfl) (by decide +kernel) (by decide +kernel)
  | elseIfOpen hraw haccept =>
    exact accept_block haccept (code_isBlank hraw) (Or.inl rfl) (by decide +kernel) (by decide +kernel)
  | foreachOpen hraw haccept =>
    exact accept_block haccept (code_isBlank hraw) (Or.inr rfl) (by decide +kernel) (by decide +kernel)
  | elseOpen =>
    refine ⟨[], Portable.nil, fun rest => ?_⟩
    have hword : (tokensFrom (.code false) "else".toList).toOption = some [word .kwElse] := by
      decide +kernel
    obtain ⟨stop, hs⟩ := scans_fixed hword (by decide) (Boundary.cons (c := '{') (by decide) rest)
    exact hs.append (scans_punctuation (s := .openBrace) (by decide) stop rest)
  | bound hempty haccept =>
    obtain ⟨inner, hp, -⟩ := accept_portable haccept (accept_isBlank haccept hempty)
    exact ⟨inner, hp, fun rest => scans_escape rest hp⟩
  | @tag raw e modifier _ hempty haccept hf =>
    have hblank := accept_isBlank haccept hempty
    obtain ⟨inner, hp, -⟩ := accept_portable haccept hblank
    have hsource := accept_source haccept
    rw [← hsource] at hp
    refine ⟨inner, ?_⟩
    unfold Resolve.tagFragment? at hf
    split at hf
    · cases hf
      exact ⟨hp, fun rest => scans_final rest hp⟩
    · cases hf
      exact ⟨hp, fun rest => scans_final rest hp⟩
    · cases hf
      exact ⟨hp, fun rest => scans_escape rest hp⟩
    · cases hf
      refine ⟨hp, fun rest => ?_⟩
      exact scans_rawEcho rest hp (by rw [hsource]; exact code_starts hblank)
    · cases hf
    · cases hf

end Stencil.Template

import Stencil.Proofs.Verdicts

namespace Stencil.Code.Statement

open Lexer Outcome

def ReadsAll (used rest : List Token) : Prop :=
  ∃ shape, expression maxDepth 0 (used ++ rest) = .ok (shape, rest)

lemma ReadsAll.swap {used x y : List Token} (h : ReadsAll used x) (hx : Fence x) (hy : Fence y) :
    ReadsAll used y := by
  obtain ⟨shape, hread⟩ := h
  have hall : expression maxDepth 0 (used ++ x) = .ok (shape, [] ++ x) := hread
  -- An expression by itself waits for no parenthesis.
  rcases (expression_steady maxDepth 0 []).swaps hx hy trivial hall with hswap | ⟨-, hwait⟩
  · exact ⟨shape, hswap⟩
  · cases hwait

lemma expression_rest {used x rest : List Token} {shape : Shape}
    (h : expression maxDepth 0 (used ++ x) = .ok (shape, rest)) (hl : rest.length = x.length) :
    rest = x := by
  obtain ⟨_, hsplit, -⟩ := (expression_steady maxDepth 0 []).moves trivial h
  exact (List.append_inj' hsplit hl.symm).2.symm

lemma expectSpelled_cons {k : Kind} {spelling : String} {t : Token} (rest : List Token)
    (h : t.kind = k) : (expectSpelled k spelling : Reader _) (t :: rest) = .ok ((), rest) := by
  rw [expectSpelled_eq]
  exact if_pos (congrArg some h)

lemma check_iff {site : Site} {tokens : List Token} :
    check site tokens = .ok () ↔
      ∃ semi, clause (expression maxDepth) site (tokens.filter fun t => !t.isTrivia) = .ok ((), [semi]) ∧
        semi.kind = .symbol .semicolon := by
  constructor
  · intro h
    unfold check at h
    split at h
    · rename_i hs
      exact statement_clause hs
    · cases h
  · rintro ⟨semi, hclause, hkind⟩
    have hsemi : (expect .semicolon : Reader _) [semi] = .ok ((), []) := expectSpelled_cons [] hkind
    have hstatement : statement (expression maxDepth) site (tokens.filter fun t => !t.isTrivia) = .ok ((), []) :=
      bind_ok.mpr ⟨(), [semi], hclause, bind_ok.mpr ⟨(), [], hsemi, rfl⟩⟩
    rw [check, hstatement]

lemma clause_binding {used : List Token} :
    (∃ semi, clause (expression maxDepth) .binding (used ++ [sign .semicolon]) = .ok ((), [semi]) ∧
      semi.kind = .symbol .semicolon) ↔ ReadsAll used [sign .semicolon] := by
  constructor
  · rintro ⟨semi, h, -⟩
    obtain ⟨shape, hread⟩ := discard_ok.mp h
    have hrest := expression_rest hread rfl
    rw [hrest] at hread
    exact ⟨shape, hread⟩
  · rintro ⟨shape, hread⟩
    exact ⟨sign .semicolon, discard_ok.mpr ⟨shape, hread⟩, rfl⟩

lemma clause_tag {ts : List Token} (h : ts.head?.map Token.kind ≠ some (.keyword .kwUnset)) :
    clause (expression maxDepth) .tag ts = clause (expression maxDepth) .binding ts := by
  have hsees : (sees (.keyword .kwUnset) : Reader _) ts = .ok (false, ts) := by
    rw [sees_eq, beq_eq_false_iff_ne.mpr h]
  exact bind_of_ok hsees

lemma clause_condition {used : List Token} :
    (∃ semi, clause (expression maxDepth) .condition ([word .kwIf, sign .openParen] ++
        (used ++ [sign .closeParen, sign .semicolon])) = .ok ((), [semi]) ∧
      semi.kind = .symbol .semicolon) ↔ ReadsAll used [sign .closeParen, sign .semicolon] := by
  have hlead : ∀ ts, clause (expression maxDepth) .condition ([word .kwIf, sign .openParen] ++ ts) =
      (discard (expression maxDepth 0) >>= fun _ => expect .closeParen) ts := by
    intro ts
    have hif : (expectKeyword .kwIf : Reader _) (word .kwIf :: sign .openParen :: ts) =
        .ok ((), sign .openParen :: ts) := expectSpelled_cons _ rfl
    have hopen : (expect .openParen : Reader _) (sign .openParen :: ts) = .ok ((), ts) :=
      expectSpelled_cons _ rfl
    exact (bind_of_ok hif).trans (bind_of_ok hopen)
  rw [hlead]
  constructor
  · rintro ⟨semi, h, -⟩
    obtain ⟨_, mid, hdiscard, hclose⟩ := bind_ok.mp h
    obtain ⟨shape, hread⟩ := discard_ok.mp hdiscard
    obtain ⟨close, rfl, -⟩ := expectSpelled_ok hclose
    have hrest := expression_rest hread rfl
    rw [hrest] at hread
    exact ⟨shape, hread⟩
  · rintro ⟨shape, hread⟩
    refine ⟨sign .semicolon, bind_ok.mpr ⟨(), _, discard_ok.mpr ⟨shape, hread⟩, ?_⟩, rfl⟩
    exact expectSpelled_cons _ rfl

end Stencil.Code.Statement

namespace Stencil.Code.Lexer

lemma cast?_closed {source : Text} (h : ')' ∉ source) (rest : Text) :
    cast? (source ++ ')' :: rest) =
      (Cast.ofTypeName? (Text.trimBy isBlank source)).map fun type => (type, source.length + 1) := by
  have hall : ∀ c ∈ source, decide (c ≠ ')') = true := by
    intro c hc
    exact decide_eq_true fun heq => h (heq ▸ hc)
  have htake : (source ++ ')' :: rest).takeWhile (· ≠ ')') = source := by
    rw [List.takeWhile_append_of_pos hall, List.takeWhile_cons]
    simp
  unfold cast?
  dsimp only
  rw [htake, if_pos (by simp)]

lemma ofTypeName?_no_paren {source : Text} {type : Cast}
    (h : Cast.ofTypeName? (Text.trimBy isBlank source) = some type) : ')' ∉ source := by
  intro hmem
  rcases mem_trimBy (p := isBlank) hmem with hblank | hword
  · exact absurd hblank (by decide)
  · exact absurd (ofTypeName?_isAlpha h _ hword) (by decide)

lemma cast?_balanced_iff {source tail : Text} {stop : Bool} {ts : List Token} {rest : Text}
    (h : Scans (.code false) (source ++ tail) ts (.code stop) tail)
    (hp : ∀ t ∈ ts, Kind.isPlain t.kind = true) (hn : nest [] ts = some []) :
    cast? (source ++ ')' :: rest) = none ↔ Cast.ofTypeName? (Text.trimBy isBlank source) = none := by
  by_cases hmem : ')' ∈ source
  · have hname : Cast.ofTypeName? (Text.trimBy isBlank source) = none := by
      cases htype : Cast.ofTypeName? (Text.trimBy isBlank source) with
      | none => rfl
      | some type => exact absurd hmem (ofTypeName?_no_paren htype)
    rw [hname, cast?_append hmem]
    refine ⟨fun _ => rfl, fun _ => ?_⟩
    cases hcast : cast? source with
    | none => rfl
    | some found =>
      obtain ⟨word, more, rfl, hword⟩ := cast?_letters hcast
      rw [nest_word h hp hword] at hn
      cases hn
  · rw [cast?_closed hmem, Option.map_eq_none_iff]

end Stencil.Code.Lexer

namespace Stencil.Expression

open Code Code.Lexer Code.Statement

structure IsExpression (source : Text) (inner : List Token) : Prop extends Portable source inner where
  allowed : ∀ t ∈ inner, allows .binding false t.kind = true
  reads : ReadsAll (inner.filter fun t => !t.isTrivia) [sign .semicolon]

lemma allows_of_mem {k : Keyword} (h : k ∈ allowedKeywords) (site : Site) (leading : Bool) :
    allows site leading (.keyword k) = true := by
  rw [allows, List.contains_iff_mem.mpr h, Bool.true_or, Bool.true_or, Bool.true_or]

lemma allows_anywhere {k : Kind} (h : allows .binding false k = true) (site : Site) (leading : Bool) :
    allows site leading k = true := by
  cases k with
  | keyword k =>
    rcases allows_keyword h with hmem | ⟨hleading, -⟩ | ⟨hsite, -⟩ | ⟨hleading, -⟩
    · exact allows_of_mem hmem site leading
    · cases hleading
    · cases hsite
    · cases hleading
  | _ => exact h

lemma disallowed?_of_allowed {site : Site} {ts : List Token}
    (h : ∀ t ∈ ts, allows .binding false t.kind = true) (leading : Bool) :
    disallowed? site leading ts = none := by
  induction ts generalizing leading with
  | nil => rfl
  | cons t ts ih =>
    obtain ⟨ht, hts⟩ := List.forall_mem_cons.mp h
    rw [disallowed?, if_pos (allows_anywhere ht site leading)]
    exact ih hts _

lemma tailTokens_allowed (site : Site) : ∀ t ∈ tailTokens site, allows .binding false t.kind = true := by
  cases site <;> decide

lemma disallowed?_lead (site : Site) (ts : List Token) :
    ∃ leading, disallowed? site true (leadTokens site ++ ts) = disallowed? site leading ts := by
  cases site with
  | binding | tag => exact ⟨true, rfl⟩
  | condition | loop => exact ⟨false, rfl⟩

lemma tailTokens_fence (site : Site) : Fence (tailTokens site) := by
  cases site with
  | binding | tag => exact ⟨_, _, rfl, Or.inl rfl⟩
  | condition | loop => exact ⟨_, _, rfl, Or.inr rfl⟩

lemma filter_statement (site : Site) (inner : List Token) :
    ((leadTokens site ++ (inner ++ tailTokens site)).filter fun t => !t.isTrivia) =
      leadTokens site ++ ((inner.filter fun t => !t.isTrivia) ++ tailTokens site) := by
  have hlead : ((leadTokens site).filter fun t => !t.isTrivia) = leadTokens site := by cases site <;> rfl
  have htail : ((tailTokens site).filter fun t => !t.isTrivia) = tailTokens site := by cases site <;> rfl
  rw [List.filter_append, List.filter_append, hlead, htail]

lemma check_site {site : Site} {inner : List Token} (hsite : site ≠ .loop)
    (hunset : site = .tag → (inner.filter fun t => !t.isTrivia).head?.map Token.kind ≠
      some (.keyword .kwUnset)) :
    check site (leadTokens site ++ (inner ++ tailTokens site)) = .ok () ↔
      ReadsAll (inner.filter fun t => !t.isTrivia) (tailTokens site) := by
  rw [check_iff, filter_statement]
  cases site with
  | binding => exact clause_binding
  | condition => exact clause_condition
  | loop => exact absurd rfl hsite
  | tag =>
    have hhead : ((inner.filter fun t => !t.isTrivia) ++ [sign .semicolon]).head?.map Token.kind ≠
        some (.keyword .kwUnset) := by
      have := hunset rfl
      cases hvisible : inner.filter fun t => !t.isTrivia with
      | nil => decide
      | cons t ts =>
        rw [hvisible] at this
        exact this
    have hclause := clause_tag hhead
    change (∃ semi, clause (expression maxDepth) .tag ((inner.filter fun t => !t.isTrivia) ++ [sign .semicolon]) = _ ∧ _) ↔ _
    rw [hclause]
    exact clause_binding

lemma IsExpression.head {source : Text} {inner : List Token} (h : IsExpression source inner) :
    (inner.filter fun t => !t.isTrivia).head?.map Token.kind ≠ some (.keyword .kwUnset) := by
  intro hhead
  obtain ⟨t, ht, hk⟩ := Option.map_eq_some_iff.mp hhead
  have hallowed := h.allowed t (List.mem_filter.mp (List.mem_of_mem_head? ht)).1
  rw [hk] at hallowed
  exact absurd hallowed (by decide)

lemma accept_eq_ok {site : Site} {source : Text} {all : List Token} (hb : Text.isBlank source = false)
    (ht : tokenize (wrap site source) = .ok all) (ha : disallowed? site true all.tail = none)
    (hc : check site all.tail = .ok ()) :
    accept site source = .ok ⟨source, unwrap site all.tail.dropLast⟩ := by
  have hjudged : Judged site source (accept site source) := accept_judged hb
  generalize accept site source = verdict at hjudged ⊢
  cases hjudged with
  | unread h =>
    rw [ht] at h
    cases h
  | barred h hk =>
    rw [ht] at h
    cases h
    rw [ha] at hk
    cases hk
  | unparsed h _ hf =>
    rw [ht] at h
    cases h
    rw [hc] at hf
    cases hf
  | admitted h =>
    rw [ht] at h
    cases h
    rfl

lemma Portable.cast?_iff {source : Text} {inner : List Token} (h : Portable source inner) (rest : Text) :
    cast? (source ++ ')' :: rest) = none ↔ Cast.ofTypeName? (Text.trimBy isBlank source) = none := by
  obtain ⟨stop, hs⟩ := h.scans
  exact cast?_balanced_iff (hs [] Boundary.nil) h.plain h.nested

lemma scans_closing_alone (site : Site) (member : Bool) :
    ∃ last, Scans (.code member) (closing site) (tailTokens site) last [] := by
  have hsemi := fun member => scans_punctuation (d := ';') (s := .semicolon) (by decide) member []
  cases site with
  | binding | tag => exact ⟨_, hsemi member⟩
  | condition | loop =>
    have hclose := scans_punctuation (d := ')') (s := .closeParen) (by decide) member [';']
    exact ⟨_, hclose.append (hsemi false)⟩

lemma Portable.lexed {source : Text} {inner : List Token} (h : Portable source inner) {site : Site}
    (hcast : site.keyword? ≠ none → Cast.ofTypeName? (Text.trimBy isBlank source) = none) :
    tokenize (wrap site source) = .ok (headTokens site ++ inner ++ tailTokens site) := by
  obtain ⟨stop, hinner⟩ := h.scans
  obtain ⟨last, hafter⟩ := scans_closing_alone site stop
  have hbefore : Scans (.code false) (lead site ++ (source ++ closing site)) (leadTokens site)
      (.code false) (source ++ closing site) := by
    have hword := scans_leadWord site source
    cases site with
    | binding | tag => exact .done
    | condition | loop =>
      have hopen := scans_paren ((h.cast?_iff [';']).mpr (hcast (by decide))) false
      have hguarded : '(' :: source ++ [')'] ++ [';'] = '(' :: (source ++ [')', ';']) := by simp
      rw [guarded, hguarded] at hword
      exact hword.append hopen
  exact tokenize_of_scans hbefore (hinner _ (closing_boundary site)) hafter

lemma IsExpression.accept_eq {source : Text} {inner : List Token} (h : IsExpression source inner)
    (hb : Text.isBlank source = false) {site : Site} (hsite : site ≠ .loop)
    (hcast : site = .condition → Cast.ofTypeName? (Text.trimBy isBlank source) = none) :
    accept site source = .ok ⟨source, inner.filter fun t => !t.isTrivia⟩ := by
  have htokens : tokenize (wrap site source) = .ok (headTokens site ++ inner ++ tailTokens site) := by
    apply h.lexed
    intro hkeyword
    cases site with
    | binding | tag => exact absurd rfl hkeyword
    | condition => exact hcast rfl
    | loop => exact absurd rfl hsite
  have hhead : (headTokens site ++ inner ++ tailTokens site).tail =
      leadTokens site ++ (inner ++ tailTokens site) := by
    rw [List.append_assoc]
    cases site <;> rfl
  have hallowed : disallowed? site true (leadTokens site ++ (inner ++ tailTokens site)) = none := by
    obtain ⟨leading, hlead⟩ := disallowed?_lead site (inner ++ tailTokens site)
    rw [hlead]
    apply disallowed?_of_allowed
    intro t ht
    rcases List.mem_append.mp ht with hm | hm
    · exact h.allowed t hm
    · exact tailTokens_allowed site t hm
  have hreads : ReadsAll (inner.filter fun t => !t.isTrivia) (tailTokens site) :=
    h.reads.swap (tailTokens_fence .binding) (tailTokens_fence site)
  have hcheck := (check_site hsite fun _ => h.head).mpr hreads
  rw [← hhead] at hallowed hcheck
  rw [accept_eq_ok hb htokens hallowed hcheck, hhead, unwrap_eq]

lemma Embedded.checked {site : Site} {e : Expression} {inner : List Token} {stop : Bool}
    (h : Embedded site e inner stop) (ha : accept site e.source = .ok e)
    (hb : Text.isBlank e.source = false) :
    check site (leadTokens site ++ (inner ++ tailTokens site)) = .ok () := by
  obtain ⟨tokens, htokens, -, hcheck, -⟩ := accept_ok ha hb
  obtain ⟨last, hafter⟩ := h.after
  rw [(h.before.append (h.within.append hafter)).tokensFrom_eq, tokensFrom] at htokens
  have heq : leadTokens site ++ (inner ++ tailTokens site) ++ [] = tokens := Except.ok.inj htokens
  rwa [← heq, List.append_nil] at hcheck

lemma accept_isExpression {site : Site} {source : Text} {e : Expression}
    (h : accept site source = .ok e) (hb : Text.isBlank source = false) (hsite : site ≠ .loop)
    (hunset : site = .tag → e.tokens.head?.map Token.kind ≠ some (.keyword .kwUnset)) :
    ∃ inner, IsExpression source inner := by
  obtain ⟨rfl, inner, stop, he⟩ := accept_embedded h hb
  refine ⟨inner, he.portable, ?_, ?_⟩
  · intro t ht
    obtain ⟨before, after, hsplit⟩ := List.append_of_mem ht
    have hallows := he.allows hsplit
    cases hk : t.kind with
    | keyword k =>
      rw [hk] at hallows
      rcases allows_keyword hallows with hmem | ⟨hleading, hlead⟩ | ⟨hloop, -⟩ | ⟨hleading, htag, rfl⟩
      · exact allows_of_mem hmem _ _
      · cases site with
        | binding | tag => cases hlead
        | condition | loop => cases hleading
      · exact absurd hloop hsite
      · -- Only blanks come before it, so it is the first token of the expression.
        have hbefore := List.all_eq_true.mp (Bool.and_eq_true_iff.mp hleading).2
        have hfirst : e.tokens.head? = some t := by
          rw [he.visible, hsplit, List.filter_append, List.filter_eq_nil_iff.mpr (by simpa using hbefore),
            List.nil_append, List.filter_cons_of_pos (by simp [Token.isTrivia, hk, Kind.isTrivia])]
          rfl
        exact absurd (by rw [hfirst, Option.map_some, hk]) (hunset htag)
    | _ =>
      rw [hk] at hallows
      exact hallows
  · rw [he.visible] at hunset
    have hreads := (check_site hsite hunset).mp (he.checked h hb)
    exact hreads.swap (tailTokens_fence site) (tailTokens_fence .binding)

lemma accept_unique {a b : Site} {source : Text} {x y : Expression} (hx : accept a source = .ok x)
    (hy : accept b source = .ok y) (hb : Text.isBlank source = false) : x = y := by
  obtain ⟨hsx, first, _, hfirst⟩ := accept_embedded hx hb
  obtain ⟨hsy, second, _, hsecond⟩ := accept_embedded hy hb
  have htokens : first = second := by
    have h := hfirst.portable.tokensFrom_eq
    rw [hsx, ← hsy, hsecond.portable.tokensFrom_eq] at h
    exact (Except.ok.inj h).symm
  have hvisible : x.tokens = y.tokens := by rw [hfirst.visible, hsecond.visible, htokens]
  cases x
  cases y
  cases hsx
  cases hsy
  cases hvisible
  rfl

/-- A binding, a condition and a tag agree on what an expression is, but for type names, which a
condition takes for a cast, and for `unset`, which is a statement only in a tag. -/
theorem sites_agree {source : Text} (hb : Text.isBlank source = false) :
    ((∃ e, accept .condition source = .ok e) ↔
      (∃ e, accept .binding source = .ok e) ∧
        Cast.ofTypeName? (Text.trimBy isBlank source) = none) ∧
    ((∃ e, accept .binding source = .ok e) ↔
      ∃ e, accept .tag source = .ok e ∧ e.tokens.head?.map Token.kind ≠ some (.keyword .kwUnset)) ∧
    ∀ a b x y, accept a source = .ok x → accept b source = .ok y → x = y := by
  have hbinding : (∃ e, accept .binding source = .ok e) ↔ ∃ inner, IsExpression source inner := by
    constructor
    · rintro ⟨e, h⟩
      exact accept_isExpression h hb (by decide) (by simp)
    · rintro ⟨inner, h⟩
      exact ⟨_, h.accept_eq hb (by decide) (by simp)⟩
  rw [hbinding]
  refine ⟨⟨?_, ?_⟩, ⟨?_, ?_⟩, fun a b x y hx hy => accept_unique hx hy hb⟩
  · rintro ⟨e, h⟩
    obtain ⟨inner, hi⟩ := accept_isExpression h hb (by decide) (by simp)
    obtain ⟨rfl, _, _, he⟩ := accept_embedded h hb
    exact ⟨⟨inner, hi⟩, (hi.cast?_iff []).mp (he.noCast (Or.inl rfl) [])⟩
  · rintro ⟨⟨inner, h⟩, hcast⟩
    exact ⟨_, h.accept_eq hb (by decide) fun _ => hcast⟩
  · rintro ⟨inner, h⟩
    exact ⟨_, h.accept_eq hb (by decide) (by simp), h.head⟩
  · rintro ⟨e, h, hunset⟩
    exact accept_isExpression h hb (by decide) fun _ => hunset

theorem sites_agree_nested :
    ∃ e, accept .binding " f((int) $a)[1] ?? 'x)' ".toList = .ok e ∧
      accept .condition " f((int) $a)[1] ?? 'x)' ".toList = .ok e ∧
      accept .tag " f((int) $a)[1] ?? 'x)' ".toList = .ok e := by
  have hblank : Text.isBlank " f((int) $a)[1] ?? 'x)' ".toList = false := by decide
  obtain ⟨hcondition, htag, hsame⟩ := sites_agree hblank
  have hok : (accept .binding " f((int) $a)[1] ?? 'x)' ".toList).isOk = true := by decide +kernel
  cases h : accept .binding " f((int) $a)[1] ?? 'x)' ".toList with
  | error refusal =>
    rw [h] at hok
    cases hok
  | ok e =>
    obtain ⟨x, hx⟩ := hcondition.mpr ⟨⟨e, h⟩, by decide +kernel⟩
    obtain ⟨y, hy, -⟩ := htag.mp ⟨e, h⟩
    exact ⟨e, rfl, by rw [hx, hsame _ _ _ _ hx h], by rw [hy, hsame _ _ _ _ hy h]⟩

end Stencil.Expression

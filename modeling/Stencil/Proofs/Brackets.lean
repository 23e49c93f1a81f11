import Stencil.Proofs.Chains
import Stencil.Proofs.Sections
import Mathlib.Tactic.Common

/-! Brackets and branches in the code of a template. -/

namespace Stencil.Template

open Code Code.Lexer Expression
open Markup (Node Attribute PlaceholderKind codeOpen codeClose siblings_induction)

def Balanced (ts : List Token) : Prop :=
  ∀ stack, nest stack ts = some stack

lemma balanced_of_nest {ts : List Token} (h : nest [] ts = some []) : Balanced ts :=
  fun stack => nest_extend h stack

lemma Balanced.append {as bs : List Token} (ha : Balanced as) (hb : Balanced bs) :
    Balanced (as ++ bs) := by
  intro stack
  rw [nest_append, ha stack]
  exact hb stack

def Fragment.isLink : Fragment → Bool
  | .elseIfOpen _ | .elseOpen => true
  | _ => false

section

variable {f : Fragment} {inner : List Token}

lemma around_nest (f : Fragment) (h : nest [] inner = some []) (stack : List Symbol) :
    nest stack (f.around inner) =
      some (if (Command.fragment f).opensBlock then .closeBrace :: stack else stack) := by
  have hinner := balanced_of_nest h
  have hblock : ∀ k, nest stack (Fragment.blockTokens k inner) = some (.closeBrace :: stack) := by
    intro k
    rw [Fragment.blockTokens, nest_append, nest_append]
    change (nest (.closeParen :: stack) inner).bind _ = _
    rw [hinner]
    rfl
  cases f with
  | ifOpen | elseIfOpen | foreachOpen => exact hblock _
  | elseOpen => rfl
  | escapedEcho source =>
    rw [Fragment.around, List.append_assoc, List.append_assoc, nest_append, nest_append]
    change (nest (.closeParen :: stack) inner).bind _ = _
    rw [hinner]
    rfl
  | rawEcho source =>
    rw [Fragment.around, nest_append, nest_append]
    change (nest stack inner).bind _ = _
    rw [hinner]
    rfl
  | statement source =>
    rw [Fragment.around, nest_append, hinner]
    rfl

lemma around_unlinked (hi : ∀ t ∈ inner, isLinkWord t.kind = false) (hf : f.isLink = false) :
    ∀ t ∈ f.around inner, isLinkWord t.kind = false := by
  have hblock : ∀ k, isLinkWord (.keyword k) = false →
      ∀ t ∈ Fragment.blockTokens k inner, isLinkWord t.kind = false := by
    intro k hk
    simp only [Fragment.blockTokens, List.forall_mem_append]
    refine ⟨⟨?_, hi⟩, by decide⟩
    exact List.forall_mem_cons.mpr ⟨hk, by decide⟩
  cases f with
  | ifOpen | foreachOpen => exact hblock _ (by decide)
  | elseIfOpen | elseOpen => cases hf
  | escapedEcho source =>
    simp only [Fragment.around, List.forall_mem_append]
    exact ⟨⟨⟨⟨by decide, hi⟩, by decide⟩, by decide⟩, by decide⟩
  | rawEcho source =>
    simp only [Fragment.around, List.forall_mem_append]
    exact ⟨⟨by decide, hi⟩, by decide⟩
  | statement source =>
    simp only [Fragment.around, List.forall_mem_append]
    exact ⟨hi, by decide⟩

lemma around_linked (hi : ∀ t ∈ inner, isLinkWord t.kind = false) (hf : f.isLink = true) :
    ∃ first rest, f.around inner = first :: rest ∧ ∀ t ∈ rest, isLinkWord t.kind = false := by
  cases f with
  | elseIfOpen source =>
    refine ⟨word .kwElseIf, sign .openParen :: inner ++ [sign .closeParen, sign .openBrace], rfl, ?_⟩
    simp only [List.forall_mem_append, List.forall_mem_cons]
    exact ⟨⟨by decide, hi⟩, by decide, by decide, by simp⟩
  | elseOpen => exact ⟨word .kwElse, [sign .openBrace], rfl, by decide⟩
  | _ => cases hf

end

def Command.spelled (x : Command) : List Token :=
  x.tokens.toOption.getD []

lemma spelled_fragment {o : Options} {f : Fragment} (h : Admitted o f) :
    ∃ inner, Portable f.expression inner ∧ (Command.fragment f).spelled = f.around inner := by
  obtain ⟨inner, hp, -⟩ := h.scans
  refine ⟨inner, hp, ?_⟩
  simp [Command.spelled, Command.tokens, hp.tokensFrom_eq, Except.map, Except.toOption]

lemma mapM_spelled {commands : List Command} {parts : List (List Token)}
    (h : commands.mapM Command.tokens = .ok parts) : parts = commands.map Command.spelled := by
  induction commands generalizing parts with
  | nil =>
    cases h
    rfl
  | cons x commands ih =>
    rw [List.mapM_cons] at h
    cases hx : x.tokens with
    | error fault =>
      rw [hx] at h
      cases h
    | ok ts =>
      cases hrest : commands.mapM Command.tokens with
      | error fault =>
        rw [hx, hrest] at h
        cases h
      | ok others =>
        rw [hx, hrest] at h
        cases h
        rw [List.map_cons, ← ih hrest, Command.spelled, hx]
        rfl

def chunkTokens : Chunk Command → List Token
  | .literal _ => []
  | .code x => x.spelled
  | .attributeCode x => x.spelled ++ [⟨.whitespace, [' ']⟩]

def streamTokens (ps : List (Chunk Command)) : List Token :=
  ps.flatMap chunkTokens

lemma streamTokens_append (ps qs : List (Chunk Command)) :
    streamTokens (ps ++ qs) = streamTokens ps ++ streamTokens qs :=
  List.flatMap_append

def EndsBranch (ps : List (Chunk Command)) : Prop :=
  ∃ earlier f body, ps = earlier ++ .code (.fragment f) :: body ++ [.code .close] ∧
    (∃ condition, f = .ifOpen condition ∨ f = .elseIfOpen condition) ∧ Balanced (streamTokens body)

structure Orderly (table : Table Fragment) (before ps : List (Chunk Command)) : Prop where
  balanced : Balanced (streamTokens ps)
  linked : ∀ front f back, ps = front ++ .code (.fragment f) :: back → f.isLink = true →
    EndsBranch (before ++ front)
  echoes : ∀ x, .attributeCode x ∈ ps → ∃ value, x = .fragment (.escapedEcho value)
  known : ∀ x, .code x ∈ ps ∨ .attributeCode x ∈ ps → x.IsFrom table

namespace Orderly

variable {o : Options} {table : Table Fragment} {before ps qs : List (Chunk Command)}

lemma nil : Orderly table before [] := by
  refine ⟨fun _ => rfl, ?_, by simp, by simp⟩
  intro front f back h
  simp at h

lemma single {p : Chunk Command} (hb : Balanced (chunkTokens p))
    (hl : ∀ f, p = .code (.fragment f) → f.isLink = true → EndsBranch before)
    (he : ∀ x, p = .attributeCode x → ∃ value, x = .fragment (.escapedEcho value))
    (hk : ∀ x, p = .code x ∨ p = .attributeCode x → x.IsFrom table) : Orderly table before [p] := by
  refine ⟨?_, ?_, ?_, ?_⟩
  · have htokens : streamTokens [p] = chunkTokens p := List.flatMap_singleton _ _
    rwa [htokens]
  · intro front f back h hf
    cases front with
    | nil =>
      cases h
      rw [List.append_nil]
      exact hl f rfl hf
    | cons q front => simp at h
  · intro x hx
    exact he x (List.mem_singleton.mp hx).symm
  · intro x hx
    simp only [List.mem_singleton] at hx
    exact hk x (hx.imp Eq.symm Eq.symm)

lemma literal (content : Text) : Orderly table before [.literal content] :=
  single (fun _ => rfl) (by simp) (by simp) (by simp)

lemma append (hp : Orderly table before ps) (hq : Orderly table (before ++ ps) qs) :
    Orderly table before (ps ++ qs) := by
  refine ⟨?_, ?_, ?_, ?_⟩
  · rw [streamTokens_append]
    exact hp.balanced.append hq.balanced
  · intro front f back h hf
    rcases List.append_eq_append_iff.mp h with ⟨mid, rfl, hrest⟩ | ⟨mid, hps, hrest⟩
    · rw [← List.append_assoc]
      exact hq.linked mid f back hrest hf
    · cases mid with
      | nil =>
        rw [List.append_nil] at hps
        rw [← hps]
        have hstart := hq.linked [] f back (by simpa using hrest.symm) hf
        simpa using hstart
      | cons p mid =>
        cases hrest
        exact hp.linked front f mid hps hf
  · intro x hx
    rcases List.mem_append.mp hx with hx | hx
    · exact hp.echoes x hx
    · exact hq.echoes x hx
  · intro x hx
    simp only [List.mem_append] at hx
    rcases hx with (hx | hx) | (hx | hx)
    · exact hp.known x (Or.inl hx)
    · exact hq.known x (Or.inl hx)
    · exact hp.known x (Or.inr hx)
    · exact hq.known x (Or.inr hx)

lemma bound {f : Fragment} (ht : ∀ g ∈ table.entries, Admitted o g) (hf : f ∈ table.entries)
    {name : Text} (hs : (Role.attribute name).suits f = true) :
    Orderly table before [.attributeCode (.fragment f)] := by
  obtain ⟨inner, hp, hspelled⟩ := spelled_fragment (ht f hf)
  cases f with
  | escapedEcho value =>
    refine single ?_ (by simp) ?_ ?_
    · intro stack
      rw [chunkTokens, hspelled, nest_append, around_nest _ hp.nested]
      rfl
    · intro x hx
      cases hx
      exact ⟨value, rfl⟩
    · rintro x (hx | hx)
      · cases hx
      · cases hx
        exact hf
  | _ => cases hs

lemma plain {f : Fragment} (ht : ∀ g ∈ table.entries, Admitted o g) (hf : f ∈ table.entries)
    (hblock : (Command.fragment f).opensBlock = false) :
    Orderly table before [.code (.fragment f)] := by
  obtain ⟨inner, hp, hspelled⟩ := spelled_fragment (ht f hf)
  refine single ?_ ?_ (by simp) ?_
  · intro stack
    rw [chunkTokens, hspelled, around_nest _ hp.nested, hblock]
    rfl
  · intro g hg hlink
    cases hg
    cases f with
    | elseIfOpen | elseOpen => cases hblock
    | _ => cases hlink
  · rintro x (hx | hx)
    · cases hx
      exact hf
    · cases hx

lemma block {f : Fragment} (ht : ∀ g ∈ table.entries, Admitted o g) (hf : f ∈ table.entries)
    (hblock : (Command.fragment f).opensBlock = true) (hlink : f.isLink = true → EndsBranch before)
    (h : Orderly table (before ++ [.code (.fragment f)]) ps) :
    Orderly table before (.code (.fragment f) :: ps ++ [.code .close]) := by
  obtain ⟨inner, hp, hspelled⟩ := spelled_fragment (ht f hf)
  refine ⟨?_, ?_, ?_, ?_⟩
  · intro stack
    have htokens : streamTokens (.code (.fragment f) :: ps ++ [.code .close]) =
        f.around inner ++ streamTokens ps ++ [sign .closeBrace] := by
      rw [streamTokens_append, ← hspelled]
      rfl
    rw [htokens, nest_append, nest_append, around_nest _ hp.nested, hblock]
    change (nest (.closeBrace :: stack) (streamTokens ps)).bind _ = _
    rw [h.balanced]
    rfl
  · intro front g back hsplit hg
    cases front with
    | nil =>
      cases hsplit
      rw [List.append_nil]
      exact hlink hg
    | cons p front =>
      rw [List.cons_append, List.cons_append] at hsplit
      obtain ⟨rfl, hinner⟩ := List.cons.inj hsplit
      -- The close of the block is no link, so the link stands inside.
      rcases List.append_eq_append_iff.mp hinner with ⟨mid, hfront, hrest⟩ | ⟨mid, hps, hrest⟩
      · cases mid with
        | nil => cases hrest
        | cons q mid => simp at hrest
      · cases mid with
        | nil => cases hrest
        | cons q mid =>
          cases hrest
          have hinside := h.linked front g mid hps hg
          rwa [List.append_assoc] at hinside
  · intro x hx
    simp only [List.cons_append, List.mem_cons, List.mem_append, List.not_mem_nil, reduceCtorEq, false_or,
      or_false] at hx
    exact h.echoes x hx
  · intro x hx
    simp only [List.cons_append, List.mem_cons, List.mem_append, List.not_mem_nil, reduceCtorEq, false_or,
      or_false, Chunk.code.injEq] at hx
    rcases hx with (rfl | hx | rfl) | hx
    · exact hf
    · exact h.known x (Or.inl hx)
    · trivial
    · exact h.known x (Or.inr hx)

end Orderly

section

variable {o : Options} {table : Table Fragment}

lemma attributes_orderly (ht : ∀ g ∈ table.entries, Admitted o g) {attributes : List Attribute} :
    ∀ {before ps : List (Chunk Command)}, attributesStream? table attributes = some ps →
      (∀ r ∈ attributes.flatMap attributeReferences, ∀ f, table.get? r.2 = some f →
        r.1.suits f = true) → Orderly table before ps := by
  induction attributes with
  | nil =>
    intro before ps h _
    cases h
    exact Orderly.nil
  | cons a rest ih =>
    intro before ps h hs
    simp only [attributesStream?, Option.bind_eq_bind, Option.bind_eq_some_iff] at h
    obtain ⟨first, hfirst, others, hothers, hps⟩ := h
    cases hps
    rw [List.flatMap_cons, List.forall_mem_append] at hs
    refine Orderly.append ?_ (ih hothers hs.2)
    obtain ⟨name, value⟩ := a
    cases value with
    | text content =>
      cases hfirst
      exact (Orderly.literal _).append ((Orderly.literal _).append (Orderly.literal _))
    | expression id =>
      obtain ⟨f, hf, rfl⟩ := Option.map_eq_some_iff.mp hfirst
      have hsuits := hs.1 _ (List.mem_singleton_self _) f hf
      exact (Orderly.literal _).append
        ((Orderly.bound ht (get?_mem hf) hsuits).append (Orderly.literal _))
    | code content => cases hfirst

lemma block_suits {kind : PlaceholderKind} {f : Fragment} (hk : kind.opensBlock = true)
    (hs : (Role.placeholder kind).suits f = true) :
    (Command.fragment f).opensBlock = true ∧ (f.isLink = true → kind.followsBranch = true) ∧
      (kind.continuesChain = true → ∃ condition, f = .ifOpen condition ∨ f = .elseIfOpen condition) := by
  cases kind with
  | tag => cases hk
  | conditional =>
    cases f with
    | ifOpen condition => exact ⟨rfl, by rintro ⟨⟩, fun _ => ⟨condition, Or.inl rfl⟩⟩
    | _ => cases hs
  | alternative =>
    cases f with
    | elseIfOpen condition => exact ⟨rfl, fun _ => rfl, fun _ => ⟨condition, Or.inr rfl⟩⟩
    | _ => cases hs
  | otherwise =>
    cases f with
    | elseOpen => exact ⟨rfl, fun _ => rfl, by rintro ⟨⟩⟩
    | _ => cases hs
  | loop =>
    cases f with
    | foreachOpen clause => exact ⟨rfl, by rintro ⟨⟩, by rintro ⟨⟩⟩
    | _ => cases hs

lemma placeholder_orderly (ht : ∀ g ∈ table.entries, Admitted o g) {kind : PlaceholderKind}
    {f : Fragment} {before inner : List (Chunk Command)} (hf : f ∈ table.entries)
    (hs : (Role.placeholder kind).suits f = true) (hafter : kind.followsBranch = true → EndsBranch before)
    (hi : ∀ before, Orderly table before inner) :
    Orderly table before
      (.code (.fragment f) :: inner ++ if kind.opensBlock then [.code .close] else []) ∧
    (kind.continuesChain = true → EndsBranch (before ++
      (.code (.fragment f) :: inner ++ if kind.opensBlock then [.code .close] else []))) := by
  cases hk : kind.opensBlock with
  | true =>
    obtain ⟨hblock, hlink, hcontinues⟩ := block_suits hk hs
    refine ⟨(hi _).block ht hf hblock fun hl => hafter (hlink hl), fun hc => ?_⟩
    refine ⟨before, f, inner, ?_, hcontinues hc, (hi []).balanced⟩
    rw [if_pos rfl, List.append_assoc]
  | false =>
    have htag : kind = .tag := by
      cases kind with
      | tag => rfl
      | _ => cases hk
    subst htag
    have hblock : (Command.fragment f).opensBlock = false := by
      simpa [Role.suits] using hs
    refine ⟨?_, by rintro ⟨⟩⟩
    rw [if_neg (by simp), List.append_nil]
    exact (Orderly.plain ht hf hblock).append (hi _)

lemma stream_orderly (ht : ∀ g ∈ table.entries, Admitted o g) {nodes : List Node} :
    ∀ {raw after : Bool} {before ps : List (Chunk Command)}, stream? table raw nodes = some ps →
      (∀ r ∈ references nodes, ∀ f, table.get? r.2 = some f → r.1.suits f = true) →
      chained after nodes = true → (after = true → EndsBranch before) → Orderly table before ps := by
  induction nodes using siblings_induction with
  | nil =>
    intro raw after before ps h _ _ _
    cases h
    exact Orderly.nil
  | cons node rest ihc ih =>
    intro raw after before ps h hs hc hafter
    simp only [stream?, Option.bind_eq_bind, Option.bind_eq_some_iff] at h
    obtain ⟨first, hfirst, others, hothers, hps⟩ := h
    cases hps
    rw [references, List.forall_mem_append] at hs
    rw [chained, Bool.and_eq_true] at hc
    suffices hself : Orderly table before first ∧ (node.isBranch = true → EndsBranch (before ++ first)) by
      exact hself.1.append (ih hothers hs.2 hc.2 hself.2)
    obtain ⟨hs, -⟩ := hs
    obtain ⟨hc, -⟩ := hc
    have hnever : ∀ {P : Prop}, false = true → P := by
      intro P h
      cases h
    cases node with
    | element name attributes children line =>
      simp only [nodeStream?, Option.bind_eq_bind, Option.bind_eq_some_iff] at hfirst
      obtain ⟨bound, hbound, inner, hinner, hfirst⟩ := hfirst
      cases hfirst
      rw [nodeReferences, List.forall_mem_append] at hs
      refine ⟨?_, hnever⟩
      have hchildren : ∀ before, Orderly table before inner := fun before =>
        ihc hinner hs.2 hc hnever
      have hstart : Orderly table before (.literal (startOpening name) :: bound ++ [.literal ['>']]) :=
        ((Orderly.literal _).append (attributes_orderly ht hbound hs.1)).append (Orderly.literal _)
      split
      · exact hstart
      · exact (hstart.append (hchildren _)).append (Orderly.literal _)
    | placeholder id kind children =>
      simp only [nodeStream?, Option.bind_eq_bind, Option.bind_eq_some_iff] at hfirst
      obtain ⟨f, hf, inner, hinner, hfirst⟩ := hfirst
      cases hfirst
      rw [nodeReferences, List.forall_mem_cons] at hs
      rw [nodeChained, Bool.and_eq_true] at hc
      refine placeholder_orderly ht (get?_mem hf) (hs.1 f hf) ?_ fun before => ihc hinner hs.2 hc.2 hnever
      intro hk
      apply hafter
      simpa [hk] using hc.1
    | text | comment | doctype | instruction =>
      cases hfirst
      exact ⟨Orderly.literal _, hnever⟩
    | code content => cases hfirst

def sectionTokens (p : Chunk (List Command)) : List Token :=
  p.pieces.flatMap chunkTokens

lemma section_tokenize (ht : ∀ g ∈ table.entries, Admitted o g) {ps : List (Chunk Command)}
    (hps : ∀ x, .code x ∈ ps ∨ .attributeCode x ∈ ps → x.IsFrom table) {p : Chunk (List Command)}
    (hp : p ∈ (sections ps).filter Chunk.isCode) :
    Code.tokenize (Chunk.map (List.flatMap Command.text) p).print =
      .ok (⟨.openTag, codeOpen⟩ :: sectionTokens p ++ [⟨.closeTag, codeClose⟩]) := by
  obtain ⟨hmem, hcode⟩ := List.mem_filter.mp hp
  have hpieces : ∀ q ∈ p.pieces, q ∈ ps := by
    intro q hq
    rw [← pieces_sections ps]
    exact List.mem_flatMap.mpr ⟨p, hmem, hq⟩
  have hread : ∀ {xs : List Command} {closing : Text} {ending : List Token},
      (∀ x ∈ xs, x.IsFrom table) → Scans (.code false) closing ending .markup [] →
      Code.tokenize (codeOpen ++ xs.flatMap Command.text ++ closing) =
        .ok (⟨.openTag, codeOpen⟩ :: xs.flatMap Command.spelled ++ ending) := by
    intro xs closing ending hx hend
    obtain ⟨parts, hparts, -, hscan⟩ := region_scans hx ht
    rw [Code.tokenize, (hscan hend).tokensFrom_eq, tokensFrom, mapM_spelled hparts, List.flatMap_def]
    simp [Except.map]
  cases p with
  | literal content => cases hcode
  | code xs =>
    have hx : ∀ x ∈ xs, x.IsFrom table := fun x hx =>
      hps x (Or.inl (hpieces _ (List.mem_map_of_mem hx)))
    have htokens : sectionTokens (.code xs) = xs.flatMap Command.spelled := by
      rw [sectionTokens, Chunk.pieces, List.flatMap_map]
      rfl
    rw [htokens]
    exact hread hx (scans_closeTag false [])
  | attributeCode xs =>
    obtain ⟨x, rfl⟩ := sections_attribute hmem
    have hx : ∀ y ∈ [x], y.IsFrom table := fun y hy =>
      hps y (Or.inr (hpieces _ (List.mem_map_of_mem hy)))
    have hall := hread hx (scans_blank_closeTag [])
    have htokens : sectionTokens (.attributeCode [x]) = x.spelled ++ [⟨.whitespace, [' ']⟩] := by
      simp [sectionTokens, Chunk.pieces, chunkTokens]
    rw [htokens]
    simpa [Chunk.map, Chunk.print] using hall

lemma filter_tokens (qs : List (Chunk (List Command))) :
    (qs.filter Chunk.isCode).flatMap sectionTokens = streamTokens (qs.flatMap Chunk.pieces) := by
  induction qs with
  | nil => rfl
  | cons p qs ih =>
    rw [List.flatMap_cons, streamTokens_append, ← ih]
    cases p with
    | literal content => rfl
    | code | attributeCode => rfl

/-- The tokens `front` end with a brace, and it closes the block of a condition; `earlier` comes before
them. -/
def ClosesBranch (earlier front : List Token) : Prop :=
  ∃ inside start k condition body, front = inside ++ [sign .closeBrace] ∧
    (k = .kwIf ∨ k = .kwElseIf) ∧
    earlier ++ inside = start ++ Fragment.blockTokens k condition ++ body ∧
    nest [] condition = some [] ∧ nest [] body = some []

lemma EndsBranch.closes (ht : ∀ g ∈ table.entries, Admitted o g) {ps : List (Chunk Command)}
    (hps : ∀ x, .code x ∈ ps ∨ .attributeCode x ∈ ps → x.IsFrom table) (h : EndsBranch ps) :
    ∃ qs, ps = qs ++ [.code .close] ∧ ∃ start k condition body, (k = .kwIf ∨ k = .kwElseIf) ∧
      streamTokens qs = start ++ Fragment.blockTokens k condition ++ body ∧
      nest [] condition = some [] ∧ nest [] body = some [] := by
  obtain ⟨earlier, f, body, rfl, ⟨condition, hf⟩, hbody⟩ := h
  have hfrom : f ∈ table.entries := hps (.fragment f) (Or.inl (by simp))
  obtain ⟨inner, hp, hspelled⟩ := spelled_fragment (ht f hfrom)
  have htokens : streamTokens (earlier ++ .code (.fragment f) :: body) =
      streamTokens earlier ++ f.around inner ++ streamTokens body := by
    rw [streamTokens_append, ← hspelled, List.append_assoc]
    rfl
  refine ⟨_, rfl, ?_⟩
  rcases hf with rfl | rfl
  · exact ⟨_, .kwIf, inner, _, Or.inl rfl, htokens, hp.nested, hbody []⟩
  · exact ⟨_, .kwElseIf, inner, _, Or.inr rfl, htokens, hp.nested, hbody []⟩

lemma flatMap_split {α β : Type} {g : α → List β} {xs : List α} {front back : List β} {t : β}
    (h : xs.flatMap g = front ++ t :: back) : ∃ as x bs before after, xs = as ++ x :: bs ∧
      front = as.flatMap g ++ before ∧ g x = before ++ t :: after := by
  induction xs generalizing front with
  | nil => simp at h
  | cons x xs ih =>
    rw [List.flatMap_cons] at h
    rcases List.append_eq_append_iff.mp h with ⟨mid, rfl, hrest⟩ | ⟨mid, hx, hrest⟩
    · obtain ⟨as, y, bs, before, after, rfl, rfl, hy⟩ := ih hrest
      exact ⟨x :: as, y, bs, before, after, rfl, by simp, hy⟩
    · cases mid with
      | nil =>
        obtain ⟨as, y, bs, before, after, rfl, hfront, hy⟩ := ih (hrest.symm.trans (List.nil_append _).symm)
        refine ⟨x :: as, y, bs, before, after, rfl, ?_, hy⟩
        rw [List.append_nil] at hx
        rw [List.flatMap_cons, List.append_assoc, ← hfront, hx, List.append_nil]
      | cons u mid =>
        cases hrest
        exact ⟨[], x, xs, front, mid, rfl, by simp, hx⟩

lemma link_starts (ht : ∀ g ∈ table.entries, Admitted o g) {x : Command} (hx : x.IsFrom table)
    {before after : List Token} {t : Token} (h : x.spelled = before ++ t :: after)
    (hlink : isLinkWord t.kind = true) : before = [] ∧ ∃ f, x = .fragment f ∧ f.isLink = true := by
  cases x with
  | close =>
    have hbrace : t ∈ [sign .closeBrace] := by
      have hm : t ∈ Command.close.spelled := by rw [h]; simp
      exact hm
    rw [List.mem_singleton.mp hbrace] at hlink
    cases hlink
  | fragment f =>
    obtain ⟨inner, hp, hspelled⟩ := spelled_fragment (ht f hx)
    rw [hspelled] at h
    cases hf : f.isLink with
    | false =>
      have hno := around_unlinked hp.unlinked hf t (by rw [h]; simp)
      rw [hno] at hlink
      cases hlink
    | true =>
      obtain ⟨first, rest, haround, hrest⟩ := around_linked hp.unlinked hf
      refine ⟨?_, f, rfl, hf⟩
      cases before with
      | nil => rfl
      | cons u before =>
        rw [haround] at h
        obtain ⟨-, rfl⟩ := List.cons.inj h
        have hno := hrest t (by simp)
        rw [hno] at hlink
        cases hlink

lemma attribute_unlinked (ht : ∀ g ∈ table.entries, Admitted o g) {ps : List (Chunk Command)}
    (h : Orderly table [] ps) {xs : List Command} (hmem : .attributeCode xs ∈ sections ps)
    {t : Token} (htoken : t ∈ sectionTokens (.attributeCode xs)) : isLinkWord t.kind = false := by
  obtain ⟨x, rfl⟩ := sections_attribute hmem
  have hx : .attributeCode x ∈ ps := by
    rw [← pieces_sections ps]
    exact List.mem_flatMap.mpr ⟨_, hmem, List.mem_singleton_self _⟩
  obtain ⟨value, rfl⟩ := h.echoes x hx
  obtain ⟨inner, hp, hspelled⟩ := spelled_fragment (ht _ (h.known _ (Or.inr hx)))
  have hsplit : t ∈ (Fragment.escapedEcho value).around inner ++ [⟨.whitespace, [' ']⟩] := by
    rw [← hspelled]
    simpa [sectionTokens, Chunk.pieces, chunkTokens] using htoken
  rcases List.mem_append.mp hsplit with hm | hm
  · exact around_unlinked hp.unlinked rfl t hm
  · rw [List.mem_singleton.mp hm]
    rfl

lemma section_linked (ht : ∀ g ∈ table.entries, Admitted o g) {ps : List (Chunk Command)}
    (h : Orderly table [] ps) {before after : List (Chunk (List Command))} {p : Chunk (List Command)}
    (hsplit : sections ps = before ++ p :: after) {front back : List Token} {t : Token}
    (htokens : sectionTokens p = front ++ t :: back) (hlink : isLinkWord t.kind = true) :
    ClosesBranch (streamTokens (before.flatMap Chunk.pieces)) front := by
  cases p with
  | literal content => simp [sectionTokens, Chunk.pieces, chunkTokens] at htokens
  | attributeCode xs =>
    have hmem : .attributeCode xs ∈ sections ps := by rw [hsplit]; simp
    have htoken : t ∈ sectionTokens (.attributeCode xs) := by rw [htokens]; simp
    have hno := attribute_unlinked ht h hmem htoken
    rw [hno] at hlink
    cases hlink
  | code xs =>
    obtain ⟨hps, hmarkup⟩ := sections_split hsplit
    have hflat : xs.flatMap Command.spelled = front ++ t :: back := by
      rw [← htokens, sectionTokens, Chunk.pieces, List.flatMap_map]
      rfl
    obtain ⟨as, x, bs, inside, _, rfl, rfl, hx⟩ := flatMap_split hflat
    have hfrom : x.IsFrom table := h.known x (Or.inl (by rw [hps]; simp))
    obtain ⟨rfl, f, rfl, hf⟩ := link_starts ht hfrom hx hlink
    have hends : EndsBranch (before.flatMap Chunk.pieces ++ as.map .code) := by
      apply h.linked _ f (bs.map .code ++ after.flatMap Chunk.pieces) _ hf
      rw [hps]
      simp
    have hknown : ∀ y, .code y ∈ before.flatMap Chunk.pieces ++ as.map .code ∨
        .attributeCode y ∈ before.flatMap Chunk.pieces ++ as.map .code → y.IsFrom table := by
      intro y hy
      have hsub : ∀ q ∈ before.flatMap Chunk.pieces ++ as.map .code, q ∈ ps := by
        intro q hq
        rw [hps, List.map_append, List.append_assoc, ← List.append_assoc]
        exact List.mem_append_left _ hq
      exact h.known y (hy.imp (hsub _) (hsub _))
    obtain ⟨qs, hqs, start, k, condition, body, hk, hstart, hcondition, hbody⟩ := hends.closes ht hknown
    rcases List.eq_nil_or_concat as with rfl | ⟨others, y, rfl⟩
    · exact absurd (by simpa using hqs) (hmarkup qs .close)
    · rw [List.concat_eq_append, List.map_append, ← List.append_assoc] at hqs
      obtain ⟨rfl, hy⟩ := List.append_inj' hqs rfl
      cases hy
      refine ⟨others.flatMap Command.spelled, start, k, condition, body, ?_, hk, ?_, hcondition, hbody⟩
      · rw [List.concat_eq_append, List.flatMap_append, List.append_nil]
        rfl
      · rw [← hstart, streamTokens_append]
        congr 1
        rw [streamTokens, List.flatMap_map]
        rfl

lemma mapM_eq_ok {α β ε : Type} {f : α → Except ε β} {g : α → β} {xs : List α}
    (h : ∀ x ∈ xs, f x = .ok (g x)) : xs.mapM f = .ok (xs.map g) := by
  induction xs with
  | nil => rfl
  | cons x xs ih =>
    obtain ⟨hx, hxs⟩ := List.forall_mem_cons.mp h
    rw [List.mapM_cons, hx, ih hxs]
    rfl

end

/-- The code of a template is well bracketed. The lexer reads each region to a list of tokens between
two tags; together these lists have all brackets closed in order, and a word that continues a condition
comes in its region right after the brace that closes the block of a condition. In the resolved tree
this is the branch before it. -/
theorem regions_well_bracketed {c c' : Compiler} {source : Text} (h : c.parse source = (.ok (), c'))
    (hf : c'.table.Fits) :
    chained false c'.document = true ∧
    ∃ nodes parts, emit? c'.table c'.document = some nodes ∧
      (regions nodes).mapM (fun r => Code.tokenize r.print) = .ok (parts.map fun part =>
        ⟨.openTag, codeOpen⟩ :: part ++ [⟨.closeTag, codeClose⟩]) ∧
      nest [] parts.flatten = some [] ∧
      ∀ before part after front t back, parts = before ++ part :: after →
        part = front ++ t :: back → t.kind = .keyword .kwElse ∨ t.kind = .keyword .kwElseIf →
        ClosesBranch before.flatten front := by
  obtain ⟨hadmitted, -⟩ := parse_ok h
  obtain ⟨nodes, ps, hemit, hps, hregions⟩ := emit_sections h
  have hchained : chained false c'.document = true :=
    nodes_chained _ (Markup.parse_isRead source) (parse_resolve h) rfl
  have horderly : Orderly c'.table [] ps :=
    stream_orderly hadmitted hps (references_suit h hf) hchained (by rintro ⟨⟩)
  refine ⟨hchained, nodes, ((sections ps).filter Chunk.isCode).map sectionTokens, hemit, ?_, ?_, ?_⟩
  · rw [hregions, List.mapM_map, List.map_map]
    exact mapM_eq_ok fun p hp => section_tokenize hadmitted horderly.known hp
  · have htokens := filter_tokens (sections ps)
    rw [pieces_sections] at htokens
    rw [← List.flatMap_def, htokens]
    exact horderly.balanced []
  · rintro before part after front t back hparts rfl hword
    obtain ⟨as, bs, hfilter, rfl, hrest⟩ := List.map_eq_append_iff.mp hparts
    obtain ⟨p, cs, rfl, hp, rfl⟩ := List.map_eq_cons_iff.mp hrest
    obtain ⟨earlier, later, hsections, rfl, hlater⟩ := List.filter_eq_append_iff.mp hfilter
    obtain ⟨skipped, others, rfl, hskipped, -, -⟩ := List.filter_eq_cons_iff.mp hlater
    have hlink : isLinkWord t.kind = true := by
      rcases hword with hk | hk <;> rw [hk] <;> rfl
    rw [← List.append_assoc] at hsections
    have hcloses := section_linked hadmitted horderly hsections hp hlink
    rw [← filter_tokens, List.filter_append, List.filter_eq_nil_iff.mpr hskipped, List.append_nil,
      List.flatMap_def] at hcloses
    exact hcloses

def branchingSource : Text :=
  "<ul><li for=\"$a as $b\">\x7b\x7b f($b[0]) \x7d\x7d</li></ul>".toList ++
    "<p if=\"g($a)\"><i if=\"$c\">x</i></p> <p else-if=\"$d\">y</p>\n<p else>z</p>".toList

theorem regions_well_bracketed_branching :
    ∃ c', (Compiler.ofOptions {}).parse branchingSource = (.ok (), c') ∧ c'.table.Fits ∧
    chained false c'.document = true ∧
    ∃ nodes parts, emit? c'.table c'.document = some nodes ∧
      (regions nodes).mapM (fun r => Code.tokenize r.print) = .ok (parts.map fun part =>
        ⟨.openTag, codeOpen⟩ :: part ++ [⟨.closeTag, codeClose⟩]) ∧
      nest [] parts.flatten = some [] ∧
      ∀ before part after front t back, parts = before ++ part :: after →
        part = front ++ t :: back → t.kind = .keyword .kwElse ∨ t.kind = .keyword .kwElseIf →
        ClosesBranch before.flatten front := by
  have hboth : ((Compiler.ofOptions {}).parse branchingSource).1.isOk = true ∧
      ((Compiler.ofOptions {}).parse branchingSource).2.table.size ≤ Table.lastId + 1 := by
    decide +kernel
  have h := parse_eq_of_isOk (.ofOptions {}) branchingSource hboth.1
  exact ⟨_, h, hboth.2, regions_well_bracketed h hboth.2⟩

end Stencil.Template

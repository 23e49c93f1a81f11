import Stencil.Proofs.Meaning
import Mathlib.Tactic.Common

/-! Where an alternative may stand, read off the siblings as they are written. -/

namespace Stencil.Template

open Markup Outcome

inductive Standing where
  | branch
  | occupied
  | vacant
  deriving DecidableEq, Repr

def Standing.refusal? (names : Directives) : Standing → Option Cause
  | .branch => none
  | .occupied => some (.badChain names.ifName names.elseIfName)
  | .vacant => some .previousSiblingNotElement

def kindStanding (kind : PlaceholderKind) : Standing :=
  if kind.continuesChain then .branch else .occupied

inductive Part where
  | literal (content : Text)
  | tag (t : Tag)

namespace Part

def isBlank : Part → Bool
  | .literal content => Text.isBlank content
  | .tag _ => false

def standing : Part → Standing
  | .literal _ => .vacant
  | .tag _ => .occupied

end Part

def parts (content : Text) : List Part :=
  match _h : Tag.next? content with
  | .ok (some t) => .literal t.before :: .tag t :: parts t.after
  | _ => [.literal content]
termination_by content.length
decreasing_by exact Tag.after_length _h

def lastPart? (content : Text) : Option Part :=
  (parts content).reverse.find? fun part => !part.isBlank

def carries (name : Text) (attributes : List Attribute) : Bool :=
  (valueOf? name attributes).isSome

variable (o : Options)

def nodeStanding : Node → Standing
  | .element _ attributes _ _ =>
    if carries o.directives.ifName attributes || carries o.directives.elseIfName attributes then
      .branch
    else .occupied
  | .text content _ => (lastPart? content).elim .vacant Part.standing
  | .placeholder _ kind _ => kindStanding kind
  | .comment _ _ | .doctype _ | .instruction _ _ | .code _ => .vacant

def nearest? (before : List Node) : Option Node :=
  before.reverse.find? fun node => !node.isBlankText

def standing (before : List Node) : Standing :=
  (nearest? before).elim .vacant (nodeStanding o)

inductive IsAlternative (attributes : List Attribute) : Prop
  | next {raw : Text} {e : Expression} : carries o.directives.ifName attributes = false →
      valueOf? o.directives.elseIfName attributes = some raw → Text.isBlank raw = false →
      Expression.accept .condition (o.code raw) = .ok e →
      carries o.directives.elseName attributes = false → IsAlternative attributes
  | last {raw : Text} : carries o.directives.ifName attributes = false →
      carries o.directives.elseIfName attributes = false →
      valueOf? o.directives.elseName attributes = some raw → Text.isBlank raw = true →
      IsAlternative attributes

def conditionalNames : List Text :=
  [o.directives.ifName, o.directives.elseIfName, o.directives.elseName]

def conditionals (line : Nat) (attributes : List Attribute) (done : List Node) :
    Resolve Resolve.Scope := do
  let s ← Resolve.ifDirective o line ⟨none, attributes, done⟩
  let s ← Resolve.elseIfDirective o line s
  Resolve.elseDirective o line s

structure Head where
  scope : Resolve.Scope
  loop : Option Nat
  pre : Bool
  attributes : List Attribute

def head (line : Nat) (attributes : List Attribute) (done : List Node) : Resolve Head := do
  let s ← conditionals o line attributes done
  let (loop, attributes) ← Resolve.forDirective o line s.attributes
  let (pre, attributes) ← Resolve.preDirective o line attributes
  let bound ← Resolve.bindAttributes o line [] attributes
  return ⟨s, loop, pre, bound⟩

def resolvedStanding : Node → Standing
  | .placeholder _ kind _ => kindStanding kind
  | .element _ _ _ _ => .occupied
  | .text _ _ | .comment _ _ | .doctype _ | .instruction _ _ | .code _ => .vacant

def reached (done : List Node) : Standing :=
  (done.dropWhile Node.isBlankText).head?.elim .vacant resolvedStanding

variable {o}

lemma reached_blank {node : Node} (h : node.isBlankText = true) (done : List Node) :
    reached (node :: done) = reached done := by
  rw [reached, List.dropWhile_cons_of_pos h, reached]

lemma reached_visible {node : Node} (h : node.isBlankText = false) (done : List Node) :
    reached (node :: done) = resolvedStanding node := by
  rw [reached, List.dropWhile_cons_of_neg (by simp [h])]
  rfl

lemma chain_eq (line : Nat) (name : Text) (done : List Node) :
    Resolve.chain o line name none done =
      match (reached done).refusal? o.directives with
      | none => pure (done.dropWhile Node.isBlankText)
      | some cause => Resolve.fail line cause := by
  unfold Resolve.chain reached
  dsimp only
  cases done.dropWhile Node.isBlankText with
  | nil => rfl
  | cons node before =>
    cases node with
    | placeholder id kind children => cases kind <;> rfl
    | element | text | comment | doctype | instruction | code => rfl

lemma parts_tag {content : Text} {tag : Tag} (h : Tag.next? content = .ok (some tag)) :
    parts content = .literal tag.before :: .tag tag :: parts tag.after := by
  rw [parts]
  split
  · rename_i hn
    cases h.symm.trans hn
    rfl
  · rename_i hn
    exact absurd h (hn tag)

lemma parts_plain {content : Text} (h : Tag.next? content = .ok none) :
    parts content = [.literal content] := by
  rw [parts]
  split
  · rename_i hn
    cases h.symm.trans hn
  · rfl

lemma parts_error {content : Text} {fault : TagFault} (h : Tag.next? content = .error fault) :
    parts content = [.literal content] := by
  rw [parts]
  split
  · rename_i hn
    cases h.symm.trans hn
  · rfl

lemma lastPart?_tag {content : Text} {tag : Tag} (h : Tag.next? content = .ok (some tag)) :
    lastPart? content = (lastPart? tag.after).or (some (.tag tag)) := by
  rw [lastPart?, lastPart?, parts_tag h]
  simp [Part.isBlank]

lemma lastPart?_plain {content : Text} (h : Tag.next? content = .ok none) :
    lastPart? content = if Text.isBlank content then none else some (.literal content) := by
  rw [lastPart?, parts_plain h]
  cases hb : Text.isBlank content <;> simp [Part.isBlank, hb]

lemma reached_addText (content : Text) (line : Nat) (done : List Node) :
    reached (Resolve.addText content line done) =
      if Text.isBlank content then reached done else .vacant := by
  unfold Resolve.addText
  by_cases he : content.isEmpty = true
  · obtain rfl := List.isEmpty_iff.mp he
    rfl
  · rw [if_neg he]
    split
    · rename_i hb
      exact @reached_blank (.text content line) hb done
    · rename_i hb
      exact reached_visible (by simpa [Node.isBlankText] using hb) done

lemma reached_text {line : Nat} {content : Text} {done out : List Node} {t u : Table Fragment}
    (h : Resolve.text o line content done t = .ok (out, u)) :
    reached out = (lastPart? content).elim (reached done) Part.standing := by
  replace h := text_splits h
  induction h with
  | plain hn =>
    rw [reached_addText, lastPart?_plain hn]
    split <;> rfl
  | @tag _ _ _ tag _ _ _ _ _ hn _ _ ih =>
    rw [ih, lastPart?_tag hn, reached_visible rfl]
    cases lastPart? tag.after <;> rfl

lemma lastPart?_isSome {content : Text} (h : Text.isBlank content = false) :
    (lastPart? content).isSome = true := by
  cases hn : Tag.next? content with
  | error fault => simp [lastPart?, parts_error hn, Part.isBlank, h]
  | ok found =>
    cases found with
    | none => simp [lastPart?_plain hn, h]
    | some tag => simp [lastPart?_tag hn]

lemma reached_wrap {conditional : Option (Nat × PlaceholderKind)} {loop : Option Nat} {name : Text}
    {attributes : List Attribute} {children kept : List Node} {line : Nat} :
    reached (Resolve.wrap conditional loop (.element name attributes children line) :: kept) =
      conditional.elim .occupied fun c => kindStanding c.2 := by
  cases conditional with
  | none => cases loop <;> exact reached_visible rfl kept
  | some c => exact reached_visible rfl kept

lemma standing_of_opens {done kept : List Node} {t u : Table Fragment} {name : Text}
    {attributes : List Attribute} {children : List Node} {line : Nat}
    {conditional : Option (Nat × PlaceholderKind)}
    (h : Opens o done t (branchOf o (.element name attributes children line)) conditional kept u) :
    (conditional.elim .occupied fun c => kindStanding c.2) =
      nodeStanding o (.element name attributes children line) := by
  simp only [nodeStanding, carries]
  simp only [branchOf] at h
  split at h
  · rename_i hif
    cases h
    simp [hif, kindStanding, PlaceholderKind.continuesChain]
  · rename_i hif hnext
    cases h
    simp [hif, hnext, kindStanding, PlaceholderKind.continuesChain]
  · rename_i hif hnext hlast
    cases h
    simp [hif, hnext, kindStanding, PlaceholderKind.continuesChain]
  · rename_i hif hnext hlast
    cases h
    simp [hif, hnext]

lemma reached_node {node : Node} {done out : List Node} {t u : Table Fragment}
    (h : Resolve.node o done node t = .ok (out, u)) :
    reached out = if node.isBlankText then reached done else nodeStanding o node := by
  cases node with
  | instruction content line =>
    rw [Resolve.node] at h
    exact (fail_ok.mp h).elim
  | comment | doctype | placeholder | code =>
    rw [Resolve.node] at h
    obtain ⟨rfl, -⟩ := pure_ok.mp h
    exact reached_visible rfl done
  | text content line =>
    rw [Resolve.node] at h
    rw [reached_text h, Node.isBlankText]
    split
    · rename_i hb
      rw [lastPart?_plain (next?_blank hb), if_pos hb]
      rfl
    · rename_i hb
      obtain ⟨part, hpart⟩ := Option.isSome_iff_exists.mp (lastPart?_isSome (by simpa using hb))
      rw [nodeStanding, hpart]
      rfl
  | element name attributes children line =>
    obtain ⟨conditional, kept, _, loop, _, bound, _, inner, hopens, -, -, -, rfl⟩ := element_ok h
    rw [reached_wrap, standing_of_opens hopens]
    rfl

lemma nearest?_cons (node : Node) (rest : List Node) :
    nearest? (node :: rest) = (nearest? rest).or (if node.isBlankText then none else some node) := by
  rw [nearest?, nearest?, List.reverse_cons, List.find?_append]
  cases hb : node.isBlankText <;> simp [hb]

lemma reached_nodes {siblings done out : List Node} {t u : Table Fragment}
    (h : Resolve.nodes o done siblings t = .ok (out, u)) :
    reached out.reverse = (nearest? siblings).elim (reached done) (nodeStanding o) := by
  induction siblings generalizing done t with
  | nil =>
    rw [Resolve.nodes] at h
    obtain ⟨rfl, -⟩ := pure_ok.mp h
    rw [List.reverse_reverse]
    rfl
  | cons node rest ih =>
    rw [Resolve.nodes] at h
    obtain ⟨done', t', hfirst, hrest⟩ := bind_ok.mp h
    rw [ih hrest, nearest?_cons, reached_node hfirst]
    cases nearest? rest with
    | some n => rfl
    | none => cases node.isBlankText <;> rfl

lemma nodes_append (as bs done : List Node) :
    Resolve.nodes o done (as ++ bs) =
      Resolve.nodes o done as >>= fun out => Resolve.nodes o out.reverse bs := by
  induction as generalizing done with
  | nil => simp [Resolve.nodes]
  | cons a as ih => simp only [List.cons_append, Resolve.nodes, ih, bind_assoc]

section

variable {line : Nat} {s : Resolve.Scope} {attributes : List Attribute} {done : List Node}
  {t u : Table Fragment}

lemma ifDirective_absent (h : valueOf? o.directives.ifName s.attributes = none) :
    Resolve.ifDirective o line s = pure s := by
  rw [Resolve.ifDirective, takeAttribute_eq, h]

lemma elseIfDirective_absent (h : valueOf? o.directives.elseIfName s.attributes = none) :
    Resolve.elseIfDirective o line s = pure s := by
  rw [Resolve.elseIfDirective, takeAttribute_eq, h]

lemma elseDirective_absent (h : valueOf? o.directives.elseName s.attributes = none) :
    Resolve.elseDirective o line s = pure s := by
  rw [Resolve.elseDirective, takeAttribute_eq, h]

lemma expression_accepted {site : Site} {raw : Text} {e : Expression}
    (h : Expression.accept site (o.code raw) = .ok e) :
    Resolve.expression o site line raw t = .ok (e, t) := by
  unfold Options.code at h
  unfold Resolve.expression
  rw [h]
  rfl

lemma carries_eq_false {name : Text} : carries name attributes = false ↔
    valueOf? name attributes = none := by
  rw [carries, Option.isSome_eq_false_iff, Option.isNone_iff_eq_none]

lemma conditionals_alternative (h : IsAlternative o attributes) : ∃ name next,
    conditionals o line attributes done = Resolve.chain o line name none done >>= next ∧
      ∀ kept t, ∃ s u, next kept t = .ok (s, u) := by
  obtain ⟨-, -, hne, -⟩ := directive_ne (o := o)
  cases h with
  | @next raw e hif hnext hblank haccept hlast =>
    rw [carries_eq_false] at hif hlast
    refine ⟨o.directives.elseIfName, fun kept => do
      let e ← Resolve.expression o .condition line raw
      let id ← Resolve.register (.elseIfOpen e.source)
      Resolve.elseDirective o line
        ⟨some (id, .alternative), without o.directives.elseIfName attributes, kept⟩, ?_, ?_⟩
    · rw [conditionals, ifDirective_absent hif, pure_bind, Resolve.elseIfDirective,
        takeAttribute_eq, hnext]
      simp [hblank]
    · intro kept t
      have habsent : valueOf? o.directives.elseName
          (without o.directives.elseIfName attributes) = none := by
        rw [valueOf?_without hne, hlast]
      obtain ⟨id, u, hr⟩ : ∃ id u, Resolve.register (.elseIfOpen e.source) t = .ok (id, u) :=
        ⟨_, _, rfl⟩
      refine ⟨⟨some (id, .alternative), without o.directives.elseIfName attributes, kept⟩, u, ?_⟩
      dsimp only
      rw [bind_of_ok (expression_accepted haccept), bind_of_ok hr, elseDirective_absent habsent]
      rfl
  | @last raw hif hnext hlast hblank =>
    rw [carries_eq_false] at hif hnext
    refine ⟨o.directives.elseName, fun kept => do
      let id ← Resolve.register .elseOpen
      return ⟨some (id, .otherwise), without o.directives.elseName attributes, kept⟩, ?_, ?_⟩
    · rw [conditionals, ifDirective_absent hif, pure_bind, elseIfDirective_absent hnext, pure_bind,
        Resolve.elseDirective, takeAttribute_eq, hlast]
      simp [hblank]
    · intro kept t
      exact ⟨_, _, bind_of_ok (register_ok.mpr rfl)⟩

lemma conditionals_ok_iff (h : IsAlternative o attributes) :
    (∃ s u, conditionals o line attributes done t = .ok (s, u)) ↔ reached done = .branch := by
  obtain ⟨name, next, heq, hnext⟩ := @conditionals_alternative o line attributes done h
  rw [heq, chain_eq]
  cases reached done with
  | branch =>
    obtain ⟨s, u, hs⟩ := hnext (done.dropWhile Node.isBlankText) t
    exact iff_of_true ⟨s, u, (bind_of_ok (pure_ok.mpr ⟨rfl, rfl⟩)).trans hs⟩ rfl
  | occupied | vacant =>
    refine iff_of_false ?_ (by simp)
    rintro ⟨s, u, hs⟩
    obtain ⟨_, _, hfail, -⟩ := bind_ok.mp hs
    exact fail_ok.mp hfail

lemma conditionals_refused (h : IsAlternative o attributes) {cause : Cause}
    (hc : (reached done).refusal? o.directives = some cause) :
    conditionals o line attributes done t = .error ⟨⟨cause, line⟩, t⟩ := by
  obtain ⟨name, next, heq, -⟩ := @conditionals_alternative o line attributes done h
  rw [heq, chain_eq, hc]
  exact bind_error.mpr (.inl rfl)

lemma conditionals_single (h : conditionals o line attributes done t = .ok (s, u)) :
    (conditionalNames o).countP (carries · attributes) ≤ 1 := by
  obtain ⟨hne₁, hne₂, hne₃, -⟩ := directive_ne (o := o)
  obtain ⟨s₁, t₁, h₁, hrest⟩ := bind_ok.mp h
  obtain ⟨s₂, t₂, h₂, h₃⟩ := bind_ok.mp hrest
  have hone : ∀ b : Bool, (if b = true then 1 else 0) ≤ 1 := by decide
  rcases ifDirective_ok h₁ with ⟨hv₁, rfl, -⟩ | ⟨raw, id, hv₁, -, rfl⟩
  · rcases elseIfDirective_ok h₂ with ⟨hv₂, rfl, -⟩ | ⟨raw, id, hv₂, -, -, -, rfl⟩
    · simp only at hv₁ hv₂
      simpa [conditionalNames, carries, List.countP_cons, hv₁, hv₂] using hone _
    · rcases elseDirective_ok h₃ with ⟨hv₃, -⟩ | ⟨_, _, _, hn, _⟩
      · simp only [valueOf?_without hne₃] at hv₁ hv₃
        simpa [conditionalNames, carries, List.countP_cons, hv₁, hv₃] using hone _
      · cases hn
  · rcases elseIfDirective_ok h₂ with ⟨hv₂, rfl, -⟩ | ⟨_, _, _, hn, _⟩
    · rcases elseDirective_ok h₃ with ⟨hv₃, -⟩ | ⟨_, _, _, hn, _⟩
      · simp only [valueOf?_without hne₁, valueOf?_without hne₂] at hv₂ hv₃
        simpa [conditionalNames, carries, List.countP_cons, hv₂, hv₃] using hone _
      · cases hn
    · cases hn

lemma node_head (name : Text) (children : List Node) :
    Resolve.node o done (.element name attributes children line) = (do
      let h ← head o line attributes done
      let inner ← if h.pre then pure children else Resolve.nodes o [] children
      return Resolve.wrap h.scope.conditional h.loop (.element name h.attributes inner line) ::
        h.scope.done) := by
  rw [node_element, head, conditionals]
  simp only [bind_assoc, pure_bind]

lemma node_refused {stop : Stop} (h : conditionals o line attributes done t = .error stop)
    (name : Text) (children : List Node) :
    Resolve.node o done (.element name attributes children line) t = .error stop := by
  rw [node_head]
  exact bind_error.mpr (.inl (bind_error.mpr (.inl h)))

end

/-- An alternative passes its check iff the nearest sibling before it that is no blank text is an
element with `if` or `else-if`, and is refused by the kind of that sibling otherwise. No element is
accepted with two conditional directives. -/
theorem alternative_accepted_iff (o : Options) (before after : List Node) (name : Text)
    (attributes : List Attribute) (children : List Node) (line : Nat) (t : Table Fragment) :
    (∀ out u, Resolve.nodes o [] before t = .ok (out, u) → IsAlternative o attributes →
      ((∃ s v, conditionals o line attributes out.reverse u = .ok (s, v)) ↔
        standing o before = .branch) ∧
      ∀ cause, (standing o before).refusal? o.directives = some cause →
        Resolve.nodes o [] (before ++ .element name attributes children line :: after) t =
          .error ⟨⟨cause, line⟩, u⟩) ∧
    (2 ≤ (conditionalNames o).countP (carries · attributes) →
      ∃ stop, Resolve.nodes o [] (before ++ .element name attributes children line :: after) t =
        .error stop) := by
  constructor
  · intro out u hwalk halt
    have hreached : reached out.reverse = standing o before := reached_nodes hwalk
    refine ⟨by rw [conditionals_ok_iff halt, hreached], ?_⟩
    intro cause hcause
    rw [nodes_append, bind_of_ok hwalk, Resolve.nodes]
    apply bind_error.mpr
    left
    apply node_refused
    apply conditionals_refused halt
    rw [hreached, hcause]
  · intro htwo
    rw [nodes_append]
    cases hwalk : Resolve.nodes o [] before t with
    | error stop => exact ⟨stop, bind_error.mpr (.inl hwalk)⟩
    | ok p =>
      rw [bind_of_ok (a := p.1) (t := p.2) hwalk, Resolve.nodes]
      cases hcond : conditionals o line attributes p.1.reverse p.2 with
      | error stop => exact ⟨stop, bind_error.mpr (.inl (node_refused hcond name children))⟩
      | ok q =>
        have hone := conditionals_single (s := q.1) (u := q.2) hcond
        omega

def branchAndBlank : List Node :=
  [.element ['p'] [⟨"if".toList, .text "$a".toList⟩] [] 1, .text [' '] 1]

def textEndingInTag : List Node :=
  [.text "x \x7b\x7b $a \x7d\x7d ".toList 1]

def elseAttribute : List Attribute :=
  [⟨"else".toList, .text []⟩]

def ifAndElse : List Attribute :=
  ⟨"if".toList, .text "$a".toList⟩ :: elseAttribute

theorem alternative_accepted_iff_sample : IsAlternative {} elseAttribute ∧
    (∃ out u, Resolve.nodes {} [] branchAndBlank .empty = .ok (out, u) ∧
      ∃ s v, conditionals {} 2 elseAttribute out.reverse u = .ok (s, v)) ∧
    (∃ u, Resolve.nodes {} [] (textEndingInTag ++ [.element ['p'] elseAttribute [] 2]) .empty =
      .error ⟨⟨.badChain "if".toList "else-if".toList, 2⟩, u⟩) ∧
    2 ≤ (conditionalNames {}).countP (carries · ifAndElse) ∧
    ∃ stop, Resolve.nodes {} [] [.element ['p'] ifAndElse [] 1] .empty = .error stop := by
  have helse : IsAlternative {} elseAttribute :=
    @IsAlternative.last {} elseAttribute [] (by decide) (by decide) (by decide) (by decide)
  have htwo : 2 ≤ (conditionalNames {}).countP (carries · ifAndElse) := by decide
  have hbranch : (Resolve.nodes {} [] branchAndBlank .empty).isOk = true := by decide +kernel
  have htag : (Resolve.nodes {} [] textEndingInTag .empty).isOk = true := by decide +kernel
  have hstanding : standing {} textEndingInTag = .occupied := by decide +kernel
  refine ⟨helse, ?_, ?_, htwo, ?_⟩
  · cases hwalk : Resolve.nodes {} [] branchAndBlank .empty with
    | error stop =>
      rw [hwalk] at hbranch
      cases hbranch
    | ok p =>
      have hiff := ((alternative_accepted_iff {} branchAndBlank [] ['p'] elseAttribute [] 2 .empty).1
        p.1 p.2 hwalk helse).1
      exact ⟨p.1, p.2, rfl, hiff.mpr (by decide)⟩
  · cases hwalk : Resolve.nodes {} [] textEndingInTag .empty with
    | error stop =>
      rw [hwalk] at htag
      cases htag
    | ok p =>
      have hrefused := ((alternative_accepted_iff {} textEndingInTag [] ['p'] elseAttribute [] 2
        .empty).1 p.1 p.2 hwalk helse).2
      exact ⟨p.2, hrefused _ (by rw [hstanding]; rfl)⟩
  · exact (alternative_accepted_iff {} [] [] ['p'] ifAndElse [] 1 .empty).2 htwo

end Stencil.Template

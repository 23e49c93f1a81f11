import Stencil.Proofs.ErrorLines
import Stencil.Proofs.Remarks
import Stencil.Proofs.Verbatim
import Mathlib.Tactic.Common

namespace Stencil.Template

open Markup Outcome

section

variable {o : Options} {stop : Stop}

lemma Blames.ne_instruction {content : Text} {i : Nat} {cause : Cause}
    (h : Blames o content i cause) : cause ≠ .instructionNotAllowed := by
  induction h with
  | fault => exact fun h => by cases h
  | tag _ hrefuses => cases hrefuses <;> exact fun h => by cases h
  | later _ _ _ ih => exact ih

lemma instruction_of_stop (siblings : List Node) : ∀ {done : List Node} {t : Table Fragment},
    Resolve.nodes o done siblings t = .error stop → stop.error.cause = .instructionNotAllowed →
      ∃ content, .instruction content stop.error.line ∈ remarks siblings := by
  induction siblings using siblings_induction with
  | nil =>
    intro done t h
    rw [Resolve.nodes] at h
    cases h
  | cons node rest ihnode ihrest =>
    intro done t h hcause
    have hnode : (∃ content, .instruction content stop.error.line ∈ node.remarks) →
        ∃ content, .instruction content stop.error.line ∈ remarks (node :: rest) := by
      rintro ⟨content, hmem⟩
      exact ⟨content, List.mem_append_left _ hmem⟩
    rw [Resolve.nodes] at h
    rcases bind_error.mp h with h | ⟨next, u, -, h⟩
    · apply hnode
      cases node with
      | text content line =>
        rw [Resolve.node] at h
        obtain ⟨i, hblames, -, -⟩ := text_error h
        exact absurd hcause hblames.ne_instruction
      | instruction content line =>
        rw [Resolve.node] at h
        rw [fail_error h]
        exact ⟨content, List.mem_singleton_self _⟩
      | element name attributes children line =>
        rw [node_head] at h
        rcases bind_error.mp h with h | ⟨e, u, -, h⟩
        · have helement := Spares.head attributes done t stop h
          rw [hcause] at helement
          cases helement
        · cases hpre : e.pre with
          | true =>
            rw [hpre] at h
            cases h
          | false =>
            rw [hpre] at h
            rcases bind_error.mp h with h | ⟨inner, v, -, h⟩
            · exact ihnode h hcause
            · cases h
      | comment | doctype | placeholder | code =>
        rw [Resolve.node] at h
        cases h
    · obtain ⟨content, hmem⟩ := ihrest h hcause
      exact ⟨content, List.mem_append_right _ hmem⟩

end

lemma remarks_textNodes (content : Text) (line : Nat) : remarks (textNodes content line) = [] := by
  unfold textNodes
  split <;> rfl

lemma remarks_wrap (conditional : Option (Nat × PlaceholderKind)) (loop : Option Nat) (node : Node) :
    (Resolve.wrap conditional loop node).remarks = node.remarks := by
  have hloop : (Resolve.wrap none loop node).remarks = node.remarks := by
    cases loop with
    | none => rfl
    | some id => exact remarks_single node
  rw [wrap_eq]
  cases conditional with
  | none => exact hloop
  | some pair => exact (remarks_single _).trans hloop

lemma remarks_dropWhile (done : List Node) :
    remarks (done.dropWhile Node.isBlankText).reverse = remarks done.reverse := by
  induction done with
  | nil => rfl
  | cons node done ih =>
    by_cases hb : node.isBlankText = true
    · have hnone : node.remarks = [] := by
        cases node with
        | text => rfl
        | _ => cases hb
      rw [List.dropWhile_cons_of_pos hb, ih, List.reverse_cons, remarks_append, remarks_single, hnone,
        List.append_nil]
    · rw [List.dropWhile_cons_of_neg hb]

section

variable {o : Options}

lemma text_remarks {line : Nat} {content : Text} {done out : List Node} {t u : Table Fragment}
    (h : Resolve.text o line content done t = .ok (out, u)) :
    remarks out.reverse = remarks done.reverse := by
  replace h := text_splits h
  induction h with
  | plain =>
    rw [addText_eq, List.reverse_append, List.reverse_reverse, remarks_append, remarks_textNodes,
      List.append_nil]
  | tag _ _ _ ih =>
    rw [ih, List.reverse_cons, remarks_append, addText_eq, List.reverse_append, List.reverse_reverse,
      remarks_append, remarks_textNodes]
    exact (List.append_nil _).trans (List.append_nil _)

lemma opens_remarks {done kept : List Node} {branch : Branch} {t u : Table Fragment}
    {conditional : Option (Nat × PlaceholderKind)} (h : Opens o done t branch conditional kept u) :
    remarks kept.reverse = remarks done.reverse := by
  cases h with
  | plain | first => rfl
  | next | last => exact remarks_dropWhile done

lemma nodes_remarks (siblings : List Node) : ∀ {done out : List Node} {t u : Table Fragment},
    Resolve.nodes o done siblings t = .ok (out, u) →
      remarks out = remarks done.reverse ++ remarks siblings := by
  induction siblings using siblings_induction with
  | nil =>
    intro done out t u h
    rw [Resolve.nodes] at h
    obtain ⟨rfl, -⟩ := pure_ok.mp h
    exact (List.append_nil _).symm
  | cons node rest ihnode ihrest =>
    intro done out t u h
    rw [Resolve.nodes] at h
    obtain ⟨next, v, hnode, hrest⟩ := bind_ok.mp h
    suffices hnext : remarks next.reverse = remarks done.reverse ++ node.remarks by
      rw [ihrest hrest, hnext, List.append_assoc]
      rfl
    cases node with
    | instruction content line =>
      rw [Resolve.node] at hnode
      exact (fail_ok.mp hnode).elim
    | comment | doctype | placeholder | code =>
      rw [Resolve.node] at hnode
      obtain ⟨rfl, -⟩ := pure_ok.mp hnode
      rw [List.reverse_cons, remarks_append, remarks_single]
    | text content line =>
      rw [Resolve.node] at hnode
      exact (text_remarks hnode).trans (List.append_nil _).symm
    | element name attributes children line =>
      obtain ⟨_, _, _, _, _, _, _, inner, hopens, -, -, hinner, rfl⟩ := element_ok hnode
      have hchildren : remarks inner = remarks children := by
        split at hinner
        · rw [hinner.1]
        · exact ihnode hinner
      rw [List.reverse_cons, remarks_append, remarks_single, remarks_wrap, opens_remarks hopens]
      exact congrArg _ hchildren

end

lemma expand_remarks {table : Table Fragment} {nodes : List Node} : ∀ {out : List Node},
    expand? table nodes = some out → remarks out = remarks nodes := by
  induction nodes using siblings_induction with
  | nil =>
    intro out h
    cases h
    rfl
  | cons node rest ihnode ihrest =>
    intro out h
    simp only [expand?, Option.bind_eq_bind, Option.bind_eq_some_iff] at h
    obtain ⟨first, hfirst, others, hothers, hout⟩ := h
    cases hout
    rw [remarks_append, remarks, ihrest hothers]
    congr 1
    cases node with
    | element name attributes children line =>
      simp only [expandNode?, Option.bind_eq_bind, Option.bind_eq_some_iff] at hfirst
      obtain ⟨_, -, inner, hinner, hout⟩ := hfirst
      cases hout
      rw [remarks_single]
      exact ihnode hinner
    | placeholder id kind children =>
      simp only [expandNode?, Option.bind_eq_bind, Option.bind_eq_some_iff] at hfirst
      obtain ⟨code, -, inner, hinner, hout⟩ := hfirst
      cases hout
      have hclose : remarks (if kind.opensBlock then [.code Fragment.blockClose] else []) = [] := by
        split <;> rfl
      have hchildren : remarks inner = remarks children := ihnode hinner
      rw [remarks_append, hclose, List.append_nil]
      exact hchildren
    | text | comment | doctype | instruction | code =>
      cases hfirst
      exact remarks_single _

lemma merge_remarks (nodes : List Node) : remarks (merge nodes) = remarks nodes := by
  induction nodes using siblings_induction with
  | nil => rfl
  | cons node rest ihnode ihrest =>
    have hnode : (mergeNode node).remarks = node.remarks := by
      cases node with
      | element => exact ihnode
      | _ => rfl
    have hinto : ∀ first others, remarks (mergeInto first others) = first.remarks ++ remarks others := by
      intro first others
      unfold mergeInto
      split <;> rfl
    rw [merge, hinto, hnode, ihrest]
    rfl

mutual

def recommentNode (f : Text → Text) : Node → Node
  | .comment content line => .comment (f content) line
  | .element name attributes children line => .element name attributes (recomment f children) line
  | .placeholder id kind children => .placeholder id kind (recomment f children)
  | .text content line => .text content line
  | .doctype name => .doctype name
  | .instruction content line => .instruction content line
  | .code content => .code content

def recomment (f : Text → Text) : List Node → List Node
  | [] => []
  | node :: rest => recommentNode f node :: recomment f rest

end

section

variable {o : Options} (f : Text → Text)

lemma recomment_eq_map (nodes : List Node) : recomment f nodes = nodes.map (recommentNode f) := by
  induction nodes with
  | nil => rfl
  | cons node rest ih => rw [recomment, ih, List.map_cons]

lemma isBlankText_recomment (node : Node) : (recommentNode f node).isBlankText = node.isBlankText := by
  cases node <;> rfl

lemma dropWhile_recomment (done : List Node) :
    (recomment f done).dropWhile Node.isBlankText = recomment f (done.dropWhile Node.isBlankText) := by
  induction done with
  | nil => rfl
  | cons node done ih =>
    rw [recomment]
    by_cases hb : node.isBlankText = true
    · rw [List.dropWhile_cons_of_pos hb, List.dropWhile_cons_of_pos, ih]
      rw [isBlankText_recomment, hb]
    · rw [List.dropWhile_cons_of_neg hb, List.dropWhile_cons_of_neg, recomment]
      rw [isBlankText_recomment]
      exact hb

lemma text_recomment (line : Nat) (content : Text) (done : List Node) :
    Resolve.text o line content (recomment f done) =
      recomment f <$> Resolve.text o line content done := by
  have hadd : ∀ part line done, Resolve.addText part line (recomment f done) =
      recomment f (Resolve.addText part line done) := by
    intro part line done
    unfold Resolve.addText
    split <;> rfl
  induction content using scan_induction generalizing line done with
  | fault content fault hn =>
    rw [text_step, text_step, hn]
    rfl
  | plain content hn =>
    rw [text_step, text_step, hn]
    dsimp only
    rw [map_pure, hadd]
  | tag content tag hn ih =>
    rw [text_step, text_step, hn]
    dsimp only
    rw [map_bind]
    congr 1
    funext id
    rw [hadd]
    exact ih _ (.placeholder id .tag [] :: Resolve.addText tag.before line done)

def Resolve.Scope.recomment (s : Resolve.Scope) : Resolve.Scope :=
  { s with done := Template.recomment f s.done }

lemma chain_recomment (line : Nat) (name : Text) (taken : Option PlaceholderKind) (done : List Node) :
    Resolve.chain o line name taken (recomment f done) =
      recomment f <$> Resolve.chain o line name taken done := by
  have hreached : reached (recomment f done) = reached done := by
    rw [reached, reached, dropWhile_recomment]
    cases done.dropWhile Node.isBlankText with
    | nil => rfl
    | cons node rest => cases node <;> rfl
  cases taken with
  | some kind => rfl
  | none =>
    rw [chain_eq, chain_eq, hreached, dropWhile_recomment]
    cases (reached done).refusal? o.directives <;> rfl

lemma ifDirective_recomment (line : Nat) (s : Resolve.Scope) :
    Resolve.ifDirective o line (s.recomment f) =
      Resolve.Scope.recomment f <$> Resolve.ifDirective o line s := by
  obtain ⟨conditional, attributes, done⟩ := s
  simp only [Resolve.ifDirective, Resolve.Scope.recomment, takeAttribute_eq]
  cases valueOf? o.directives.ifName attributes with
  | none => rfl
  | some value =>
    dsimp only
    split
    · rfl
    · simp only [map_bind, map_pure]
      rfl

lemma elseIfDirective_recomment (line : Nat) (s : Resolve.Scope) :
    Resolve.elseIfDirective o line (s.recomment f) =
      Resolve.Scope.recomment f <$> Resolve.elseIfDirective o line s := by
  obtain ⟨conditional, attributes, done⟩ := s
  simp only [Resolve.elseIfDirective, Resolve.Scope.recomment, takeAttribute_eq]
  cases valueOf? o.directives.elseIfName attributes with
  | none => rfl
  | some value =>
    dsimp only
    split
    · rfl
    · simp only [map_bind, map_pure, chain_recomment, bind_map_left]
      rfl

lemma elseDirective_recomment (line : Nat) (s : Resolve.Scope) :
    Resolve.elseDirective o line (s.recomment f) =
      Resolve.Scope.recomment f <$> Resolve.elseDirective o line s := by
  obtain ⟨conditional, attributes, done⟩ := s
  simp only [Resolve.elseDirective, Resolve.Scope.recomment, takeAttribute_eq]
  cases valueOf? o.directives.elseName attributes with
  | none => rfl
  | some value =>
    dsimp only
    split
    · simp only [map_bind, map_pure, chain_recomment, bind_map_left]
      rfl
    · rfl

lemma head_recomment (line : Nat) (attributes : List Attribute) (done : List Node) :
    head o line attributes (recomment f done) =
      (fun h => { h with scope := h.scope.recomment f }) <$> head o line attributes done := by
  have hconditionals : conditionals o line attributes (recomment f done) =
      Resolve.Scope.recomment f <$> conditionals o line attributes done := by
    have hstart := ifDirective_recomment f line (o := o) ⟨none, attributes, done⟩
    simp only [conditionals, map_bind]
    rw [Resolve.Scope.recomment] at hstart
    rw [hstart, bind_map_left]
    congr 1
    funext s
    rw [elseIfDirective_recomment, bind_map_left]
    congr 1
    funext s
    exact elseDirective_recomment f line s
  simp only [head, hconditionals, bind_map_left, map_bind, map_pure]
  rfl

lemma wrap_recomment (conditional : Option (Nat × PlaceholderKind)) (loop : Option Nat)
    (node : Node) : recommentNode f (Resolve.wrap conditional loop node) =
      Resolve.wrap conditional loop (recommentNode f node) := by
  cases conditional <;> cases loop <;> rfl

lemma nodes_recomment (siblings : List Node) : ∀ done : List Node,
    Resolve.nodes o (recomment f done) (recomment f siblings) =
      recomment f <$> Resolve.nodes o done siblings := by
  induction siblings using siblings_induction with
  | nil =>
    intro done
    rw [recomment, Resolve.nodes, Resolve.nodes, map_pure, recomment_eq_map, recomment_eq_map,
      List.map_reverse]
  | cons node rest ihnode ihrest =>
    intro done
    have hnode : Resolve.node o (recomment f done) (recommentNode f node) =
        recomment f <$> Resolve.node o done node := by
      cases node with
      | text content line =>
        rw [recommentNode, Resolve.node, Resolve.node]
        exact text_recomment f line content done
      | element name attributes children line =>
        have hchildren : Resolve.nodes o [] (recomment f children) =
            recomment f <$> Resolve.nodes o [] children := ihnode []
        have hput : ∀ (h : Head) inner, recomment f
              (Resolve.wrap h.scope.conditional h.loop (.element name h.attributes inner line) ::
                h.scope.done) =
            Resolve.wrap h.scope.conditional h.loop
                (.element name h.attributes (recomment f inner) line) :: recomment f h.scope.done := by
          intro h inner
          rw [recomment, wrap_recomment, recommentNode]
        rw [recommentNode, node_head, node_head, head_recomment, bind_map_left, map_bind]
        congr 1
        funext h
        cases hpre : h.pre with
        | true =>
          simp only [if_true, pure_bind, map_pure, hput]
          rfl
        | false =>
          simp only [Bool.false_eq_true, if_false, hchildren, bind_map_left, map_bind, map_pure, hput]
          rfl
      | comment | doctype | instruction | placeholder | code => rfl
    rw [recomment, Resolve.nodes, Resolve.nodes, hnode, bind_map_left, map_bind]
    congr 1
    funext next
    exact ihrest next

end

/-- The pieces stand in a text one after another, with anything between them. -/
inductive InOrder : List Text → Text → Prop
  | nil (text : Text) : InOrder [] text
  | cons (gap piece : Text) {pieces : List Text} {rest : Text} : InOrder pieces rest →
      InOrder (piece :: pieces) (gap ++ (piece ++ rest))

namespace InOrder

variable {ps qs : List Text} {s t : Text}

lemma behind (h : InOrder ps t) (s : Text) : InOrder ps (s ++ t) := by
  cases h with
  | nil => exact .nil _
  | cons gap piece h =>
    rw [← List.append_assoc]
    exact .cons _ _ h

lemma append (h : InOrder ps s) (g : InOrder qs t) : InOrder (ps ++ qs) (s ++ t) := by
  induction h with
  | nil text => exact g.behind text
  | cons gap piece _ ih =>
    rw [List.append_assoc, List.append_assoc]
    exact .cons gap piece ih

lemma between (h : InOrder ps s) (before after : Text) : InOrder ps (before ++ s ++ after) := by
  have hboth := (h.behind before).append (.nil after)
  rwa [List.append_nil] at hboth

lemma single (piece : Text) : InOrder [piece] piece := by
  have hone : InOrder [piece] ([] ++ (piece ++ [])) := .cons [] piece (.nil [])
  rwa [List.nil_append, List.append_nil] at hone

end InOrder

lemma print_remarks (nodes : List Node) : ∀ {raw : Bool} {text : Text},
    Tidy (fun _ => True) raw nodes → Node.printAll? raw nodes = some text →
      InOrder ((remarks nodes).filterMap (Node.print? false)) text := by
  induction nodes using siblings_induction with
  | nil => exact fun _ _ => .nil _
  | cons node rest ihnode ihrest =>
    intro raw text ht h
    obtain ⟨hself, -, hlater⟩ := ht
    simp only [Node.printAll?, Option.bind_eq_bind, Option.bind_eq_some_iff] at h
    obtain ⟨first, hfirst, others, hothers, hout⟩ := h
    cases hout
    rw [remarks, List.filterMap_append]
    refine InOrder.append ?_ (ihrest hlater hothers)
    cases node with
    | element name attributes children line =>
      simp only [Node.print?, Option.bind_eq_bind, Option.bind_eq_some_iff] at hfirst
      obtain ⟨printed, -, hfirst⟩ := hfirst
      cases hv : isVoid name with
      | true =>
        obtain rfl : children = [] := hself.2.2.2 hv
        exact .nil _
      | false =>
        simp only [hv, Bool.false_eq_true, if_false, Option.bind_eq_some_iff] at hfirst
        obtain ⟨inner, hinner, hout⟩ := hfirst
        cases hout
        have hchildren : InOrder ((remarks children).filterMap (Node.print? false)) inner :=
          ihnode hself.2.2.1 hinner
        rw [List.append_assoc, List.append_assoc]
        exact hchildren.between _ _
    | comment | instruction =>
      cases hfirst
      exact .single _
    | placeholder => cases hfirst
    | text | doctype | code => exact .nil _

lemma asides_print (asides : List Aside) :
    (asides.map Aside.node).filterMap (Node.print? false) = asides.map Aside.printed := by
  rw [List.filterMap_map, ← List.filterMap_eq_map]
  congr 1
  funext a
  rw [Function.comp_apply, Function.comp_apply, Aside.node, Aside.printed]
  split <;> rfl

lemma output_remarks {o : Options} {source : Text} {tree : List Node} {table : Table Fragment}
    {out : Text} (h : resolve o (Markup.parse source) = .ok (tree, table))
    (hout : (emit? table tree).bind Markup.print? = some out) :
    InOrder ((asides source).map Aside.printed) out := by
  obtain ⟨emitted, hemit, hprint⟩ := Option.bind_eq_some_iff.mp hout
  obtain ⟨expanded, hexpand, rfl⟩ := Option.map_eq_some_iff.mp hemit
  have htidy : Tidy (fun _ => True) false tree :=
    nodes_tidy (fun _ _ _ _ => trivial) _ (parse_isWritten source) h (parse_tidy source false)
  have hremarks : remarks (merge expanded) = (asides source).map Aside.node := by
    rw [merge_remarks, expand_remarks hexpand, nodes_remarks _ h, ← (asides_spec source).1]
    rfl
  have hprinted := print_remarks _ (merge_tidy (expand_tidy hexpand htidy).1).1 hprint
  rwa [hremarks, asides_print] at hprinted

/-- The comments and instructions of a tree are the comments of its source. One is an instruction
exactly if the source opens there with one of four marks, of which one is that of a comment whose content
starts with a question mark; every other well-formed comment outside of hidden markup is a comment of the
tree. Resolving passes over comments, refuses nothing but instructions as instructions, and does not
depend on what comments say. In the output they stand in their order, as they were. -/
theorem comments_untouched (o : Options) (source : Text) :
    remarks (Markup.parse source) = (asides source).map Aside.node ∧
    (∀ a ∈ asides source, a.Within source) ∧
    (∀ lead content rest, InData source lead (written content ++ rest) →
      Lexer.isEnclosed content = true → ⟨lead, written content, content⟩ ∈ asides source) ∧
    (∀ before after content line done,
      Resolve.nodes o done (before ++ .comment content line :: after) =
        Resolve.nodes o done before >>= fun out =>
          Resolve.nodes o (.comment content line :: out.reverse) after) ∧
    (∀ stop, resolve o (Markup.parse source) = .error stop →
      stop.error.cause = .instructionNotAllowed →
      ∃ a ∈ asides source, a.isInstruction = true ∧ stop.error.line = a.line) ∧
    (∀ f, resolve o (recomment f (Markup.parse source)) =
      (fun resolved => (recomment f resolved.1, resolved.2)) <$> resolve o (Markup.parse source)) ∧
    ∀ out, compile? o source = .ok (some out) → InOrder ((asides source).map Aside.printed) out := by
  obtain ⟨hremarks, hwithin⟩ := asides_spec source
  refine ⟨hremarks, hwithin, fun lead content rest h hc => written_mem_asides h hc, ?_, ?_, ?_, ?_⟩
  · intro before after content line done
    rw [nodes_append]
    rfl
  · intro stop hstop hcause
    obtain ⟨content, hmem⟩ := instruction_of_stop _ hstop hcause
    rw [hremarks] at hmem
    obtain ⟨a, ha, hnode⟩ := List.mem_map.mp hmem
    refine ⟨a, ha, ?_⟩
    rw [Aside.node] at hnode
    split at hnode
    · rename_i hinstruction
      obtain ⟨-, hline⟩ := Node.instruction.inj hnode
      exact ⟨hinstruction, hline.symm⟩
    · cases hnode
  · intro f
    exact congrFun (nodes_recomment f (Markup.parse source) []) .empty
  · intro out hout
    cases hresolve : resolve (Compiler.ofOptions o).options (Markup.parse source) with
    | error stop =>
      rw [compile?, Compiler.parse_of_stopped hresolve] at hout
      cases hout
    | ok resolved =>
      rw [compile?, Compiler.parse_of_resolved hresolve] at hout
      exact output_remarks hresolve (Except.ok.inj hout)

def remarkedSource : Text :=
  "<p>".toList ++ written ['{', '{']

theorem comments_untouched_unclosed :
    InData remarkedSource "<p>".toList (written ['{', '{'] ++ []) ∧
      ⟨"<p>".toList, written ['{', '{'], ['{', '{']⟩ ∈ asides remarkedSource := by
  have hdata : InData remarkedSource "<p>".toList (written ['{', '{'] ++ []) := by
    refine ⟨[⟨"<p>".toList, some (.startTag ⟨['p'], [], false⟩ 0)⟩],
      [⟨written ['{', '{'], some (.comment ['{', '{'] 3)⟩], ?_, rfl, rfl, ?_⟩
    · with_unfolding_all rfl
    · rintro tag start ⟨⟩
      decide
  exact ⟨hdata, (comments_untouched ⟨[], true⟩ remarkedSource).2.2.1 _ _ _ hdata (by decide)⟩

theorem question_comment_refused :
    Lexer.isEnclosed ['?'] = true ∧
      remarks (Markup.parse (written ['?'])) = [.instruction ['?'] 1] ∧
      compile? ⟨[], true⟩ (written ['?']) = .error ⟨.instructionNotAllowed, 1⟩ :=
  ⟨by decide, by with_unfolding_all rfl, by with_unfolding_all rfl⟩

end Stencil.Template

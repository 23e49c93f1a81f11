import Stencil.Proofs.Bindings
import Mathlib.Data.List.TakeWhile
import Mathlib.Tactic.Common

/-!
The siblings before a link lose their blank text only when the link is met, so the invariant looks ahead:
it says what is kept of the siblings before, by what comes next.
-/

namespace Stencil.Template

open Markup Outcome

lemma tag_ok {o : Options} {line id : Nat} {tag : Tag} {t u : Table Fragment}
    (h : Resolve.tag o line tag t = .ok (id, u)) :
    ∃ e f, Expression.accept .tag (o.code tag.expression) = .ok e ∧
      Resolve.tagFragment? tag.modifier e = some f ∧ Registers o f t id u := by
  unfold Resolve.tag at h
  obtain ⟨e, t', he, hafter⟩ := bind_ok.mp h
  obtain ⟨ha, _, rfl⟩ := expression_ok he
  split at hafter
  · exact (fail_ok.mp hafter).elim
  · rename_i hempty
    cases hf : Resolve.tagFragment? tag.modifier e with
    | none =>
      rw [hf] at hafter
      exact (fail_ok.mp hafter).elim
    | some f =>
      rw [hf] at hafter
      exact ⟨e, f, ha, hf, .tag (by simpa using hempty) ha hf, register_ok.mp hafter⟩

lemma tagFragment_opensBlock {modifier : Modifier} {e : Expression} {f : Fragment}
    (h : Resolve.tagFragment? modifier e = some f) : (Command.fragment f).opensBlock = false := by
  unfold Resolve.tagFragment? at h
  split at h <;> cases h <;> rfl

lemma tagForms_lookup (modifier : Modifier) (e : Expression) :
    (tagForms.lookup (modifier, e.isStatement)).map (fun form => form e.source) =
      Resolve.tagFragment? modifier e := by
  unfold Resolve.tagFragment?
  cases modifier <;> cases e.isStatement <;> rfl

lemma tagCode?_eq {o : Options} {tag : Tag} {e : Expression}
    (h : Expression.accept .tag (o.code tag.expression) = .ok e) :
    tagCode? o tag = Resolve.tagFragment? tag.modifier e := by
  rw [tagCode?, h, ← tagForms_lookup, accept_source h]

lemma text_step (o : Options) (line : Nat) (content : Text) (done : List Node) :
    Resolve.text o line content done =
      match Tag.next? content with
      | .error fault => Resolve.fail (line + Text.lineBreaksBefore fault.position content) (.tag fault)
      | .ok none => pure (Resolve.addText content line done)
      | .ok (some tag) =>
        Resolve.tag o (line + Text.lineBreaks tag.before) tag >>= fun id =>
          Resolve.text o (line + Text.lineBreaks tag.before + Text.lineBreaks tag.source) tag.after
            (.placeholder id .tag [] :: Resolve.addText tag.before line done) := by
  rw [Resolve.text]
  split <;> rename_i hn <;> rw [hn]

@[elab_as_elim]
lemma scan_induction {motive : Text → Prop}
    (fault : ∀ content fault, Tag.next? content = .error fault → motive content)
    (plain : ∀ content, Tag.next? content = .ok none → motive content)
    (tag : ∀ content tag, Tag.next? content = .ok (some tag) → motive tag.after → motive content)
    (content : Text) : motive content := by
  induction hlength : content.length using Nat.strongRecOn generalizing content with
  | ind length ih =>
    rcases hn : Tag.next? content with f | found
    · exact fault content f hn
    · cases found with
      | none => exact plain content hn
      | some found =>
        have hlt := Tag.after_length hn
        rw [hlength] at hlt
        exact tag content found hn (ih _ hlt _ rfl)

inductive Splits (o : Options) :
    Nat → Text → List Node → Table Fragment → List Node → Table Fragment → Prop
  | plain {line : Nat} {content : Text} {done : List Node} {t : Table Fragment} :
      Tag.next? content = .ok none →
      Splits o line content done t (Resolve.addText content line done) t
  | tag {line id : Nat} {content : Text} {tag : Tag} {done out : List Node}
      {t t' u : Table Fragment} :
      Tag.next? content = .ok (some tag) →
      Resolve.tag o (line + Text.lineBreaks tag.before) tag t = .ok (id, t') →
      Splits o (line + Text.lineBreaks tag.before + Text.lineBreaks tag.source) tag.after
        (.placeholder id .tag [] :: Resolve.addText tag.before line done) t' out u →
      Splits o line content done t out u

lemma text_splits {o : Options} {line : Nat} {content : Text} {done out : List Node}
    {t u : Table Fragment} (h : Resolve.text o line content done t = .ok (out, u)) :
    Splits o line content done t out u := by
  induction content using scan_induction generalizing line done t with
  | fault content fault hn =>
    rw [text_step, hn] at h
    exact (fail_ok.mp h).elim
  | plain content hn =>
    rw [text_step, hn] at h
    obtain ⟨rfl, rfl⟩ := pure_ok.mp h
    exact .plain hn
  | tag content tag hn ih =>
    rw [text_step, hn] at h
    obtain ⟨id, t', htag, hafter⟩ := bind_ok.mp h
    exact .tag hn htag (ih hafter)

lemma opensPair_iff {text : Text} : Tag.opensPair text = true ↔ ['{', '{'] <+: text := by
  fun_cases Tag.opensPair text with
  | case1 rest => simp
  | case2 text hno =>
    simp only [Bool.false_eq_true, false_iff]
    rintro ⟨rest, rfl⟩
    exact hno rest rfl

lemma closesPair_iff {text : Text} : Tag.closesPair text = true ↔ ['}', '}'] <+: text := by
  fun_cases Tag.closesPair text with
  | case1 rest => simp
  | case2 text hno =>
    simp only [Bool.false_eq_true, false_iff]
    rintro ⟨rest, rfl⟩
    exact hno rest rfl

lemma span?_unpaired {content : Text} (position : Nat) (ho : ¬ ['{', '{'] <:+: content)
    (hc : ¬ ['}', '}'] <:+: content) : Tag.span? position content = .ok none := by
  induction content generalizing position with
  | nil => rfl
  | cons c cs ih =>
    rw [List.infix_cons_iff, not_or] at ho hc
    have hopen : ¬ Tag.opensPair (c :: cs) = true := fun h => ho.1 (opensPair_iff.mp h)
    have hclose : ¬ Tag.closesPair (c :: cs) = true := fun h => hc.1 (closesPair_iff.mp h)
    rw [Tag.span?, if_neg hclose, if_neg hopen, ih _ ho.2 hc.2]
    rfl

lemma next?_unpaired {content : Text} (ho : ¬ ['{', '{'] <:+: content)
    (hc : ¬ ['}', '}'] <:+: content) : Tag.next? content = .ok none := by
  rw [Tag.next?, span?_unpaired 0 ho hc]

lemma next?_blank {content : Text} (h : Text.isBlank content = true) :
    Tag.next? content = .ok none := by
  have hspace : ∀ c ∈ content, Text.isSpace c = true := List.all_eq_true.mp h
  apply next?_unpaired
  · intro hin
    exact absurd (hspace '{' (hin.subset (by simp))) (by decide)
  · intro hin
    exact absurd (hspace '}' (hin.subset (by simp))) (by decide)

def textNodes (content : Text) (line : Nat) : List Node :=
  if content.isEmpty then [] else [.text content line]

lemma addText_eq (content : Text) (line : Nat) (done : List Node) :
    Resolve.addText content line done = (textNodes content line).reverse ++ done := by
  unfold Resolve.addText textNodes
  split <;> rfl

section

variable {S : Type} (I : Interpretation S) {o : Options}

def NodesRealize (u : Table Fragment) (nodes : List Node) (b : Bool → Behaviour S) : Prop :=
  ∀ v raw, u.Extends v → ∃ ps, stream? v raw nodes = some ps ∧
    (v.Fits → Closed ps ∧ Realizes I ps (b raw))

variable {I}

lemma NodesRealize.mono {t u : Table Fragment} {nodes : List Node} {b : Bool → Behaviour S}
    (h : NodesRealize I t nodes b) (hu : t.Extends u) : NodesRealize I u nodes b :=
  fun v raw hv => h v raw (hu.trans hv)

lemma stream?_append {v : Table Fragment} {raw : Bool} {as bs : List Node}
    {ps qs : List (Chunk Command)} (ha : stream? v raw as = some ps) (hb : stream? v raw bs = some qs) :
    stream? v raw (as ++ bs) = some (ps ++ qs) := by
  induction as generalizing ps with
  | nil =>
    cases ha
    exact hb
  | cons a as ih =>
    simp only [stream?, Option.bind_eq_bind, Option.bind_eq_some_iff] at ha
    obtain ⟨first, hf, others, ho, hps⟩ := ha
    cases hps
    simp only [List.cons_append, stream?, hf, ih ho, Option.bind_eq_bind, Option.bind_some,
      List.append_assoc]
    rfl

lemma NodesRealize.append {u : Table Fragment} {as bs : List Node} {b c : Bool → Behaviour S}
    (ha : NodesRealize I u as b) (hb : NodesRealize I u bs c) :
    NodesRealize I u (as ++ bs) (fun raw => (b raw).andThen (c raw)) := by
  intro v raw hv
  obtain ⟨ps, hps, hp⟩ := ha v raw hv
  obtain ⟨qs, hqs, hq⟩ := hb v raw hv
  exact ⟨ps ++ qs, stream?_append hps hqs,
    fun hf => ⟨(hp hf).1.append (hq hf).1, (hp hf).2.append (hq hf).2⟩⟩

lemma stream?_single {v : Table Fragment} {raw : Bool} {node : Node} {ps : List (Chunk Command)}
    (h : nodeStream? v raw node = some ps) : stream? v raw [node] = some ps := by
  simp only [stream?, h, Option.bind_eq_bind, Option.bind_some, List.append_nil]
  rfl

lemma textNodes_realize (u : Table Fragment) (content : Text) (line : Nat) :
    NodesRealize I u (textNodes content line) (fun raw => .write (printedText raw content)) := by
  intro v raw hv
  unfold textNodes
  split
  · rename_i hempty
    have hnil : content = [] := by simpa using hempty
    subst hnil
    refine ⟨[], rfl, fun _ => ⟨Closed.nil, ?_⟩⟩
    have hprint : printedText raw [] = [] := by cases raw <;> rfl
    change Realizes I [] (Behaviour.write (printedText raw []))
    rw [hprint]
    exact Realizes.nil
  · exact ⟨_, stream?_single rfl, fun _ => ⟨Closed.literal _, Realizes.literal _⟩⟩

lemma tag_realizes {line id : Nat} {tag : Tag} {t u : Table Fragment}
    (h : Resolve.tag o line tag t = .ok (id, u)) :
    NodesRealize I u [.placeholder id .tag []] (fun _ => tagBehaviour I o tag) := by
  intro v raw hv
  obtain ⟨e, f, ha, hf, hr⟩ := tag_ok h
  obtain ⟨g, hg, hfit⟩ := hr.lookup hv
  refine ⟨[.code (.fragment g)], ?_, ?_⟩
  · apply stream?_single
    simp only [nodeStream?, stream?, hg, Option.bind_eq_bind, Option.bind_some]
    rfl
  · intro hfits
    rw [hfit hfits]
    have hb : tagBehaviour I o tag = I.perform f := by
      rw [tagBehaviour, tagCode?_eq ha, hf]
      rfl
    rw [hb]
    exact ⟨Closed.perform rfl (tagFragment_opensBlock hf),
      Realizes.perform rfl (tagFragment_opensBlock hf)⟩

lemma textBehaviour_step (raw : Bool) (content : Text) :
    textBehaviour I o raw content =
      match Tag.next? content with
      | .ok (some tag) => (Behaviour.write (printedText raw tag.before)).andThen
          ((tagBehaviour I o tag).andThen (textBehaviour I o raw tag.after))
      | _ => .write (printedText raw content) := by
  rw [textBehaviour]
  split
  · rename_i tag hn
    rw [hn]
  · rename_i hn
    split
    · rename_i tag hsome
      exact absurd hsome (hn tag)
    · rfl

def IsTextual : Node → Prop
  | .text _ _ | .placeholder _ .tag _ => True
  | _ => False

lemma textNodes_textual {content : Text} {line : Nat} {n : Node}
    (h : n ∈ textNodes content line) : IsTextual n := by
  unfold textNodes at h
  split at h
  · cases h
  · rw [List.mem_singleton.mp h]
    trivial

lemma text_realizes {line : Nat} {content : Text} {done out : List Node} {t u : Table Fragment}
    (h : Resolve.text o line content done t = .ok (out, u)) :
    Grows o t u ∧ ∃ new, out = new.reverse ++ done ∧
      NodesRealize I u new (fun raw => textBehaviour I o raw content) ∧ (∀ n ∈ new, IsTextual n) ∧
      (Text.isBlank content = false → ∃ n ∈ new, n.isBlankText = false) := by
  replace h := text_splits h
  induction h with
  | @plain line content _ _ hn =>
    refine ⟨Grows.refl _, textNodes content line, addText_eq _ _ _, ?_, ?_, ?_⟩
    · have hb : (fun raw => textBehaviour I o raw content) =
          fun raw => Behaviour.write (printedText raw content) := by
        funext raw
        rw [textBehaviour_step, hn]
      rw [hb]
      exact textNodes_realize _ _ _
    · exact fun n => textNodes_textual
    · intro hblank
      have hne : content.isEmpty = false := by
        cases content with
        | nil => cases hblank
        | cons c cs => rfl
      refine ⟨.text content line, ?_, hblank⟩
      simp [textNodes, hne]
  | @tag line id content tag _ _ _ _ _ hn htag _ ih =>
    obtain ⟨hgrows, new, rfl, hreal, htextual, _⟩ := ih
    obtain ⟨e, f, _, _, hreg⟩ := tag_ok htag
    refine ⟨hreg.grows.trans hgrows,
      textNodes tag.before line ++ (.placeholder id .tag [] :: new), ?_, ?_, ?_, ?_⟩
    · rw [addText_eq]
      simp
    · have hb : (fun raw => textBehaviour I o raw content) = fun raw =>
          (Behaviour.write (printedText raw tag.before)).andThen
            ((tagBehaviour I o tag).andThen (textBehaviour I o raw tag.after)) := by
        funext raw
        rw [textBehaviour_step, hn]
      rw [hb]
      exact (textNodes_realize _ _ _).append
        (((tag_realizes htag).mono hgrows.toExtends).append hreal)
    · intro n hmem
      rcases List.mem_append.mp hmem with hmem | hmem
      · exact textNodes_textual hmem
      · rcases List.mem_cons.mp hmem with rfl | hmem
        · trivial
        · exact htextual n hmem
    · intro _
      exact ⟨.placeholder id .tag [], by simp, rfl⟩

lemma literals_realize (texts : List Text) :
    Closed (texts.map Chunk.literal) ∧
      Realizes I (texts.map Chunk.literal) (Behaviour.write texts.flatten) := by
  induction texts with
  | nil => exact ⟨Closed.nil, Realizes.nil⟩
  | cons content rest ih =>
    exact ⟨(Closed.literal content).append ih.1, (Realizes.literal content).append ih.2⟩

lemma element_realizes {name : Text} {bound : List Attribute} {inner : List Node} {line : Nat}
    {u : Table Fragment} {attributes children : Behaviour S}
    (ha : ∀ v, u.Extends v → ∃ ps, attributesStream? v bound = some ps ∧
      (v.Fits → Closed ps ∧ Realizes I ps attributes))
    (hc : ∀ v, u.Extends v → ∃ ps, stream? v (isRawText name) inner = some ps ∧
      (v.Fits → Closed ps ∧ Realizes I ps children)) :
    NodesRealize I u [.element name bound inner line]
      (fun _ => elementBehaviour name attributes children) := by
  intro v raw hv
  obtain ⟨ps, hps, hp⟩ := ha v hv
  obtain ⟨qs, hqs, hq⟩ := hc v hv
  have hstart : v.Fits → Closed (.literal (startOpening name) :: ps ++ [.literal ['>']]) ∧
      Realizes I (.literal (startOpening name) :: ps ++ [.literal ['>']])
        ((Behaviour.write (startOpening name)).andThen (attributes.andThen (.write ['>']))) := by
    intro hf
    exact ⟨(Closed.literal _).append ((hp hf).1.append (Closed.literal _)),
      (Realizes.literal _).append ((hp hf).2.append (Realizes.literal _))⟩
  have hstream : nodeStream? v raw (.element name bound inner line) =
      some (if isVoid name then .literal (startOpening name) :: ps ++ [.literal ['>']]
        else .literal (startOpening name) :: ps ++ [.literal ['>']] ++ qs ++ [.literal (endTag name)]) := by
    simp only [nodeStream?, hps, hqs, Option.bind_eq_bind, Option.bind_some]
    rfl
  refine ⟨_, stream?_single hstream, ?_⟩
  intro hf
  unfold elementBehaviour
  split
  · exact hstart hf
  · rw [List.append_assoc]
    exact ⟨(hstart hf).1.append ((hq hf).1.append (Closed.literal _)),
      (hstart hf).2.append ((hq hf).2.append (Realizes.literal _))⟩

lemma loop_realizes {clause : Option Text} {loop : Option Nat} {t u w : Table Fragment} {node : Node}
    {element : Bool → Behaviour S} (hl : Loops o t clause loop u) (hw : u.Extends w)
    (hn : NodesRealize I w [node] element) :
    NodesRealize I w [Resolve.wrap none loop node]
      (fun raw => loopBehaviour I o clause (element raw)) := by
  cases hl with
  | none => exact hn
  | some hr =>
    rename_i raw' id
    intro v raw hv
    obtain ⟨g, hg, hfit⟩ := hr.lookup (hw.trans hv)
    obtain ⟨ps, hps, hp⟩ := hn v raw hv
    refine ⟨.code (.fragment g) :: ps ++ [.code .close], ?_, ?_⟩
    · apply stream?_single
      simp only [Resolve.wrap, nodeStream?, hg, hps, Option.bind_eq_bind, Option.bind_some]
      rfl
    · intro hf
      rw [hfit hf]
      exact ⟨Closed.block rfl (hp hf).1, Realizes.loop (hp hf).1 (hp hf).2 _⟩

lemma loops_grows {clause : Option Text} {loop : Option Nat} {t u : Table Fragment}
    (h : Loops o t clause loop u) : Grows o t u := by
  cases h with
  | none => exact Grows.refl _
  | some hr => exact hr.grows

def keptBefore (o : Options) (siblings done : List Node) : List Node :=
  if continues o siblings then done.dropWhile Node.isBlankText else done

variable (I o) in
structure Rendered (siblings done : List Node) (t : Table Fragment) (out : List Node)
    (u : Table Fragment) : Prop where
  grows : Grows o t u
  chained : continues o siblings = true → EndsInChain done
  renders : ∃ new, out = (keptBefore o siblings done).reverse ++ new ∧
    ∀ v raw, u.Extends v → ∃ ps, stream? v raw new = some ps ∧
      (v.Fits → Closed ps ∧ ∀ taken : Option Bool, (continues o siblings = true → taken.isSome = true) →
        Runs I taken ps (siblingsBehaviour I o raw taken siblings))

lemma continues_cons (node : Node) (rest : List Node) :
    continues o (node :: rest) = if node.isBlankText then continues o rest else isLink o node := by
  unfold continues
  cases h : node.isBlankText <;> simp [h]

lemma siblingsBehaviour_taken {siblings : List Node} (h : continues o siblings = false) (raw : Bool)
    (taken : Option Bool) :
    siblingsBehaviour I o raw taken siblings = siblingsBehaviour I o raw none siblings := by
  cases siblings with
  | nil => simp only [siblingsBehaviour]
  | cons node rest =>
    rw [continues_cons] at h
    simp only [siblingsBehaviour]
    by_cases hblank : node.isBlankText = true
    · rw [if_pos hblank] at h
      have hplain : branchOf o node = .plain := by
        cases node <;> first | rfl | cases hblank
      simp only [h, hplain, Bool.and_false]
      rfl
    · rw [if_neg hblank] at h
      unfold isLink at h
      simp only [Bool.not_eq_true] at hblank
      simp only [hblank, Bool.false_and]
      cases hb : branchOf o node with
      | plain => rfl
      | first condition => rfl
      | next condition => simp [hb] at h
      | last => simp [hb] at h

lemma Rendered.not_continues {siblings done out : List Node} {t u : Table Fragment}
    (h : Rendered I o siblings done t out u) (hdone : ¬ EndsInChain done) :
    continues o siblings = false := by
  rw [Bool.eq_false_iff]
  exact fun hcont => hdone (h.chained hcont)

lemma not_endsInChain_nil : ¬ EndsInChain [] := by
  rintro ⟨_, _, _, _, _, hd⟩
  cases hd

lemma Rendered.realizes {siblings done out : List Node} {t u : Table Fragment}
    (h : Rendered I o siblings done t out u) (hc : continues o siblings = false) :
    ∃ new, out = done.reverse ++ new ∧
      NodesRealize I u new (fun raw => siblingsBehaviour I o raw none siblings) := by
  obtain ⟨new, hout, hnew⟩ := h.renders
  simp only [keptBefore, hc] at hout
  refine ⟨new, hout, ?_⟩
  intro v raw hv
  obtain ⟨ps, hps, hp⟩ := hnew v raw hv
  refine ⟨ps, hps, fun hf => ⟨(hp hf).1, ?_⟩⟩
  intro taken
  have hr := (hp hf).2 taken (by simp [hc])
  rwa [siblingsBehaviour_taken hc raw taken] at hr

lemma Rendered.plain {node : Node} {rest done mid out : List Node} {t t' u : Table Fragment}
    (hbranch : branchOf o node = .plain) (hcont : continues o rest = false) (hg : Grows o t t')
    (hmid : NodesRealize I t' mid (fun raw => nodeBehaviour I o raw node))
    (h : Rendered I o rest (mid.reverse ++ done) t' out u) :
    Rendered I o (node :: rest) done t out u := by
  have hc : continues o (node :: rest) = false := by
    rw [continues_cons, hcont]
    split
    · rfl
    · simp [isLink, hbranch]
  refine ⟨hg.trans h.grows, by simp [hc], ?_⟩
  obtain ⟨new, rfl, hnew⟩ := h.realizes hcont
  refine ⟨mid ++ new, by simp [keptBefore, hc], ?_⟩
  intro v raw hv
  obtain ⟨ps, hps, hp⟩ := ((hmid.mono h.grows.toExtends).append hnew) v raw hv
  refine ⟨ps, hps, fun hf => ⟨(hp hf).1, ?_⟩⟩
  intro taken _
  have hb : siblingsBehaviour I o raw taken (node :: rest) =
      (nodeBehaviour I o raw node).andThen (siblingsBehaviour I o raw none rest) := by
    simp [siblingsBehaviour, hbranch, hcont]
  rw [hb]
  exact (hp hf).2 taken

lemma Rendered.blank {content : Text} {line : Nat} {rest done out : List Node} {t u : Table Fragment}
    (hblank : Text.isBlank content = true) (hcont : continues o rest = true)
    (h : Rendered I o rest (Resolve.addText content line done) t out u) :
    Rendered I o (.text content line :: rest) done t out u := by
  have hc : continues o (.text content line :: rest) = true := by
    rw [continues_cons, hcont]
    exact if_pos hblank
  have hdrop : (Resolve.addText content line done).dropWhile Node.isBlankText =
      done.dropWhile Node.isBlankText := by
    unfold Resolve.addText
    split
    · rfl
    · exact List.dropWhile_cons_of_pos hblank
  refine ⟨h.grows, ?_, ?_⟩
  · intro _
    obtain ⟨id, kind, children, before, hk, hd⟩ := h.chained hcont
    exact ⟨id, kind, children, before, hk, by rw [← hdrop, hd]⟩
  · obtain ⟨new, hout, hnew⟩ := h.renders
    refine ⟨new, ?_, ?_⟩
    · rw [hout, keptBefore, keptBefore, hcont, hc, if_pos rfl, if_pos rfl, hdrop]
    · intro v raw hv
      obtain ⟨ps, hps, hp⟩ := hnew v raw hv
      refine ⟨ps, hps, fun hf => ⟨(hp hf).1, ?_⟩⟩
      intro taken ht
      have hb : siblingsBehaviour I o raw taken (.text content line :: rest) =
          siblingsBehaviour I o raw taken rest := by
        simp [siblingsBehaviour, hcont, Node.isBlankText, hblank]
      rw [hb]
      exact (hp hf).2 taken fun _ => ht hc

lemma not_endsInChain_of_head {node : Node} {done : List Node} (hb : node.isBlankText = false)
    (hn : ∀ id kind children, node = .placeholder id kind children → kind.continuesChain = false) :
    ¬ EndsInChain (node :: done) := by
  rintro ⟨id, kind, children, before, hk, hd⟩
  rw [List.dropWhile_cons_of_neg (by simp [hb])] at hd
  cases hd
  rw [hn id kind children rfl] at hk
  cases hk

lemma not_endsInChain_of_textual {new done : List Node} (ht : ∀ n ∈ new, IsTextual n)
    (hn : ∃ n ∈ new, n.isBlankText = false) : ¬ EndsInChain (new.reverse ++ done) := by
  rintro ⟨id, kind, children, before, hk, hd⟩
  obtain ⟨n, hmem, hblank⟩ := hn
  have hne : new.reverse.dropWhile Node.isBlankText ≠ [] := by
    intro hnil
    have := List.dropWhile_eq_nil_iff.mp hnil n (List.mem_reverse.mpr hmem)
    rw [hblank] at this
    cases this
  obtain ⟨first, others, hfirst⟩ := List.exists_cons_of_ne_nil hne
  rw [List.dropWhile_append, hfirst] at hd
  simp only [List.isEmpty_cons] at hd
  cases hd
  have hin : Node.placeholder id kind children ∈ new := by
    rw [← List.mem_reverse]
    apply (List.dropWhile_sublist Node.isBlankText).mem
    rw [hfirst]
    exact List.mem_cons_self ..
  have := ht _ hin
  cases kind with
  | tag => cases hk
  | conditional => exact this
  | alternative => exact this
  | otherwise => exact this
  | loop => exact this

lemma keptBefore_placeholder (siblings done : List Node) (id : Nat) (kind : PlaceholderKind)
    (children : List Node) :
    keptBefore o siblings (.placeholder id kind children :: done) =
      .placeholder id kind children :: done := by
  unfold keptBefore
  split
  · exact List.dropWhile_cons_of_neg (by simp [Node.isBlankText])
  · rfl

lemma Rendered.branch {node inner : Node} {rest done out : List Node} {t t' t'' u : Table Fragment}
    {f : Fragment} {id : Nat} {kind : PlaceholderKind} (hr : Registers o f t id t')
    (hf : (Command.fragment f).opensBlock = true) (hk : kind.opensBlock = true) (hg : Grows o t' t'')
    (hchain : continues o (node :: rest) = true → EndsInChain done)
    (hinner : NodesRealize I t'' [inner] (fun raw => nodeBehaviour I o raw node))
    (hrun : ∀ (raw : Bool) (body ps : List (Chunk Command)), Closed body →
      Realizes I body (nodeBehaviour I o raw node) →
      (∀ taken : Option Bool, (continues o rest = true → taken.isSome = true) →
        Runs I taken ps (siblingsBehaviour I o raw taken rest)) →
      ∀ taken : Option Bool, (continues o (node :: rest) = true → taken.isSome = true) →
        Runs I taken (.code (.fragment f) :: body ++ .code .close :: ps)
          (siblingsBehaviour I o raw taken (node :: rest)))
    (h : Rendered I o rest
      (.placeholder id kind [inner] :: keptBefore o (node :: rest) done) t'' out u) :
    Rendered I o (node :: rest) done t out u := by
  refine ⟨hr.grows.trans (hg.trans h.grows), hchain, ?_⟩
  obtain ⟨new, hout, hnew⟩ := h.renders
  rw [keptBefore_placeholder] at hout
  refine ⟨.placeholder id kind [inner] :: new, by simp [hout], ?_⟩
  intro v raw hv
  have hv'' : t''.Extends v := h.grows.toExtends.trans hv
  obtain ⟨g, hid, hfit⟩ := hr.lookup (hg.toExtends.trans hv'')
  obtain ⟨body, hbody, hb⟩ := hinner v raw hv''
  obtain ⟨ps, hps, hp⟩ := hnew v raw hv
  refine ⟨.code (.fragment g) :: body ++ .code .close :: ps, ?_, ?_⟩
  · simp only [stream?, nodeStream?, hid, hps, hk, Option.bind_eq_bind, Option.bind_some] at hbody ⊢
    rw [hbody]
    simp
  · intro hfits
    rw [hfit hfits, List.append_cons]
    refine ⟨(Closed.block hf (hb hfits).1).append (hp hfits).1, ?_⟩
    intro taken ht
    rw [← List.append_cons]
    exact hrun raw body ps (hb hfits).1 (hb hfits).2 (hp hfits).2 taken ht

lemma wrap_eq (conditional : Option (Nat × PlaceholderKind)) (loop : Option Nat) (node : Node) :
    Resolve.wrap conditional loop node =
      Resolve.wrap conditional none (Resolve.wrap none loop node) := by
  cases loop <;> rfl

lemma wrap_none_not_chain {name : Text} {attributes : List Attribute} {children : List Node}
    {line : Nat} (loop : Option Nat) (done : List Node) :
    ¬ EndsInChain (Resolve.wrap none loop (.element name attributes children line) :: done) := by
  apply not_endsInChain_of_head
  · cases loop <;> rfl
  · intro id kind children h
    cases loop <;> cases h
    rfl

lemma siblingsBehaviour_visible {node : Node} (h : node.isBlankText = false) (raw : Bool)
    (taken : Option Bool) (rest : List Node) :
    siblingsBehaviour I o raw taken (node :: rest) =
      match branchOf o node, taken with
      | .plain, _ => (nodeBehaviour I o raw node).andThen (siblingsBehaviour I o raw none rest)
      | .first condition, _ | .next condition, some false =>
        .branch (I.condition condition) (nodeBehaviour I o raw node)
          (siblingsBehaviour I o raw (some true) rest) (siblingsBehaviour I o raw (some false) rest)
      | .next _, taken => siblingsBehaviour I o raw taken rest
      | .last, some false =>
        (nodeBehaviour I o raw node).andThen (siblingsBehaviour I o raw none rest)
      | .last, _ => siblingsBehaviour I o raw none rest := by
  simp only [siblingsBehaviour, h, Bool.false_and]
  rfl

lemma Rendered.element {node looped : Node} {rest done kept out : List Node}
    {t t' t'' u : Table Fragment} {conditional : Option (Nat × PlaceholderKind)}
    (hblank : node.isBlankText = false) (hlooped : ∀ done, ¬ EndsInChain (looped :: done))
    (hopens : Opens o done t (branchOf o node) conditional kept t') (hg : Grows o t' t'')
    (hinner : NodesRealize I t'' [looped] (fun raw => nodeBehaviour I o raw node))
    (h : Rendered I o rest (Resolve.wrap conditional none looped :: kept) t'' out u) :
    Rendered I o (node :: rest) done t out u := by
  have hc : continues o (node :: rest) = isLink o node := by
    rw [continues_cons, hblank]
    rfl
  generalize hbranch : branchOf o node = branch at hopens
  unfold isLink at hc
  rw [hbranch] at hc
  cases hopens with
  | plain =>
    exact Rendered.plain hbranch (h.not_continues (hlooped _)) hg hinner h
  | first hr =>
    have hkept : keptBefore o (node :: rest) done = done := by simp [keptBefore, hc]
    refine Rendered.branch hr rfl rfl hg (by simp [hc]) hinner ?_ (by rw [hkept]; exact h)
    intro raw body ps hclosed hbody hrest taken _
    rw [siblingsBehaviour_visible hblank, hbranch]
    exact Runs.first hclosed hbody (hrest _ fun _ => rfl) (hrest _ fun _ => rfl) _ _
  | next hchain hr =>
    have hkept : keptBefore o (node :: rest) done = done.dropWhile Node.isBlankText := by
      simp [keptBefore, hc]
    refine Rendered.branch hr rfl rfl hg (fun _ => hchain) hinner ?_ (by rw [hkept]; exact h)
    intro raw body ps hclosed hbody hrest taken ht
    rw [siblingsBehaviour_visible hblank, hbranch]
    match taken, ht hc with
    | some true, _ => exact Runs.next_taken hclosed (hrest _ fun _ => rfl) _
    | some false, _ => exact Runs.next hclosed hbody (hrest _ fun _ => rfl) (hrest _ fun _ => rfl) _
  | last hchain hr =>
    have hkept : keptBefore o (node :: rest) done = done.dropWhile Node.isBlankText := by
      simp [keptBefore, hc]
    have hcont : continues o rest = false := by
      refine h.not_continues (not_endsInChain_of_head rfl ?_)
      rintro id kind children ⟨⟩
      rfl
    refine Rendered.branch hr rfl rfl hg (fun _ => hchain) hinner ?_ (by rw [hkept]; exact h)
    intro raw body ps hclosed hbody hrest taken ht
    have hnone : Runs I none ps (siblingsBehaviour I o raw none rest) := hrest _ (by simp [hcont])
    rw [siblingsBehaviour_visible hblank, hbranch]
    match taken, ht hc with
    | some true, _ => exact Runs.last_taken hclosed hnone
    | some false, _ => exact Runs.last hclosed hbody hnone

lemma element_node_realizes {name : Text} {attributes bound : List Attribute}
    {children inner : List Node} {line : Nat} {t t' t'' u : Table Fragment} {loop : Option Nat}
    (hwritten : Node.isWritten (.element name attributes children line) = true)
    (hloops : Loops o t (valueOf? o.directives.forName attributes) loop t')
    (hbound : Resolve.bindAttributes o line [] (o.directives.others attributes) t' = .ok (bound, t''))
    (hg : Grows o t'' u)
    (hc : ∀ v, u.Extends v → ∃ ps, stream? v (isRawText name) inner = some ps ∧
      (v.Fits → Closed ps ∧ Realizes I ps
        (if (valueOf? o.directives.preName attributes).isSome then
          Behaviour.write ((Node.printAll? (isRawText name) children).getD [])
        else siblingsBehaviour I o (isRawText name) none children))) :
    NodesRealize I u [Resolve.wrap none loop (.element name bound inner line)]
      (fun raw => nodeBehaviour I o raw (.element name attributes children line)) := by
  simp only [Node.isWritten, Bool.and_eq_true, List.all_eq_true] at hwritten
  have ha : ∀ v, u.Extends v → ∃ ps, attributesStream? v bound = some ps ∧ (v.Fits → Closed ps ∧
      Realizes I ps (attributesBehaviour I o (o.directives.others attributes))) := by
    intro v hv
    refine bound_realizes hbound (hg.toExtends.trans hv) ?_
    intro a hmem
    exact hwritten.1 a (mem_of_mem_others hmem)
  simp only [nodeBehaviour]
  exact loop_realizes hloops ((bindAttributes_grows hbound).trans hg).toExtends
    (element_realizes ha hc)

lemma Rendered.verbatim {node : Node} {content : Text} {rest done out : List Node}
    {t u : Table Fragment} (hbranch : branchOf o node = .plain)
    (hchain : ∀ done, ¬ EndsInChain (node :: done))
    (hstream : ∀ v raw, nodeStream? v raw node = some [.literal content])
    (hb : ∀ raw, nodeBehaviour I o raw node = Behaviour.write content)
    (h : Rendered I o rest (node :: done) t out u) : Rendered I o (node :: rest) done t out u := by
  have hnode : NodesRealize I t [node] (fun raw => nodeBehaviour I o raw node) := by
    intro v raw _
    refine ⟨_, stream?_single (hstream v raw), fun _ => ⟨Closed.literal _, ?_⟩⟩
    simp only [hb]
    exact Realizes.literal _
  exact Rendered.plain hbranch (h.not_continues (hchain _)) (Grows.refl _) hnode h

lemma nodes_rendered (siblings : List Node) : areWritten siblings = true →
    ∀ {done out : List Node} {t u : Table Fragment},
      Resolve.nodes o done siblings t = .ok (out, u) → Rendered I o siblings done t out u := by
  induction siblings using siblings_induction with
  | nil =>
    intro _ done out t u h
    rw [Resolve.nodes] at h
    obtain ⟨rfl, rfl⟩ := pure_ok.mp h
    refine ⟨Grows.refl _, by simp [continues], [], by simp [keptBefore, continues], ?_⟩
    intro v raw _
    refine ⟨[], rfl, fun _ => ⟨Closed.nil, ?_⟩⟩
    intro taken _
    simp only [siblingsBehaviour]
    exact Realizes.nil taken
  | cons node rest ihc ih =>
    intro hwritten done out t u h
    simp only [areWritten, Bool.and_eq_true] at hwritten
    rw [Resolve.nodes] at h
    obtain ⟨after, t', hnode, hrest⟩ := bind_ok.mp h
    have hr := ih hwritten.2 hrest
    cases node with
    | instruction content line =>
      rw [Resolve.node] at hnode
      exact (fail_ok.mp hnode).elim
    | comment content line | doctype name =>
      rw [Resolve.node] at hnode
      obtain ⟨rfl, rfl⟩ := pure_ok.mp hnode
      refine Rendered.verbatim rfl (fun _ => not_endsInChain_of_head rfl ?_) (fun _ _ => rfl)
        (fun _ => by simp [nodeBehaviour, Node.print?]) hr
      rintro _ _ _ ⟨⟩
    | placeholder id kind children => cases hwritten.1
    | code content => cases hwritten.1
    | text content line =>
      rw [Resolve.node] at hnode
      obtain ⟨hg, mid, rfl, hmid, htextual, hvisible⟩ := text_realizes (I := I) hnode
      have hplain : continues o rest = false →
          Rendered I o (.text content line :: rest) done t out u := fun hcont =>
        Rendered.plain rfl hcont hg (by simpa only [nodeBehaviour]) hr
      cases hblank : Text.isBlank content with
      | false =>
        exact hplain (hr.not_continues (not_endsInChain_of_textual htextual (hvisible hblank)))
      | true =>
        cases hcont : continues o rest with
        | false => exact hplain hcont
        | true =>
          -- The link after it has dropped this text from the siblings before.
          rw [text_step, next?_blank hblank] at hnode
          obtain ⟨hafter, rfl⟩ := pure_ok.mp hnode
          rw [← hafter] at hr
          exact Rendered.blank hblank hcont hr
    | element name attributes children line =>
      obtain ⟨conditional, kept, t₁, loop, t₂, bound, t₃, inner, hopens, hloops, hbound, hinner, rfl⟩ :=
        element_ok hnode
      have hw := hwritten.1
      rw [wrap_eq] at hr
      have hlooped : ∀ done, ¬ EndsInChain
          (Resolve.wrap none loop (.element name bound inner line) :: done) := fun done =>
        wrap_none_not_chain loop done
      by_cases hpre : (valueOf? o.directives.preName attributes).isSome = true
      · rw [if_pos hpre] at hinner
        obtain ⟨rfl, rfl⟩ := hinner
        refine Rendered.element rfl hlooped hopens
          ((loops_grows hloops).trans (bindAttributes_grows hbound)) ?_ hr
        apply element_node_realizes hw hloops hbound (Grows.refl _)
        intro v hv
        simp only [Node.isWritten, Bool.and_eq_true] at hw
        obtain ⟨texts, hs, hp⟩ := written_stream v inner (isRawText name) hw.2
        rw [if_pos hpre, hp]
        exact ⟨_, hs, fun _ => literals_realize texts⟩
      · rw [if_neg hpre] at hinner
        simp only [Node.isWritten, Bool.and_eq_true] at hw
        have hchildren : Rendered I o children [] t₃ inner t' := ihc hw.2 hinner
        obtain ⟨new, rfl, hnew⟩ := hchildren.realizes (hchildren.not_continues not_endsInChain_nil)
        refine Rendered.element rfl hlooped hopens
          ((loops_grows hloops).trans ((bindAttributes_grows hbound).trans hchildren.grows)) ?_ hr
        apply element_node_realizes hwritten.1 hloops hbound hchildren.grows
        intro v hv
        rw [if_neg hpre]
        exact hnew v (isRawText name) hv

end

lemma resolve_realizes {S : Type} (I : Interpretation S) {o : Options} {document tree : List Node}
    {table : Table Fragment} (hw : areWritten document = true)
    (h : resolve o document = .ok (tree, table)) :
    Grows o .empty table ∧ ∃ ps, stream? table false tree = some ps ∧
      (table.Fits → Realizes I ps (meaning I o document)) := by
  have hr : Rendered I o document [] .empty tree table := nodes_rendered document hw h
  obtain ⟨new, rfl, hnew⟩ := hr.realizes (hr.not_continues not_endsInChain_nil)
  obtain ⟨ps, hps, hp⟩ := hnew table false (List.prefix_refl _)
  exact ⟨hr.grows, ps, hps, fun hf => (hp hf).2⟩

/-- Compilation preserves meaning. The chunks of the expanded tree are those of a stream of commands,
the tree prints as its chunks, and running the stream writes what the document means, for every
interpretation of its code. Past `lastId` entries share one number, so the table has to fit. -/
theorem run_expanded_eq_meaning {S : Type} (I : Interpretation S) (o : Options)
    {document tree : List Node} {table : Table Fragment} (hw : areWritten document = true)
    (h : resolve o document = .ok (tree, table)) (hfits : table.Fits) (s : S) :
    ∃ nodes ps, expand? table tree = some nodes ∧
      Markup.print? nodes = some ((chunks false nodes).flatMap Chunk.print) ∧
      stream? table false tree = some ps ∧ chunks false nodes = ps.map (Chunk.map Command.text) ∧
      run? I none ps s = some (meaning I o document s) := by
  obtain ⟨_, ps, hps, hp⟩ := resolve_realizes I hw h
  obtain ⟨nodes, hnodes, hprintable, hchunks⟩ := expand_chunks hps
  exact ⟨nodes, ps, hnodes, printAll_chunks nodes false hprintable, hps, hchunks,
    (hp hfits none).alone s⟩

def sampleInterpretation : Interpretation Bool :=
  ⟨fun _ s => (s, s), fun _ _ => [id, id], fun _ s => (['v'], s)⟩

def sampleDocument : List Node := [
  .element "p".toList [⟨"if".toList, .text "$a".toList⟩, ⟨"for".toList, .text "$b as $c".toList⟩,
    ⟨":id".toList, .text "$c".toList⟩] [.text "\x7b\x7b $c \x7d\x7d".toList 1] 1,
  .text " ".toList 1,
  .element "p".toList [⟨"else".toList, .text []⟩] [.text "no".toList 1] 1]

theorem run_expanded_sample : ∃ tree table,
    resolve {} sampleDocument = .ok (tree, table) ∧ table.Fits ∧
      ∃ nodes ps, expand? table tree = some nodes ∧
        Markup.print? nodes = some ((chunks false nodes).flatMap Chunk.print) ∧
        stream? table false tree = some ps ∧
        chunks false nodes = ps.map (Chunk.map Command.text) ∧
        run? sampleInterpretation none ps true =
          some ("<p id=\"v\">v</p><p id=\"v\">v</p>".toList, true) := by
  have hresolve : (match resolve {} sampleDocument with
      | .ok (_, table) => decide (table.size ≤ Table.lastId + 1)
      | .error _ => false) = true := by decide +kernel
  have hmeaning : meaning sampleInterpretation {} sampleDocument true =
      ("<p id=\"v\">v</p><p id=\"v\">v</p>".toList, true) := by decide +kernel
  cases h : resolve {} sampleDocument with
  | error e => simp [h] at hresolve
  | ok result =>
    obtain ⟨tree, table⟩ := result
    simp only [h, decide_eq_true_eq] at hresolve
    rw [← hmeaning]
    exact ⟨tree, table, rfl, hresolve,
      run_expanded_eq_meaning sampleInterpretation {} (by decide) h hresolve true⟩

end Stencil.Template

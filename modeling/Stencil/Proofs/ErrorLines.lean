import Stencil.Proofs.Alternatives
import Stencil.Proofs.Delimiters
import Stencil.Proofs.Passages
import Stencil.Template.Compiler
import Mathlib.Tactic.Common

/-! The lines of errors in text, and of the same places in the source. -/

namespace Stencil.Template

open Markup Outcome

namespace Tag

def startsPair (text : Text) : Bool :=
  opensPair text || closesPair text

def PairAt (text : Text) (offset position : Nat) : Prop :=
  ∃ i, position = offset + Text.byteSize (text.take i) ∧ startsPair (text.drop i) = true

lemma PairAt.here {text : Text} (offset : Nat) (h : startsPair text = true) :
    PairAt text offset offset :=
  ⟨0, rfl, h⟩

lemma PairAt.cons {cs : Text} {c : Char} {offset position : Nat}
    (h : PairAt cs (offset + c.utf8Size) position) : PairAt (c :: cs) offset position := by
  obtain ⟨i, hposition, hpair⟩ := h
  refine ⟨i + 1, ?_, hpair⟩
  rw [List.take_succ_cons, Text.byteSize_cons, hposition, Nat.add_assoc]

lemma closingWidth_error {opened pairs position : Nat} {cs : Text} {fault : TagFault}
    (h : closingWidth opened pairs position cs = .error fault) :
    fault.position = opened ∨ PairAt cs position fault.position := by
  induction cs generalizing pairs position with
  | nil =>
    cases h
    exact .inl rfl
  | cons c cs ih =>
    have hrest {pairs : Nat} (h : closingWidth opened pairs (position + c.utf8Size) cs = .error fault) :
        fault.position = opened ∨ PairAt (c :: cs) position fault.position :=
      (ih h).imp_right PairAt.cons
    rw [closingWidth] at h
    split at h
    · rename_i hopens
      cases h
      exact .inr (.here position (by rw [startsPair, hopens, Bool.true_or]))
    · split at h
      · split at h
        · cases h
        · exact hrest (map_error.mp h)
      · exact hrest (map_error.mp h)

lemma width_error {opened : Nat} {text : Text} {fault : TagFault} (ho : opensPair text = true)
    (h : width opened text = .error fault) : PairAt text opened fault.position := by
  have hhere : PairAt text opened opened := .here opened (by rw [startsPair, ho, Bool.true_or])
  obtain ⟨rest, rfl⟩ := opensPair_iff.mp ho
  change width opened ('{' :: '{' :: rest) = .error fault at h
  rw [width] at h
  split at h
  · rcases closingWidth_error (map_error.mp h) with heq | hpair
    · exact heq.symm ▸ hhere
    · exact PairAt.cons (PairAt.cons hpair)
  · rcases closingWidth_error (map_error.mp h) with heq | hpair
    · exact heq.symm ▸ hhere
    · exact PairAt.cons hpair

lemma span?_error {position : Nat} {text : Text} {fault : TagFault}
    (h : span? position text = .error fault) : PairAt text position fault.position := by
  induction text generalizing position with
  | nil => cases h
  | cons c cs ih =>
    rw [span?] at h
    split at h
    · rename_i hcloses
      cases h
      exact .here position (by rw [startsPair, hcloses, Bool.or_true])
    · split at h
      · rename_i hopens
        exact width_error hopens (map_error.mp h)
      · exact (ih (map_error.mp h)).cons

lemma Cut.opens {source : Text} (h : Cut source) : ['{', '{'] <+: source := by
  cases h <;> exact ⟨_, rfl⟩

lemma span?_opens {position before w : Nat} {text : Text}
    (h : span? position text = .ok (some (before, w))) : opensPair (text.drop before) = true :=
  opensPair_iff.mpr ((span?_cut h).opens.trans (List.take_prefix _ _))

lemma next?_fault {text : Text} {fault : TagFault} (h : next? text = .error fault) :
    PairAt text 0 fault.position := by
  have hscanned := next?_scanned text
  rw [h] at hscanned
  cases hscanned with
  | fault hs => exact span?_error hs
  | split hs =>
    refine ⟨_, (Nat.zero_add _).symm, ?_⟩
    rw [startsPair, span?_opens hs, Bool.true_or]

lemma next?_startsPair {text : Text} {tag : Tag} (h : next? text = .ok (some tag)) :
    startsPair (text.drop tag.before.length) = true := by
  obtain ⟨start, length, hs, hbefore, -, -⟩ := next?_some h
  rw [hbefore, Lexer.drop_length_take, startsPair, span?_opens hs, Bool.true_or]

end Tag

inductive Refuses (o : Options) (tag : Tag) : Cause → Prop
  | inadmissible {refusal : Expression.Refusal} :
      Expression.accept .tag (o.code tag.expression) = .error refusal →
      Refuses o tag (.refused (o.code tag.expression) refusal)
  | empty {e : Expression} : Expression.accept .tag (o.code tag.expression) = .ok e →
      e.isEmpty = true → Refuses o tag .emptyTag
  | mismatch {e : Expression} : Expression.accept .tag (o.code tag.expression) = .ok e →
      e.isEmpty = false → Resolve.tagFragment? tag.modifier e = none →
      Refuses o tag (.modifierMismatch e.source tag.modifier)

/-- The character of a text at which its first error stands: where a pair of braces has no
counterpart, or where a tag opens that is refused. -/
inductive Blames (o : Options) : Text → Nat → Cause → Prop
  | fault {content : Text} {fault : TagFault} {i : Nat} : Tag.next? content = .error fault →
      Text.byteSize (content.take i) = fault.position → Tag.startsPair (content.drop i) = true →
      Blames o content i (.tag fault)
  | tag {content : Text} {tag : Tag} {cause : Cause} : Tag.next? content = .ok (some tag) →
      Refuses o tag cause → Blames o content tag.before.length cause
  | later {content : Text} {tag : Tag} {cause : Cause} {i : Nat} :
      Tag.next? content = .ok (some tag) → (∀ cause, ¬Refuses o tag cause) →
      Blames o tag.after i cause → Blames o content (tag.before.length + tag.source.length + i) cause

section

variable {o : Options} {line : Nat} {t : Table Fragment} {stop : Stop}

lemma fail_error {α : Type} {cause : Cause} (h : (Resolve.fail line cause : Resolve α) t = .error stop) :
    stop = ⟨⟨cause, line⟩, t⟩ := by
  cases h
  rfl

lemma expression_error {site : Site} {raw : Text}
    (h : Resolve.expression o site line raw t = .error stop) :
    ∃ refusal, Expression.accept site (o.code raw) = .error refusal ∧
      stop.error = ⟨.refused (o.code raw) refusal, line⟩ := by
  unfold Resolve.expression at h
  cases ha : Expression.accept site (o.code raw) with
  | error refusal =>
    unfold Options.code at ha ⊢
    rw [ha] at h
    exact ⟨refusal, rfl, by rw [fail_error h]⟩
  | ok e =>
    unfold Options.code at ha
    rw [ha] at h
    cases h

lemma tag_error {tag : Tag} (h : Resolve.tag o line tag t = .error stop) :
    stop.error.line = line ∧ Refuses o tag stop.error.cause := by
  unfold Resolve.tag at h
  rcases bind_error.mp h with h | ⟨e, u, he, h⟩
  · obtain ⟨refusal, ha, hstop⟩ := expression_error h
    rw [hstop]
    exact ⟨rfl, .inadmissible ha⟩
  · obtain ⟨ha, -, -⟩ := expression_ok he
    split at h
    · rename_i hempty
      rw [fail_error h]
      exact ⟨rfl, .empty ha hempty⟩
    · rename_i hempty
      cases hfragment : Resolve.tagFragment? tag.modifier e with
      | some f =>
        rw [hfragment] at h
        cases h
      | none =>
        rw [hfragment] at h
        rw [fail_error h]
        exact ⟨rfl, .mismatch ha (by simpa using hempty) hfragment⟩

lemma tag_accepted {tag : Tag} {id : Nat} {u : Table Fragment}
    (h : Resolve.tag o line tag t = .ok (id, u)) : ∀ cause, ¬Refuses o tag cause := by
  unfold Resolve.tag at h
  obtain ⟨e, u', he, h⟩ := bind_ok.mp h
  obtain ⟨ha, -, -⟩ := expression_ok he
  intro cause hrefuses
  cases hrefuses with
  | inadmissible ha' => cases ha.symm.trans ha'
  | empty ha' hempty =>
    cases ha.symm.trans ha'
    rw [if_pos hempty] at h
    exact fail_ok.mp h
  | mismatch ha' hempty hfragment =>
    cases ha.symm.trans ha'
    rw [if_neg (by simp [hempty]), hfragment] at h
    exact fail_ok.mp h

lemma text_error {content : Text} {done : List Node}
    (h : Resolve.text o line content done t = .error stop) :
    ∃ i, Blames o content i stop.error.cause ∧ Tag.startsPair (content.drop i) = true ∧
      stop.error.line = line + Text.lineBreaks (content.take i) := by
  induction content using scan_induction generalizing line done t with
  | fault content fault hn =>
    rw [text_step, hn] at h
    obtain ⟨i, hposition, hpair⟩ := Tag.next?_fault hn
    rw [Nat.zero_add] at hposition
    have hbreaks : Text.lineBreaksBefore fault.position content = Text.lineBreaks (content.take i) := by
      rw [hposition]
      have := Text.lineBreaksBefore_append (content.take i) (content.drop i)
      rwa [List.take_append_drop] at this
    rw [fail_error h, hbreaks]
    exact ⟨i, .fault hn hposition.symm hpair, hpair, rfl⟩
  | plain content hn =>
    rw [text_step, hn] at h
    cases h
  | tag content tag hn ih =>
    rw [text_step, hn] at h
    have hsplit := Tag.next?_whole hn
    rcases bind_error.mp h with h | ⟨id, u, hid, h⟩
    · obtain ⟨hline, hrefuses⟩ := tag_error h
      refine ⟨tag.before.length, .tag hn hrefuses, Tag.next?_startsPair hn, ?_⟩
      rw [hline, hsplit, List.append_assoc, List.take_left]
    · obtain ⟨i, hblames, hpair, hline⟩ := ih h
      refine ⟨_, .later hn (tag_accepted hid) hblames, ?_, ?_⟩
      · rw [hsplit, ← List.length_append, List.drop_length_add_append]
        exact hpair
      · rw [hline, hsplit, ← List.length_append, List.take_length_add_append,
          Text.lineBreaks_append, Text.lineBreaks_append]
        omega

def Cause.isAboutTag : Cause → Bool
  | .tag _ | .emptyTag | .modifierMismatch _ _ => true
  | _ => false

/-- Resolving siblings after those in `done` stops in text number `k` of the siblings. -/
inductive StopsIn (o : Options) :
    (k : Nat) → (done siblings : List Node) → Table Fragment → Stop → Prop
  | text {content : Text} {line : Nat} {done rest : List Node} {t : Table Fragment} {stop : Stop} :
      Resolve.text o line content done t = .error stop →
      StopsIn o 0 done (.text content line :: rest) t stop
  | inside {k line : Nat} {name : Text} {attributes : List Attribute} {children done rest : List Node}
      {t u : Table Fragment} {h : Head} {stop : Stop} :
      head o line attributes done t = .ok (h, u) → h.pre = false → StopsIn o k [] children u stop →
      StopsIn o k done (.element name attributes children line :: rest) t stop
  | later {k : Nat} {first : Node} {rest done next : List Node} {t u : Table Fragment} {stop : Stop} :
      Resolve.node o done first t = .ok (next, u) → StopsIn o k next rest u stop →
      StopsIn o (first.texts.length + k) done (first :: rest) t stop

lemma node_inside {attributes : List Attribute} {children done : List Node} {u : Table Fragment}
    {h : Head} (hhead : head o line attributes done t = .ok (h, u)) (hpre : h.pre = false)
    (hinner : Resolve.nodes o [] children u = .error stop) (name : Text) :
    Resolve.node o done (.element name attributes children line) t = .error stop := by
  rw [node_head, bind_of_ok hhead, hpre]
  exact bind_error.mpr (.inl hinner)

lemma StopsIn.stops {k : Nat} {done siblings : List Node} (h : StopsIn o k done siblings t stop) :
    Resolve.nodes o done siblings t = .error stop ∧
      ∃ content line done' t', (texts siblings)[k]? = some (content, line) ∧
        Resolve.text o line content done' t' = .error stop := by
  induction h with
  | text hstop =>
    refine ⟨?_, _, _, _, _, rfl, hstop⟩
    rw [Resolve.nodes, Resolve.node]
    exact bind_error.mpr (.inl hstop)
  | @inside k line name attributes children done rest t u h stop hhead hpre hstops ih =>
    obtain ⟨hinner, content, line', done', t', hcontent, htext⟩ := ih
    refine ⟨?_, content, line', done', t', ?_, htext⟩
    · rw [Resolve.nodes]
      exact bind_error.mpr (.inl (node_inside hhead hpre hinner name))
    · obtain ⟨hlt, -⟩ := List.getElem?_eq_some_iff.mp hcontent
      rw [texts, Node.texts, List.getElem?_append_left hlt, hcontent]
  | @later k first rest done next t u stop hnode hstops ih =>
    obtain ⟨hrest, content, line, done', t', hcontent, htext⟩ := ih
    refine ⟨?_, content, line, done', t', ?_, htext⟩
    · rw [Resolve.nodes]
      exact bind_error.mpr (.inr ⟨next, u, hnode, hrest⟩)
    · rw [texts, List.getElem?_append_right (Nat.le_add_right _ _), Nat.add_sub_cancel_left, hcontent]

def Cause.isAboutElement : Cause → Bool
  | .tag _ | .emptyTag | .modifierMismatch _ _ | .instructionNotAllowed => false
  | _ => true

lemma Cause.not_isAboutTag {cause : Cause} (h : cause.isAboutElement = true) :
    cause.isAboutTag = false := by
  cases cause <;> first | rfl | cases h

def Spares {α : Type} (m : Resolve α) : Prop :=
  ∀ t stop, m t = .error stop → stop.error.cause.isAboutElement = true

namespace Spares

variable {α β : Type}

lemma pure (a : α) : Spares (Pure.pure a : Resolve α) := by
  intro t stop h
  cases h

lemma bind {m : Resolve α} {f : α → Resolve β} (hm : Spares m) (hf : ∀ a, Spares (f a)) :
    Spares (m >>= f) := by
  intro t stop h
  rcases bind_error.mp h with h | ⟨a, u, -, h⟩
  · exact hm t stop h
  · exact hf a u stop h

lemma fail {cause : Cause} (h : cause.isAboutElement = true) :
    Spares (Resolve.fail line cause : Resolve α) := by
  intro t stop hfail
  rw [fail_error hfail]
  exact h

lemma register (f : Fragment) : Spares (Resolve.register f) := by
  intro t stop h
  cases h

lemma expression (site : Site) (raw : Text) : Spares (Resolve.expression o site line raw) := by
  intro t stop h
  obtain ⟨refusal, -, hstop⟩ := expression_error h
  rw [hstop]
  rfl

lemma chain (name : Text) (taken : Option PlaceholderKind) (done : List Node) :
    Spares (Resolve.chain o line name taken done) := by
  cases taken with
  | some kind => exact fail rfl
  | none =>
    rw [chain_eq]
    split
    · exact pure _
    · rename_i cause hrefusal
      apply fail
      unfold Standing.refusal? at hrefusal
      split at hrefusal <;> cases hrefusal <;> rfl

lemma ifDirective (s : Resolve.Scope) : Spares (Resolve.ifDirective o line s) := by
  unfold Resolve.ifDirective
  dsimp only
  split
  · exact pure s
  · split
    · exact fail rfl
    · exact bind (expression _ _) fun e => bind (register _) fun id => pure _

lemma elseIfDirective (s : Resolve.Scope) : Spares (Resolve.elseIfDirective o line s) := by
  unfold Resolve.elseIfDirective
  dsimp only
  split
  · exact pure s
  · split
    · exact fail rfl
    · exact bind (chain _ _ _) fun done =>
        bind (expression _ _) fun e => bind (register _) fun id => pure _

lemma elseDirective (s : Resolve.Scope) : Spares (Resolve.elseDirective o line s) := by
  unfold Resolve.elseDirective
  dsimp only
  split
  · exact pure s
  · split
    · exact bind (chain _ _ _) fun done => bind (register _) fun id => pure _
    · exact fail rfl

lemma forDirective (attributes : List Attribute) : Spares (Resolve.forDirective o line attributes) := by
  unfold Resolve.forDirective
  dsimp only
  split
  · exact pure _
  · split
    · exact fail rfl
    · exact bind (expression _ _) fun e => bind (register _) fun id => pure _

lemma preDirective (attributes : List Attribute) : Spares (Resolve.preDirective o line attributes) := by
  unfold Resolve.preDirective
  dsimp only
  split
  · exact pure _
  · split
    · exact pure _
    · exact fail rfl

lemma bindAttributes (bound rest : List Attribute) :
    Spares (Resolve.bindAttributes o line bound rest) := by
  induction rest generalizing bound with
  | nil =>
    rw [Resolve.bindAttributes]
    exact pure bound
  | cons a rest ih =>
    rw [Resolve.bindAttributes]
    split
    · split <;> exact ih _
    · apply bind (expression _ _)
      intro e
      split
      · exact fail rfl
      · exact bind (register _) fun id => ih _

lemma head (attributes : List Attribute) (done : List Node) :
    Spares (Template.head o line attributes done) := by
  unfold Template.head conditionals
  refine bind (bind (ifDirective _) fun s => bind (elseIfDirective _) fun s => elseDirective _) ?_
  intro s
  apply bind (forDirective _)
  intro loop
  apply bind (preDirective _)
  intro pre
  exact bind (bindAttributes _ _) fun bound => pure _

end Spares

lemma exists_stopsIn (siblings : List Node) : ∀ {done : List Node} {t : Table Fragment},
    Resolve.nodes o done siblings t = .error stop → stop.error.cause.isAboutTag = true →
      ∃ k, StopsIn o k done siblings t stop := by
  induction siblings using siblings_induction with
  | nil =>
    intro done t h
    rw [Resolve.nodes] at h
    cases h
  | cons node rest ihnode ihrest =>
    intro done t h hcause
    rw [Resolve.nodes] at h
    rcases bind_error.mp h with h | ⟨next, u, hnode, h⟩
    · cases node with
      | text content line =>
        rw [Resolve.node] at h
        exact ⟨0, .text h⟩
      | instruction content line =>
        rw [Resolve.node] at h
        rw [fail_error h] at hcause
        cases hcause
      | element name attributes children line =>
        rw [node_head] at h
        rcases bind_error.mp h with h | ⟨e, u, hhead, h⟩
        · rw [Cause.not_isAboutTag (Spares.head attributes done t stop h)] at hcause
          cases hcause
        · cases hpre : e.pre with
          | true =>
            rw [hpre] at h
            cases h
          | false =>
            rw [hpre] at h
            rcases bind_error.mp h with h | ⟨inner, v, -, h⟩
            · obtain ⟨k, hstops⟩ := ihnode h hcause
              exact ⟨k, .inside hhead hpre hstops⟩
            · cases h
      | comment | doctype | placeholder | code =>
        rw [Resolve.node] at h
        cases h
    · obtain ⟨k, hstops⟩ := ihrest h hcause
      exact ⟨_, .later hnode hstops⟩

lemma exists_brace {content : Text} {i : Nat} (h : Tag.startsPair (content.drop i) = true) :
    ∃ brace, (brace = '{' ∨ brace = '}') ∧ content[i]? = some brace := by
  rw [← List.head?_drop]
  rcases Bool.or_eq_true_iff.mp h with h | h
  · obtain ⟨rest, hrest⟩ := opensPair_iff.mp h
    exact ⟨'{', .inl rfl, by rw [← hrest]; rfl⟩
  · obtain ⟨rest, hrest⟩ := closesPair_iff.mp h
    exact ⟨'}', .inr rfl, by rw [← hrest]; rfl⟩

end

/-- Refused for a tag, a template is refused in one of its texts. In a source without references and
carriage returns, the error is about a brace of that text, and its line, together with the line breaks
of the end tags that the text runs through before the brace, is the line of the brace in the source. The
text has to start where it is said to, which it does outside of elements whose text is read as it
stands. -/
theorem text_error_line (c : Compiler) {source : Text} (hsource : Lexer.Literal source) :
    (∀ e, (c.parse source).1 = .error e → e.cause.isAboutTag = true →
      ∃ k stop, stop.error = e ∧ StopsIn c.options k [] (Markup.parse source) .empty stop) ∧
    ∀ k stop, StopsIn c.options k [] (Markup.parse source) .empty stop →
      (c.parse source).1 = .error stop.error ∧
      ∃ p front brace back after, (passages source)[k]? = some p ∧
        p.marks = front ++ (brace, true) :: back ∧
        source = p.lead ++ spelled front ++ brace :: after ∧
        Blames c.options p.content (kept front).length stop.error.cause ∧
        (brace = '{' ∨ brace = '}') ∧
        (p.isRaw = false → p.start = Text.byteSize p.lead) ∧
        (p.start = Text.byteSize p.lead →
          stop.error.line + Text.lineBreaks (skipped front) =
            1 + Text.lineBreaks (p.lead ++ spelled front)) := by
  refine ⟨fun e he hcause => ?_, fun k stop hstops => ?_⟩
  · cases hresolve : resolve c.options (Markup.parse source) with
    | ok resolved =>
      rw [Compiler.parse_of_resolved hresolve] at he
      cases he
    | error stop =>
      rw [Compiler.parse_of_stopped hresolve] at he
      cases he
      obtain ⟨k, hstops⟩ := exists_stopsIn _ hresolve hcause
      exact ⟨k, stop, rfl, hstops⟩
  · obtain ⟨hnodes, content, line, done, t, htext, hstop⟩ := hstops.stops
    have hparse : (c.parse source).1 = .error stop.error := by
      have hresolve : resolve c.options (Markup.parse source) = .error stop := hnodes
      rw [Compiler.parse_of_stopped hresolve]
    rw [texts_parse, List.getElem?_map] at htext
    obtain ⟨p, hp, hentry⟩ := Option.map_eq_some_iff.mp htext
    obtain ⟨rfl, hline⟩ := Prod.mk.inj hentry
    obtain ⟨i, hblames, hpair, herror⟩ := text_error hstop
    obtain ⟨brace, hbrace, hcontent⟩ := exists_brace hpair
    have hnull : brace ≠ '\x00' ∧ brace ≠ CharacterReference.replacement := by
      rcases hbrace with rfl | rfl <;> decide
    obtain ⟨front, back, after, hmarks, hlength, hsplit, hbreaks⟩ :=
      passages_split hsource (List.mem_of_getElem? hp) hcontent hnull.1 hnull.2
    have hplaced := passages_placed source p (List.mem_of_getElem? hp)
    refine ⟨hparse, p, front, brace, back, after, hp, hmarks, hsplit, ?_, hbrace, hplaced,
      fun hstart => ?_⟩
    · rw [hlength]
      exact hblames
    · have hlead : (LineIndex.ofText source).line p.start = 1 + Text.lineBreaks p.lead := by
        rw [LineIndex.line_ofText, hstart, hsplit, List.append_assoc, Text.lineBreaksBefore_append]
      rw [herror, ← hline, hlead, Text.lineBreaks_append, hbreaks]
      omega

def straySource : Text :=
  "<p>\n</b>\n\x7b\x7b \x7d\x7d".toList

theorem text_error_line_sample :
    Lexer.Literal straySource ∧
      ∃ k stop p front, stop.error = ⟨.emptyTag, 3⟩ ∧
        StopsIn ⟨[], true⟩ k [] (Markup.parse straySource) .empty stop ∧
        (passages straySource)[k]? = some p ∧ p.isRaw = false ∧
        stop.error.line + Text.lineBreaks (skipped front) =
          1 + Text.lineBreaks (p.lead ++ spelled front) := by
  have hliteral : Lexer.Literal straySource := ⟨by decide +kernel, by decide +kernel⟩
  have herror : ((Compiler.ofOptions ⟨[], true⟩).parse straySource).1 = .error ⟨.emptyTag, 3⟩ := by
    decide +kernel
  have hraw : ∀ p ∈ passages straySource, p.isRaw = false := by decide +kernel
  have hline := text_error_line (.ofOptions ⟨[], true⟩) hliteral
  obtain ⟨k, stop, hstop, hstops⟩ := hline.1 _ herror rfl
  obtain ⟨-, p, front, brace, back, after, hp, -, -, -, -, hstart, hlines⟩ := hline.2 k stop hstops
  have hplain := hraw p (List.mem_of_getElem? hp)
  exact ⟨hliteral, k, stop, p, front, hstop, hstops, hp, hplain, hlines (hstart hplain)⟩

/-- An empty tag on the second line. The first line ends inside an end tag that is ignored. -/
def brokenLead : Text :=
  "a</p\n>".toList

theorem ignored_end_tag_loses_line :
    ((Compiler.ofOptions ⟨[], true⟩).parse (brokenLead ++ "\x7b\x7b \x7d\x7d".toList)).1 =
        .error ⟨.emptyTag, 1⟩ ∧
      1 + Text.lineBreaks brokenLead = 2 := by
  decide +kernel

end Stencil.Template

import Stencil.Proofs.OpenTags
import Mathlib.Tactic.Common

/-! What the lexer leaves outside of code. -/

namespace Stencil.Template

open Code Code.Lexer
open Markup (Node Attribute AreRead siblings_induction isRawText)

mutual

def nodePlain : Node → Bool
  | .element name attributes children _ =>
    !isRawText name && decide ('<' ∉ name) && (attributes.all fun a => decide ('<' ∉ a.name)) &&
      plainMarkup children
  | .text _ _ => true
  | .comment _ _ | .doctype _ | .instruction _ _ | .placeholder _ _ _ | .code _ => false

/-- Elements and text alone, where text is escaped, and no name holds a bracket. -/
def plainMarkup : List Node → Bool
  | [] => true
  | node :: rest => nodePlain node && plainMarkup rest

end

lemma noOpenTag_of_no_bracket {cs : Text} (h : '<' ∉ cs) : NoOpenTag cs := by
  rw [NoOpenTag, Bool.eq_false_iff]
  intro hholds
  obtain ⟨s, hs, hstarts⟩ := holdsOpenTag_iff.mp hholds
  cases s with
  | nil => cases hstarts
  | cons c s =>
    have hc : c = '<' := eq_of_toLower (startsOpenTag_cons hstarts).1 (by decide)
    apply h
    rw [← hc]
    exact hs.mem (List.mem_cons_self ..)

lemma noOpenTag_name {c : Char} {rest : Text} (hc : c.isAlpha = true) (h : '<' ∉ c.toLower :: rest) :
    NoOpenTag ('<' :: (c.toLower :: rest) ++ [' ']) := by
  have hne : '?' ≠ c.toLower.toLower := by
    intro heq
    have hlower : c.toLower = '?' := eq_of_toLower heq.symm (by decide)
    rw [eq_of_toLower hlower (by decide)] at hc
    cases hc
  have hrest : NoOpenTag (c.toLower :: rest ++ [' ']) := by
    apply noOpenTag_of_no_bracket
    simpa using h
  have hmark : ∀ tag ∈ openTags, ['<', '?'] <+: tag := by decide
  rw [NoOpenTag, List.cons_append, holdsOpenTag, hrest, Bool.or_false, Bool.eq_false_iff]
  intro hstarts
  obtain ⟨-, tail, hm, htail⟩ := startsOpenTag_cons hstarts
  obtain ⟨more, rfl⟩ := (List.cons_prefix_cons.mp (hmark _ hm)).2
  exact hne (List.cons_prefix_cons.mp htail).1

lemma verbatim_noOpenTag {nodes : List Node} : AreRead nodes → plainMarkup nodes = true →
    ∀ part ∈ verbatim false nodes, NoOpenTag part := by
  induction nodes using siblings_induction with
  | nil => simp [verbatim]
  | cons node rest ihc ih =>
    rintro ⟨hread, hreadrest⟩ hplain
    rw [plainMarkup, Bool.and_eq_true] at hplain
    rw [verbatim, List.forall_mem_append]
    refine ⟨?_, ih hreadrest hplain.2⟩
    have hnode := hplain.1
    cases node with
    | element name attributes children line =>
      simp only [nodePlain, Bool.and_eq_true, Bool.not_eq_true', List.all_eq_true,
        decide_eq_true_eq] at hnode
      obtain ⟨⟨⟨hraw, hname⟩, hattributes⟩, hchildren⟩ := hnode
      obtain ⟨c, tail, hc, rfl⟩ := hread.1.letter
      rw [nodeVerbatim, hraw, List.cons_append, List.forall_mem_cons, List.forall_mem_append]
      refine ⟨noOpenTag_name hc hname, ?_, ihc hread.2 hchildren⟩
      intro part hpart
      obtain ⟨a, ha, rfl⟩ := List.mem_map.mp hpart
      apply noOpenTag_of_no_bracket
      simpa using hattributes a ha
    | text content line => simp [nodeVerbatim]
    | comment | doctype | instruction | placeholder | code => cases hnode

def literalText (ps : List (Chunk Text)) : Text :=
  ps.flatMap fun p => if p.isCode then [] else p.print

lemma literalRuns_flatten (s : Text) (ps : List (Chunk Text)) :
    (literalRuns s ps).1 ++ (literalRuns s ps).2.flatten = s ++ literalText ps := by
  induction ps generalizing s with
  | nil => rfl
  | cons p ps ih =>
    cases p with
    | literal content =>
      rw [literalRuns, ih, List.append_assoc]
      rfl
    | code | attributeCode =>
      rw [literalRuns, List.flatten_cons, ih]
      rfl

/-- The lexer leaves the literal text of the output outside of code, without the line break right after
each region. -/
theorem inline_text_eq_literal_text {c c' : Compiler} {source : Text}
    (h : c.parse source = (.ok (), c')) (hm : plainMarkup (Markup.parse source) = true) :
    ∃ nodes ts first later, emit? c'.table c'.document = some nodes ∧
      c'.output? = some (printed (chunks false nodes)) ∧
      Code.tokenize (printed (chunks false nodes)) = .ok ts ∧
      literalRuns [] (chunks false nodes) = (first, later) ∧
      literalText (chunks false nodes) = first ++ later.flatten ∧
      inlineText ts = first ++ later.flatMap withoutLineBreak := by
  obtain ⟨hadmitted, ps, hps⟩ := parse_ok h
  have hparts := verbatim_noOpenTag (Markup.parse_isRead source) hm
  obtain ⟨nodes, hemit, hprintable, htidy⟩ := emit_tidy (fun _ _ => holdsOpenTag_of_piece)
    (Markup.parse_isWritten source) (parse_resolve h) hps
    (tidy_of_verbatim (parse_tidy source false) hparts)
  have hcalm : Calm [] (chunks false nodes) := chunks_calm htidy hprintable (by simp)
  have hcompiled := chunks_compiled (emit_compiled hps hemit) false
  obtain ⟨ts, hts, -, hinline⟩ := chunks_read hadmitted hcompiled hcalm [] 0 trivial (by simp)
  refine ⟨nodes, ts, _, _, hemit, ?_, ?_, rfl, ?_, hinline⟩
  · rw [Compiler.output?, hemit]
    exact printAll_chunks nodes false hprintable
  · have htokens := hts.tokensFrom_eq
    rw [tokensFrom] at htokens
    simpa [Code.tokenize, Except.map] using htokens
  · exact (literalRuns_flatten [] _).symm

def literalSource : Text :=
  "<p title=\"<?= 1\">\x7b\x7b $a \x7d\x7d\n\n&lt;?php <b :id=\"$b\"></b></p>".toList

theorem inline_text_eq_literal_text_sample :
    ∃ c', (Compiler.ofOptions {}).parse literalSource = (.ok (), c') ∧
      plainMarkup (Markup.parse literalSource) = true ∧
      ∃ nodes ts first later, emit? c'.table c'.document = some nodes ∧
        c'.output? = some (printed (chunks false nodes)) ∧
        Code.tokenize (printed (chunks false nodes)) = .ok ts ∧
        literalRuns [] (chunks false nodes) = (first, later) ∧
        literalText (chunks false nodes) = first ++ later.flatten ∧
        inlineText ts = first ++ later.flatMap withoutLineBreak := by
  have h := parse_eq_of_isOk (.ofOptions {}) literalSource (by decide +kernel)
  have hplain : plainMarkup (Markup.parse literalSource) = true := by decide +kernel
  exact ⟨_, h, hplain, inline_text_eq_literal_text h hplain⟩

def brokenLineSource : Text :=
  "\x7b\x7b\x7b $a \x7d\x7d\x7d\nb".toList

theorem line_break_joins_close_tag :
    ∃ c' nodes ts, (Compiler.ofOptions {}).parse brokenLineSource = (.ok (), c') ∧
      plainMarkup (Markup.parse brokenLineSource) = true ∧
      emit? c'.table c'.document = some nodes ∧
      Code.tokenize (printed (chunks false nodes)) = .ok ts ∧
      literalText (chunks false nodes) = "\nb".toList ∧ inlineText ts = "b".toList := by
  have h := parse_eq_of_isOk (.ofOptions {}) brokenLineSource (by decide +kernel)
  have hread : (emit? ((Compiler.ofOptions {}).parse brokenLineSource).2.table
      ((Compiler.ofOptions {}).parse brokenLineSource).2.document).map (fun nodes =>
        (literalText (chunks false nodes),
          (Code.tokenize (printed (chunks false nodes))).toOption.map inlineText)) =
      some ("\nb".toList, some "b".toList) := by
    decide +kernel
  obtain ⟨nodes, hnodes, hboth⟩ := Option.map_eq_some_iff.mp hread
  obtain ⟨hliteral, hinline⟩ := Prod.mk.inj hboth
  cases ht : Code.tokenize (printed (chunks false nodes)) with
  | error fault =>
    rw [ht] at hinline
    cases hinline
  | ok ts =>
    rw [ht] at hinline
    exact ⟨_, nodes, ts, h, by decide +kernel, hnodes, ht, hliteral, Option.some.inj hinline⟩

end Stencil.Template

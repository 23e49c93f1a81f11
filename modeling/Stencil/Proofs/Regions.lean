import Stencil.Proofs.Meaning
import Stencil.Proofs.Wrappers
import Stencil.Template.Compiler
import Mathlib.Tactic.Common

namespace Stencil.Template

open Code Code.Lexer
open Markup (Node Attribute codeOpen codeClose siblings_induction)

def attributeRegions (a : Attribute) : List (Chunk Text) :=
  match a.value with
  | .code content => [.attributeCode content]
  | .text _ | .expression _ => []

mutual

def nodeRegions : Node → List (Chunk Text)
  | .element _ attributes children _ => attributes.flatMap attributeRegions ++ regions children
  | .placeholder _ _ children => regions children
  | .code content => [.code content]
  | .text _ _ | .comment _ _ | .doctype _ | .instruction _ _ => []

def regions : List Node → List (Chunk Text)
  | [] => []
  | node :: rest => nodeRegions node ++ regions rest

end

lemma regions_append (as bs : List Node) : regions (as ++ bs) = regions as ++ regions bs := by
  induction as with
  | nil => rfl
  | cons a as ih => rw [List.cons_append, regions, regions, ih, List.append_assoc]

def Command.IsFrom (table : Table Fragment) : Command → Prop
  | .fragment f => f ∈ table.entries
  | .close => True

def Compiled (table : Table Fragment) : Chunk Text → Prop
  | .code content => ∃ commands : List Command, (∀ x ∈ commands, x.IsFrom table) ∧
      content = commands.flatMap Command.text
  | .attributeCode content => ∃ f ∈ table.entries, content = f.code
  | .literal _ => True

lemma Compiled.command {table : Table Fragment} {x : Command} (h : x.IsFrom table) :
    Compiled table (.code x.text) :=
  ⟨[x], by simpa using h, by simp⟩

lemma Compiled.append {table : Table Fragment} {first second : Text}
    (h : Compiled table (.code first)) (g : Compiled table (.code second)) :
    Compiled table (.code (first ++ second)) := by
  obtain ⟨xs, hxs, rfl⟩ := h
  obtain ⟨ys, hys, rfl⟩ := g
  refine ⟨xs ++ ys, ?_, by rw [List.flatMap_append]⟩
  intro x hx
  rcases List.mem_append.mp hx with hx | hx
  · exact hxs x hx
  · exact hys x hx

lemma get?_mem {table : Table Fragment} {id : Nat} {f : Fragment} (h : table.get? id = some f) :
    f ∈ table.entries :=
  List.mem_of_getElem? h

lemma attributes_compiled {table : Table Fragment} {as bs : List Attribute}
    {ps : List (Chunk Command)} (hs : attributesStream? table as = some ps)
    (h : as.mapM (expandAttribute? table) = some bs) :
    ∀ r ∈ bs.flatMap attributeRegions, Compiled table r := by
  induction as generalizing bs ps with
  | nil =>
    cases h
    simp
  | cons a as ih =>
    simp only [attributesStream?, Option.bind_eq_bind, Option.bind_eq_some_iff] at hs
    obtain ⟨first, hfirst, others, hothers, -⟩ := hs
    simp only [List.mapM_cons, Option.bind_eq_bind, Option.bind_eq_some_iff] at h
    obtain ⟨b, hb, bs, hbs, hbound⟩ := h
    cases hbound
    intro r hr
    rcases List.mem_append.mp (List.flatMap_cons ▸ hr) with hr | hr
    · obtain ⟨name, value⟩ := a
      cases value with
      | text content =>
        cases hb
        cases hr
      | code content => cases hfirst
      | expression id =>
        obtain ⟨f, hf, -⟩ := Option.map_eq_some_iff.mp hfirst
        simp only [expandAttribute?, lookup?, hf, Option.map_some] at hb
        cases hb
        obtain rfl := List.mem_singleton.mp hr
        exact ⟨f, get?_mem hf, rfl⟩
    · exact ih hothers hbs r hr

lemma expand_compiled {table : Table Fragment} {nodes : List Node} :
    ∀ {raw : Bool} {ps : List (Chunk Command)} {out : List Node},
      stream? table raw nodes = some ps → expand? table nodes = some out →
      ∀ r ∈ regions out, Compiled table r := by
  induction nodes using siblings_induction with
  | nil =>
    intro raw ps out _ h
    cases h
    simp [regions]
  | cons node rest ihc ih =>
    intro raw ps out hs h
    simp only [stream?, Option.bind_eq_bind, Option.bind_eq_some_iff] at hs
    obtain ⟨first, hfirst, others, hothers, -⟩ := hs
    simp only [expand?, Option.bind_eq_bind, Option.bind_eq_some_iff] at h
    obtain ⟨as, has, bs, hbs, hout⟩ := h
    cases hout
    rw [regions_append]
    intro r hr
    rcases List.mem_append.mp hr with hr | hr
    swap
    · exact ih hothers hbs r hr
    cases node with
    | element name attributes children line =>
      simp only [nodeStream?, Option.bind_eq_bind, Option.bind_eq_some_iff] at hfirst
      obtain ⟨bound, hbound, inner, hinner, -⟩ := hfirst
      simp only [expandNode?, Option.bind_eq_bind, Option.bind_eq_some_iff] at has
      obtain ⟨cs, hcs, ds, hds, hnode⟩ := has
      cases hnode
      simp only [regions, nodeRegions, List.append_nil] at hr
      rcases List.mem_append.mp hr with hr | hr
      · exact attributes_compiled hbound hcs r hr
      · exact ihc hinner hds r hr
    | placeholder id kind children =>
      simp only [nodeStream?, Option.bind_eq_bind, Option.bind_eq_some_iff] at hfirst
      obtain ⟨f, hf, inner, hinner, -⟩ := hfirst
      simp only [expandNode?, lookup?, hf, Option.map_some, Option.bind_eq_bind, Option.bind_some,
        Option.bind_eq_some_iff] at has
      obtain ⟨ds, hds, hnode⟩ := has
      cases hnode
      rw [regions_append, regions, nodeRegions] at hr
      have hopen : Compiled table (.code f.code) := Compiled.command (x := .fragment f) (get?_mem hf)
      have hclose : Compiled table (.code Fragment.blockClose) :=
        Compiled.command (x := .close) trivial
      rcases List.mem_append.mp hr with hr | hr
      · rcases List.mem_cons.mp hr with rfl | hr
        · exact hopen
        · exact ihc hinner hds r hr
      · split at hr
        · obtain rfl := List.mem_singleton.mp hr
          exact hclose
        · cases hr
    | text content line | comment content line | instruction content line | doctype content =>
      cases has
      cases hr
    | code content => cases hfirst

lemma mergeInto_compiled {table : Table Fragment} {node : Node} {rest : List Node}
    (hn : ∀ r ∈ nodeRegions node, Compiled table r) (hr : ∀ r ∈ regions rest, Compiled table r) :
    ∀ r ∈ regions (mergeInto node rest), Compiled table r := by
  have hapart : ∀ r ∈ regions (node :: rest), Compiled table r := by
    intro r hmem
    rcases List.mem_append.mp hmem with hmem | hmem
    · exact hn r hmem
    · exact hr r hmem
  unfold mergeInto
  split
  · -- Two regions become one, with the commands of both.
    rename_i first second others
    intro r hmem
    rcases List.mem_cons.mp hmem with rfl | hmem
    · exact (hn _ (List.mem_cons_self ..)).append (hr _ (List.mem_cons_self ..))
    · exact hr r (List.mem_cons_of_mem _ hmem)
  · exact hapart

lemma merge_compiled {table : Table Fragment} {nodes : List Node} :
    (∀ r ∈ regions nodes, Compiled table r) → ∀ r ∈ regions (merge nodes), Compiled table r := by
  induction nodes using siblings_induction with
  | nil => exact fun h => h
  | cons node rest ihc ih =>
    intro h
    have hnode : ∀ r ∈ nodeRegions node, Compiled table r := fun r hr =>
      h r (List.mem_append_left _ hr)
    have hrest := ih fun r hr => h r (List.mem_append_right _ hr)
    rw [merge]
    refine mergeInto_compiled ?_ hrest
    cases node with
    | element name attributes children line =>
      intro r hr
      rcases List.mem_append.mp hr with hr | hr
      · exact hnode r (List.mem_append_left _ hr)
      · exact ihc (fun r hr => hnode r (List.mem_append_right _ hr)) r hr
    | placeholder | text | comment | doctype | instruction | code => exact hnode

def Command.tokens : Command → Except Fault (List Token)
  | .fragment f => (tokensFrom (.code false) f.expression).map fun inner => f.around inner
  | .close => .ok [sign .closeBrace]

lemma around_plain {f : Fragment} {inner : List Token}
    (h : ∀ t ∈ inner, Kind.isPlain t.kind = true) : ∀ t ∈ f.around inner, Kind.isPlain t.kind = true := by
  have hblock : ∀ k, ∀ t ∈ Fragment.blockTokens k inner, Kind.isPlain t.kind = true := by
    intro k t ht
    simp only [Fragment.blockTokens, List.mem_append, List.mem_cons, List.not_mem_nil, or_false] at ht
    rcases ht with ((rfl | rfl) | ht) | (rfl | rfl)
    · rfl
    · rfl
    · exact h t ht
    · rfl
    · rfl
  have helse : ∀ t ∈ [word .kwElse, sign .openBrace], Kind.isPlain t.kind = true := by decide
  have hecho : ∀ t ∈ Fragment.echoTokens, Kind.isPlain t.kind = true := by decide
  have hflags : ∀ t ∈ Fragment.flagTokens, Kind.isPlain t.kind = true := by decide
  cases f with
  | ifOpen | elseIfOpen | foreachOpen => exact hblock _
  | elseOpen => exact helse
  | escapedEcho source =>
    intro t ht
    simp only [Fragment.around, List.mem_append, List.mem_cons, List.not_mem_nil, or_false] at ht
    rcases ht with ((((ht | (rfl | rfl)) | ht) | rfl) | ht) | (rfl | rfl)
    · exact hecho t ht
    · rfl
    · rfl
    · exact h t ht
    · rfl
    · exact hflags t ht
    · rfl
    · rfl
  | rawEcho source =>
    intro t ht
    simp only [Fragment.around, List.mem_append, List.mem_singleton] at ht
    rcases ht with (ht | ht) | rfl
    · exact hecho t ht
    · exact h t ht
    · rfl
  | statement source =>
    intro t ht
    simp only [Fragment.around, List.mem_append, List.mem_singleton] at ht
    rcases ht with ht | rfl
    · exact h t ht
    · rfl

section

variable {o : Options} {table : Table Fragment}

lemma command_scans {x : Command} (hx : x.IsFrom table) (ht : ∀ f ∈ table.entries, Admitted o f) :
    ∃ ts, x.tokens = .ok ts ∧ (∀ t ∈ ts, Kind.isPlain t.kind = true) ∧
      ∀ rest, Scans (.code false) (x.text ++ rest) ts (.code false) rest := by
  cases x with
  | fragment f =>
    obtain ⟨inner, hp, hs⟩ := (ht f hx).scans
    refine ⟨f.around inner, ?_, around_plain hp.plain, hs⟩
    simp only [Command.tokens, hp.tokensFrom_eq, Except.map]
  | close =>
    exact ⟨[sign .closeBrace], rfl, by decide, scans_punctuation (d := '}') (by decide) false⟩

lemma commands_scan {commands : List Command} (hx : ∀ x ∈ commands, x.IsFrom table)
    (ht : ∀ f ∈ table.entries, Admitted o f) :
    ∃ parts, commands.mapM Command.tokens = .ok parts ∧
      (∀ t ∈ parts.flatten, Kind.isPlain t.kind = true) ∧
      ∀ rest, Scans (.code false) (commands.flatMap Command.text ++ rest) parts.flatten
        (.code false) rest := by
  induction commands with
  | nil => exact ⟨[], rfl, by simp, fun rest => .done⟩
  | cons x commands ih =>
    obtain ⟨ts, hts, hplain, hs⟩ := command_scans (hx x (List.mem_cons_self ..)) ht
    obtain ⟨parts, hparts, hplains, hscans⟩ := ih fun y hy => hx y (List.mem_cons_of_mem _ hy)
    refine ⟨ts :: parts, ?_, ?_, ?_⟩
    · rw [List.mapM_cons, hts, hparts]
      rfl
    · intro t hm
      rcases List.mem_append.mp hm with hm | hm
      · exact hplain t hm
      · exact hplains t hm
    · intro rest
      rw [List.flatMap_cons, List.append_assoc, List.flatten_cons]
      exact (hs _).append (hscans rest)

lemma region_scans {commands : List Command} (hx : ∀ x ∈ commands, x.IsFrom table)
    (ht : ∀ f ∈ table.entries, Admitted o f) :
    ∃ parts, commands.mapM Command.tokens = .ok parts ∧
      (∀ t ∈ parts.flatten, Kind.isPlain t.kind = true) ∧
      ∀ {closing rest : Text} {ending : List Token}, Scans (.code false) closing ending .markup rest →
        Scans .markup (codeOpen ++ commands.flatMap Command.text ++ closing)
          (⟨.openTag, codeOpen⟩ :: parts.flatten ++ ending) .markup rest := by
  obtain ⟨parts, hparts, hplain, hscan⟩ := commands_scan hx ht
  refine ⟨parts, hparts, hplain, ?_⟩
  intro closing rest ending hend
  rw [List.append_assoc]
  exact (Expression.scans_openTag _).append ((hscan closing).append hend)

lemma scans_closeTag (member : Bool) (rest : Text) :
    Scans (.code member) (codeClose ++ rest) [⟨.closeTag, codeClose ++ rest.take (lineBreakWidth rest)⟩]
      .markup (rest.drop (lineBreakWidth rest)) := by
  have hlexeme : lexeme (.code member) '?' ('>' :: rest) =
      .ok ⟨.closeTag, 1 + lineBreakWidth rest, .markup⟩ := by
    simp [lexeme, codeLexeme, isWhitespace]
  have hs := Scans.step hlexeme .done
  rw [Nat.add_comm] at hs
  exact hs

lemma scans_blank_closeTag (rest : Text) :
    Scans (.code false) (' ' :: codeClose ++ rest)
      [⟨.whitespace, [' ']⟩, ⟨.closeTag, codeClose ++ rest.take (lineBreakWidth rest)⟩]
      .markup (rest.drop (lineBreakWidth rest)) := by
  have hblank : CodeToken false ' ' (codeClose ++ rest) _ := .whitespace (by decide)
  have hrun : Text.run isWhitespace (codeClose ++ rest) = 0 := by
    simp [codeClose, Text.run, isWhitespace]
  rw [hrun] at hblank
  exact hblank.scans.append (scans_closeTag false rest)

end

def silent : Interpretation Unit :=
  ⟨fun _ s => (true, s), fun _ _ => [], fun _ s => ([], s)⟩

lemma parse_eq_of_isOk (c : Compiler) (source : Text) (h : (c.parse source).1.isOk = true) :
    c.parse source = (.ok (), (c.parse source).2) := by
  cases hp : c.parse source with
  | mk outcome c' =>
    rw [hp] at h
    cases outcome with
    | error e => cases h
    | ok u => rfl

lemma parse_resolve {c c' : Compiler} {source : Text} (h : c.parse source = (.ok (), c')) :
    resolve c.options (Markup.parse source) = .ok (c'.document, c'.table) := by
  cases hresolve : resolve c.options (Markup.parse source) with
  | ok resolved =>
    rw [Compiler.parse_of_resolved hresolve] at h
    cases h
    rfl
  | error stop =>
    rw [Compiler.parse_of_stopped hresolve] at h
    cases h

lemma parse_ok {c c' : Compiler} {source : Text} (h : c.parse source = (.ok (), c')) :
    (∀ f ∈ c'.table.entries, Admitted c.options f) ∧
      ∃ ps, stream? c'.table false c'.document = some ps := by
  obtain ⟨⟨new, hnew, hadmitted⟩, ps, hps, -⟩ :=
    resolve_realizes silent (Markup.parse_isWritten source) (parse_resolve h)
  refine ⟨?_, ps, hps⟩
  intro f hf
  exact hadmitted f (by simpa [hnew, Table.empty] using hf)

lemma emit_compiled {table : Table Fragment} {tree nodes : List Node} {ps : List (Chunk Command)}
    (hs : stream? table false tree = some ps) (h : emit? table tree = some nodes) :
    ∀ r ∈ regions nodes, Compiled table r := by
  obtain ⟨out, hout, rfl⟩ := Option.map_eq_some_iff.mp h
  exact merge_compiled (expand_compiled hs hout)

end Stencil.Template

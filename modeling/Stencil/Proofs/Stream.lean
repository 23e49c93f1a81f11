import Stencil.Markup.Node.Printer
import Stencil.Proofs.Tree
import Stencil.Template.Emit
import Mathlib.Tactic.Common

/-! Literal markup and code in document order, of a resolved tree and of an expanded one. -/

namespace Stencil.Template

open Markup

inductive Chunk (α : Type) where
  | literal (content : Text)
  | code (content : α)
  | attributeCode (content : α)
  deriving DecidableEq, Repr

namespace Chunk

def map {α β : Type} (f : α → β) : Chunk α → Chunk β
  | .literal content => .literal content
  | .code content => .code (f content)
  | .attributeCode content => .attributeCode (f content)

def print : Chunk Text → Text
  | .literal content => content
  | .code content => codeOpen ++ content ++ codeClose
  | .attributeCode content => codeOpen ++ content ++ ' ' :: codeClose

end Chunk

inductive Command where
  | fragment (f : Fragment)
  | close
  deriving DecidableEq, Repr

def Command.text : Command → Text
  | .fragment f => f.code
  | .close => Fragment.blockClose

def printedText (raw : Bool) (content : Text) : Text :=
  if raw then content else escapeText content

def startOpening (name : Text) : Text := '<' :: name

def endTag (name : Text) : Text := "</".toList ++ name ++ ['>']

def attributeOpening (name : Text) : Text := ' ' :: name ++ "=\"".toList

def attributeChunks (a : Attribute) : List (Chunk Text) :=
  match a.value with
  | .text content =>
    [.literal (attributeOpening a.name), .literal (escapeAttribute content), .literal ['"']]
  | .code content =>
    [.literal (attributeOpening a.name), .attributeCode content, .literal ['"']]
  | .expression _ => []

mutual

def nodeChunks (raw : Bool) : Node → List (Chunk Text)
  | .element name attributes children _ =>
    let start := .literal (startOpening name) :: attributes.flatMap attributeChunks ++
      [.literal ['>']]
    if isVoid name then start
    else start ++ chunks (isRawText name) children ++ [.literal (endTag name)]
  | .text content _ => [.literal (printedText raw content)]
  | .comment content _ => [.literal ("<!--".toList ++ content ++ "-->".toList)]
  | .doctype name => [.literal ("<!DOCTYPE ".toList ++ name ++ ['>'])]
  | .instruction content _ => [.literal ('<' :: content ++ ['>'])]
  | .code content => [.code content]
  | .placeholder _ _ _ => []

def chunks (raw : Bool) : List Node → List (Chunk Text)
  | [] => []
  | node :: rest => nodeChunks raw node ++ chunks raw rest

end

def attributeStream? (table : Table Fragment) (a : Attribute) : Option (List (Chunk Command)) :=
  match a.value with
  | .text content =>
    some [.literal (attributeOpening a.name), .literal (escapeAttribute content), .literal ['"']]
  | .expression id =>
    (table.get? id).map fun f =>
      [.literal (attributeOpening a.name), .attributeCode (.fragment f), .literal ['"']]
  | .code _ => none

def attributesStream? (table : Table Fragment) : List Attribute → Option (List (Chunk Command))
  | [] => some []
  | a :: rest => do
    let first ← attributeStream? table a
    let others ← attributesStream? table rest
    return first ++ others

mutual

def nodeStream? (table : Table Fragment) (raw : Bool) : Node → Option (List (Chunk Command))
  | .element name attributes children _ => do
    let bound ← attributesStream? table attributes
    let inner ← stream? table (isRawText name) children
    let start := .literal (startOpening name) :: bound ++ [.literal ['>']]
    return if isVoid name then start else start ++ inner ++ [.literal (endTag name)]
  | .placeholder id kind children => do
    let f ← table.get? id
    let inner ← stream? table raw children
    return .code (.fragment f) :: inner ++ (if kind.opensBlock then [.code .close] else [])
  | .text content _ => some [.literal (printedText raw content)]
  | .comment content _ => some [.literal ("<!--".toList ++ content ++ "-->".toList)]
  | .doctype name => some [.literal ("<!DOCTYPE ".toList ++ name ++ ['>'])]
  | .instruction content _ => some [.literal ('<' :: content ++ ['>'])]
  | .code _ => none

/-- The commands of a resolved tree between its literal markup; none if the tree refers to code that
is not in the table. -/
def stream? (table : Table Fragment) (raw : Bool) : List Node → Option (List (Chunk Command))
  | [] => some []
  | node :: rest => do
    let first ← nodeStream? table raw node
    let others ← stream? table raw rest
    return first ++ others

end

lemma attribute_chunks {table : Table Fragment} {a : Attribute} {ps : List (Chunk Command)}
    (h : attributeStream? table a = some ps) :
    ∃ b, expandAttribute? table a = some b ∧ b.value.isPrintable = true ∧
      attributeChunks b = ps.map (Chunk.map Command.text) := by
  obtain ⟨name, value⟩ := a
  cases value with
  | text content =>
    cases h
    exact ⟨_, rfl, rfl, rfl⟩
  | expression id =>
    obtain ⟨f, hf, rfl⟩ := Option.map_eq_some_iff.mp h
    refine ⟨⟨name, .code f.code⟩, ?_, rfl, rfl⟩
    simp only [expandAttribute?, lookup?, hf, Option.map_some]
  | code content => cases h

lemma attributes_chunks {table : Table Fragment} {as : List Attribute} {ps : List (Chunk Command)}
    (h : attributesStream? table as = some ps) :
    ∃ bs, as.mapM (expandAttribute? table) = some bs ∧
      (bs.all fun b => b.value.isPrintable) = true ∧
      bs.flatMap attributeChunks = ps.map (Chunk.map Command.text) := by
  induction as generalizing ps with
  | nil =>
    cases h
    exact ⟨[], rfl, rfl, rfl⟩
  | cons a rest ih =>
    simp only [attributesStream?, Option.bind_eq_bind, Option.bind_eq_some_iff] at h
    obtain ⟨first, hf, others, ho, hps⟩ := h
    cases hps
    obtain ⟨b, hb, hp, hc⟩ := attribute_chunks hf
    obtain ⟨bs, hbs, hps, hcs⟩ := ih ho
    refine ⟨b :: bs, ?_, ?_, ?_⟩
    · simp only [List.mapM_cons, hb, hbs, Option.bind_eq_bind, Option.bind_some]
      rfl
    · rw [List.all_cons, hp, hps, Bool.and_self]
    · rw [List.flatMap_cons, hc, hcs, List.map_append]

lemma chunks_append (raw : Bool) (as bs : List Node) :
    chunks raw (as ++ bs) = chunks raw as ++ chunks raw bs := by
  induction as with
  | nil => rfl
  | cons a as ih => rw [List.cons_append, chunks, chunks, ih, List.append_assoc]

lemma expand_chunks {table : Table Fragment} {nodes : List Node} :
    ∀ {raw : Bool} {ps : List (Chunk Command)}, stream? table raw nodes = some ps →
      ∃ out, expand? table nodes = some out ∧ arePrintable out = true ∧
        chunks raw out = ps.map (Chunk.map Command.text) := by
  induction nodes using siblings_induction with
  | nil =>
    rintro raw ps h
    cases h
    exact ⟨[], rfl, rfl, rfl⟩
  | cons node rest ihc ih =>
    intro raw ps h
    simp only [stream?, Option.bind_eq_bind, Option.bind_eq_some_iff] at h
    obtain ⟨first, hf, others, ho, hps⟩ := h
    cases hps
    obtain ⟨bs, hbs, hpb, hcs⟩ := ih ho
    suffices hn : ∃ as, expandNode? table node = some as ∧ arePrintable as = true ∧
        chunks raw as = first.map (Chunk.map Command.text) by
      obtain ⟨as, has, hpa, hca⟩ := hn
      refine ⟨as ++ bs, ?_, ?_, ?_⟩
      · simp only [expand?, has, hbs, Option.bind_eq_bind, Option.bind_some]
        rfl
      · rw [arePrintable_append, hpa, hpb, Bool.and_self]
      · rw [chunks_append, hca, hcs, List.map_append]
    cases node with
    | element name attributes children line =>
      simp only [nodeStream?, Option.bind_eq_bind, Option.bind_eq_some_iff] at hf
      obtain ⟨bound, hb, inner, hi, hfirst⟩ := hf
      cases hfirst
      obtain ⟨cs, hcs, hpc, hcc⟩ := attributes_chunks hb
      obtain ⟨ds, hds, hpd, hdc⟩ := ihc hi
      simp only [Node.children] at hds
      refine ⟨[.element name cs ds line], ?_, ?_, ?_⟩
      · simp only [expandNode?, hcs, hds, Option.bind_eq_bind, Option.bind_some]
        rfl
      · simp only [arePrintable, Node.isPrintable, hpc, hpd, Bool.and_self]
      · simp only [chunks, nodeChunks, hcc, hdc, List.append_nil]
        split <;> simp [Chunk.map]
    | placeholder id kind children =>
      simp only [nodeStream?, Option.bind_eq_bind, Option.bind_eq_some_iff] at hf
      obtain ⟨f, hid, inner, hi, hfirst⟩ := hf
      cases hfirst
      obtain ⟨ds, hds, hpd, hdc⟩ := ihc hi
      simp only [Node.children] at hds
      refine ⟨.code f.code :: ds ++ (if kind.opensBlock then [.code Fragment.blockClose] else []),
        ?_, ?_, ?_⟩
      · simp only [expandNode?, lookup?, hid, hds, Option.map_some, Option.bind_eq_bind,
          Option.bind_some]
        rfl
      · rw [arePrintable_append, arePrintable, hpd]
        cases kind.opensBlock <;> rfl
      · rw [chunks_append, chunks, hdc]
        cases kind.opensBlock <;> simp [chunks, nodeChunks, Chunk.map, Command.text]
    | text content line =>
      cases hf
      exact ⟨_, rfl, rfl, rfl⟩
    | comment content line =>
      cases hf
      exact ⟨_, rfl, rfl, rfl⟩
    | doctype name =>
      cases hf
      exact ⟨_, rfl, rfl, rfl⟩
    | instruction content line =>
      cases hf
      exact ⟨_, rfl, rfl, rfl⟩
    | code content => cases hf

lemma printAttributes_chunks {attributes : List Attribute}
    (h : (attributes.all fun a => a.value.isPrintable) = true) :
    printAttributes? attributes = some ((attributes.flatMap attributeChunks).flatMap Chunk.print) := by
  induction attributes with
  | nil => rfl
  | cons a rest ih =>
    simp only [List.all_cons, Bool.and_eq_true] at h
    obtain ⟨name, value⟩ := a
    cases value with
    | text content =>
      simp [printAttributes?, AttributeValue.print?, ih h.2, attributeChunks, Chunk.print,
        attributeOpening]
    | code content =>
      simp [printAttributes?, AttributeValue.print?, ih h.2, attributeChunks, Chunk.print,
        attributeOpening]
    | expression id => cases h.1

lemma printAll_chunks (nodes : List Node) : ∀ raw, arePrintable nodes = true →
    Node.printAll? raw nodes = some ((chunks raw nodes).flatMap Chunk.print) := by
  induction nodes using siblings_induction with
  | nil => exact fun _ _ => rfl
  | cons node rest ihc ih =>
    intro raw h
    simp only [arePrintable, Bool.and_eq_true] at h
    suffices hn : Node.print? raw node = some ((nodeChunks raw node).flatMap Chunk.print) by
      simp [Node.printAll?, chunks, hn, ih raw h.2]
    have hp := h.1
    cases node with
    | element name attributes children line =>
      simp only [Node.isPrintable, Bool.and_eq_true] at hp
      have ha := printAttributes_chunks hp.1
      have hc := ihc (isRawText name) hp.2
      simp only [Node.children] at hc
      by_cases hv : isVoid name = true
      · simp [Node.print?, nodeChunks, hv, ha, Chunk.print, startOpening]
      · simp [Node.print?, nodeChunks, hv, ha, hc, Chunk.print, startOpening, endTag]
    | text content line => simp [Node.print?, nodeChunks, Chunk.print, printedText]
    | comment content line => simp [Node.print?, nodeChunks, Chunk.print]
    | doctype name => simp [Node.print?, nodeChunks, Chunk.print]
    | instruction content line => simp [Node.print?, nodeChunks, Chunk.print]
    | code content => simp [Node.print?, nodeChunks, Chunk.print]
    | placeholder id kind children => cases hp

lemma literal_attributes_stream (table : Table Fragment) {attributes : List Attribute}
    (h : ∀ a ∈ attributes, a.value.isLiteral = true) :
    ∃ texts : List Text, attributesStream? table attributes = some (texts.map Chunk.literal) ∧
      printAttributes? attributes = some texts.flatten := by
  induction attributes with
  | nil => exact ⟨[], rfl, rfl⟩
  | cons a rest ih =>
    obtain ⟨texts, hs, hp⟩ := ih fun b hb => h b (List.mem_cons_of_mem _ hb)
    have ha := h a (List.mem_cons_self ..)
    obtain ⟨name, value⟩ := a
    cases value with
    | text content =>
      refine ⟨attributeOpening name :: escapeAttribute content :: ['"'] :: texts, ?_, ?_⟩
      · simp only [attributesStream?, attributeStream?, hs, Option.bind_eq_bind, Option.bind_some]
        rfl
      · simp only [printAttributes?, AttributeValue.print?, hp, Option.bind_eq_bind, Option.bind_some]
        simp [attributeOpening]
    | expression id => cases ha
    | code content => cases ha

lemma written_stream (table : Table Fragment) (nodes : List Node) :
    ∀ raw, areWritten nodes = true →
      ∃ texts : List Text, stream? table raw nodes = some (texts.map Chunk.literal) ∧
        Node.printAll? raw nodes = some texts.flatten := by
  induction nodes using siblings_induction with
  | nil => exact fun raw _ => ⟨[], rfl, rfl⟩
  | cons node rest ihc ih =>
    intro raw h
    simp only [areWritten, Bool.and_eq_true] at h
    obtain ⟨others, hos, hop⟩ := ih raw h.2
    suffices hn : ∃ texts : List Text, nodeStream? table raw node = some (texts.map Chunk.literal) ∧
        Node.print? raw node = some texts.flatten by
      obtain ⟨first, hfs, hfp⟩ := hn
      refine ⟨first ++ others, ?_, ?_⟩
      · simp only [stream?, hfs, hos, Option.bind_eq_bind, Option.bind_some, List.map_append]
        rfl
      · simp only [Node.printAll?, hfp, hop, Option.bind_eq_bind, Option.bind_some,
          List.flatten_append]
        rfl
    have hw := h.1
    cases node with
    | element name attributes children line =>
      simp only [Node.isWritten, Bool.and_eq_true, List.all_eq_true] at hw
      obtain ⟨bound, hbs, hbp⟩ := literal_attributes_stream table hw.1
      obtain ⟨inner, his, hip⟩ := ihc (isRawText name) hw.2
      simp only [Node.children] at his hip
      by_cases hv : isVoid name = true
      · refine ⟨startOpening name :: bound ++ [['>']], ?_, ?_⟩
        · simp [nodeStream?, hbs, his, hv]
        · simp [Node.print?, hbp, hv, startOpening]
      · refine ⟨startOpening name :: bound ++ [['>']] ++ inner ++ [endTag name], ?_, ?_⟩
        · simp [nodeStream?, hbs, his, hv]
        · simp [Node.print?, hbp, hip, hv, startOpening, endTag]
    | text content line => exact ⟨[printedText raw content], rfl, by simp [Node.print?, printedText]⟩
    | comment content line => exact ⟨[_], rfl, by simp [Node.print?]⟩
    | doctype name => exact ⟨[_], rfl, by simp [Node.print?]⟩
    | instruction content line => exact ⟨[_], rfl, by simp [Node.print?]⟩
    | placeholder id kind children => cases hw
    | code content => cases hw

end Stencil.Template

import Stencil.Proofs.OpenTags
import Mathlib.Tactic.Common

namespace Stencil.Template

open Markup

section

variable {β γ : Type}

def pushCode (xs : List β) : List (Chunk (List β)) → List (Chunk (List β))
  | .code ys :: rest => .code (xs ++ ys) :: rest
  | rest => .code xs :: rest

def joinCode : List (Chunk (List β)) → List (Chunk (List β))
  | [] => []
  | .code xs :: rest => pushCode xs (joinCode rest)
  | p :: rest => p :: joinCode rest

def sections (ps : List (Chunk β)) : List (Chunk (List β)) :=
  joinCode (ps.map (Chunk.map fun x => [x]))

lemma pushCode_append (xs : List β) (as : List (Chunk (List β))) (content : Text)
    (bs : List (Chunk (List β))) :
    pushCode xs (as ++ .literal content :: bs) = pushCode xs as ++ .literal content :: bs := by
  cases as with
  | nil => rfl
  | cons a as => cases a <;> rfl

lemma joinCode_append (as : List (Chunk (List β))) (content : Text) (bs : List (Chunk (List β))) :
    joinCode (as ++ .literal content :: bs) = joinCode as ++ .literal content :: joinCode bs := by
  induction as with
  | nil => rfl
  | cons a as ih =>
    cases a with
    | code xs => rw [List.cons_append, joinCode, joinCode, ih, pushCode_append]
    | literal | attributeCode =>
      rw [List.cons_append]
      exact congrArg (List.cons _) ih

lemma joinCode_map (g : β → List γ) (qs : List (Chunk (List β))) :
    joinCode (qs.map (Chunk.map (List.flatMap g))) = (joinCode qs).map (Chunk.map (List.flatMap g)) := by
  have hpush : ∀ (xs : List β) (rest : List (Chunk (List β))),
      pushCode (xs.flatMap g) (rest.map (Chunk.map (List.flatMap g))) =
        (pushCode xs rest).map (Chunk.map (List.flatMap g)) := by
    intro xs rest
    cases rest with
    | nil => rfl
    | cons p rest =>
      cases p with
      | code ys =>
        simp only [List.map_cons, Chunk.map, pushCode, List.flatMap_append]
      | literal | attributeCode => rfl
  induction qs with
  | nil => rfl
  | cons p qs ih =>
    cases p with
    | code xs =>
      rw [List.map_cons, joinCode, ← hpush, ← ih]
      rfl
    | literal | attributeCode => exact congrArg (List.cons _) ih

def Chunk.pieces : Chunk (List β) → List (Chunk β)
  | .literal content => [.literal content]
  | .code xs => xs.map .code
  | .attributeCode xs => xs.map .attributeCode

lemma pieces_joinCode (qs : List (Chunk (List β))) :
    (joinCode qs).flatMap Chunk.pieces = qs.flatMap Chunk.pieces := by
  have hpush : ∀ (xs : List β) (rest : List (Chunk (List β))),
      (pushCode xs rest).flatMap Chunk.pieces = xs.map .code ++ rest.flatMap Chunk.pieces := by
    intro xs rest
    cases rest with
    | nil => rfl
    | cons p rest =>
      cases p with
      | code ys => simp [pushCode, Chunk.pieces]
      | literal | attributeCode => rfl
  induction qs with
  | nil => rfl
  | cons p qs ih =>
    cases p with
    | code xs => rw [joinCode, hpush, ih, List.flatMap_cons, Chunk.pieces]
    | literal | attributeCode => exact congrArg (Chunk.pieces _ ++ ·) ih

lemma pieces_sections (ps : List (Chunk β)) : (sections ps).flatMap Chunk.pieces = ps := by
  rw [sections, pieces_joinCode]
  induction ps with
  | nil => rfl
  | cons p ps ih =>
    rw [List.map_cons, List.flatMap_cons, ih]
    cases p <;> rfl

def Chunk.joins {α : Type} : Chunk α → Bool
  | .code _ => true
  | .literal _ | .attributeCode _ => false

lemma joinCode_apart (qs : List (Chunk (List β))) :
    (joinCode qs).IsChain fun p q => p.joins = true → q.joins = false := by
  have hpush : ∀ (xs : List β) {rest : List (Chunk (List β))},
      rest.IsChain (fun p q => p.joins = true → q.joins = false) →
      (pushCode xs rest).IsChain fun p q => p.joins = true → q.joins = false := by
    intro xs rest h
    cases rest with
    | nil => exact List.isChain_singleton _
    | cons p rest =>
      cases p with
      | code ys => exact List.isChain_cons.mpr (List.isChain_cons.mp h)
      | literal | attributeCode => exact List.isChain_cons_cons.mpr ⟨fun _ => rfl, h⟩
  induction qs with
  | nil => exact List.isChain_nil
  | cons p qs ih =>
    cases p with
    | code xs => exact hpush xs ih
    | literal | attributeCode =>
      refine List.isChain_cons.mpr ⟨fun q _ hjoins => ?_, ih⟩
      cases hjoins

lemma sections_filled (ps : List (Chunk β)) : ∀ q ∈ sections ps, q.pieces ≠ [] := by
  have hpush : ∀ (x : β) {rest : List (Chunk (List β))}, (∀ q ∈ rest, q.pieces ≠ []) →
      ∀ q ∈ pushCode [x] rest, q.pieces ≠ [] := by
    intro x rest h
    cases rest with
    | nil => simp [pushCode, Chunk.pieces]
    | cons p rest =>
      obtain ⟨-, hrest⟩ := List.forall_mem_cons.mp h
      cases p with
      | code ys => exact List.forall_mem_cons.mpr ⟨by simp [Chunk.pieces], hrest⟩
      | literal | attributeCode => exact List.forall_mem_cons.mpr ⟨by simp [Chunk.pieces], h⟩
  induction ps with
  | nil => simp [sections, joinCode]
  | cons p ps ih =>
    cases p with
    | code x => exact hpush x ih
    | literal | attributeCode => exact List.forall_mem_cons.mpr ⟨List.cons_ne_nil _ _, ih⟩

lemma sections_attribute {ps : List (Chunk β)} {xs : List β} (h : .attributeCode xs ∈ sections ps) :
    ∃ x, xs = [x] := by
  have hpush : ∀ (x : β) {rest : List (Chunk (List β))}, .attributeCode xs ∈ pushCode [x] rest →
      .attributeCode xs ∈ rest := by
    intro x rest hm
    cases rest with
    | nil => simp [pushCode] at hm
    | cons p rest => cases p <;> simpa [pushCode] using hm
  induction ps with
  | nil => cases h
  | cons p ps ih =>
    cases p with
    | code x => exact ih (hpush x h)
    | literal content =>
      rcases List.mem_cons.mp h with heq | hm
      · cases heq
      · exact ih hm
    | attributeCode x =>
      rcases List.mem_cons.mp h with heq | hm
      · cases heq
        exact ⟨x, rfl⟩
      · exact ih hm

lemma sections_split {ps : List (Chunk β)} {before after : List (Chunk (List β))} {xs : List β}
    (h : sections ps = before ++ .code xs :: after) :
    ps = before.flatMap Chunk.pieces ++ (xs.map .code ++ after.flatMap Chunk.pieces) ∧
      ∀ front x, before.flatMap Chunk.pieces ≠ front ++ [.code x] := by
  refine ⟨?_, ?_⟩
  · have hpieces := pieces_sections ps
    rw [h, List.flatMap_append, List.flatMap_cons] at hpieces
    exact hpieces.symm
  · intro front x hends
    rcases List.eq_nil_or_concat before with rfl | ⟨others, p, hbefore⟩
    · simp at hends
    · rw [List.concat_eq_append] at hbefore
      subst hbefore
      have hfilled := sections_filled ps p (by rw [h]; simp)
      have hchain := joinCode_apart (ps.map (Chunk.map fun x => [x]))
      rw [← sections, h, List.append_assoc] at hchain
      have hnext := (List.isChain_cons_cons.mp (List.isChain_append.mp hchain).2.1).1
      have hlast := congrArg List.getLast? hends
      rw [List.flatMap_append, List.flatMap_singleton, List.getLast?_append_of_ne_nil _ hfilled,
        List.getLast?_concat] at hlast
      have hmem := List.mem_of_getLast? hlast
      cases p with
      | code ys => cases hnext rfl
      | literal | attributeCode => simp [Chunk.pieces] at hmem

end

lemma joinCode_attributes (attributes : List Attribute) :
    joinCode (attributes.flatMap attributeChunks) = attributes.flatMap attributeChunks := by
  induction attributes with
  | nil => rfl
  | cons a rest ih =>
    obtain ⟨name, value⟩ := a
    rw [List.flatMap_cons]
    cases value with
    | text content => exact congrArg (attributeChunks ⟨name, .text content⟩ ++ ·) ih
    | code content => exact congrArg (attributeChunks ⟨name, .code content⟩ ++ ·) ih
    | expression id => exact ih

lemma joinCode_start (name : Text) (attributes : List Attribute) (rest : List (Chunk Text)) :
    joinCode (.literal (startOpening name) :: attributes.flatMap attributeChunks ++
        [.literal ['>']] ++ rest) =
      .literal (startOpening name) :: attributes.flatMap attributeChunks ++ [.literal ['>']] ++
        joinCode rest := by
  rw [List.append_assoc, List.append_assoc, List.singleton_append, joinCode_append, List.cons_append]
  change Chunk.literal _ :: (joinCode _ ++ _) = _
  rw [joinCode_attributes]
  rfl

lemma joinCode_node {raw : Bool} {node : Node} (hp : node.isPrintable = true)
    (hc : ∀ content, node ≠ .code content)
    (hi : ∀ raw, arePrintable node.children = true →
      chunks raw (merge node.children) = joinCode (chunks raw node.children))
    (rest : List (Chunk Text)) :
    joinCode (nodeChunks raw node ++ rest) = nodeChunks raw (mergeNode node) ++ joinCode rest := by
  cases node with
  | element name attributes children line =>
    simp only [Node.isPrintable, Bool.and_eq_true] at hp
    have hchildren : chunks (isRawText name) (merge children) = _ := hi (isRawText name) hp.2
    rw [mergeNode, nodeChunks, nodeChunks]
    split
    · exact joinCode_start name attributes rest
    · have hinner : joinCode (chunks (isRawText name) children ++ ([.literal (endTag name)] ++ rest)) =
          chunks (isRawText name) (merge children) ++ .literal (endTag name) :: joinCode rest := by
        rw [hchildren]
        exact joinCode_append _ _ _
      rw [List.append_assoc, List.append_assoc, joinCode_start, hinner]
      simp
  | text | comment | doctype | instruction => rfl
  | code content => exact absurd rfl (hc content)
  | placeholder => cases hp

lemma pushCode_node {raw : Bool} {node : Node} (hp : node.isPrintable = true)
    (hc : ∀ content, node ≠ .code content) (content : Text) (rest : List (Chunk Text)) :
    pushCode content (nodeChunks raw node ++ rest) = .code content :: (nodeChunks raw node ++ rest) := by
  cases node with
  | element name attributes children line =>
    rw [nodeChunks]
    split <;> rfl
  | text | comment | doctype | instruction => rfl
  | code content => exact absurd rfl (hc content)
  | placeholder => cases hp

lemma chunks_merge {nodes : List Node} : ∀ raw, arePrintable nodes = true →
    chunks raw (merge nodes) = joinCode (chunks raw nodes) := by
  induction nodes using siblings_induction with
  | nil => exact fun _ _ => rfl
  | cons node rest ihc ih =>
    intro raw h
    simp only [arePrintable, Bool.and_eq_true] at h
    have hrest := ih raw h.2
    have hmerged := merge_printable h.2
    rw [merge, chunks]
    by_cases hcode : ∃ content, node = .code content
    · obtain ⟨content, rfl⟩ := hcode
      have hpush : joinCode (nodeChunks raw (.code content) ++ chunks raw rest) =
          pushCode content (joinCode (chunks raw rest)) := rfl
      rw [hpush, ← hrest]
      cases hm : merge rest with
      | nil => rfl
      | cons next others =>
        rw [hm, arePrintable, Bool.and_eq_true] at hmerged
        by_cases hnext : ∃ more, next = .code more
        · obtain ⟨more, rfl⟩ := hnext
          rfl
        · simp only [not_exists] at hnext
          rw [chunks, pushCode_node hmerged.1 hnext]
          cases next with
          | code more => exact absurd rfl (hnext more)
          | _ => rfl
    · simp only [not_exists] at hcode
      rw [joinCode_node h.1 hcode ihc, ← hrest]
      cases node with
      | code content => exact absurd rfl (hcode content)
      | _ => rfl

lemma regions_eq_filter {ok : Text → Prop} {nodes : List Node} : ∀ {raw : Bool}, Tidy ok raw nodes →
    arePrintable nodes = true → regions nodes = (chunks raw nodes).filter Chunk.isCode := by
  have hattributes : ∀ attributes : List Attribute, attributes.flatMap attributeRegions =
      (attributes.flatMap attributeChunks).filter Chunk.isCode := by
    intro attributes
    induction attributes with
    | nil => rfl
    | cons a rest ih =>
      rw [List.flatMap_cons, List.flatMap_cons, List.filter_append, ih]
      obtain ⟨name, value⟩ := a
      cases value <;> rfl
  induction nodes using siblings_induction with
  | nil => exact fun _ _ => rfl
  | cons node rest ihc ih =>
    intro raw ht hp
    obtain ⟨hnode, -, hrest⟩ := ht
    simp only [arePrintable, Bool.and_eq_true] at hp
    rw [regions, chunks, List.filter_append, ih hrest hp.2]
    congr 1
    have hprintable := hp.1
    cases node with
    | element name attributes children line =>
      obtain ⟨-, -, hinside, hvoid⟩ := hnode
      simp only [Node.isPrintable, Bool.and_eq_true] at hprintable
      have hchildren : regions children = (chunks (isRawText name) children).filter Chunk.isCode :=
        ihc hinside hprintable.2
      rw [nodeRegions, nodeChunks, hattributes, hchildren]
      split
      · rename_i hv
        rw [hvoid hv]
        simp [chunks, Chunk.isCode]
      · simp [Chunk.isCode]
    | text | comment | doctype | instruction | code => rfl
    | placeholder => cases hprintable

lemma emit_sections {c c' : Compiler} {source : Text} (h : c.parse source = (.ok (), c')) :
    ∃ nodes ps, emit? c'.table c'.document = some nodes ∧
      stream? c'.table false c'.document = some ps ∧
      regions nodes =
        ((sections ps).filter Chunk.isCode).map (Chunk.map (List.flatMap Command.text)) := by
  obtain ⟨-, ps, hps⟩ := parse_ok h
  obtain ⟨out, hout, hprintable, hchunks⟩ := expand_chunks hps
  obtain ⟨nodes, hemit, hmerged, htidy⟩ := emit_tidy (fun _ _ _ _ => trivial)
    (parse_isWritten source) (parse_resolve h) hps (parse_tidy source false)
  have hnodes : nodes = merge out := by
    rw [emit?, hout] at hemit
    exact (Option.some.inj hemit).symm
  have hsections : chunks false nodes =
      (sections ps).map (Chunk.map (List.flatMap Command.text)) := by
    rw [hnodes, chunks_merge false hprintable, hchunks, sections, ← joinCode_map, List.map_map]
    congr 1
    apply List.map_congr_left
    intro p _
    cases p <;> simp [Chunk.map]
  have hfilter : ∀ p : Chunk (List Command),
      (Chunk.map (List.flatMap Command.text) p).isCode = p.isCode := by
    intro p
    cases p <;> rfl
  refine ⟨nodes, ps, hemit, hps, ?_⟩
  rw [regions_eq_filter htidy hmerged, hsections, List.filter_map]
  congr 1
  apply List.filter_congr
  intro p _
  exact hfilter p

end Stencil.Template

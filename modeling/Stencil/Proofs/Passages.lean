import Stencil.Proofs.RoundTrip
import Stencil.Proofs.Segments
import Mathlib.Tactic.Common

/-!
The stretches of the source that become the texts of a tree, with the end tags that are ignored in them.
-/

namespace Stencil.Markup

mutual

def Node.texts : Node → List (Text × Nat)
  | .text content line => [(content, line)]
  | .element _ _ children _ => texts children
  | .placeholder _ _ children => texts children
  | .comment _ _ | .doctype _ | .instruction _ _ | .code _ => []

def texts : List Node → List (Text × Nat)
  | [] => []
  | node :: rest => node.texts ++ texts rest

end

@[simp] lemma texts_append (as bs : List Node) : texts (as ++ bs) = texts as ++ texts bs := by
  induction as with
  | nil => rfl
  | cons node as ih => rw [List.cons_append, texts, texts, ih, List.append_assoc]

lemma texts_reverse_cons (node : Node) (siblings : List Node) :
    texts (node :: siblings).reverse = texts siblings.reverse ++ node.texts := by
  rw [List.reverse_cons, texts_append, texts, texts, List.append_nil]

namespace Builder

def names (b : Builder) : List Text :=
  b.elements.map OpenElement.name

def openTexts : List OpenElement → List (Text × Nat)
  | [] => []
  | e :: outer => openTexts outer ++ texts e.children.reverse

def texts (b : Builder) : List (Text × Nat) :=
  Markup.texts b.roots.reverse ++ openTexts b.elements

def outerTexts (b : Builder) : List (Text × Nat) :=
  match b.elements with
  | [] => []
  | _ :: outer => Markup.texts b.roots.reverse ++ openTexts outer

def endsInText (b : Builder) : Bool :=
  startsWithText b.siblings

variable (b : Builder)

lemma texts_siblings : b.texts = b.outerTexts ++ Markup.texts b.siblings.reverse := by
  obtain ⟨elements, roots⟩ := b
  cases elements with
  | nil => exact List.append_nil _
  | cons e outer => exact (List.append_assoc _ _ _).symm

lemma texts_mapSiblings (f : List Node → List Node) :
    (b.mapSiblings f).names = b.names ∧
      (b.mapSiblings f).texts = b.outerTexts ++ Markup.texts (f b.siblings).reverse := by
  obtain ⟨elements, roots⟩ := b
  cases elements with
  | nil => exact ⟨rfl, List.append_nil _⟩
  | cons e outer => exact ⟨rfl, (List.append_assoc _ _ _).symm⟩

lemma add_spec (node : Node) :
    (b.add node).names = b.names ∧ (b.add node).texts = b.texts ++ node.texts ∧
      (b.add node).endsInText = startsWithText [node] := by
  obtain ⟨hnames, htexts⟩ := b.texts_mapSiblings (node :: ·)
  refine ⟨hnames, ?_, ?_⟩
  · rw [add, htexts, texts_reverse_cons, texts_siblings, List.append_assoc]
  · rw [add, endsInText, siblings_mapSiblings]
    cases node <;> rfl

lemma closeElement_spec {e : OpenElement} {outer : List OpenElement} (h : b.elements = e :: outer) :
    b.closeElement.names = outer.map OpenElement.name ∧ b.closeElement.texts = b.texts ∧
      b.closeElement.endsInText = false := by
  obtain ⟨elements, roots⟩ := b
  cases h
  obtain ⟨hnames, htexts, hends⟩ := add_spec ⟨outer, roots⟩ e.close
  refine ⟨hnames, ?_, hends⟩
  rw [closeElement, htexts, OpenElement.close, Node.texts, texts, texts, openTexts, List.append_assoc]

lemma closeElements_spec (n : Nat) (h : n ≤ b.elements.length) :
    (closeElements n b).names = b.names.drop n ∧ (closeElements n b).texts = b.texts ∧
      (0 < n → (closeElements n b).endsInText = false) := by
  induction n generalizing b with
  | zero => exact ⟨rfl, rfl, fun h => absurd h (Nat.lt_irrefl 0)⟩
  | succ n ih =>
    cases he : b.elements with
    | nil =>
      rw [he] at h
      exact absurd h (Nat.not_succ_le_zero n)
    | cons e outer =>
      obtain ⟨hnames, htexts, hends⟩ := closeElement_spec b he
      have hlength : n ≤ b.closeElement.elements.length := by
        have := congrArg List.length hnames
        rw [names, List.length_map, List.length_map] at this
        rw [he, List.length_cons] at h
        omega
      obtain ⟨hnames', htexts', hends'⟩ := ih b.closeElement hlength
      refine ⟨?_, htexts'.trans htexts, fun _ => ?_⟩
      · rw [closeElements, hnames', hnames, names, he]
        rfl
      · cases n with
        | zero => exact hends
        | succ n => exact hends' (Nat.succ_pos n)

lemma finish_texts : Markup.texts b.finish = b.texts := by
  obtain ⟨hnames, htexts, -⟩ := closeElements_spec b b.elements.length (Nat.le_refl _)
  have hnone : (closeElements b.elements.length b).elements = [] := by
    have := congrArg List.length hnames
    simpa [names] using this
  rw [finish, ← htexts, texts, hnone]
  exact (List.append_nil _).symm

end Builder

/-- A stretch of the source that becomes one text. Its characters are marked by whether they are read
as text. -/
structure Passage where
  lead : Text
  inside : Option Text
  start : Nat
  content : Text
  marks : List (Char × Bool)
  deriving DecidableEq, Repr

def spelled (marks : List (Char × Bool)) : Text :=
  marks.map Prod.fst

def kept (marks : List (Char × Bool)) : Text :=
  (marks.filter Prod.snd).map Prod.fst

def skipped (marks : List (Char × Bool)) : Text :=
  (marks.filter fun m => !m.2).map Prod.fst

namespace Passage

def read (raw content : Text) (p : Passage) : Passage :=
  { p with content := p.content ++ content, marks := p.marks ++ raw.map fun c => (c, true) }

def skip (raw : Text) (p : Passage) : Passage :=
  { p with marks := p.marks ++ raw.map fun c => (c, false) }

def isRaw (p : Passage) : Bool :=
  p.inside.any isRawText

def entry (lines : LineIndex) (p : Passage) : Text × Nat :=
  (p.content, lines.line p.start)

end Passage

inductive Effect where
  | joins (content : Text) (start : Nat)
  | nothing
  | ends (names : List Text)

def effect (names : List Text) : Option Token → Effect
  | none => .nothing
  | some (.text content start) => .joins content start
  | some (.endTag name _) =>
    match names.findIdx? (· == name) with
    | some i => .ends (names.drop (i + 1))
    | none => .nothing
  | some (.startTag tag _) =>
    .ends (if tag.selfClosing || isVoid tag.name then names else tag.name :: names)
  | some (.comment _ _) | some (.doctype _) => .ends names

lemma effect_joins {names : List Text} {token : Option Token} {content : Text} {start : Nat}
    (h : effect names token = .joins content start) : token = some (.text content start) := by
  cases token with
  | none => cases h
  | some token =>
    cases token with
    | endTag name start =>
      rw [effect] at h
      split at h <;> cases h
    | text content start =>
      cases h
      rfl
    | startTag | comment | doctype => cases h

def passagesFrom (names : List Text) (lead : Text) (current : Option Passage) :
    List Segment → List Passage
  | [] => current.toList
  | s :: rest =>
    match effect names s.token with
    | .joins content start =>
      let p := current.getD ⟨lead, names.head?, start, [], []⟩
      passagesFrom names (lead ++ s.raw) (some (p.read s.raw content)) rest
    | .nothing => passagesFrom names (lead ++ s.raw) (current.map (·.skip s.raw)) rest
    | .ends names => current.toList ++ passagesFrom names (lead ++ s.raw) none rest

def passages (source : Text) : List Passage :=
  passagesFrom [] [] none (Lexer.segmentsFrom .data 0 none source)

namespace Builder

variable {b : Builder} {lines : LineIndex}

lemma step_nothing {token : Token} (h : effect b.names (some token) = .nothing) :
    b.step lines token = b := by
  cases token with
  | startTag tag start => cases h
  | endTag name start =>
    rw [effect, names, List.findIdx?_map] at h
    rw [step, closeNamed]
    split at h
    · cases h
    · rename_i hnone
      have hnone' : b.elements.findIdx? (fun e => e.name == name) = none := hnone
      rw [hnone']
  | text content start => cases h
  | comment content start => cases h
  | doctype name => cases h

lemma step_ends {token : Token} {names' : List Text} (h : effect b.names (some token) = .ends names') :
    (b.step lines token).names = names' ∧ (b.step lines token).texts = b.texts ∧
      (b.step lines token).endsInText = false := by
  cases token with
  | startTag tag start =>
    cases h
    rw [step]
    dsimp only
    split
    · obtain ⟨hnames, htexts, hends⟩ := b.add_spec (.element tag.name _ [] (lines.line start))
      exact ⟨hnames, htexts.trans (List.append_nil _), hends⟩
    · exact ⟨rfl, congrArg (Markup.texts b.roots.reverse ++ ·) (List.append_nil _), rfl⟩
  | endTag name start =>
    rw [effect, names, List.findIdx?_map] at h
    rw [step, closeNamed]
    split at h
    · rename_i i hfound
      cases h
      have hfound' : b.elements.findIdx? (fun e => e.name == name) = some i := hfound
      obtain ⟨hlt, -⟩ := List.findIdx?_eq_some_iff_findIdx_eq.mp hfound'
      obtain ⟨hnames, htexts, hends⟩ := closeElements_spec b (i + 1) hlt
      rw [hfound']
      exact ⟨hnames, htexts, hends (Nat.succ_pos i)⟩
    · cases h
  | text content start => cases h
  | comment content start =>
    cases h
    rw [step]
    split
    · obtain ⟨hnames, htexts, hends⟩ := b.add_spec (.instruction content (lines.line start))
      exact ⟨hnames, htexts.trans (List.append_nil _), hends⟩
    · obtain ⟨hnames, htexts, hends⟩ := b.add_spec (.comment content (lines.line start))
      exact ⟨hnames, htexts.trans (List.append_nil _), hends⟩
  | doctype name =>
    cases h
    obtain ⟨hnames, htexts, hends⟩ := b.add_spec (.doctype name)
    exact ⟨hnames, htexts.trans (List.append_nil _), hends⟩

structure Follows (lines : LineIndex) (b : Builder) (done : List Passage) (current : Option Passage) :
    Prop where
  texts : b.texts = (done ++ current.toList).map (Passage.entry lines)
  ends : b.endsInText = current.isSome

lemma startsWithText_iff {siblings : List Node} :
    startsWithText siblings = true ↔ ∃ content line others, siblings = .text content line :: others := by
  fun_cases startsWithText siblings with
  | case1 content line others => simp
  | case2 siblings hno => simpa using hno

lemma Follows.skip {done : List Passage} {current : Option Passage} (h : Follows lines b done current)
    (raw : Text) : Follows lines b done (current.map (·.skip raw)) := by
  obtain ⟨htexts, hends⟩ := h
  cases current with
  | none => exact ⟨htexts, hends⟩
  | some p => exact ⟨htexts.trans (by rw [List.map_append, List.map_append]; rfl), hends⟩

lemma Follows.joins {done : List Passage} {current : Option Passage} (h : Follows lines b done current)
    (lead raw content : Text) (inside : Option Text) (start : Nat) :
    (b.step lines (.text content start)).names = b.names ∧
      Follows lines (b.step lines (.text content start)) done
        (some ((current.getD ⟨lead, inside, start, [], []⟩).read raw content)) := by
  obtain ⟨htexts, hends⟩ := h
  cases current with
  | none =>
    have hadd := addText_apart hends content (lines.line start)
    obtain ⟨hnames, hadded, hends'⟩ := b.add_spec (.text content (lines.line start))
    rw [step, hadd]
    refine ⟨hnames, ?_, hends'⟩
    rw [hadded, htexts, Option.toList_none, List.append_nil, Option.toList_some, List.map_append]
    rfl
  | some p =>
    obtain ⟨before, l, others, hsiblings⟩ := startsWithText_iff.mp hends
    have hadd : b.addText content (lines.line start) =
        b.mapSiblings fun _ => .text (before ++ content) l :: others := by
      apply mapSiblings_congr
      rw [hsiblings]
    obtain ⟨hnames, hadded⟩ :=
      b.texts_mapSiblings fun _ => .text (before ++ content) l :: others
    rw [texts_siblings, hsiblings, texts_reverse_cons, ← List.append_assoc, Option.toList_some,
      List.map_append] at htexts
    obtain ⟨hdone, hlast⟩ := List.append_inj' htexts rfl
    obtain ⟨hbefore, hline⟩ := Prod.mk.inj (List.cons.inj hlast).1
    rw [step, hadd]
    refine ⟨hnames, ?_, ?_⟩
    · rw [hadded, texts_reverse_cons, ← List.append_assoc, hdone, hbefore, hline, Option.toList_some,
        List.map_append]
      rfl
    · rw [endsInText, siblings_mapSiblings]
      rfl

lemma texts_foldl (segments : List Segment) (lead : Text) {done : List Passage}
    {current : Option Passage} (h : Follows lines b done current) :
    Markup.texts ((segments.filterMap Segment.token).foldl (step lines) b).finish =
      (done ++ passagesFrom b.names lead current segments).map (Passage.entry lines) := by
  induction segments generalizing b lead done current with
  | nil =>
    rw [passagesFrom, ← h.texts]
    exact b.finish_texts
  | cons s rest ih =>
    rw [passagesFrom]
    split
    · rename_i content start heffect
      obtain ⟨hnames, hfollows⟩ := h.joins lead s.raw content b.names.head? start
      rw [List.filterMap_cons_some (effect_joins heffect), List.foldl_cons,
        ih (lead ++ s.raw) hfollows, hnames]
    · rename_i heffect
      have hskip := h.skip s.raw
      cases htoken : s.token with
      | none => rw [List.filterMap_cons_none htoken, ih (lead ++ s.raw) hskip]
      | some token =>
        rw [htoken] at heffect
        rw [List.filterMap_cons_some htoken, List.foldl_cons, step_nothing heffect,
          ih (lead ++ s.raw) hskip]
    · rename_i names' heffect
      cases htoken : s.token with
      | none =>
        rw [htoken] at heffect
        cases heffect
      | some token =>
        rw [htoken] at heffect
        obtain ⟨hnames, htexts, hends⟩ := @step_ends b lines token names' heffect
        have hfollows : Follows lines (b.step lines token) (done ++ current.toList) none := by
          refine ⟨?_, hends⟩
          rw [htexts, h.texts, Option.toList_none, List.append_nil]
        rw [List.filterMap_cons_some htoken, List.foldl_cons, ih (lead ++ s.raw) hfollows, hnames,
          List.append_assoc]

end Builder

lemma texts_parse (source : Text) :
    texts (parse source) = (passages source).map (Passage.entry (.ofText source)) := by
  have hempty : Builder.Follows (.ofText source) .empty [] none := ⟨rfl, rfl⟩
  have hrun := Builder.texts_foldl (Lexer.segmentsFrom .data 0 none source) [] hempty
  rw [(Lexer.segmentsFrom_spec .data 0 none source).2] at hrun
  exact hrun

lemma spelled_append (as bs : List (Char × Bool)) : spelled (as ++ bs) = spelled as ++ spelled bs :=
  List.map_append

lemma kept_append (as bs : List (Char × Bool)) : kept (as ++ bs) = kept as ++ kept bs := by
  rw [kept, List.filter_append, List.map_append, kept, kept]

lemma spelled_marked (raw : Text) (b : Bool) : spelled (raw.map fun c => (c, b)) = raw := by
  rw [spelled, List.map_map]
  exact List.map_id raw

lemma kept_marked (raw : Text) (b : Bool) :
    kept (raw.map fun c => (c, b)) = if b then raw else [] := by
  induction raw with
  | nil => cases b <;> rfl
  | cons c raw ih =>
    cases b with
    | true => exact congrArg (c :: ·) ih
    | false => exact ih

lemma lineBreaks_spelled (marks : List (Char × Bool)) :
    Text.lineBreaks (spelled marks) = Text.lineBreaks (kept marks) + Text.lineBreaks (skipped marks) := by
  induction marks with
  | nil => rfl
  | cons m marks ih =>
    obtain ⟨c, b⟩ := m
    have hspelled : spelled ((c, b) :: marks) = c :: spelled marks := rfl
    rw [hspelled, Text.lineBreaks_cons, ih]
    cases b with
    | true =>
      have hkept : kept ((c, true) :: marks) = c :: kept marks := rfl
      have hskipped : skipped ((c, true) :: marks) = skipped marks := rfl
      rw [hkept, hskipped, Text.lineBreaks_cons, Nat.add_assoc]
    | false =>
      have hkept : kept ((c, false) :: marks) = kept marks := rfl
      have hskipped : skipped ((c, false) :: marks) = c :: skipped marks := rfl
      rw [hkept, hskipped, Text.lineBreaks_cons]
      omega

lemma kept_split {marks : List (Char × Bool)} {i : Nat} {c : Char} (h : (kept marks)[i]? = some c) :
    ∃ front back, marks = front ++ (c, true) :: back ∧ kept front = (kept marks).take i := by
  induction marks generalizing i with
  | nil => cases h
  | cons m marks ih =>
    obtain ⟨d, b⟩ := m
    cases b with
    | false =>
      obtain ⟨front, back, hmarks, hfront⟩ := ih h
      exact ⟨(d, false) :: front, back, by rw [hmarks]; rfl, hfront⟩
    | true =>
      have hkept : kept ((d, true) :: marks) = d :: kept marks := rfl
      rw [hkept] at h ⊢
      cases i with
      | zero =>
        cases h
        exact ⟨[], marks, rfl, rfl⟩
      | succ i =>
        obtain ⟨front, back, hmarks, hfront⟩ := ih h
        refine ⟨(d, true) :: front, back, by rw [hmarks]; rfl, ?_⟩
        exact congrArg (d :: ·) hfront

structure Passage.EndsAt (p : Passage) (lead : Text) : Prop where
  place : p.lead ++ spelled p.marks = lead
  content : Lexer.Alike p.content (kept p.marks)

lemma Passage.EndsAt.read {p : Passage} {lead raw content : Text} (h : p.EndsAt lead)
    (hc : Lexer.Alike content raw) : (p.read raw content).EndsAt (lead ++ raw) := by
  constructor
  · rw [Passage.read, spelled_append, spelled_marked, ← List.append_assoc, h.place]
  · rw [Passage.read, kept_append, kept_marked]
    exact h.content.append hc

lemma Passage.EndsAt.skip {p : Passage} {lead : Text} (h : p.EndsAt lead) (raw : Text) :
    (p.skip raw).EndsAt (lead ++ raw) := by
  constructor
  · rw [Passage.skip, spelled_append, spelled_marked, ← List.append_assoc, h.place]
  · rw [Passage.skip, kept_append, kept_marked]
    exact (List.append_nil (kept p.marks)).symm ▸ h.content

lemma passagesFrom_endsAt {segments : List Segment}
    (hs : ∀ s ∈ segments, ∀ text start, s.token = some (.text text start) → Lexer.Alike text s.raw)
    {names : List Text} {lead : Text} {current : Option Passage}
    (hc : ∀ p ∈ current, p.EndsAt lead) :
    ∀ p ∈ passagesFrom names lead current segments,
      ∃ stop, stop <+: lead ++ segments.flatMap Segment.raw ∧ p.EndsAt stop := by
  induction segments generalizing names lead current with
  | nil =>
    intro p hp
    exact ⟨lead, List.prefix_append _ _, hc p (Option.mem_toList.mp hp)⟩
  | cons s rest ih =>
    obtain ⟨hfirst, hrest⟩ := List.forall_mem_cons.mp hs
    have hsource : lead ++ (s :: rest).flatMap Segment.raw =
        lead ++ s.raw ++ rest.flatMap Segment.raw := by
      rw [List.flatMap_cons, List.append_assoc]
    rw [passagesFrom, hsource]
    split
    · rename_i content start heffect
      apply ih hrest
      intro p hp
      have hopen : (current.getD ⟨lead, names.head?, start, [], []⟩).EndsAt lead := by
        cases current with
        | none => exact ⟨List.append_nil lead, rfl⟩
        | some q => exact hc q rfl
      cases hp
      exact hopen.read (hfirst content start (effect_joins heffect))
    · apply ih hrest
      intro p hp
      obtain ⟨q, hq, rfl⟩ := Option.map_eq_some_iff.mp hp
      exact (hc q hq).skip s.raw
    · intro p hp
      rcases List.mem_append.mp hp with hp | hp
      · refine ⟨lead, ?_, hc p (Option.mem_toList.mp hp)⟩
        rw [List.append_assoc]
        exact List.prefix_append _ _
      · refine ih hrest ?_ p hp
        intro q hq
        cases hq

lemma passages_endsAt {source : Text} (h : Lexer.Literal source) :
    ∀ p ∈ passages source, ∃ stop, stop <+: source ∧ p.EndsAt stop := by
  have halike := @Lexer.segmentsFrom_alike .data 0 none source h
  have hnone : ∀ p ∈ (none : Option Passage), p.EndsAt [] := fun p hp => by cases hp
  have hall := @passagesFrom_endsAt _ halike [] [] none hnone
  rw [(Lexer.segmentsFrom_spec .data 0 none source).1] at hall
  exact hall

lemma passages_split {source : Text} (h : Lexer.Literal source) {p : Passage} (hp : p ∈ passages source)
    {i : Nat} {c : Char} (hc : p.content[i]? = some c) (hnull : c ≠ '\x00')
    (hreplaced : c ≠ CharacterReference.replacement) :
    ∃ front back after, p.marks = front ++ (c, true) :: back ∧ (kept front).length = i ∧
      source = p.lead ++ spelled front ++ c :: after ∧
      Text.lineBreaks (spelled front) =
        Text.lineBreaks (p.content.take i) + Text.lineBreaks (skipped front) := by
  obtain ⟨stop, ⟨rest, hrest⟩, hplace, hcontent⟩ := passages_endsAt h p hp
  have hkept := hcontent.getElem? hc hnull hreplaced
  obtain ⟨front, back, hmarks, hfront⟩ := kept_split hkept
  refine ⟨front, back, spelled back ++ rest, hmarks, ?_, ?_, ?_⟩
  · obtain ⟨hlt, -⟩ := List.getElem?_eq_some_iff.mp hkept
    rw [hfront, List.length_take, Nat.min_eq_left (Nat.le_of_lt hlt)]
  · rw [← hrest, ← hplace, hmarks, spelled_append]
    simp only [List.append_assoc]
    rfl
  · rw [lineBreaks_spelled, hfront, (hcontent.take i).lineBreaks]

def Passage.Placed (p : Passage) : Prop :=
  p.isRaw = false → p.start = Text.byteSize p.lead

lemma effect_script {names : List Text} {tag : Tag} {start : Nat}
    (h : (tag.selfClosing || isVoid tag.name) = false) :
    effect names (some (.startTag tag start)) = .ends (tag.name :: names) := by
  rw [effect, h]
  rfl

lemma passagesFrom_placed (content : Lexer.Content) (offset : Nat) (pending : Option Nat) (cs : Text)
    {names : List Text} {lead : Text} {current : Option Passage} (hoffset : offset = Text.byteSize lead)
    (hnames : ∀ name start, content = .script name start →
      names.head? = some name ∧ isRawText name = true)
    (hc : ∀ p ∈ current, p.Placed) :
    ∀ p ∈ passagesFrom names lead current (Lexer.segmentsFrom content offset pending cs), p.Placed := by
  fun_induction Lexer.segmentsFrom content offset pending cs generalizing names lead current with
  | case1 =>
    intro p hp
    exact hc p (Option.mem_toList.mp hp)
  | case2 content offset pending c rest first =>
    rename_i ih
    have hnext : offset + Text.byteSize first.segment.raw = Text.byteSize (lead ++ first.segment.raw) := by
      rw [Text.byteSize_append, hoffset]
    rw [passagesFrom]
    split
    · rename_i text start heffect
      have htoken := effect_joins heffect
      refine ih hnext ?_ ?_
      · intro name from' hscript
        obtain ⟨tag, start', htag, -⟩ := Lexer.cut_script hscript
        cases htoken.symm.trans htag
      · intro p hp
        cases hp
        cases current with
        | some q => exact hc q rfl
        | none =>
          intro hraw
          have hplain : ∀ name from', content ≠ .script name from' := by
            intro name from' hscript
            obtain ⟨hhead, hname⟩ := hnames name from' hscript
            have htrue : names.head?.any isRawText = true := by rw [hhead]; exact hname
            cases hraw.symm.trans htrue
          exact (Lexer.cut_start hplain htoken).trans hoffset
    · rename_i heffect
      refine ih hnext ?_ ?_
      · intro name from' hscript
        obtain ⟨tag, start', htag, hopen, -⟩ := Lexer.cut_script hscript
        have heffect' : effect names (some (.startTag tag start')) = .nothing := htag ▸ heffect
        rw [effect_script hopen] at heffect'
        cases heffect'
      · intro p hp
        obtain ⟨q, hq, rfl⟩ := Option.map_eq_some_iff.mp hp
        exact hc q hq
    · rename_i names' heffect
      intro p hp
      rcases List.mem_append.mp hp with hp | hp
      · exact hc p (Option.mem_toList.mp hp)
      · refine ih hnext ?_ ?_ p hp
        · intro name from' hscript
          obtain ⟨tag, start', htag, hopen, rfl, hraw⟩ := Lexer.cut_script hscript
          have heffect' : effect names (some (.startTag tag start')) = .ends names' := htag ▸ heffect
          rw [effect_script hopen] at heffect'
          cases heffect'
          exact ⟨rfl, hraw⟩
        · intro q hq
          cases hq

lemma passages_placed (source : Text) : ∀ p ∈ passages source, p.Placed := by
  apply passagesFrom_placed
  · rfl
  · intro name start h
    cases h
  · intro p hp
    cases hp

end Stencil.Markup

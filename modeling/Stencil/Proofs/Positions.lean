import Stencil.Proofs.Splitting
import Mathlib.Tactic.Common

namespace Stencil.Template

open Markup Outcome

def TagFault.braces : TagFault → List (Char × Nat)
  | .unclosed position | .splitCharacter position => [('{', position)]
  | .unopened position => [('}', position)]
  | .nested position opened => [('{', position), ('{', opened)]

namespace Tag

lemma ending_error {opened count : Nat} {opens closes : List Nat} {fault : TagFault}
    (h : ending opened count opens closes = .error fault) :
    fault = .unclosed opened ∨ ∃ i ∈ opens, fault = .nested i opened := by
  unfold ending at h
  split at h
  · rename_i i hfind
    cases h
    exact .inr ⟨i, List.mem_of_find?_eq_some hfind, rfl⟩
  · split at h
    · cases h
    · cases h
      exact .inl rfl

lemma mem_of_min? {first : Nat} {opens closes : List Nat} (h : (opens ++ closes).min? = some first)
    (hcloses : first ∉ closes) : first ∈ opens := by
  rcases List.mem_append.mp (List.min?_mem h) with hmem | hmem
  · exact hmem
  · exact absurd hmem hcloses

lemma verdict_error {text : Text} {fault : TagFault}
    (h : verdict (pairs '{' text) (pairs '}' text) = .error fault) :
    ∀ b ∈ fault.braces, b.2 ∈ pairs b.1 text := by
  unfold verdict at h
  split at h
  · cases h
  · rename_i first hmin
    split at h
    · rename_i hcloses
      cases h
      simpa [TagFault.braces] using hcloses
    · rename_i hcloses
      have hopens := mem_of_min? hmin hcloses
      rcases ending_error (map_error.mp h) with rfl | ⟨i, hi, rfl⟩
      · simpa [TagFault.braces] using hopens
      · simpa [TagFault.braces] using ⟨(List.mem_filter.mp hi).1, hopens⟩

lemma verdict_found {text : Text} {start stop : Nat}
    (h : verdict (pairs '{' text) (pairs '}' text) = .ok (some (start, stop))) :
    start ∈ pairs '{' text := by
  unfold verdict at h
  split at h
  · cases h
  · rename_i first hmin
    split at h
    · cases h
    · rename_i hcloses
      obtain ⟨_, -, hrange⟩ := map_ok.mp h
      cases hrange
      exact mem_of_min? hmin hcloses

lemma next?_braces {text : Text} {fault : TagFault} (h : next? text = .error fault) :
    ∀ b ∈ fault.braces, b.2 ∈ pairs b.1 text := by
  have hreports := reports_range? text
  rw [range?_eq] at hreports
  rcases hv : verdict (pairs '{' text) (pairs '}' text) with other | found
  · rw [hv] at hreports
    cases h.symm.trans hreports
    exact verdict_error hv
  · rw [hv] at hreports
    cases found with
    | none => cases h.symm.trans hreports
    | some range =>
      rcases hreports with ⟨tag, htag, -⟩ | hsplit
      · cases h.symm.trans htag
      · cases h.symm.trans hsplit
        simpa [TagFault.braces] using verdict_found hv

lemma pairs_append {brace : Char} {rest : Text} {i : Nat} (h : i ∈ pairs brace rest) (front : Text) :
    Text.byteSize front + i ∈ pairs brace (front ++ rest) := by
  obtain ⟨hi, hpair⟩ := List.mem_filter.mp h
  refine List.mem_filter.mpr ⟨?_, ?_⟩
  · simpa using hi
  · rw [Text.bytes_append, ← Text.length_bytes, List.drop_length_add_append]
    exact hpair

end Tag

lemma text_fault {o : Options} {line : Nat} {content : Text} {done : List Node} {t : Table Fragment}
    {stop : Stop} {fault : TagFault} (h : Resolve.text o line content done t = .error stop)
    (hcause : stop.error.cause = .tag fault) :
    ∃ front rest, parts content = front ++ [.literal rest] ∧ Tag.next? rest = .error fault ∧
      stop.error.line =
        line + Text.lineBreaks (sources front) + Text.lineBreaksBefore fault.position rest ∧
      (Text.byteSize (sources front) = 0 ↔ front = []) := by
  induction content using scan_induction generalizing line done t with
  | fault content found hn =>
    rw [text_step, hn] at h
    have hstop := fail_error h
    rw [hstop] at hcause ⊢
    cases hcause
    exact ⟨[], content, parts_error hn, hn, rfl, iff_of_true rfl rfl⟩
  | plain content hn =>
    rw [text_step, hn] at h
    cases h
  | tag content tag hn ih =>
    rw [text_step, hn] at h
    rcases bind_error.mp h with h | ⟨id, t', -, h⟩
    · -- A tag that is refused is no fault of its braces.
      have hrefuses := (tag_error h).2
      rw [hcause] at hrefuses
      cases hrefuses
    · obtain ⟨front, rest, hparts, hrest, hline, -⟩ := ih h
      have hsources : sources (.literal tag.before :: .tag tag :: front) =
          tag.before ++ (tag.source ++ sources front) := rfl
      refine ⟨.literal tag.before :: .tag tag :: front, rest, ?_, hrest, ?_, ?_⟩
      · rw [parts_tag hn, hparts]
        rfl
      · rw [hline, hsources, Text.lineBreaks_append, Text.lineBreaks_append]
        omega
      · have hsize := Tag.next?_byteSize hn
        rw [hsources, Text.byteSize_append, Text.byteSize_append]
        exact iff_of_false (by omega) (by simp)

/-- A fault is about braces that stand where it says in what the tags before it leave, and its line is
that of these braces. So its place is a place in the text iff no tag comes before. -/
theorem fault_position {o : Options} {line : Nat} {content : Text} {done : List Node}
    {t : Table Fragment} {stop : Stop} {fault : TagFault}
    (h : Resolve.text o line content done t = .error stop) (hcause : stop.error.cause = .tag fault) :
    ∃ front rest, parts content = front ++ [.literal rest] ∧ content = sources front ++ rest ∧
      Tag.next? rest = .error fault ∧
      (∀ b ∈ fault.braces, Text.byteSize (sources front) + b.2 ∈ Tag.pairs b.1 content) ∧
      stop.error.line =
        line + Text.lineBreaksBefore (Text.byteSize (sources front) + fault.position) content ∧
      (fault.position = Text.byteSize (sources front) + fault.position ↔ front = []) := by
  obtain ⟨front, rest, hparts, hrest, hline, hfront⟩ := text_fault h hcause
  have hcontent : content = sources front ++ rest := by
    have hwhole := sources_parts content
    rw [hparts] at hwhole
    simpa [sources, Part.source] using hwhole.symm
  refine ⟨front, rest, hparts, hcontent, hrest, fun b hb => ?_, ?_, ?_⟩
  · rw [hcontent]
    exact Tag.pairs_append (Tag.next?_braces hrest b hb) _
  · rw [hline, hcontent, Text.lineBreaksBefore_add, Nat.add_assoc]
  · rw [← hfront]
    omega

def errorOf? {α : Type} : Except Stop α → Option SyntaxError
  | .error stop => some stop.error
  | .ok _ => none

lemma exists_of_errorOf? {α : Type} {r : Except Stop α} {e : SyntaxError} (h : errorOf? r = some e) :
    ∃ stop, r = .error stop ∧ stop.error = e := by
  cases r with
  | error stop => exact ⟨stop, rfl, Option.some.inj h⟩
  | ok result => cases h

def strayClose : Text :=
  "\x7b\x7b $a \x7d\x7d\n\x7d\x7d".toList

theorem fault_position_stray :
    ∃ stop front, Resolve.text ⟨[], true⟩ 1 strayClose [] .empty = .error stop ∧
      stop.error.cause = .tag (.unopened 1) ∧
      Text.byteSize (sources front) + 1 ∈ Tag.pairs '}' strayClose ∧
      stop.error.line =
        1 + Text.lineBreaksBefore (Text.byteSize (sources front) + 1) strayClose := by
  have herror : errorOf? (Resolve.text ⟨[], true⟩ 1 strayClose [] .empty) =
      some ⟨.tag (.unopened 1), 2⟩ := by
    decide +kernel
  obtain ⟨stop, hstop, he⟩ := exists_of_errorOf? herror
  have hcause : stop.error.cause = .tag (.unopened 1) := by rw [he]
  obtain ⟨front, rest, -, -, -, hbraces, hline, -⟩ := fault_position hstop hcause
  exact ⟨stop, front, hstop, hcause, hbraces ('}', 1) List.mem_cons_self, hline⟩

theorem later_fault_misplaced :
    (∃ stop, Resolve.text ⟨[], true⟩ 1 strayClose [] .empty = .error stop ∧
      stop.error.cause = .tag (.unopened 1)) ∧
    Tag.pairs '}' strayClose = [6, 9] := by
  have herror : errorOf? (Resolve.text ⟨[], true⟩ 1 strayClose [] .empty) =
      some ⟨.tag (.unopened 1), 2⟩ ∧ Tag.pairs '}' strayClose = [6, 9] := by
    decide +kernel
  obtain ⟨stop, hstop, he⟩ := exists_of_errorOf? herror.1
  exact ⟨⟨stop, hstop, by rw [he]⟩, herror.2⟩

end Stencil.Template

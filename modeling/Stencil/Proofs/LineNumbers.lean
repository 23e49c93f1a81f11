import Stencil.Proofs.Encoding
import Stencil.Proofs.Lines
import Mathlib.Data.List.GetD
import Mathlib.Order.Monotone.Defs
import Mathlib.Tactic.Common

/-! Line numbers by bisection. -/

namespace Stencil

namespace Text

lemma count_take_charBytes (c : Char) {n : Nat} (hn : 0 < n) :
    ((charBytes c).take n).count '\n' = if c = '\n' then 1 else 0 := by
  by_cases hc : c = '\n'
  · subst hc
    rw [charBytes_ascii (by decide), if_pos rfl, List.take_of_length_le hn]
    rfl
  · rw [if_neg hc, List.count_eq_zero]
    intro hmem
    exact ne_of_charBytes (by decide) hc (List.mem_of_mem_take hmem) rfl

lemma lineBreaksBefore_eq (n : Nat) (cs : Text) :
    lineBreaksBefore n cs = ((bytes cs).take n).count '\n' := by
  induction cs generalizing n with
  | nil => simp [lineBreaksBefore]
  | cons c cs ih =>
    rcases Nat.eq_zero_or_pos n with rfl | hn
    · rw [lineBreaksBefore_zero, List.take_zero, List.count_nil]
    · rw [lineBreaksBefore_cons hn, ih, bytes_cons, List.take_append, List.count_append,
        count_take_charBytes c hn, length_charBytes]

lemma count_bytes (cs : Text) : (bytes cs).count '\n' = lineBreaks cs := by
  have hall := lineBreaksBefore_append cs []
  rwa [List.append_nil, lineBreaksBefore_eq, ← length_bytes, List.take_length] at hall

lemma length_split (separator : Char) (cs : Text) :
    (split separator cs).length = cs.count separator + 1 := by
  induction cs with
  | nil => rfl
  | cons c cs ih =>
    rw [split]
    by_cases hc : c = separator
    · rw [if_pos hc, List.length_cons, ih, hc, List.count_cons_self]
    · rw [if_neg hc, List.count_cons_of_ne hc, ← ih]
      split
      · rename_i hparts
        rw [hparts, List.length_cons, List.length_cons]
      · rename_i hparts
        rw [hparts] at ih
        cases ih

end Text

namespace Markup.LineIndex

open Text

def byteStarts (offset : Nat) (bs : Text) : List Nat :=
  (bs.zipIdx offset).filterMap fun b => if b.1 = '\n' then some (b.2 + 1) else none

lemma byteStarts_append (offset : Nat) (as bs : Text) :
    byteStarts offset (as ++ bs) = byteStarts offset as ++ byteStarts (offset + as.length) bs := by
  rw [byteStarts, List.zipIdx_append, List.filterMap_append]
  rfl

lemma byteStarts_nil_of_not_mem {offset : Nat} {bs : Text} (h : '\n' ∉ bs) : byteStarts offset bs = [] := by
  rw [byteStarts, List.filterMap_eq_nil_iff]
  intro b hb
  refine if_neg fun hfeed => h ?_
  rw [← hfeed]
  exact (List.mem_zipIdx hb).2.2 ▸ List.getElem_mem _

lemma startsAfter_eq (offset : Nat) (cs : Text) : startsAfter offset cs = byteStarts offset (bytes cs) := by
  induction cs generalizing offset with
  | nil => rfl
  | cons c cs ih =>
    rw [bytes_cons, byteStarts_append, length_charBytes, ← ih, startsAfter]
    by_cases hc : c = '\n'
    · subst hc
      rw [if_pos rfl, charBytes_ascii (by decide)]
      rfl
    · rw [if_neg hc, byteStarts_nil_of_not_mem fun h => ne_of_charBytes (by decide) hc h rfl]
      rfl

inductive Place where
  | found (index : Nat)
  | missing (index : Nat)
  deriving DecidableEq, Repr

def bisect (starts : List Nat) (offset low high : Nat) : Place :=
  if low < high then
    let middle := low + (high - low) / 2
    let start := starts.getD middle 0
    if start = offset then .found middle
    else if start < offset then bisect starts offset (middle + 1) high
    else bisect starts offset low middle
  else .missing low
termination_by high - low

structure Window (starts : List Nat) (offset low high : Nat) : Prop where
  ordered : low ≤ high
  inside : high ≤ starts.length
  below : ∀ i < low, starts.getD i 0 < offset
  above : ∀ i, high ≤ i → i < starts.length → offset < starts.getD i 0

lemma length_takeWhile_eq {starts : List Nat} {offset i : Nat} (hi : i ≤ starts.length)
    (hbelow : ∀ j < i, starts.getD j 0 ≤ offset)
    (habove : i < starts.length → offset < starts.getD i 0) :
    (starts.takeWhile (· ≤ offset)).length = i := by
  induction starts generalizing i with
  | nil => exact (Nat.le_zero.mp hi).symm
  | cons start starts ih =>
    cases i with
    | zero =>
      have hstart : offset < start := habove (Nat.succ_pos _)
      rw [List.takeWhile_cons_of_neg (by simpa using hstart), List.length_nil]
    | succ i =>
      have hstart : start ≤ offset := hbelow 0 (Nat.succ_pos i)
      rw [List.takeWhile_cons_of_pos (by simpa using hstart), List.length_cons,
        ih (Nat.le_of_succ_le_succ hi) (fun j hj => hbelow (j + 1) (Nat.succ_lt_succ hj))
          fun h => habove (Nat.succ_lt_succ h)]

lemma getD_lt {starts : List Nat} (hs : starts.Pairwise (· < ·)) {i j : Nat} (hij : i < j)
    (hj : j < starts.length) : starts.getD i 0 < starts.getD j 0 := by
  have hi : i < starts.length := Nat.lt_trans hij hj
  rw [List.getD_eq_getElem _ _ hi, List.getD_eq_getElem _ _ hj]
  exact List.pairwise_iff_getElem.mp hs i j hi hj hij

def Place.count : Place → Nat
  | .found i => i + 1
  | .missing i => i

lemma bisect_count {starts : List Nat} {offset low high : Nat} (hs : starts.Pairwise (· < ·))
    (hw : Window starts offset low high) :
    (bisect starts offset low high).count = (starts.takeWhile (· ≤ offset)).length := by
  fun_induction bisect starts offset low high with
  | case1 low high hlt middle start hfound =>
    have hmiddle : middle < starts.length := by
      have := hw.inside
      omega
    refine (length_takeWhile_eq hmiddle (fun j hj => ?_) fun hnext => ?_).symm
    · rcases Nat.lt_succ_iff_lt_or_eq.mp hj with hj | rfl
      · exact hfound ▸ Nat.le_of_lt (getD_lt hs hj hmiddle)
      · exact Nat.le_of_eq hfound
    · exact hfound ▸ getD_lt hs (Nat.lt_succ_self middle) hnext
  | case2 low high hlt middle start hne hless ih =>
    have := hw.inside
    refine ih ⟨by omega, hw.inside, fun i hi => ?_, hw.above⟩
    rcases Nat.lt_succ_iff_lt_or_eq.mp hi with hi | rfl
    · exact Nat.lt_trans (getD_lt hs hi (by omega)) hless
    · exact hless
  | case3 low high hlt middle start hne hless ih =>
    have := hw.inside
    have hafter : offset < starts.getD middle 0 := Nat.lt_of_le_of_ne (Nat.not_lt.mp hless) (Ne.symm hne)
    refine ih ⟨by omega, by omega, hw.below, fun i hi hi' => ?_⟩
    rcases Nat.eq_or_lt_of_le hi with rfl | hi
    · exact hafter
    · exact Nat.lt_trans hafter (getD_lt hs hi hi')
  | case4 low high hstop =>
    have := hw.ordered
    have hbelow := hw.inside
    exact (length_takeWhile_eq (by omega) (fun j hj => Nat.le_of_lt (hw.below j hj))
      fun h => hw.above low (by omega) h).symm

/-- The line by bisection: a line that starts at the offset counts, and one that starts later does not. -/
def bisectedLine (index : LineIndex) (offset : Nat) : Nat :=
  (bisect index.starts offset 0 index.starts.length).count

lemma startsAfter_increasing (offset : Nat) (cs : Text) : (startsAfter offset cs).Pairwise (· < ·) := by
  induction cs generalizing offset with
  | nil => exact .nil
  | cons c cs ih =>
    rw [startsAfter]
    split
    · exact .cons (fun _ => lt_of_mem_startsAfter) (ih _)
    · exact ih _

lemma bisectedLine_eq (source : Text) (offset : Nat) :
    (ofText source).bisectedLine offset = (ofText source).line offset := by
  have hs : (ofText source).starts.Pairwise (· < ·) :=
    .cons (fun _ => lt_of_mem_startsAfter) (startsAfter_increasing 0 source)
  exact bisect_count hs ⟨Nat.zero_le _, Nat.le_refl _, fun i hi => absurd hi (Nat.not_lt_zero i),
    fun i hi hi' => absurd hi' (Nat.not_lt.mpr hi)⟩

/-- The line of an offset, looked up by bisection in the table of the places after line feeds, is one
more than the line feeds among the bytes before the offset. So it is a line of the text, also past the
end, and does not go back as the offset goes on. -/
theorem line_counts_line_feeds (source : Text) :
    (ofText source).starts = 0 :: byteStarts 0 (bytes source) ∧
      (∀ offset, (ofText source).bisectedLine offset = (ofText source).line offset ∧
        (ofText source).line offset = 1 + ((bytes source).take offset).count '\n' ∧
        1 ≤ (ofText source).line offset ∧
        (ofText source).line offset ≤ (split '\n' source).length) ∧
      Monotone (ofText source).line := by
  have hline : ∀ offset, (ofText source).line offset = 1 + ((bytes source).take offset).count '\n' := by
    intro offset
    rw [line_ofText, lineBreaksBefore_eq]
  refine ⟨congrArg (0 :: ·) (startsAfter_eq 0 source),
    fun offset => ⟨bisectedLine_eq source offset, hline offset, ?_, ?_⟩, fun offset later h => ?_⟩
  · rw [hline]
    exact Nat.le_add_right 1 _
  · rw [hline, length_split, Nat.add_comm]
    have hall := (List.take_sublist offset (bytes source)).count_le '\n'
    rw [count_bytes] at hall
    exact Nat.succ_le_succ hall
  · rw [hline, hline]
    exact Nat.add_le_add_left ((List.take_sublist_take_left h).count_le _) 1

end Markup.LineIndex

end Stencil

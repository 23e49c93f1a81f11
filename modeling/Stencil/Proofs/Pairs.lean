import Stencil.Proofs.Delimiters
import Stencil.Proofs.Meaning
import Mathlib.Data.List.Find
import Mathlib.Tactic.Common

namespace Stencil.Template.Tag

open Text Outcome

def pairs (brace : Char) (text : Text) : List Nat :=
  (List.range (byteSize text)).filter fun i => ((bytes text).drop i).take 2 == [brace, brace]

def ending (opened count : Nat) (opens closes : List Nat) : Except TagFault Nat :=
  match opens.find? fun i => closes.countP (· < i) < count with
  | some i => .error (.nested i opened)
  | none =>
    match closes[count - 1]? with
    | some i => .ok (i + 2)
    | none => .error (.unclosed opened)

/-- The bytes between which the first tag stands, by the places of all pairs. -/
def verdict (opens closes : List Nat) : Except TagFault (Option (Nat × Nat)) :=
  match (opens ++ closes).min? with
  | none => .ok none
  | some first =>
    if first ∈ closes then .error (.unopened first)
    else
      -- A pair right after the first one is the third brace of the same tag.
      let count := if first + 1 ∈ opens then 2 else 1
      (ending first count (opens.filter (first + 1 < ·)) (closes.filter (first < ·))).map
        fun stop => some (first, stop)

def range? (text : Text) : Except TagFault (Option (Nat × Nat)) :=
  (span? 0 text).map fun found => found.map fun span =>
    (byteSize (text.take span.1), byteSize (text.take (span.1 + span.2)))

/-- The first tag of a text is as the verdict says. What is found may still have no body. -/
def Reports (text : Text) : Except TagFault (Option (Nat × Nat)) → Prop
  | .error fault => next? text = .error fault
  | .ok none => next? text = .ok none
  | .ok (some (start, stop)) =>
    (∃ tag, next? text = .ok (some tag) ∧ text = tag.before ++ tag.source ++ tag.after ∧
      byteSize tag.before = start ∧ byteSize (tag.before ++ tag.source) = stop) ∨
    next? text = .error (.splitCharacter start)

def pairsFrom (position : Nat) (brace : Char) (text : Text) : List Nat :=
  (pairs brace text).map (position + ·)

lemma take_two {xs : Text} {brace : Char} :
    (xs.take 2 == [brace, brace]) = [brace, brace].isPrefixOf xs := by
  rw [Bool.eq_iff_iff, beq_iff_eq, List.isPrefixOf_iff_prefix, List.prefix_iff_eq_take]
  exact eq_comm

lemma pairs_cons {brace : Char} (hbrace : brace.toNat < 128) (c : Char) (cs : Text) :
    pairs brace (c :: cs) =
      (if [brace, brace].isPrefixOf (c :: cs) then [0] else []) ++
        (pairs brace cs).map (c.utf8Size + ·) := by
  have hword : ∀ b ∈ [brace, brace], b.toNat < 128 := by
    intro b hb
    simp only [List.mem_cons, List.not_mem_nil, or_false, or_self] at hb
    rw [hb]
    exact hbrace
  have hlater : ∀ i, (bytes (c :: cs)).drop (c.utf8Size + i) = (bytes cs).drop i := by
    intro i
    rw [bytes_cons, ← length_charBytes, List.drop_length_add_append]
  obtain ⟨b, bs, hb⟩ := List.exists_cons_of_ne_nil (charBytes_ne_nil c)
  have hsize : c.utf8Size = bs.length + 1 := by rw [← length_charBytes, hb, List.length_cons]
  -- The other bytes of a wide character are no braces.
  have hinside : ∀ i < bs.length,
      ¬ [brace, brace].isPrefixOf ((bytes (c :: cs)).drop (i + 1)) = true := by
    intro i hi hpair
    have hhead : ((bytes (c :: cs)).drop (i + 1)).head? = some (bs.get ⟨i, hi⟩) := by
      rw [bytes_cons, hb, List.cons_append, List.drop_succ_cons, List.head?_drop,
        List.getElem?_append_left hi]
      exact List.getElem?_eq_getElem hi
    obtain ⟨rest, hrest⟩ := List.isPrefixOf_iff_prefix.mp hpair
    rw [← hrest] at hhead
    have hsame : brace = bs.get ⟨i, hi⟩ := Option.some.inj hhead
    have hhigh := charBytes_tail hb (bs.get ⟨i, hi⟩) (List.get_mem _ _)
    rw [← hsame] at hhigh
    omega
  simp only [pairs, take_two]
  rw [byteSize_cons, List.range_add, List.filter_append, List.filter_map]
  congr 1
  · rw [hsize, List.range_succ_eq_map, List.filter_cons, List.drop_zero, isPrefixOf_bytes _ hword]
    have hnone : ((List.range bs.length).map Nat.succ).filter
        (fun i => [brace, brace].isPrefixOf ((bytes (c :: cs)).drop i)) = [] := by
      rw [List.filter_eq_nil_iff]
      intro i hi
      obtain ⟨j, hj, rfl⟩ := List.mem_map.mp hi
      exact hinside j (List.mem_range.mp hj)
    rw [hnone]
  · congr 1
    apply List.filter_congr
    intro i _
    rw [Function.comp_apply, hlater]

lemma pairsFrom_cons {brace : Char} (hbrace : brace.toNat < 128) (position : Nat) (c : Char)
    (cs : Text) :
    pairsFrom position brace (c :: cs) =
      (if [brace, brace].isPrefixOf (c :: cs) then [position] else []) ++
        pairsFrom (position + c.utf8Size) brace cs := by
  have hshift : (position + ·) ∘ (c.utf8Size + ·) = (position + c.utf8Size + ·) :=
    funext fun i => (Nat.add_assoc position c.utf8Size i).symm
  rw [pairsFrom, pairs_cons hbrace, List.map_append, List.map_map, hshift, pairsFrom]
  congr 1
  split <;> rfl

lemma pairsFrom_zero (brace : Char) (text : Text) : pairsFrom 0 brace text = pairs brace text := by
  simp [pairsFrom]

lemma le_of_mem_pairsFrom {position i : Nat} {brace : Char} {text : Text}
    (h : i ∈ pairsFrom position brace text) : position ≤ i := by
  obtain ⟨j, -, rfl⟩ := List.mem_map.mp h
  exact Nat.le_add_right position j

lemma opensPair_eq (text : Text) : opensPair text = ['{', '{'].isPrefixOf text := by
  rw [Bool.eq_iff_iff, opensPair_iff, List.isPrefixOf_iff_prefix]

lemma closesPair_eq (text : Text) : closesPair text = ['}', '}'].isPrefixOf text := by
  rw [Bool.eq_iff_iff, closesPair_iff, List.isPrefixOf_iff_prefix]

section

variable {c : Char} {cs : Text}

lemma pairsFrom_opens (h : opensPair (c :: cs) = true) (position : Nat) :
    pairsFrom position '{' (c :: cs) = position :: pairsFrom (position + 1) '{' cs ∧
      pairsFrom position '}' (c :: cs) = pairsFrom (position + 1) '}' cs := by
  obtain ⟨rest, hrest⟩ := opensPair_iff.mp h
  cases hrest
  exact ⟨pairsFrom_cons (by decide) position _ _, pairsFrom_cons (by decide) position _ _⟩

lemma pairsFrom_closes (h : closesPair (c :: cs) = true) (position : Nat) :
    pairsFrom position '{' (c :: cs) = pairsFrom (position + 1) '{' cs ∧
      pairsFrom position '}' (c :: cs) = position :: pairsFrom (position + 1) '}' cs := by
  obtain ⟨rest, hrest⟩ := closesPair_iff.mp h
  cases hrest
  exact ⟨pairsFrom_cons (by decide) position _ _, pairsFrom_cons (by decide) position _ _⟩

lemma pairsFrom_skip (hopens : ¬ opensPair (c :: cs) = true) (hcloses : ¬ closesPair (c :: cs) = true)
    (position : Nat) :
    pairsFrom position '{' (c :: cs) = pairsFrom (position + c.utf8Size) '{' cs ∧
      pairsFrom position '}' (c :: cs) = pairsFrom (position + c.utf8Size) '}' cs := by
  rw [opensPair_eq] at hopens
  rw [closesPair_eq] at hcloses
  rw [pairsFrom_cons (by decide), pairsFrom_cons (by decide), if_neg hopens, if_neg hcloses]
  exact ⟨rfl, rfl⟩

end

section

variable {opened count first : Nat} {opens closes : List Nat}

lemma ending_nested (hcount : 0 < count) (hcloses : ∀ i ∈ closes, first ≤ i) :
    ending opened count (first :: opens) closes = .error (.nested first opened) := by
  have hnone : closes.countP (· < first) = 0 := by
    rw [List.countP_eq_zero]
    intro i hi
    simpa using hcloses i hi
  rw [ending, List.find?_cons_of_pos (by rw [hnone]; exact decide_eq_true hcount)]

lemma countP_closes {i : Nat} (h : first < i) :
    (first :: closes).countP (· < i) = closes.countP (· < i) + 1 :=
  List.countP_cons_of_pos (by simpa using h)

lemma ending_closed (hopens : ∀ i ∈ opens, first < i) :
    ending opened 1 opens (first :: closes) = .ok (first + 2) := by
  have hnone : (opens.find? fun i => (first :: closes).countP (· < i) < 1) = none := by
    rw [List.find?_eq_none]
    intro i hi
    rw [countP_closes (hopens i hi)]
    simp
  rw [ending, hnone]
  rfl

lemma ending_partly (hcount : 0 < count) (hopens : ∀ i ∈ opens, first < i) :
    ending opened (count + 1) opens (first :: closes) = ending opened count opens closes := by
  have hfind : (opens.find? fun i => (first :: closes).countP (· < i) < count + 1) =
      opens.find? fun i => closes.countP (· < i) < count := by
    apply List.find?_congr
    intro i hi
    rw [countP_closes (hopens i hi)]
    simp
  obtain ⟨n, rfl⟩ : ∃ n, count = n + 1 := ⟨count - 1, by omega⟩
  rw [ending, ending, hfind, Nat.add_sub_cancel, Nat.add_sub_cancel, List.getElem?_cons_succ]

end

lemma closingWidth_eq {opened count : Nat} (hcount : 0 < count) (position : Nat) (cs : Text) :
    (closingWidth opened count position cs).map (fun w => position + byteSize (cs.take w)) =
      ending opened count (pairsFrom position '{' cs) (pairsFrom position '}' cs) := by
  induction cs generalizing count position with
  | nil => rfl
  | cons c cs ih =>
    have hstep : ∀ {n : Nat}, 0 < n →
        ((closingWidth opened n (position + c.utf8Size) cs).map (· + 1)).map
            (fun w => position + byteSize ((c :: cs).take w)) =
          ending opened n (pairsFrom (position + c.utf8Size) '{' cs)
            (pairsFrom (position + c.utf8Size) '}' cs) := by
      intro n hn
      rw [← ih hn]
      cases closingWidth opened n (position + c.utf8Size) cs with
      | error fault => rfl
      | ok w => simp [Except.map, Nat.add_assoc]
    rw [closingWidth]
    split
    · rename_i hopens
      obtain ⟨ho, hc⟩ := pairsFrom_opens hopens position
      rw [ho, hc, ending_nested hcount fun i hi => (le_of_mem_pairsFrom hi).trans' (by omega)]
      rfl
    · rename_i hopens
      split
      · rename_i hcloses
        obtain ⟨ho, hc⟩ := pairsFrom_closes hcloses position
        have hlater : ∀ i ∈ pairsFrom (position + 1) '{' cs, position < i :=
          fun i hi => le_of_mem_pairsFrom hi
        obtain ⟨rest, hrest⟩ := closesPair_iff.mp hcloses
        cases hrest
        rw [ho, hc]
        split
        · obtain rfl : count = 1 := by omega
          rw [ending_closed hlater]
          rfl
        · obtain ⟨n, rfl⟩ : ∃ n, count = n + 1 := ⟨count - 1, by omega⟩
          rw [ending_partly (by omega) hlater]
          exact hstep (by omega)
      · rename_i hcloses
        obtain ⟨ho, hc⟩ := pairsFrom_skip hopens hcloses position
        rw [ho, hc]
        exact hstep hcount

lemma filter_later {position : Nat} {brace : Char} {text : Text} {bound : Nat} (h : bound < position) :
    (pairsFrom position brace text).filter (bound < ·) = pairsFrom position brace text := by
  rw [List.filter_eq_self]
  intro i hi
  exact decide_eq_true (Nat.lt_of_lt_of_le h (le_of_mem_pairsFrom hi))

lemma width_eq {text : Text} (h : opensPair text = true) (position : Nat) :
    (width position text).map (fun w => position + byteSize (text.take w)) =
      ending position (if position + 1 ∈ pairsFrom position '{' text then 2 else 1)
        ((pairsFrom position '{' text).filter (position + 1 < ·)) (pairsFrom position '}' text) := by
  obtain ⟨rest, rfl⟩ := opensPair_iff.mp h
  change (width position ('{' :: '{' :: rest)).map _ = _
  have hpair : opensPair ('{' :: '{' :: rest) = true := rfl
  obtain ⟨ho, hc⟩ := pairsFrom_opens hpair position
  change pairsFrom position '{' (['{', '{'] ++ rest) = _ at ho
  change pairsFrom position '}' (['{', '{'] ++ rest) = _ at hc
  have hdrop : ∀ i ≤ position + 1, ∀ opens : List Nat,
      (i :: opens).filter (position + 1 < ·) = opens.filter (position + 1 < ·) := by
    intro i hi opens
    exact List.filter_cons_of_neg (by simpa using hi)
  rw [width, ho, hc, hdrop position (by omega)]
  split
  · rename_i htriple
    obtain ⟨ho', hc'⟩ := pairsFrom_opens htriple (position + 1)
    rw [ho', hc', if_pos (by simp), hdrop _ (Nat.le_refl _), filter_later (by omega),
      ← closingWidth_eq (by omega)]
    change ((closingWidth position 2 (position + 2) rest).map (· + 2)).map _ = _
    cases closingWidth position 2 (position + 2) rest with
    | error fault => rfl
    | ok w =>
      change Except.ok (position + (1 + (1 + byteSize (rest.take w)))) = Except.ok _
      rw [← Nat.add_assoc, ← Nat.add_assoc]
  · rename_i htriple
    have hthird := (pairsFrom_skip htriple Bool.false_ne_true (position + 1)).1
    have hsize : '{'.utf8Size = 1 := rfl
    have hnot : ¬ position + 1 ∈ position :: pairsFrom (position + 1) '{' ('{' :: rest) := by
      rw [hthird, List.mem_cons, not_or]
      refine ⟨by omega, fun hmem => ?_⟩
      have := le_of_mem_pairsFrom hmem
      omega
    rw [if_neg hnot, hthird, filter_later (by omega), ← hthird, ← closingWidth_eq (by omega)]
    cases closingWidth position 1 (position + 1) ('{' :: rest) with
    | error fault => rfl
    | ok w =>
      change Except.ok (position + (1 + byteSize (('{' :: rest).take w))) = Except.ok _
      rw [← Nat.add_assoc]

lemma min?_cons_least {first : Nat} {others : List Nat} (h : ∀ i ∈ others, first ≤ i) :
    (first :: others).min? = some first := by
  rw [List.min?_eq_some_iff]
  exact ⟨List.mem_cons_self, List.forall_mem_cons.mpr ⟨Nat.le_refl _, h⟩⟩

section

variable {first : Nat} {opens closes : List Nat}

lemma verdict_opened (hopens : ∀ i ∈ opens, first < i) (hcloses : ∀ i ∈ closes, first < i) :
    verdict (first :: opens) closes =
      (ending first (if first + 1 ∈ first :: opens then 2 else 1)
        ((first :: opens).filter (first + 1 < ·)) closes).map fun stop => some (first, stop) := by
  have hmin : (first :: opens ++ closes).min? = some first := by
    apply min?_cons_least
    intro i hi
    rcases List.mem_append.mp hi with hi | hi
    · exact Nat.le_of_lt (hopens i hi)
    · exact Nat.le_of_lt (hcloses i hi)
  have hnot : first ∉ closes := fun hmem => Nat.lt_irrefl _ (hcloses first hmem)
  have hall : closes.filter (first < ·) = closes :=
    List.filter_eq_self.mpr fun i hi => decide_eq_true (hcloses i hi)
  rw [verdict, hmin]
  simp only [if_neg hnot, hall]

lemma verdict_closed (hopens : ∀ i ∈ opens, first < i) (hcloses : ∀ i ∈ closes, first < i) :
    verdict opens (first :: closes) = .error (.unopened first) := by
  have hmin : (opens ++ first :: closes).min? = some first := by
    rw [List.min?_eq_some_iff]
    refine ⟨by simp, fun i hi => ?_⟩
    rcases List.mem_append.mp hi with hi | hi
    · exact Nat.le_of_lt (hopens i hi)
    · rcases List.mem_cons.mp hi with rfl | hi
      · exact Nat.le_refl _
      · exact Nat.le_of_lt (hcloses i hi)
  rw [verdict, hmin]
  exact if_pos List.mem_cons_self

end

lemma span?_eq (position : Nat) (text : Text) :
    (span? position text).map (fun found => found.map fun span =>
        (position + byteSize (text.take span.1), position + byteSize (text.take (span.1 + span.2)))) =
      verdict (pairsFrom position '{' text) (pairsFrom position '}' text) := by
  induction text generalizing position with
  | nil => rfl
  | cons c cs ih =>
    rw [span?]
    split
    · rename_i hcloses
      obtain ⟨ho, hc⟩ := pairsFrom_closes hcloses position
      rw [ho, hc, verdict_closed (fun i => le_of_mem_pairsFrom) fun i => le_of_mem_pairsFrom]
      rfl
    · rename_i hcloses
      split
      · rename_i hopens
        obtain ⟨ho, hc⟩ := pairsFrom_opens hopens position
        have hwidth := width_eq hopens position
        rw [ho, hc] at hwidth ⊢
        rw [verdict_opened (fun i => le_of_mem_pairsFrom) fun i => le_of_mem_pairsFrom, ← hwidth]
        cases width position (c :: cs) with
        | error fault => rfl
        | ok w => simp [Except.map]
      · rename_i hopens
        obtain ⟨ho, hc⟩ := pairsFrom_skip hopens hcloses position
        rw [ho, hc, ← ih]
        cases span? (position + c.utf8Size) cs with
        | error fault => rfl
        | ok found =>
          cases found with
          | none => rfl
          | some span =>
            obtain ⟨start, length⟩ := span
            change Except.ok (some (position + (c.utf8Size + byteSize (cs.take start)),
              position + byteSize ((c :: cs).take (start + 1 + length)))) = Except.ok _
            rw [Nat.add_right_comm start 1 length, List.take_succ_cons, byteSize_cons, ← Nat.add_assoc,
              ← Nat.add_assoc]
            rfl

lemma verdict_eq_none {opens closes : List Nat} :
    verdict opens closes = .ok none ↔ opens = [] ∧ closes = [] := by
  rw [← List.append_eq_nil_iff, verdict]
  cases hmin : (opens ++ closes).min? with
  | none => exact iff_of_true rfl (List.min?_eq_none_iff.mp hmin)
  | some first =>
    refine iff_of_false ?_ fun hnil => ?_
    · simp only
      split
      · intro h
        cases h
      · intro h
        obtain ⟨stop, -, hstop⟩ := map_ok.mp h
        cases hstop
    · rw [hnil] at hmin
      cases hmin

lemma range?_eq (text : Text) : range? text = verdict (pairs '{' text) (pairs '}' text) := by
  have hspan := span?_eq 0 text
  simp only [Nat.zero_add] at hspan
  rw [range?, hspan, pairsFrom_zero, pairsFrom_zero]

lemma reports_range? (text : Text) : Reports text (range? text) := by
  have hscanned := next?_scanned text
  rw [range?]
  generalize hn : next? text = result at hscanned
  cases hscanned with
  | fault hs =>
    rw [hs]
    exact hn
  | plain hs =>
    rw [hs]
    exact hn
  | split hs =>
    rw [hs]
    exact .inr hn
  | @tag start length _ _ hs =>
    rw [hs]
    refine .inl ⟨_, hn, take_append_drop_drop text start length, rfl, ?_⟩
    rw [← List.take_add]

lemma next?_none_iff {text : Text} :
    next? text = .ok none ↔ pairs '{' text = [] ∧ pairs '}' text = [] := by
  have hreports := reports_range? text
  rw [range?_eq] at hreports
  rw [← verdict_eq_none]
  constructor
  · intro hnone
    rcases hv : verdict (pairs '{' text) (pairs '}' text) with fault | found
    · rw [hv] at hreports
      cases hnone.symm.trans hreports
    · cases found with
      | none => rfl
      | some range =>
        rw [hv] at hreports
        rcases hreports with ⟨tag, htag, -⟩ | hsplit
        · cases hnone.symm.trans htag
        · cases hnone.symm.trans hsplit
  · intro hnone
    rw [hnone] at hreports
    exact hreports

/-- The scan finds a tag where the places of the pairs say, or the fault that they say, and nothing
where there are none. -/
theorem scan_eq_verdict (text : Text) :
    range? text = verdict (pairs '{' text) (pairs '}' text) ∧
      Reports text (verdict (pairs '{' text) (pairs '}' text)) ∧
      (next? text = .ok none ↔ pairs '{' text = [] ∧ pairs '}' text = []) := by
  have hreports := reports_range? text
  rw [range?_eq] at hreports
  exact ⟨range?_eq text, hreports, next?_none_iff⟩

end Stencil.Template.Tag

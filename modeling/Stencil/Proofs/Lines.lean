import Stencil.Markup.LineIndex
import Mathlib.Tactic.Common

namespace Stencil

namespace Text

@[simp] lemma lineBreaks_append (cs ds : Text) :
    lineBreaks (cs ++ ds) = lineBreaks cs + lineBreaks ds :=
  List.count_append

lemma lineBreaks_cons (c : Char) (cs : Text) :
    lineBreaks (c :: cs) = (if c = '\n' then 1 else 0) + lineBreaks cs := by
  rw [lineBreaks, lineBreaks, List.count_cons, Nat.add_comm]
  simp

@[simp] lemma lineBreaksBefore_zero (cs : Text) : lineBreaksBefore 0 cs = 0 := by
  cases cs <;> rfl

lemma lineBreaksBefore_cons {bytes : Nat} (h : 0 < bytes) (c : Char) (cs : Text) :
    lineBreaksBefore bytes (c :: cs) =
      (if c = '\n' then 1 else 0) + lineBreaksBefore (bytes - c.utf8Size) cs := by
  cases bytes with
  | zero => omega
  | succ bytes => rfl

lemma lineBreaksBefore_add (cs ds : Text) (bytes : Nat) :
    lineBreaksBefore (byteSize cs + bytes) (cs ++ ds) = lineBreaks cs + lineBreaksBefore bytes ds := by
  induction cs with
  | nil => simp [lineBreaks]
  | cons c cs ih =>
    have hpos := c.utf8Size_pos
    rw [List.cons_append, byteSize_cons, lineBreaksBefore_cons (by omega), Nat.add_assoc,
      Nat.add_sub_cancel_left, ih, lineBreaks_cons, Nat.add_assoc]

lemma lineBreaksBefore_append (cs ds : Text) :
    lineBreaksBefore (byteSize cs) (cs ++ ds) = lineBreaks cs := by
  simpa using lineBreaksBefore_add cs ds 0

end Text

namespace Markup.LineIndex

lemma lt_of_mem_startsAfter {offset start : Nat} {cs : Text} (h : start ∈ startsAfter offset cs) :
    offset < start := by
  induction cs generalizing offset with
  | nil => cases h
  | cons c cs ih =>
    have hpos := c.utf8Size_pos
    rw [startsAfter] at h
    split at h
    · rcases List.mem_cons.mp h with rfl | h
      · omega
      · have := ih h
        omega
    · have := ih h
      omega

lemma takeWhile_startsAfter_nil {offset limit : Nat} (h : limit ≤ offset) (cs : Text) :
    (startsAfter offset cs).takeWhile (· ≤ limit) = [] := by
  cases hs : startsAfter offset cs with
  | nil => rfl
  | cons start rest =>
    have hstart : offset < start := @lt_of_mem_startsAfter offset start cs (hs ▸ List.mem_cons_self)
    exact List.takeWhile_cons_of_neg (by simp; omega)

lemma length_takeWhile_startsAfter (offset bytes : Nat) (cs : Text) :
    ((startsAfter offset cs).takeWhile (· ≤ offset + bytes)).length = Text.lineBreaksBefore bytes cs := by
  induction cs generalizing offset bytes with
  | nil => rfl
  | cons c cs ih =>
    rcases Nat.eq_zero_or_pos bytes with rfl | hbytes
    · rw [Nat.add_zero, takeWhile_startsAfter_nil (Nat.le_refl _), Text.lineBreaksBefore_zero]
      rfl
    · have hrest : ((startsAfter (offset + c.utf8Size) cs).takeWhile (· ≤ offset + bytes)).length =
          Text.lineBreaksBefore (bytes - c.utf8Size) cs := by
        rcases Nat.le_total c.utf8Size bytes with hle | hle
        · have := ih (offset + c.utf8Size) (bytes - c.utf8Size)
          rwa [Nat.add_assoc, Nat.add_sub_cancel' hle] at this
        · -- The offset is inside the character, and no line starts before its end.
          rw [takeWhile_startsAfter_nil (by omega), Nat.sub_eq_zero_of_le hle,
            Text.lineBreaksBefore_zero]
          rfl
      rw [startsAfter, Text.lineBreaksBefore_cons hbytes, ← hrest]
      split
      · rename_i hc
        have hsize : c.utf8Size = 1 := by rw [hc]; rfl
        rw [List.takeWhile_cons_of_pos (by simp; omega), List.length_cons, Nat.add_comm]
      · rw [Nat.zero_add]

lemma line_ofText (source : Text) (offset : Nat) :
    (ofText source).line offset = 1 + Text.lineBreaksBefore offset source := by
  have hrest := length_takeWhile_startsAfter 0 offset source
  rw [Nat.zero_add] at hrest
  rw [line, ofText, List.takeWhile_cons_of_pos (by simp), List.length_cons, hrest, Nat.add_comm]

end Markup.LineIndex

end Stencil

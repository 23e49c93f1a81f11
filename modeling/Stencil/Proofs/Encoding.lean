import Stencil.Text
import Mathlib.Data.List.TakeWhile
import Mathlib.Tactic.Common

/-!
UTF-8, with a byte as the character of its number, so that what reads characters can read bytes.
-/

namespace Stencil.Text

def charBytes (c : Char) : Text :=
  (String.utf8EncodeChar c).map Char.ofUInt8

/-- The bytes of the UTF-8 form, each as the character with its number. -/
def bytes (cs : Text) : Text :=
  cs.flatMap charBytes

@[simp] lemma bytes_nil : bytes [] = [] := rfl

lemma bytes_cons (c : Char) (cs : Text) : bytes (c :: cs) = charBytes c ++ bytes cs :=
  List.flatMap_cons

lemma bytes_append (cs ds : Text) : bytes (cs ++ ds) = bytes cs ++ bytes ds :=
  List.flatMap_append

lemma length_charBytes (c : Char) : (charBytes c).length = c.utf8Size := by
  rw [charBytes, List.length_map, String.length_utf8EncodeChar]

lemma length_bytes (cs : Text) : (bytes cs).length = byteSize cs := by
  induction cs with
  | nil => rfl
  | cons c cs ih => rw [bytes_cons, List.length_append, length_charBytes, ih, byteSize_cons]

lemma toNat_ofUInt8 (b : UInt8) : (Char.ofUInt8 b).toNat = b.toNat :=
  UInt8.toNat_toUInt32 b

lemma charBytes_ascii {c : Char} (h : c.toNat < 128) : charBytes c = [c] := by
  have hval : c.val.toNat = c.toNat := rfl
  have hbyte : (UInt8.ofNat c.toNat).toNat = c.toNat := by
    rw [UInt8.toNat_ofNat']
    omega
  have hchar : Char.ofUInt8 (UInt8.ofNat c.toNat) = c := by
    rw [← Char.toNat_inj, toNat_ofUInt8, hbyte]
  rw [charBytes, String.utf8EncodeChar]
  simp only [hval]
  rw [if_pos (by omega), List.map_singleton, hchar]

lemma utf8EncodeChar_high {c : Char} (h : 128 ≤ c.toNat) :
    ∀ b ∈ String.utf8EncodeChar c, 128 ≤ b.toNat := by
  have hval : c.val.toNat = c.toNat := rfl
  intro b hb
  rw [String.utf8EncodeChar] at hb
  simp only [hval] at hb
  rw [if_neg (by omega)] at hb
  split at hb
  · simp only [List.mem_cons, List.not_mem_nil, or_false] at hb
    rcases hb with rfl | rfl <;> rw [UInt8.toNat_ofNat'] <;> omega
  · split at hb
    · simp only [List.mem_cons, List.not_mem_nil, or_false] at hb
      rcases hb with rfl | rfl | rfl <;> rw [UInt8.toNat_ofNat'] <;> omega
    · simp only [List.mem_cons, List.not_mem_nil, or_false] at hb
      rcases hb with rfl | rfl | rfl | rfl <;> rw [UInt8.toNat_ofNat'] <;> omega

lemma charBytes_high {c : Char} (h : 128 ≤ c.toNat) : ∀ b ∈ charBytes c, 128 ≤ b.toNat := by
  intro b hb
  obtain ⟨byte, hbyte, rfl⟩ := List.mem_map.1 hb
  rw [toNat_ofUInt8]
  exact utf8EncodeChar_high h byte hbyte

lemma charBytes_ne_nil (c : Char) : charBytes c ≠ [] := by
  intro hnil
  have hsize := length_charBytes c
  rw [hnil] at hsize
  have := Char.utf8Size_pos c
  simp only [List.length_nil] at hsize
  omega

lemma bytes_ascii {c : Char} (h : c.toNat < 128) (cs : Text) : bytes (c :: cs) = c :: bytes cs := by
  rw [bytes_cons, charBytes_ascii h, List.singleton_append]

lemma utf8Size_ascii {c : Char} (h : c.toNat < 128) : c.utf8Size = 1 := by
  rw [← length_charBytes, charBytes_ascii h, List.length_singleton]

lemma byteSize_take_ascii {c : Char} (h : c.toNat < 128) (cs : Text) (n : Nat) :
    byteSize ((c :: cs).take (1 + n)) = 1 + byteSize (cs.take n) := by
  rw [Nat.add_comm 1 n, List.take_succ_cons, byteSize_cons, utf8Size_ascii h]

lemma bytes_eq_nil {cs : Text} : bytes cs = [] ↔ cs = [] := by
  cases cs with
  | nil => exact iff_of_true rfl rfl
  | cons c cs =>
    rw [bytes_cons, List.append_eq_nil_iff]
    exact iff_of_false (fun h => charBytes_ne_nil c h.1) (List.cons_ne_nil c cs)

lemma byteSize_eq_zero {cs : Text} : byteSize cs = 0 ↔ cs = [] := by
  rw [← length_bytes, List.length_eq_zero_iff, bytes_eq_nil]

lemma byteSize_take_eq_zero {cs : Text} {n : Nat} (h : n ≤ cs.length) :
    byteSize (cs.take n) = 0 ↔ n = 0 := by
  rw [byteSize_eq_zero, List.take_eq_nil_iff]
  constructor
  · rintro (hn | rfl)
    · exact hn
    · exact Nat.le_zero.1 h
  · exact Or.inl

lemma charBytes_tail {c b : Char} {bs : Text} (h : charBytes c = b :: bs) :
    ∀ d ∈ bs, 128 ≤ d.toNat := by
  intro d hd
  rcases Nat.lt_or_ge c.toNat 128 with hascii | hhigh
  · rw [charBytes_ascii hascii] at h
    cases h
    cases hd
  · exact charBytes_high hhigh d (by rw [h]; exact List.mem_cons_of_mem _ hd)

lemma byteSize_take_add (cs : Text) (m n : Nat) :
    byteSize (cs.take (m + n)) = byteSize (cs.take m) + byteSize ((cs.drop m).take n) := by
  rw [List.take_add, byteSize_append]

lemma drop_bytes (cs : Text) (n : Nat) :
    (bytes cs).drop (byteSize (cs.take n)) = bytes (cs.drop n) := by
  conv_lhs => rw [← List.take_append_drop n cs, bytes_append]
  rw [List.take_append_drop, ← length_bytes, List.drop_left]

def dropBytes? : Nat → Text → Option Text
  | 0, cs => some cs
  | _ + 1, [] => none
  | n + 1, c :: cs => if c.utf8Size ≤ n + 1 then dropBytes? (n + 1 - c.utf8Size) cs else none

def takeBytes? (n : Nat) (cs : Text) : Option Text :=
  (dropBytes? n cs).map fun rest => cs.take (cs.length - rest.length)

lemma dropBytes?_cons (n : Nat) (c : Char) (cs : Text) :
    dropBytes? (c.utf8Size + n) (c :: cs) = dropBytes? n cs := by
  obtain ⟨m, hm⟩ : ∃ m, c.utf8Size = m + 1 := ⟨c.utf8Size - 1, by have := c.utf8Size_pos; omega⟩
  have hsum : c.utf8Size + n = m + n + 1 := by omega
  rw [hsum, dropBytes?, if_pos (by omega)]
  congr 1
  omega

lemma dropBytes?_take (cs : Text) (n : Nat) :
    dropBytes? (byteSize (cs.take n)) cs = some (cs.drop n) := by
  induction cs generalizing n with
  | nil => simp [dropBytes?]
  | cons c cs ih =>
    cases n with
    | zero => rfl
    | succ n => rw [List.take_succ_cons, byteSize_cons, dropBytes?_cons, ih, List.drop_succ_cons]

lemma takeBytes?_take (cs : Text) (n : Nat) :
    takeBytes? (byteSize (cs.take n)) cs = some (cs.take n) := by
  rw [takeBytes?, dropBytes?_take, Option.map_some, List.length_drop]
  congr 1
  rcases Nat.le_total n cs.length with h | h
  · congr 1
    omega
  · rw [List.take_of_length_le h, List.take_of_length_le (by omega)]

lemma dropBytes?_past {cs : Text} {n : Nat} (h : byteSize cs < n) : dropBytes? n cs = none := by
  induction cs generalizing n with
  | nil =>
    obtain ⟨m, rfl⟩ : ∃ m, n = m + 1 := ⟨n - 1, by simp only [byteSize_nil] at h; omega⟩
    rfl
  | cons c cs ih =>
    rw [byteSize_cons] at h
    obtain ⟨m, rfl⟩ : ∃ m, n = c.utf8Size + m := ⟨n - c.utf8Size, by omega⟩
    rw [dropBytes?_cons]
    exact ih (by omega)

def Uniform (p : Char → Bool) : Prop :=
  ∀ c d : Char, 128 ≤ c.toNat → 128 ≤ d.toNat → p c = p d

lemma Uniform.mem {p : Char → Bool} (h : Uniform p) {c b : Char} (hb : b ∈ charBytes c) :
    p b = p c := by
  rcases Nat.lt_or_ge c.toNat 128 with hc | hc
  · rw [charBytes_ascii hc, List.mem_singleton] at hb
    rw [hb]
  · exact h b c (charBytes_high hc b hb) hc

lemma Uniform.head? {p : Char → Bool} (h : Uniform p) (cs : Text) :
    (bytes cs).head?.any p = cs.head?.any p := by
  cases cs with
  | nil => rfl
  | cons c cs =>
    obtain ⟨b, bs, hb⟩ := List.exists_cons_of_ne_nil (charBytes_ne_nil c)
    rw [bytes_cons, hb]
    exact h.mem (by rw [hb]; exact List.mem_cons_self)

lemma Uniform.run {p : Char → Bool} (h : Uniform p) (cs : Text) :
    Text.run p (bytes cs) = byteSize (cs.take (Text.run p cs)) := by
  induction cs with
  | nil => rfl
  | cons c cs ih =>
    rw [bytes_cons]
    cases hc : p c with
    | true =>
      have hall : ∀ b ∈ charBytes c, p b = true := fun b hb => (h.mem hb).trans hc
      have hrun : Text.run p (c :: cs) = Text.run p cs + 1 := by simp [Text.run, hc]
      rw [Text.run, List.takeWhile_append_of_pos hall, List.length_append, length_charBytes, hrun,
        List.take_succ_cons, byteSize_cons, ← ih, Text.run]
    | false =>
      obtain ⟨b, bs, hb⟩ := List.exists_cons_of_ne_nil (charBytes_ne_nil c)
      have hfirst : p b = false := (h.mem (by rw [hb]; exact List.mem_cons_self)).trans hc
      rw [hb, List.cons_append]
      simp [Text.run, hfirst, hc]

lemma uniform_of_ascii {p : Char → Bool} (h : ∀ c : Char, p c = true → c.toNat < 128) :
    Uniform p := by
  intro c d hc hd
  have hfalse : ∀ e : Char, 128 ≤ e.toNat → p e = false := by
    intro e he
    rw [Bool.eq_false_iff]
    intro hp
    have := h e hp
    omega
  rw [hfalse c hc, hfalse d hd]

lemma uniform_eq {x : Char} (hx : x.toNat < 128) : Uniform (· == x) :=
  uniform_of_ascii fun c hc => by rwa [beq_iff_eq.1 hc]

lemma head?_bytes {x : Char} (hx : x.toNat < 128) (cs : Text) :
    (bytes cs).head? = some x ↔ cs.head? = some x := by
  have hany := (uniform_eq hx).head? cs
  rw [Bool.eq_iff_iff, Option.any_eq_true, Option.any_eq_true] at hany
  simpa using hany

lemma uniform_or {p q : Char → Bool} (hp : Uniform p) (hq : Uniform q) :
    Uniform fun c => p c || q c := fun c d hc hd => by
  simp only [hp c d hc hd, hq c d hc hd]

lemma uniform_between {low high : Char} (h : high.toNat < 128) :
    Uniform fun c => decide (low ≤ c) && decide (c ≤ high) := by
  apply uniform_of_ascii
  intro c hc
  have hle := (Bool.and_eq_true_iff.1 hc).2
  rw [decide_eq_true_eq, Char.le_def, UInt32.le_iff_toNat_le] at hle
  exact lt_of_le_of_lt hle h

lemma ne_of_high {c x : Char} (hc : 128 ≤ c.toNat) (hx : x.toNat < 128) : c ≠ x := by
  rintro rfl
  omega

lemma ne_of_charBytes {c x b : Char} (hx : x.toNat < 128) (hc : c ≠ x) (hb : b ∈ charBytes c) :
    b ≠ x := by
  have hsame := (uniform_eq hx).mem hb
  rw [beq_false_of_ne hc] at hsame
  exact ne_of_beq_false hsame

lemma isPrefixOf_bytes (word : Text) (hw : ∀ c ∈ word, c.toNat < 128) (cs : Text) :
    word.isPrefixOf (bytes cs) = word.isPrefixOf cs := by
  induction word generalizing cs with
  | nil => simp
  | cons w word ih =>
    obtain ⟨hascii, hword⟩ := List.forall_mem_cons.1 hw
    cases cs with
    | nil => rfl
    | cons c cs =>
      rcases Nat.lt_or_ge c.toNat 128 with hc | hc
      · rw [bytes_ascii hc, List.isPrefixOf_cons_cons, List.isPrefixOf_cons_cons, ih hword]
      · obtain ⟨b, bs, hb⟩ := List.exists_cons_of_ne_nil (charBytes_ne_nil c)
        have hne : w ≠ b := (ne_of_high (charBytes_high hc b (by rw [hb]; simp)) hascii).symm
        have hne' : w ≠ c := (ne_of_high hc hascii).symm
        rw [bytes_cons, hb, List.cons_append, List.isPrefixOf_cons_cons, List.isPrefixOf_cons_cons,
          beq_false_of_ne hne, beq_false_of_ne hne', Bool.false_and, Bool.false_and]

lemma ofUInt8_lt {m n : Nat} : Char.ofUInt8 (.ofNat m) < Char.ofUInt8 (.ofNat n) ↔ m % 256 < n % 256 := by
  change (Char.ofUInt8 _).toNat < (Char.ofUInt8 _).toNat ↔ _
  rw [toNat_ofUInt8, toNat_ofUInt8, UInt8.toNat_ofNat', UInt8.toNat_ofNat']

lemma ofUInt8_inj {m n : Nat} : Char.ofUInt8 (.ofNat m) = Char.ofUInt8 (.ofNat n) ↔ m % 256 = n % 256 := by
  rw [← Char.toNat_inj, toNat_ofUInt8, toNat_ofUInt8, UInt8.toNat_ofNat', UInt8.toNat_ofNat']

lemma charBytes_lt {c d : Char} (h : c < d) (cs ds : Text) : charBytes c ++ cs < charBytes d ++ ds := by
  have hlt : c.toNat < d.toNat := h
  have hmax : d.toNat < 0x110000 := by
    rcases d.valid with hlow | ⟨-, hhigh⟩
    · exact hlow.trans (by decide)
    · exact hhigh
  have hval : ∀ e : Char, e.val.toNat = e.toNat := fun _ => rfl
  have hdigits : ∀ n, n / 4096 = n / 64 / 64 ∧ n / 262144 = n / 64 / 64 / 64 := by omega
  simp only [charBytes, String.utf8EncodeChar, hval, hdigits]
  split_ifs <;> first
    | omega
    | simp only [List.map_cons, List.cons_append, List.cons_lt_cons_iff, ofUInt8_lt, ofUInt8_inj]
      omega

lemma bytes_lt {cs ds : Text} (h : cs < ds) : bytes cs < bytes ds := by
  induction cs generalizing ds with
  | nil =>
    cases ds with
    | nil => exact absurd h (List.lt_irrefl _)
    | cons d ds =>
      rw [bytes_nil, bytes_cons]
      obtain ⟨b, bs, hb⟩ := List.exists_cons_of_ne_nil (charBytes_ne_nil d)
      rw [hb]
      exact List.nil_lt_cons _ _
  | cons c cs ih =>
    cases ds with
    | nil => exact absurd h (List.not_lt_nil _)
    | cons d ds =>
      rw [bytes_cons, bytes_cons]
      rcases List.cons_lt_cons_iff.mp h with hlt | ⟨rfl, hrest⟩
      · exact charBytes_lt hlt _ _
      · exact List.append_left_lt (ih hrest)

end Stencil.Text

import Stencil.Files.Disk
import Mathlib.Data.List.Infix
import Mathlib.Tactic.Common

namespace Stencil

namespace Text

lemma split_ne_nil (separator : Char) (xs : Text) : split separator xs ≠ [] := by
  cases xs with
  | nil => simp [split]
  | cons x xs =>
    rw [split]
    split
    · simp
    · split <;> simp

lemma split_append (separator : Char) (xs ys : Text) :
    split separator (xs ++ separator :: ys) = split separator xs ++ split separator ys := by
  induction xs with
  | nil => simp [split]
  | cons x xs ih =>
    rw [List.cons_append, split, split, ih]
    obtain ⟨first, rest, hs⟩ := List.exists_cons_of_ne_nil (split_ne_nil separator xs)
    rw [hs]
    split <;> rfl

lemma split_of_not_mem {separator : Char} {xs : Text} (h : separator ∉ xs) :
    split separator xs = [xs] := by
  induction xs with
  | nil => rfl
  | cons x xs ih =>
    rw [List.mem_cons, not_or] at h
    rw [split, if_neg (Ne.symm h.1), ih h.2]

end Text

namespace Files

namespace Path

lemma segments_slash (xs ys : Text) : segments (xs ++ '/' :: ys) = segments xs ++ segments ys := by
  rw [segments, Text.split_append, List.filter_append]
  rfl

lemma segments_name {name : Text} (hne : name ≠ []) (hslash : '/' ∉ name) :
    segments name = [name] := by
  rw [segments, Text.split_of_not_mem hslash]
  simp [hne]

lemma segments_join {base name : Text} (hne : name ≠ []) (hslash : '/' ∉ name) :
    segments (join base name) = segments base ++ [name] := by
  have habsolute : isAbsolute name = false := by
    cases name with
    | nil => rfl
    | cons x xs =>
      rw [List.mem_cons, not_or] at hslash
      simp [isAbsolute, Ne.symm hslash.1]
  rw [join, habsolute, if_neg (by simp)]
  split
  case isTrue hbase =>
    rcases List.eq_nil_or_concat base with rfl | ⟨front, last, rfl⟩
    · exact segments_name hne hslash
    · obtain rfl : last = '/' := by simpa using hbase
      rw [List.concat_eq_append, List.append_assoc, List.singleton_append, segments_slash,
        segments_slash, segments_name hne hslash]
      simp [segments, Text.split]
  case isFalse =>
    rw [segments_slash, segments_name hne hslash]

end Path

namespace Disk

def placeOf (parts : List Text) : Key :=
  parts.foldl step []

/-- The place that a path leads to. -/
def place (path : Text) : Key :=
  placeOf (Path.segments path)

def way (parts : List Text) : List Key :=
  parts.inits.map placeOf

lemma placeOf_append (front back : List Text) :
    placeOf (front ++ back) = back.foldl step (placeOf front) :=
  List.foldl_append

lemma placeOf_getLast? {parts : List Text} {name : Text} (h : parts.getLast? = some name) :
    placeOf parts = step (placeOf parts.dropLast) name := by
  have hparts := List.dropLast_append_getLast? name h
  rw [← hparts, placeOf_append, hparts]
  rfl

lemma step_dot (key : Key) : step key ['.'] = key := rfl

lemma mem_way {parts : List Text} {key : Key} :
    key ∈ way parts ↔ ∃ front, front <+: parts ∧ placeOf front = key := by
  simp [way]

lemma placeOf_mem_way (parts : List Text) : placeOf parts ∈ way parts :=
  mem_way.2 ⟨parts, List.prefix_refl _, rfl⟩

lemma way_dropLast_subset (parts : List Text) : way parts.dropLast ⊆ way parts := by
  intro key hkey
  obtain ⟨front, hfront, rfl⟩ := mem_way.1 hkey
  exact mem_way.2 ⟨front, hfront.trans parts.dropLast_prefix, rfl⟩

lemma placeOf_filter (parts : List Text) :
    placeOf (parts.filter fun part => part ≠ ['.']) = placeOf parts := by
  have hfold (key : Key) :
      (parts.filter fun part => part ≠ ['.']).foldl step key = parts.foldl step key := by
    induction parts generalizing key with
    | nil => rfl
    | cons part parts ih =>
      by_cases hdot : part = ['.']
      · subst hdot
        simpa [step_dot] using ih key
      · rw [List.filter_cons_of_pos (by simpa using hdot)]
        exact ih _
  exact hfold []

lemma way_filter_subset (parts : List Text) :
    way (parts.filter fun part => part ≠ ['.']) ⊆ way parts := by
  intro key hkey
  obtain ⟨front, ⟨back, hparts⟩, rfl⟩ := mem_way.1 hkey
  obtain ⟨kept, rest, rfl, rfl, -⟩ := List.filter_eq_append_iff.1 hparts.symm
  exact mem_way.2 ⟨kept, List.prefix_append _ _, (placeOf_filter kept).symm⟩

lemma follow_cons_ok {d : Disk} {key last : Key} {part : Text} {rest : List Text} :
    d.follow key (part :: rest) = .ok last ↔
      (∃ time, d.entry? key = some (.directory time)) ∧ d.follow (step key part) rest = .ok last := by
  rw [follow]
  cases d.entry? key with
  | none => simp
  | some entry => cases entry <;> simp

lemma follow_ok {d : Disk} {key last : Key} {parts : List Text}
    (h : d.follow key parts = .ok last) : last = parts.foldl step key := by
  induction parts generalizing key with
  | nil =>
    cases h
    rfl
  | cons part parts ih => exact ih (follow_cons_ok.1 h).2

lemma follow_append_ok {d : Disk} {key last : Key} {front back : List Text} :
    d.follow key (front ++ back) = .ok last ↔
      ∃ middle, d.follow key front = .ok middle ∧ d.follow middle back = .ok last := by
  induction front generalizing key with
  | nil => simp [follow]
  | cons part front ih => simp only [List.cons_append, follow_cons_ok, ih, and_assoc, exists_and_left]

lemma followDirectory_ok {d : Disk} {parts : List Text} {key : Key}
    (h : d.followDirectory parts = .ok key) :
    key = placeOf parts ∧ d.follow [] parts = .ok key ∧
      ∃ time, d.entry? key = some (.directory time) := by
  obtain ⟨middle, hmiddle, hlast⟩ := follow_append_ok.1 h
  obtain ⟨hdirectory, hend⟩ := follow_cons_ok.1 hlast
  cases hend
  exact ⟨follow_ok hmiddle, hmiddle, hdirectory⟩

lemma locate_ok {d : Disk} {path : Text} {key : Key} (h : d.locate path = .ok key) :
    key = place path := by
  rw [locate] at h
  split at h
  · cases h
  · split at h
    · exact (followDirectory_ok h).1
    · exact follow_ok h

lemma find_ok {d : Disk} {path : Text} {found : Key × Entry} (h : d.find path = .ok found) :
    d.locate path = .ok (place path) ∧ found.1 = place path ∧
      d.entry? (place path) = some found.2 := by
  rw [find] at h
  split at h
  · cases h
  case h_2 key hkey =>
    obtain rfl := locate_ok hkey
    split at h
    case h_1 entry hentry =>
      cases h
      exact ⟨hkey, rfl, hentry⟩
    · cases h

lemma find_eq {d : Disk} {path : Text} {entry : Entry} (hl : d.locate path = .ok (place path))
    (he : d.entry? (place path) = some entry) : d.find path = .ok (place path, entry) := by
  rw [find, hl]
  simp only [he]

lemma modified_ok {d : Disk} {path : Text} {time : Nat} (h : d.modified path = .ok time) :
    ∃ entry, d.find path = .ok (place path, entry) ∧ entry.modified = time := by
  rw [modified] at h
  split at h
  case h_1 key entry hfind =>
    cases h
    obtain ⟨-, rfl, -⟩ := find_ok hfind
    exact ⟨entry, hfind, rfl⟩
  · cases h

lemma readText_ok {d : Disk} {path text : Text} :
    d.readText path = .ok text ↔
      ∃ time, d.find path = .ok (place path, .file (.text text) time) := by
  constructor
  · intro h
    rw [readText, content] at h
    cases hfind : d.find path with
    | error e =>
      rw [hfind] at h
      cases h
    | ok found =>
      obtain ⟨key, entry⟩ := found
      obtain ⟨-, hkey, -⟩ := find_ok hfind
      obtain rfl : key = place path := hkey
      rw [hfind] at h
      cases entry with
      | directory time => cases h
      | file content time =>
        cases content with
        | binary bytes => cases h
        | text content =>
          cases h
          exact ⟨time, rfl⟩
  · rintro ⟨time, hfind⟩
    rw [readText, content, hfind]
    rfl

def KeepsDirectories (d next : Disk) : Prop :=
  ∀ key time, d.entry? key = some (.directory time) →
    ∃ time', next.entry? key = some (.directory time')

lemma KeepsDirectories.follow {d next : Disk} (hd : KeepsDirectories d next) {key last : Key}
    {parts : List Text} (h : d.follow key parts = .ok last) : next.follow key parts = .ok last := by
  induction parts generalizing key with
  | nil => exact h
  | cons part parts ih =>
    obtain ⟨⟨time, hdirectory⟩, hrest⟩ := follow_cons_ok.1 h
    exact follow_cons_ok.2 ⟨hd key time hdirectory, ih hrest⟩

lemma KeepsDirectories.locate {d next : Disk} (hd : KeepsDirectories d next) {path : Text}
    {key : Key} (h : d.locate path = .ok key) : next.locate path = .ok key := by
  rw [Disk.locate] at h ⊢
  split at h
  case isTrue => cases h
  case isFalse hne =>
    rw [if_neg hne]
    split at h
    case isTrue hslash =>
      rw [if_pos hslash]
      exact hd.follow h
    case isFalse hslash =>
      rw [if_neg hslash]
      exact hd.follow h

lemma KeepsDirectories.find {d next : Disk} (hd : KeepsDirectories d next) {path : Text}
    {entry : Entry} (h : d.find path = .ok (place path, entry))
    (he : next.entry? (place path) = d.entry? (place path)) :
    next.find path = .ok (place path, entry) := by
  obtain ⟨hlocate, -, hentry⟩ := find_ok h
  exact find_eq (hd.locate hlocate) (he.trans hentry)

@[simp] lemma clock_put (d : Disk) (key : Key) (entry : Entry) : (d.put key entry).clock = d.clock :=
  rfl

@[simp] lemma clock_tick (d : Disk) : d.tick.clock = d.clock + 1 := rfl

@[simp] lemma clock_store (d : Disk) (key : Key) (text : Text) :
    (d.store key text).clock = d.clock + 1 :=
  rfl

@[simp] lemma clock_erase (d : Disk) (key : Key) : (d.erase key).clock = d.clock := rfl

@[simp] lemma entry?_tick (d : Disk) (key : Key) : d.tick.entry? key = d.entry? key := rfl

lemma lookup_filter_of_ne {key other : Key} (h : other ≠ key) (entries : List (Key × Entry)) :
    (entries.filter fun e => e.1 ≠ key).lookup other = entries.lookup other := by
  induction entries with
  | nil => rfl
  | cons first entries ih =>
    obtain ⟨k, e⟩ := first
    by_cases hk : k = key
    · subst hk
      rw [List.filter_cons_of_neg (by simp), List.lookup_cons, ih, beq_eq_false_iff_ne.2 h]
    · rw [List.filter_cons_of_pos (by simpa using hk), List.lookup_cons, List.lookup_cons, ih]

lemma entry?_put_of_ne {key other : Key} (h : other ≠ key) (d : Disk) (entry : Entry) :
    Disk.entry? (d.put key entry) other = d.entry? other := by
  rw [ entry?, entry?, put, List.lookup_cons, beq_eq_false_iff_ne.2 h]
  simp only [lookup_filter_of_ne h]

lemma entry?_put_self {key : Key} (h : key ≠ []) (d : Disk) (entry : Entry) :
    Disk.entry? (d.put key entry) key = some entry := by
  rw [ entry?, if_neg h, put, List.lookup_cons, beq_self_eq_true]

lemma entry?_store_of_ne {key other : Key} (h : other ≠ key) (d : Disk) (text : Text) :
    Disk.entry? (d.store key text) other = d.entry? other := by
  rw [store, entry?_tick, entry?_put_of_ne h]

lemma entry?_store_self {key : Key} (h : key ≠ []) (d : Disk) (text : Text) :
    Disk.entry? (d.store key text) key = some (.file (.text text) d.clock) := by
  rw [store, entry?_tick, entry?_put_self h]

lemma entry?_erase_of_ne {key other : Key} (h : other ≠ key) (d : Disk) :
    Disk.entry? (d.erase key) other = d.entry? other := by
  rw [ entry?, entry?, erase]
  simp only [lookup_filter_of_ne h]

lemma entry?_erase_self {key : Key} (h : key ≠ []) (d : Disk) :
    Disk.entry? (d.erase key) key = none := by
  rw [ entry?, if_neg h, erase, List.lookup_eq_none_iff]
  intro e he
  have hne : e.1 ≠ key := by simpa using (List.mem_filter.1 he).2
  simpa using hne.symm

structure Extends (d next : Disk) (places : List Key) : Prop where
  clock : d.clock ≤ next.clock
  entry : ∀ key, next.entry? key = d.entry? key ∨
    d.entry? key = none ∧ key ∈ places ∧
      ∃ time, next.entry? key = some (.directory time) ∧ d.clock ≤ time

namespace Extends

lemma refl (d : Disk) (places : List Key) : Extends d d places :=
  ⟨Nat.le_refl _, fun _ => .inl rfl⟩

lemma keeps {d next : Disk} {places : List Key} (h : Extends d next places) {key : Key}
    {entry : Entry} (he : d.entry? key = some entry) : next.entry? key = some entry := by
  rcases h.entry key with hsame | ⟨hnone, -⟩
  · exact hsame.trans he
  · rw [he] at hnone
    cases hnone

lemma keepsDirectories {d next : Disk} {places : List Key} (h : Extends d next places) :
    KeepsDirectories d next :=
  fun _ time he => ⟨time, h.keeps he⟩

lemma trans {d middle next : Disk} {places : List Key} (h : Extends d middle places)
    (h' : Extends middle next places) : Extends d next places := by
  refine ⟨h.clock.trans h'.clock, fun key => ?_⟩
  rcases h'.entry key with hsame | ⟨hnone, hkey, time, hentry, htime⟩
  · rw [hsame]
    exact h.entry key
  · refine .inr ⟨?_, hkey, time, hentry, h.clock.trans htime⟩
    cases he : d.entry? key with
    | none => rfl
    | some entry =>
      rw [h.keeps he] at hnone
      cases hnone

lemma mono {d next : Disk} {places places' : List Key} (h : Extends d next places)
    (hsub : places ⊆ places') : Extends d next places' := by
  refine ⟨h.clock, fun key => ?_⟩
  rcases h.entry key with hsame | ⟨hnone, hkey, hnew⟩
  · exact .inl hsame
  · exact .inr ⟨hnone, hsub hkey, hnew⟩

end Extends

lemma makeDirectory_ok {d next : Disk} {parts : List Text} (h : d.makeDirectory parts = .ok next) :
    Extends d next (way parts) := by
  rw [makeDirectory] at h
  split at h
  · cases h
  case h_2 name hname =>
    split at h
    · cases h
    case h_2 parent hparent =>
      obtain ⟨rfl, -, -⟩ := followDirectory_ok hparent
      split at h
      · cases h
      case isFalse hnew =>
        cases h
        obtain ⟨hdot, hup, hnone⟩ : name ≠ ['.'] ∧ name ≠ ['.', '.'] ∧
            d.entry? (placeOf parts.dropLast ++ [name]) = none := by
          simpa [not_or] using hnew
        have hplace : placeOf parts = placeOf parts.dropLast ++ [name] := by
          rw [placeOf_getLast? hname, step, if_neg hdot, if_neg hup]
        rw [← hplace] at hnone ⊢
        refine ⟨by simp, fun key => ?_⟩
        by_cases hkey : key = placeOf parts
        · subst hkey
          refine .inr ⟨hnone, placeOf_mem_way parts, d.clock, ?_, Nat.le_refl _⟩
          rw [entry?_tick, entry?_put_self (by simp [hplace])]
        · exact .inl (by rw [entry?_tick, entry?_put_of_ne hkey])

lemma ensureDirectory_ok {d next : Disk} {parts : List Text}
    (h : d.ensureDirectory parts = .ok next) : Extends d next (way parts) := by
  rw [ensureDirectory] at h
  split at h
  case h_1 made hmade =>
    cases h
    exact makeDirectory_ok hmade
  case h_2 =>
    split at h
    · cases h
      exact .refl d _
    · cases h

lemma way_above_subset (parts : List Text) :
    way (parts.filter fun part => part ≠ ['.']).dropLast ⊆ way parts :=
  List.Subset.trans (way_dropLast_subset _) (way_filter_subset parts)

lemma makeDirectories_extends (d : Disk) (parts : List Text) :
    Extends d (d.makeDirectories parts).2 (way parts) := by
  fun_induction makeDirectories d parts with
  | case1 => exact .refl _ _
  | case2 first rest next hmade => exact ensureDirectory_ok hmade
  | case3 first rest hmissing e next habove ih =>
    rw [habove] at ih
    exact ih.mono (way_above_subset _)
  | case4 first rest hmissing _ next habove last hlast ih =>
    rw [habove] at ih
    exact (ih.mono (way_above_subset _)).trans (ensureDirectory_ok hlast)
  | case5 first rest hmissing _ next habove e hlast ih =>
    rw [habove] at ih
    exact ih.mono (way_above_subset _)
  | case6 => exact .refl _ _

structure Writes (d next : Disk) (path text : Text) : Prop where
  clock : d.clock ≤ next.clock
  other : ∀ key, key ≠ place path → next.entry? key = d.entry? key
  keeps : KeepsDirectories d next
  found : ∃ time, d.clock ≤ time ∧ time < next.clock ∧
    next.find path = .ok (place path, .file (.text text) time)

lemma filePlace_ok {d : Disk} {path : Text} {key : Key} (h : d.filePlace path = .ok key) :
    key = place path ∧ d.locate path = .ok key ∧ ∀ time, d.entry? key ≠ some (.directory time) := by
  rw [filePlace] at h
  split at h
  · cases h
  case h_2 name hname =>
    split at h
    · cases h
    case h_2 parent hparent =>
      obtain ⟨rfl, hfollow, hdirectory⟩ := followDirectory_ok hparent
      split at h
      · cases h
      case h_2 hfile =>
        split at h
        · cases h
        case isFalse hslash =>
          cases h
          refine ⟨(placeOf_getLast? hname).symm, ?_, hfile⟩
          have hne : path ≠ [] := by
            rintro rfl
            cases hname
          have hway : d.follow [] ((Path.segments path).dropLast ++ [name]) =
              .ok (step (placeOf (Path.segments path).dropLast) name) :=
            follow_append_ok.2 ⟨_, hfollow, follow_cons_ok.2 ⟨hdirectory, rfl⟩⟩
          rw [List.dropLast_append_getLast? name hname] at hway
          rwa [locate, if_neg (by simpa using hne), if_neg hslash]

lemma ne_root_of_not_directory {d : Disk} {key : Key}
    (h : ∀ time, d.entry? key ≠ some (.directory time)) : key ≠ [] := by
  rintro rfl
  exact h 0 rfl

lemma keepsDirectories_of_ne {d next : Disk} {key : Key}
    (hkey : ∀ time, d.entry? key ≠ some (.directory time))
    (hother : ∀ other, other ≠ key → next.entry? other = d.entry? other) :
    KeepsDirectories d next := by
  intro other time hdirectory
  refine ⟨time, (hother other ?_).trans hdirectory⟩
  rintro rfl
  exact hkey time hdirectory

lemma writeFile_ok {d next : Disk} {path text : Text} (h : d.writeFile path text = .ok next) :
    Writes d next path text := by
  rw [writeFile] at h
  split at h
  · cases h
  case h_2 key hplace =>
    cases h
    obtain ⟨rfl, hlocate, hfile⟩ := filePlace_ok hplace
    have hother : ∀ other, other ≠ place path →
        Disk.entry? (d.store (place path) text) other = d.entry? other :=
      fun other hne => entry?_store_of_ne hne d text
    have hkeeps := keepsDirectories_of_ne hfile hother
    exact ⟨by simp, hother, hkeeps, d.clock, Nat.le_refl _, by simp,
      find_eq (hkeeps.locate hlocate) (entry?_store_self (ne_root_of_not_directory hfile) d text)⟩

lemma entry?_newName (d : Disk) (parent : Key) : d.entry? (parent ++ [d.newName]) = none := by
  rw [ entry?, if_neg (by simp), List.lookup_eq_none_iff]
  rintro ⟨key, entry⟩ hmem
  have hlength : (key.getLast?.getD []).length ≤
      ((d.entries.map fun e => (e.1.getLast?.getD []).length).max?.getD 0) :=
    List.le_max?_getD_of_mem (List.mem_map_of_mem hmem)
  have hne : parent ++ [d.newName] ≠ key := by
    rintro rfl
    simp [newName] at hlength
    omega
  simpa using hne

lemma makeTemporary_ok {d made : Disk} {directory : Text} {key : Key}
    (h : d.makeTemporary directory = .ok (key, made)) :
    key ≠ [] ∧ d.entry? key = none ∧ made = d.store key [] := by
  rw [makeTemporary] at h
  split at h
  · cases h
  case h_2 parent hparent =>
    cases h
    exact ⟨by simp, entry?_newName d parent, rfl⟩

lemma moveFile_ok {d next : Disk} {key : Key} {path : Text} {content : Content} {time : Nat}
    (h : d.moveFile key path = .ok next) (hkey : d.entry? key = some (.file content time)) :
    next.find path = .ok (place path, .file content time) ∧ next.clock = d.clock ∧
      (∀ saved, d.entry? (place path) ≠ some (.directory saved)) ∧
      ∀ other, other ≠ place path →
        next.entry? other = if other = key then none else d.entry? other := by
  rw [moveFile] at h
  split at h
  · cases h
  · cases h
  case h_3 target entry hplace hentry =>
    obtain rfl : Entry.file content time = entry := Option.some.inj (hkey.symm.trans hentry)
    cases h
    obtain ⟨rfl, hlocate, hfile⟩ := filePlace_ok hplace
    have hroot : key ≠ [] := by
      rintro rfl
      cases hkey
    have hother : ∀ other, other ≠ place path →
        Disk.entry? ((d.erase key).put (place path) (.file content time)) other =
          if other = key then none else d.entry? other := by
      intro other hne
      rw [entry?_put_of_ne hne]
      split
      case isTrue heq => rw [heq, entry?_erase_self hroot]
      case isFalse hkey => rw [entry?_erase_of_ne hkey]
    have hkeeps : KeepsDirectories d ((d.erase key).put (place path) (.file content time)) := by
      intro other saved hdirectory
      refine ⟨saved, ?_⟩
      rw [hother other ?_, if_neg ?_, hdirectory]
      · rintro rfl
        rw [hkey] at hdirectory
        cases hdirectory
      · rintro rfl
        exact hfile saved hdirectory
    exact ⟨find_eq (hkeeps.locate hlocate)
      (entry?_put_self (ne_root_of_not_directory hfile) _ _), rfl, hfile, hother⟩

end Disk

end Files

end Stencil

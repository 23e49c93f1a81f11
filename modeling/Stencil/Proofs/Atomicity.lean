import Stencil.Proofs.Freshness
import Mathlib.Tactic.Common

namespace Stencil.Cache

open Files Files.Disk Template

inductive Operation where
  | check
  | compile
  deriving DecidableEq, Repr

def Operation.run (c : Cache) (d : Disk) (name : Text) (faults : Faults) :
    Operation → Except Error Text × Disk
  | .check => c.check d name faults
  | .compile => c.compile d name faults

/-- At these places every file is as it was, and what is new are directories on the way to the cache
directory. -/
structure Spares (c : Cache) (d next : Disk) (places : Key → Prop) : Prop where
  files : ∀ key, places key → ∀ content time,
    next.entry? key = some (.file content time) ↔ d.entry? key = some (.file content time)
  made : ∀ key, places key → next.entry? key ≠ d.entry? key →
    d.entry? key = none ∧ key ∈ way (Path.segments c.cacheDir) ∧
      ∃ time, next.entry? key = some (.directory time)

/-- The compiled form is what the template compiles to, and nothing else is written. -/
structure Rewrites (c : Cache) (name : Text) (d next : Disk) : Prop where
  spares : Spares c d next (· ≠ place (c.cachePath name))
  whole : ∃ source code, d.readText (c.templatePath name) = .ok source ∧
    compile? c.options source = .ok (some code) ∧ next.readText (c.cachePath name) = .ok code

lemma spares_of_entry {c : Cache} {d next : Disk} {places : Key → Prop}
    (h : ∀ key, places key → next.entry? key = d.entry? key ∨
      d.entry? key = none ∧ key ∈ way (Path.segments c.cacheDir) ∧
        ∃ time, next.entry? key = some (.directory time)) : Spares c d next places := by
  constructor
  · intro key hkey content time
    rcases h key hkey with hsame | ⟨hnone, -, made, hnew⟩
    · rw [hsame]
    · rw [hnone, hnew]
      simp
  · intro key hkey hne
    rcases h key hkey with hsame | hnew
    · exact absurd hsame hne
    · exact hnew

lemma Spares.of_extends {c : Cache} {d next : Disk}
    (h : Extends d next (way (Path.segments c.cacheDir))) (places : Key → Prop) :
    Spares c d next places := by
  apply spares_of_entry
  intro key _
  rcases h.entry key with hsame | ⟨hnone, hkey, time, hnew, -⟩
  · exact .inl hsame
  · exact .inr ⟨hnone, hkey, time, hnew⟩

lemma Spares.of_writes {c : Cache} {d made next : Disk} {path text : Text}
    (h : Extends d made (way (Path.segments c.cacheDir))) (hw : Writes made next path text) :
    Spares c d next (· ≠ place path) := by
  apply spares_of_entry
  intro key hkey
  rw [hw.other key hkey]
  rcases h.entry key with hsame | ⟨hnone, hway, time, hnew, -⟩
  · exact .inl hsame
  · exact .inr ⟨hnone, hway, time, hnew⟩

lemma compile_outcome {c : Cache} {d next : Disk} {name : Text} {faults : Faults}
    {r : Except Error Text} (h : c.compile d name faults = (r, next)) :
    (∃ e, r = .error e ∧ Spares c d next fun _ => True) ∨
      r = .ok (c.cachePath name) ∧ Rewrites c name d next := by
  rcases compile_cases h with ⟨e, he, hmade⟩ | ⟨source, code, made, hr, hsource, hcode, hmade, hwrites⟩
  · exact .inl ⟨e, he, .of_extends hmade _⟩
  · obtain ⟨time, -, -, hcached⟩ := hwrites.found
    exact .inr ⟨hr, .of_writes hmade hwrites, source, code, hsource, hcode,
      readText_ok.2 ⟨time, hcached⟩⟩

lemma check_outcome {c : Cache} {d next : Disk} {name : Text} {faults : Faults}
    {r : Except Error Text} (h : c.check d name faults = (r, next)) :
    c.compile d name faults = (r, next) ∨
      next = d ∧ ∀ path, r = .ok path → path = c.cachePath name := by
  cases hlive : c.precompiled with
  | true =>
    rw [check, if_pos hlive] at h
    cases h
    refine .inr ⟨rfl, fun path hok => ?_⟩
    cases hok
    rfl
  | false =>
    rcases check_cases hlive h with hcompile | ⟨hsame, hpath⟩
    · exact .inl hcompile
    · exact .inr ⟨hsame, fun path hok => (hpath path hok).1⟩

lemma fileStem_word (name : Text) : ∀ ch ∈ fileStem name, ch.isAlphanum = true ∨ ch = '_' := by
  intro ch hch
  obtain ⟨original, -, rfl⟩ := List.mem_map.1 hch
  split
  case isTrue hword => simpa using hword
  case isFalse => exact .inr rfl

lemma run_outcome {c : Cache} {d next : Disk} {name : Text} {faults : Faults} {op : Operation}
    {r : Except Error Text} (h : op.run c d name faults = (r, next)) :
    c.compile d name faults = (r, next) ∨
      op = .check ∧ next = d ∧ ∀ path, r = .ok path → path = c.cachePath name := by
  cases op with
  | compile => exact .inl h
  | check => exact (check_outcome h).imp_right fun hsame => ⟨rfl, hsame⟩

/-- A failed operation changes no file. One that succeeds returns the path of the compiled form, and has
left the disk alone (a check only) or written the whole compiled form and no other file. The compiled
form is right in the cache directory under a name of its own, whatever the template is called. -/
theorem operation_atomic_confined (c : Cache) (d : Disk) (name : Text) (faults : Faults)
    (op : Operation) :
    (∀ e next, op.run c d name faults = (.error e, next) → Spares c d next fun _ => True) ∧
    (∀ path next, op.run c d name faults = (.ok path, next) →
      path = c.cachePath name ∧ (op = .check ∧ next = d ∨ Rewrites c name d next)) ∧
    ∃ stem : Text, (∀ ch ∈ stem, ch.isAlphanum = true ∨ ch = '_') ∧
      c.cachePath name = Path.join c.cacheDir ("tpl_".toList ++ stem ++ ".php".toList) ∧
      Path.segments (c.cachePath name) =
        Path.segments c.cacheDir ++ ["tpl_".toList ++ stem ++ ".php".toList] ∧
      place (c.cachePath name) = place c.cacheDir ++ ["tpl_".toList ++ stem ++ ".php".toList] := by
  refine ⟨?_, ?_, fileStem name, fileStem_word name, rfl, segments_cachePath c name,
    place_cachePath c name⟩
  · intro e next h
    rcases run_outcome h with hcompile | ⟨-, rfl, -⟩
    · rcases compile_outcome hcompile with ⟨-, -, hspares⟩ | ⟨hok, -⟩
      · exact hspares
      · cases hok
    · exact .of_extends (.refl _ _) _
  · intro path next h
    rcases run_outcome h with hcompile | ⟨hcheck, hsame, hpath⟩
    · rcases compile_outcome hcompile with ⟨e, he, -⟩ | ⟨hok, hrewrites⟩
      · cases he
      · cases hok
        exact ⟨rfl, .inr hrewrites⟩
    · exact ⟨hpath path rfl, .inl ⟨hcheck, hsame⟩⟩

end Stencil.Cache

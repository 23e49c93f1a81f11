import Stencil.Cache
import Stencil.Proofs.Places
import Stencil.Proofs.References
import Mathlib.Tactic.Common

/-! What the cache serves after saves, checks and compilations in any order. -/

namespace Stencil.Cache

open Files Files.Disk Template

def fileName (name : Text) : Text :=
  ['t', 'p', 'l', '_'] ++ fileStem name ++ ['.', 'p', 'h', 'p']

lemma cachePath_eq (c : Cache) (name : Text) :
    c.cachePath name = Path.join c.cacheDir (fileName name) := by
  simp [cachePath, fileName]

lemma slash_not_mem_fileStem (name : Text) : '/' ∉ fileStem name := by
  intro h
  obtain ⟨ch, -, hch⟩ := List.mem_map.1 h
  split at hch
  case isTrue hword =>
    subst hch
    exact absurd hword (by decide)
  · exact absurd hch (by decide)

lemma slash_not_mem_fileName (name : Text) : '/' ∉ fileName name := by
  simp [fileName, slash_not_mem_fileStem]

lemma segments_cachePath (c : Cache) (name : Text) :
    Path.segments (c.cachePath name) = Path.segments c.cacheDir ++ [fileName name] := by
  rw [cachePath_eq]
  exact Path.segments_join (List.cons_ne_nil _ _) (slash_not_mem_fileName name)

lemma place_cachePath (c : Cache) (name : Text) :
    place (c.cachePath name) = place c.cacheDir ++ [fileName name] := by
  have hstep (key : Key) : step key (fileName name) = key ++ [fileName name] := by
    simp [step, fileName]
  rw [place, segments_cachePath, placeOf_append, List.foldl_cons, List.foldl_nil, hstep]
  rfl

lemma fileStem_eq_of_place {c : Cache} {name other : Text}
    (h : place (c.cachePath other) = place (c.cachePath name)) : fileStem other = fileStem name := by
  rw [place_cachePath, place_cachePath] at h
  simpa [fileName] using h

/-- The way that a path takes does not lead below the place `base`. -/
def StaysOut (base : Key) (path : Text) : Prop :=
  ∀ key ∈ way (Path.segments path), base <+: key → key = base

instance (base : Key) (path : Text) : Decidable (StaysOut base path) :=
  inferInstanceAs (Decidable (∀ key ∈ way (Path.segments path), base <+: key → key = base))

lemma StaysOut.not_mem {c : Cache} {path : Text} (h : StaysOut (place c.cacheDir) path)
    (name : Text) : place (c.cachePath name) ∉ way (Path.segments path) := by
  intro hmem
  rw [place_cachePath] at hmem
  have hlength := congrArg List.length (h _ hmem (List.prefix_append _ _))
  simp at hlength

inductive Event where
  | save (name source : Text)
  | check (name : Text) (faults : Faults := {})
  | compile (name : Text) (faults : Faults := {})
  deriving DecidableEq, Repr

def Event.name : Event → Text
  | .save name _ | .check name _ | .compile name _ => name

def save (c : Cache) (d : Disk) (name source : Text) : Disk :=
  let made := (d.makeDirectories (Path.segments (c.templatePath name)).dropLast).2
  match made.writeFile (c.templatePath name) source with
  | .ok next => next
  | .error _ => made

def Event.apply (c : Cache) (d : Disk) : Event → Disk
  | .save name source => c.save d name source
  | .check name faults => (c.check d name faults).2
  | .compile name faults => (c.compile d name faults).2

def after (c : Cache) (d : Disk) (events : List Event) : Disk :=
  events.foldl (Event.apply c) d

structure Passes (key : Key) (d next : Disk) : Prop where
  clock : d.clock ≤ next.clock
  same : next.entry? key = d.entry? key
  later : ∀ other entry, next.entry? other = some entry →
    d.entry? other = some entry ∨ d.clock ≤ entry.modified

namespace Passes

lemma trans {key : Key} {d middle next : Disk} (h : Passes key d middle)
    (h' : Passes key middle next) : Passes key d next := by
  refine ⟨h.clock.trans h'.clock, h'.same.trans h.same, fun other entry hentry => ?_⟩
  rcases h'.later other entry hentry with hmiddle | hlater
  · exact h.later other entry hmiddle
  · exact .inr (h.clock.trans hlater)

lemma of_extends {key : Key} {d next : Disk} {places : List Key} (h : Extends d next places)
    (hkey : key ∉ places) : Passes key d next := by
  refine ⟨h.clock, ?_, fun other entry hentry => ?_⟩
  · rcases h.entry key with hsame | ⟨-, hmem, -⟩
    · exact hsame
    · exact absurd hmem hkey
  · rcases h.entry other with hsame | ⟨-, -, time, hnew, htime⟩
    · exact .inl (hsame.symm.trans hentry)
    · rw [hnew] at hentry
      cases hentry
      exact .inr htime

lemma of_writes {key : Key} {d next : Disk} {path text : Text} (h : Writes d next path text)
    (hkey : key ≠ place path) : Passes key d next := by
  refine ⟨h.clock, h.other key hkey, fun other entry hentry => ?_⟩
  by_cases hne : other = place path
  · subst hne
    obtain ⟨time, htime, -, hfind⟩ := h.found
    rw [(find_ok hfind).2.2] at hentry
    cases hentry
    exact .inr htime
  · exact .inl ((h.other other hne).symm.trans hentry)

end Passes

lemma output?_of_parse {c c' : Compiler} {source : Text} (h : c.parse source = (.ok (), c')) :
    ∃ code, c'.output? = some code := by
  obtain ⟨nodes, -, -, houtput⟩ := parse_emits h
  exact ⟨_, houtput⟩

lemma compile?_of_parse {o : Options} {c : Compiler} {source code : Text}
    (h : (Compiler.ofOptions o).parse source = (.ok (), c)) (hcode : c.output? = some code) :
    compile? o source = .ok (some code) := by
  rw [compile?, h, ← hcode]

lemma elim_error_ok {α : Type} {fault : Option IoError} {r : Except IoError α} {a : α}
    (h : fault.elim r .error = .ok a) : r = .ok a := by
  cases fault with
  | none => exact h
  | some e => cases h

lemma extends_erase {d next : Disk} {key : Key} (hroot : key ≠ []) (hnew : d.entry? key = none)
    (hclock : d.clock ≤ next.clock) (hother : ∀ other, other ≠ key → next.entry? other = d.entry? other) :
    Extends d (next.erase key) [] := by
  refine ⟨hclock, fun other => .inl ?_⟩
  by_cases heq : other = key
  · rw [heq, entry?_erase_self hroot, hnew]
  · rw [entry?_erase_of_ne heq, hother other heq]

lemma replace_cases {c : Cache} {d next : Disk} {cached code : Text} {faults : Faults}
    {r : Except Error Unit} (h : c.replace d cached code faults = (r, next)) :
    (∃ e, r = .error e ∧ Extends d next []) ∨ r = .ok () ∧ Writes d next cached code := by
  rw [replace] at h
  split at h
  case h_1 =>
    cases h
    exact .inl ⟨_, rfl, .refl _ _⟩
  case h_2 temporary made hmake =>
    obtain ⟨hroot, hnew, rfl⟩ := makeTemporary_ok (elim_error_ok hmake)
    split at h
    case h_1 =>
      cases h
      exact .inl ⟨_, rfl, extends_erase hroot hnew (by simp) fun other hne => entry?_store_of_ne hne _ _⟩
    case h_2 =>
      have hother : ∀ other, other ≠ temporary →
          Disk.entry? ((d.store temporary []).store temporary code) other = d.entry? other := by
        intro other hne
        rw [entry?_store_of_ne hne, entry?_store_of_ne hne]
      simp only at h
      split at h
      case h_1 =>
        cases h
        exact .inl ⟨_, rfl, extends_erase hroot hnew (by simp; omega) hother⟩
      case h_2 last hmove =>
        cases h
        obtain ⟨hfind, hclock, hfile, hnext⟩ :=
          moveFile_ok (elim_error_ok hmove) (entry?_store_self hroot _ _)
        have hsame : ∀ other, other ≠ place cached → next.entry? other = d.entry? other := by
          intro other hne
          rw [hnext other hne]
          split
          case isTrue heq => rw [heq, hnew]
          case isFalse hne => exact hother other hne
        have hplace : ∀ time, d.entry? (place cached) ≠ some (.directory time) := by
          intro time hdirectory
          by_cases heq : place cached = temporary
          · rw [heq, hnew] at hdirectory
            cases hdirectory
          · exact hfile time ((hother _ heq).trans hdirectory)
        exact .inr ⟨rfl, by simp [hclock]; omega, hsame, keepsDirectories_of_ne hplace hsame, _,
          by simp, by simp [hclock], hfind⟩

lemma write_cases {c : Cache} {d next : Disk} {template cached : Text} {faults : Faults}
    {r : Except Error Unit} (h : c.write d template cached faults = (r, next)) :
    (∃ e, r = .error e ∧ Extends d next (way (Path.segments c.cacheDir))) ∨
      ∃ source code made, r = .ok () ∧ d.readText template = .ok source ∧
        compile? c.options source = .ok (some code) ∧
        Extends d made (way (Path.segments c.cacheDir)) ∧ Writes made next cached code := by
  have hmade := makeDirectories_extends d (Path.segments c.cacheDir)
  rw [write] at h
  split at h
  case h_1 e _ =>
    cases h
    exact .inl ⟨_, rfl, .refl _ _⟩
  case h_2 source hsource =>
    split at h
    case h_1 e _ _ =>
      cases h
      exact .inl ⟨_, rfl, .refl _ _⟩
    case h_2 compiler hparse =>
      obtain ⟨code, hcode⟩ := output?_of_parse hparse
      split at h
      case h_1 e made hmake =>
        cases h
        rw [hmake] at hmade
        exact .inl ⟨_, rfl, hmade⟩
      case h_2 made hmake =>
        rw [hmake] at hmade
        rw [hcode, Option.getD_some] at h
        rcases replace_cases h with ⟨e, he, hsame⟩ | ⟨hok, hwrites⟩
        · exact .inl ⟨e, he, hmade.trans (hsame.mono (List.nil_subset _))⟩
        · exact .inr ⟨source, code, made, hok, hsource, compile?_of_parse hparse hcode, hmade, hwrites⟩

lemma isStale_false {d : Disk} {template cached : Text} (h : isStale d template cached = .ok false) :
    ∃ cachedAt templateAt, d.modified cached = .ok cachedAt ∧ d.modified template = .ok templateAt ∧
      templateAt ≤ cachedAt := by
  rw [isStale] at h
  split at h
  · cases h
  case h_2 cachedAt hcached =>
    split at h
    · cases h
    case h_2 templateAt htemplate =>
      exact ⟨cachedAt, templateAt, hcached, htemplate, by simpa using h⟩

lemma compile_cases {c : Cache} {d next : Disk} {name : Text} {faults : Faults}
    {r : Except Error Text} (h : c.compile d name faults = (r, next)) :
    (∃ e, r = .error e ∧ Extends d next (way (Path.segments c.cacheDir))) ∨
      ∃ source code made, r = .ok (c.cachePath name) ∧
        d.readText (c.templatePath name) = .ok source ∧
        compile? c.options source = .ok (some code) ∧
        Extends d made (way (Path.segments c.cacheDir)) ∧
        Writes made next (c.cachePath name) code := by
  rw [compile] at h
  split at h
  case h_1 last hwrite =>
    cases h
    rcases write_cases hwrite with ⟨e, he, -⟩ | ⟨source, code, made, -, hwritten⟩
    · cases he
    · exact .inr ⟨source, code, made, rfl, hwritten⟩
  case h_2 e last hwrite =>
    cases h
    rcases write_cases hwrite with ⟨-, -, hmade⟩ | ⟨-, -, -, hok, -⟩
    · exact .inl ⟨e, rfl, hmade⟩
    · cases hok

lemma check_cases {c : Cache} {d next : Disk} {name : Text} {faults : Faults}
    {r : Except Error Text} (hlive : c.precompiled = false)
    (h : c.check d name faults = (r, next)) :
    c.compile d name faults = (r, next) ∨ next = d ∧ ∀ path, r = .ok path → path = c.cachePath name ∧
      isStale d (c.templatePath name) (c.cachePath name) = .ok false := by
  rw [check, if_neg (by simp [hlive])] at h
  split at h
  case h_1 =>
    cases h
    exact .inr ⟨rfl, fun path hok => by cases hok⟩
  case h_2 => exact .inl h
  case h_3 hfresh =>
    cases h
    refine .inr ⟨rfl, fun path hok => ?_⟩
    cases hok
    exact ⟨rfl, hfresh⟩

def Current (c : Cache) (name : Text) (d : Disk) : Prop :=
  ∃ source code, d.readText (c.templatePath name) = .ok source ∧
    compile? c.options source = .ok (some code) ∧ d.readText (c.cachePath name) = .ok code

/-- A compiled form, if there is one, is in the past, and it is what the template compiles to unless
the template is newer. -/
def Fresh (c : Cache) (name : Text) (d : Disk) : Prop :=
  ∀ entry, d.entry? (place (c.cachePath name)) = some entry →
    ∃ code time, entry = .file (.text code) time ∧ time < d.clock ∧
      ∀ template, d.entry? (place (c.templatePath name)) = some template →
        template.modified ≤ time →
          ∃ source saved, template = .file (.text source) saved ∧
            compile? c.options source = .ok (some code)

lemma fresh_of_empty {c : Cache} {d : Disk} (name : Text) (h : d.below (place c.cacheDir) = []) :
    Fresh c name d := by
  intro entry hentry
  rw [place_cachePath, entry?, if_neg (by simp)] at hentry
  obtain ⟨before, later, hentries, -⟩ := List.lookup_eq_some_iff.1 hentry
  have hbelow : ([fileName name], entry) ∈ d.below (place c.cacheDir) :=
    List.mem_filterMap.2 ⟨_, hentries ▸ List.mem_append_right _ List.mem_cons_self, by simp⟩
  rw [h] at hbelow
  cases hbelow

lemma Fresh.passes {c : Cache} {name : Text} {d next : Disk} (h : Fresh c name d)
    (hp : Passes (place (c.cachePath name)) d next) : Fresh c name next := by
  intro entry hentry
  rw [hp.same] at hentry
  obtain ⟨code, time, rfl, htime, hcode⟩ := h entry hentry
  refine ⟨code, time, rfl, htime.trans_le hp.clock, fun template htemplate hold => ?_⟩
  rcases hp.later _ template htemplate with hsame | hlater
  · exact hcode template hsame hold
  · omega

lemma Fresh.current {c : Cache} {name : Text} {d : Disk} (h : Fresh c name d)
    (hs : isStale d (c.templatePath name) (c.cachePath name) = .ok false) : Current c name d := by
  obtain ⟨cachedAt, templateAt, hcached, htemplate, hle⟩ := isStale_false hs
  obtain ⟨entry, hfind, rfl⟩ := modified_ok hcached
  obtain ⟨template, hfind', rfl⟩ := modified_ok htemplate
  obtain ⟨code, time, rfl, -, hcode⟩ := h entry (find_ok hfind).2.2
  obtain ⟨source, saved, rfl, hsource⟩ := hcode template (find_ok hfind').2.2 hle
  exact ⟨source, code, readText_ok.2 ⟨saved, hfind'⟩, hsource, readText_ok.2 ⟨time, hfind⟩⟩

lemma compile_current {c : Cache} {d next : Disk} {name path : Text} {faults : Faults}
    (hout : StaysOut (place c.cacheDir) (c.templatePath name))
    (h : c.compile d name faults = (.ok path, next)) :
    path = c.cachePath name ∧ Current c name next ∧ Fresh c name next := by
  rcases compile_cases h with ⟨e, he, -⟩ | ⟨source, code, made, hpath, hsource, hcode, hmade, hwrites⟩
  · cases he
  cases hpath
  obtain ⟨saved, htemplate⟩ := readText_ok.1 hsource
  obtain ⟨time, -, htime, hcached⟩ := hwrites.found
  have hapart : place (c.templatePath name) ≠ place (c.cachePath name) :=
    fun heq => hout.not_mem name (heq ▸ placeOf_mem_way _)
  have hsame : next.entry? (place (c.templatePath name)) =
      made.entry? (place (c.templatePath name)) :=
    hwrites.other _ hapart
  have hfound : next.find (c.templatePath name) =
      .ok (place (c.templatePath name), .file (.text source) saved) :=
    hwrites.keeps.find (find_eq (hmade.keepsDirectories.locate (find_ok htemplate).1)
      (hmade.keeps (find_ok htemplate).2.2)) hsame
  refine ⟨rfl, ⟨source, code, readText_ok.2 ⟨saved, hfound⟩, hcode, readText_ok.2 ⟨time, hcached⟩⟩, ?_⟩
  intro entry hentry
  rw [(find_ok hcached).2.2] at hentry
  cases hentry
  refine ⟨code, time, rfl, htime, fun template hentry' _ => ?_⟩
  rw [(find_ok hfound).2.2] at hentry'
  cases hentry'
  exact ⟨source, saved, rfl, hcode⟩

section

variable {c : Cache} {name : Text}

lemma Fresh.compile {d : Disk} (h : Fresh c name d) {other : Text} (faults : Faults)
    (hdir : StaysOut (place c.cacheDir) c.cacheDir)
    (hout : StaysOut (place c.cacheDir) (c.templatePath other))
    (hstem : fileStem other = fileStem name → other = name) :
    Fresh c name (c.compile d other faults).2 := by
  cases hc : c.compile d other faults with
  | mk r next =>
    rcases compile_cases hc with ⟨e, -, hmade⟩ | ⟨source, code, made, hr, -, -, hmade, hwrites⟩
    · exact h.passes (.of_extends hmade (hdir.not_mem name))
    · by_cases hplace : place (c.cachePath name) = place (c.cachePath other)
      · obtain rfl := hstem (fileStem_eq_of_place hplace.symm)
        subst hr
        exact (compile_current hout hc).2.2
      · exact h.passes ((Passes.of_extends hmade (hdir.not_mem name)).trans
          (.of_writes hwrites hplace))

lemma Fresh.check {d : Disk} (h : Fresh c name d) {other : Text} (faults : Faults)
    (hlive : c.precompiled = false)
    (hdir : StaysOut (place c.cacheDir) c.cacheDir)
    (hout : StaysOut (place c.cacheDir) (c.templatePath other))
    (hstem : fileStem other = fileStem name → other = name) :
    Fresh c name (c.check d other faults).2 := by
  cases hc : c.check d other faults with
  | mk r next =>
    rcases check_cases hlive hc with hcompile | ⟨rfl, -⟩
    · have hnext := h.compile faults hdir hout hstem
      rwa [hcompile] at hnext
    · exact h

lemma Fresh.save {d : Disk} (h : Fresh c name d) {other source : Text}
    (hout : StaysOut (place c.cacheDir) (c.templatePath other)) :
    Fresh c name (c.save d other source) := by
  have hmade := makeDirectories_extends d (Path.segments (c.templatePath other)).dropLast
  have hpasses : Passes (place (c.cachePath name)) d _ :=
    .of_extends hmade fun hmem => hout.not_mem name (way_dropLast_subset _ hmem)
  rw [Cache.save]
  split
  case h_1 next hwrite =>
    refine h.passes (hpasses.trans (.of_writes (writeFile_ok hwrite) ?_))
    exact fun heq => hout.not_mem name (heq ▸ placeOf_mem_way _)
  case h_2 => exact h.passes hpasses

lemma Fresh.apply {d : Disk} (h : Fresh c name d) {event : Event} (hlive : c.precompiled = false)
    (hdir : StaysOut (place c.cacheDir) c.cacheDir)
    (hout : StaysOut (place c.cacheDir) (c.templatePath event.name))
    (hstem : fileStem event.name = fileStem name → event.name = name) :
    Fresh c name (event.apply c d) := by
  cases event with
  | save other source => exact h.save hout
  | check other faults => exact h.check faults hlive hdir hout hstem
  | compile other faults => exact h.compile faults hdir hout hstem

lemma Fresh.after {d : Disk} (h : Fresh c name d) (events : List Event)
    (hlive : c.precompiled = false) (hdir : StaysOut (place c.cacheDir) c.cacheDir)
    (hout : ∀ event ∈ events, StaysOut (place c.cacheDir) (c.templatePath event.name))
    (hstem : ∀ event ∈ events, fileStem event.name = fileStem name → event.name = name) :
    Fresh c name (c.after d events) := by
  induction events generalizing d with
  | nil => exact h
  | cons event events ih =>
    rw [List.forall_mem_cons] at hout hstem
    exact ih (h.apply hlive hdir hout.1 hstem.1) hout.2 hstem.2

end

/-- A check never serves another template or an old one, after any saves, checks and compilations on
templates outside the cache directory, if no other template has the same file name there. -/
theorem check_serves_current (c : Cache) (d : Disk) (events : List Event) (name : Text)
    (hlive : c.precompiled = false) (hempty : d.below (place c.cacheDir) = [])
    (hdir : StaysOut (place c.cacheDir) c.cacheDir)
    (hout : ∀ other ∈ name :: events.map Event.name,
      StaysOut (place c.cacheDir) (c.templatePath other))
    (hstem : ∀ other ∈ events.map Event.name, fileStem other = fileStem name → other = name)
    {faults : Faults} {path : Text} {next : Disk}
    (h : c.check (c.after d events) name faults = (.ok path, next)) :
    path = c.cachePath name ∧ ∃ source code, next.readText (c.templatePath name) = .ok source ∧
      compile? c.options source = .ok (some code) ∧ next.readText path = .ok code := by
  rw [List.forall_mem_cons, List.forall_mem_map] at hout
  rw [List.forall_mem_map] at hstem
  have hfresh := (fresh_of_empty name hempty).after events hlive hdir hout.2 hstem
  rcases check_cases hlive h with hcompile | ⟨rfl, hserved⟩
  · obtain ⟨rfl, hcurrent, -⟩ := compile_current hout.1 hcompile
    exact ⟨rfl, hcurrent⟩
  · obtain ⟨rfl, hstale⟩ := hserved path rfl
    exact ⟨rfl, hfresh.current hstale⟩

def sampleCache : Cache where
  templateDir := "/views".toList
  cacheDir := "/cache".toList
  extension := "html".toList
  precompiled := false
  options := {}

def savedTwice : List Event := [
  .save "a/b".toList "<p>one</p>".toList,
  .check "a/b".toList,
  .save "c".toList "<p>other</p>".toList,
  .compile "c".toList,
  .save "a/b".toList "<p>two</p>".toList]

theorem check_serves_current_savedTwice :
    ∃ path next, sampleCache.check (sampleCache.after (.empty 1) savedTwice) "a/b".toList =
        (.ok path, next) ∧
      path = sampleCache.cachePath "a/b".toList ∧
      ∃ source code, next.readText (sampleCache.templatePath "a/b".toList) = .ok source ∧
        compile? sampleCache.options source = .ok (some code) ∧ next.readText path = .ok code := by
  have hout : ∀ other ∈ "a/b".toList :: savedTwice.map Event.name,
      StaysOut (place sampleCache.cacheDir) (sampleCache.templatePath other) := by decide
  have hstem : ∀ other ∈ savedTwice.map Event.name,
      fileStem other = fileStem "a/b".toList → other = "a/b".toList := by decide
  have hcheck : sampleCache.check (sampleCache.after (.empty 1) savedTwice) "a/b".toList =
      (.ok (sampleCache.cachePath "a/b".toList),
        (sampleCache.check (sampleCache.after (.empty 1) savedTwice) "a/b".toList).2) :=
    Prod.ext (by decide +kernel) rfl
  exact ⟨_, _, hcheck, check_serves_current sampleCache (.empty 1) savedTwice "a/b".toList rfl rfl
    (by decide) hout hstem hcheck⟩

def sharedFile : List Event := [
  .save "a/b".toList "<p>one</p>".toList,
  .save "a_b".toList "<p>two</p>".toList,
  .check "a/b".toList]

theorem check_serves_other_template :
    (∀ other ∈ "a_b".toList :: sharedFile.map Event.name,
      StaysOut (place sampleCache.cacheDir) (sampleCache.templatePath other)) ∧
    ∃ next, sampleCache.check (sampleCache.after (.empty 1) sharedFile) "a_b".toList =
        (.ok (sampleCache.cachePath "a_b".toList), next) ∧
      next.readText (sampleCache.templatePath "a_b".toList) = .ok "<p>two</p>".toList ∧
      compile? sampleCache.options "<p>two</p>".toList = .ok (some "<p>two</p>".toList) ∧
      next.readText (sampleCache.cachePath "a_b".toList) = .ok "<p>one</p>".toList := by
  refine ⟨by decide, (sampleCache.check (sampleCache.after (.empty 1) sharedFile) "a_b".toList).2,
    Prod.ext (by decide +kernel) rfl, ?_, ?_, ?_⟩
  all_goals decide +kernel

end Stencil.Cache

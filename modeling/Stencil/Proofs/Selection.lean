import Stencil.CommandLine
import Mathlib.Data.Char
import Mathlib.Data.List.Lex
import Mathlib.Data.List.Sort

namespace Stencil.Files

section

variable {key other : Key} {keys : List Key}

@[simp] lemma mem_insertKey : other ∈ insertKey key keys ↔ other = key ∨ other ∈ keys := by
  induction keys with
  | nil => simp [insertKey]
  | cons first rest ih =>
    rw [insertKey]
    split
    · simp
    · split
      · rename_i heq
        simp [heq]
      · simp [ih, or_left_comm]

lemma insertKey_increasing (h : keys.Pairwise (· < ·)) : (insertKey key keys).Pairwise (· < ·) := by
  induction keys with
  | nil => simp [insertKey]
  | cons first rest ih =>
    obtain ⟨hfirst, hrest⟩ := List.pairwise_cons.mp h
    rw [insertKey]
    split
    · rename_i hlt
      apply List.pairwise_cons.mpr
      refine ⟨fun next hnext => ?_, h⟩
      rcases List.mem_cons.mp hnext with rfl | hmem
      · exact hlt
      · exact lt_trans hlt (hfirst next hmem)
    · split
      · exact h
      · rename_i hle hne
        apply List.pairwise_cons.mpr
        refine ⟨fun next hnext => ?_, ih hrest⟩
        rcases mem_insertKey.mp hnext with rfl | hmem
        · exact lt_of_le_of_ne (not_lt.mp hle) (Ne.symm hne)
        · exact hfirst next hmem

end

section

variable (walk : Walk) (d : Disk) (extension : Text)

lemma mem_templateFiles {paths : List Text} {key : Key} :
    key ∈ templateFiles walk d extension paths ↔ ∃ path ∈ paths, key ∈ selectedBy walk d extension path := by
  have hfold : ∀ keys : List Key, key ∈ keys.foldr insertKey [] ↔ key ∈ keys := by
    intro keys
    induction keys with
    | nil => rfl
    | cons first rest ih => simp [ih]
  rw [templateFiles, hfold, List.mem_flatMap]

lemma templateFiles_increasing (paths : List Text) :
    (templateFiles walk d extension paths).Pairwise (· < ·) := by
  rw [templateFiles]
  induction paths.flatMap (selectedBy walk d extension) with
  | nil => exact .nil
  | cons first rest ih => exact insertKey_increasing ih

lemma templateFiles_ext {paths paths' : List Text}
    (h : ∀ key, key ∈ templateFiles walk d extension paths ↔ key ∈ templateFiles walk d extension paths') :
    templateFiles walk d extension paths = templateFiles walk d extension paths' :=
  (templateFiles_increasing walk d extension paths).eq_of_mem_iff
    (templateFiles_increasing walk d extension paths') h

lemma mem_selectedBy {path : Text} {key : Key} (h : key ∈ selectedBy walk d extension path) :
    ∃ found, d.find path = .ok found ∧
      ∀ path', d.find path' = .ok found → key ∈ selectedBy walk d extension path' := by
  cases hfind : d.find path with
  | error e => simp [selectedBy, hfind] at h
  | ok found =>
    refine ⟨found, rfl, fun path' hfind' => ?_⟩
    rw [selectedBy, hfind] at h
    rwa [selectedBy, hfind']

def SamePlaces (paths paths' : List Text) : Prop :=
  ∀ found, (∃ path ∈ paths, d.find path = .ok found) ↔ ∃ path ∈ paths', d.find path = .ok found

lemma templateFiles_samePlaces {paths paths' : List Text} (h : SamePlaces d paths paths') :
    templateFiles walk d extension paths = templateFiles walk d extension paths' := by
  have hsubset : ∀ {ps qs : List Text}, SamePlaces d ps qs → ∀ key,
      key ∈ templateFiles walk d extension ps → key ∈ templateFiles walk d extension qs := by
    intro ps qs hsame key hkey
    obtain ⟨path, hpath, hselected⟩ := (mem_templateFiles walk d extension).mp hkey
    obtain ⟨found, hfind, hanywhere⟩ := mem_selectedBy walk d extension hselected
    obtain ⟨path', hpath', hfind'⟩ := (hsame found).mp ⟨path, hpath, hfind⟩
    exact (mem_templateFiles walk d extension).mpr ⟨path', hpath', hanywhere path' hfind'⟩
  apply templateFiles_ext
  exact fun key => ⟨hsubset h key, hsubset (fun found => (h found).symm) key⟩

lemma samePlaces_of_mem {paths paths' : List Text} (h : ∀ path, path ∈ paths ↔ path ∈ paths') :
    SamePlaces d paths paths' := by
  intro found
  simp only [h]

end

end Stencil.Files

namespace Stencil.CommandLine

open Files Template

def checkedFiles (walk : Walk) (p : Project) (d : Disk) (paths : List Text) : List Key :=
  templateFiles walk d p.settings.cache.extension (checkRoots p paths)

def FailsWith (p : Project) (d : Disk) (key : Key) (e : FileError) : Prop :=
  ∃ c, (Compiler.ofOptions p.settings.compiler).parseFile d (Key.path key) = (.error e, c)

/-- What a check says that found these files to fail. Other lines may be logged before the number. -/
structure Says (root : Key) (found : List (Key × FileError)) (outcome : Outcome) : Prop where
  code : outcome.code = if found.isEmpty then 0 else 1
  lines : outcome.stdout = found.flatMap fun f => failureLine root f.1 f.2
  number : found ≠ [] → (countMessage found.length).toList ++ ['\n'] <:+ outcome.stderr

def shown (result : Outcome × Disk) : Nat × Text × Disk :=
  (result.1.code, result.1.stdout, result.2)

section

variable (walk : Walk) (p : Project) (d : Disk)

lemma fileError?_some {key : Key} {e : FileError} :
    fileError? p.settings.compiler d key = some e ↔ FailsWith p d key e := by
  rw [fileError?, FailsWith]
  cases (Compiler.ofOptions p.settings.compiler).parseFile d (Key.path key) with
  | mk result compiler => cases result <;> simp

lemma mem_failures {keys : List Key} {key : Key} {e : FileError} :
    (key, e) ∈ failures p.settings.compiler d keys ↔ key ∈ keys ∧ FailsWith p d key e := by
  simp only [failures, List.mem_filterMap, Option.map_eq_some_iff, Prod.mk.injEq,
    ← fileError?_some]
  constructor
  · rintro ⟨key, hmem, e, he, rfl, rfl⟩
    exact ⟨hmem, he⟩
  · rintro ⟨hmem, he⟩
    exact ⟨key, hmem, e, he, rfl, rfl⟩

lemma failures_sublist (keys : List Key) :
    List.Sublist ((failures p.settings.compiler d keys).map Prod.fst) keys := by
  rw [failures]
  induction keys with
  | nil => exact .slnil
  | cons key rest ih =>
    cases he : fileError? p.settings.compiler d key with
    | none => simpa [he] using ih.cons key
    | some e => simpa [he] using ih

lemma execute_check (stdin : Content) (paths : List Text) :
    execute walk p stdin ⟨false, .check paths⟩ d = (checkFiles walk p false paths d, d) :=
  rfl

section

variable {walk p d} {paths : List Text} {found : List (Key × FileError)}
  (hfound : failures p.settings.compiler d (checkedFiles walk p d paths) = found)
include hfound

lemma checkFiles_broken (h : ∃ f ∈ found, f.2.breaksOff = true) :
    checkFiles walk p false paths d = .broken [] := by
  rw [checkedFiles] at hfound
  rw [checkFiles, hfound]
  exact if_pos (List.any_eq_true.mpr h)

lemma checkFiles_says (h : ∀ f ∈ found, f.2.breaksOff = false) :
    Says (Path.segments p.root) found (checkFiles walk p false paths d) := by
  have hany : ¬(found.any fun f => f.2.breaksOff) = true := by simpa using h
  rw [checkedFiles] at hfound
  rw [checkFiles, hfound]
  simp only [if_neg hany]
  cases found with
  | nil => exact ⟨rfl, rfl, fun hne => absurd rfl hne⟩
  | cons first rest => exact ⟨rfl, rfl, fun _ => List.suffix_refl _⟩

end

lemma execute_samePlaces (stdin : Content) {paths paths' : List Text}
    (h : SamePlaces d (checkRoots p paths) (checkRoots p paths')) :
    shown (execute walk p stdin ⟨false, .check paths⟩ d) =
      shown (execute walk p stdin ⟨false, .check paths'⟩ d) := by
  have hfiles := templateFiles_samePlaces walk d p.settings.cache.extension h
  rw [execute_check, execute_check, checkFiles, checkFiles, hfiles]

lemma checkRoots_mem {paths paths' : List Text} (h : ∀ path, path ∈ paths ↔ path ∈ paths') :
    ∀ root, root ∈ checkRoots p paths ↔ root ∈ checkRoots p paths' := by
  have hempty : paths.isEmpty = paths'.isEmpty := by
    rw [Bool.eq_iff_iff, List.isEmpty_iff, List.isEmpty_iff, List.eq_nil_iff_forall_not_mem,
      List.eq_nil_iff_forall_not_mem]
    simp only [h]
  intro root
  rw [checkRoots, checkRoots, hempty]
  split
  · rfl
  · simp only [List.mem_map, h]

end

/-- A check does not depend on how its paths are given. The files are selected one by one and listed in
order, each once, whatever the order, the number and the spelling of the paths. Each of them that fails
is said so once and in that order, and the exit code tells whether there is one, unless a file makes the
program break off: then nothing is said of any file. -/
theorem check_independent_of_paths (walk : Walk) (p : Project) (d : Disk) (stdin : Content)
    (paths paths' : List Text) :
    (∀ extension,
      (templateFiles walk d extension paths).Pairwise (· < ·) ∧
      (∀ key, key ∈ templateFiles walk d extension (paths ++ paths') ↔
        key ∈ templateFiles walk d extension paths ∨ key ∈ templateFiles walk d extension paths') ∧
      ((∀ path, path ∈ paths ↔ path ∈ paths') →
        templateFiles walk d extension paths = templateFiles walk d extension paths') ∧
      (SamePlaces d paths paths' →
        templateFiles walk d extension paths = templateFiles walk d extension paths')) ∧
    (∃ found outcome, (found.map Prod.fst).Pairwise (· < ·) ∧
      (∀ key e, (key, e) ∈ found ↔ key ∈ checkedFiles walk p d paths ∧ FailsWith p d key e) ∧
      execute walk p stdin ⟨false, .check paths⟩ d = (outcome, d) ∧
      ((∀ f ∈ found, f.2.breaksOff = false) → Says (Path.segments p.root) found outcome) ∧
      ((∃ f ∈ found, f.2.breaksOff = true) → outcome.code = 101 ∧ outcome.stdout = [])) ∧
    ((∀ path, path ∈ paths ↔ path ∈ paths') →
      shown (execute walk p stdin ⟨false, .check paths⟩ d) =
        shown (execute walk p stdin ⟨false, .check paths'⟩ d)) ∧
    (SamePlaces d (checkRoots p paths) (checkRoots p paths') →
      shown (execute walk p stdin ⟨false, .check paths⟩ d) =
        shown (execute walk p stdin ⟨false, .check paths'⟩ d)) := by
  refine ⟨fun extension => ⟨templateFiles_increasing walk d extension paths, fun key => ?_, fun h => ?_,
    templateFiles_samePlaces walk d extension⟩,
    ⟨failures p.settings.compiler d (checkedFiles walk p d paths), _, ?_, fun key e => mem_failures p d,
      execute_check walk p d stdin paths, checkFiles_says rfl, fun h => ?_⟩, fun h => ?_,
    execute_samePlaces walk p d stdin⟩
  · simp only [mem_templateFiles, List.mem_append, or_and_right, exists_or]
  · exact templateFiles_samePlaces walk d extension (samePlaces_of_mem d h)
  · exact (templateFiles_increasing walk d _ _).sublist (failures_sublist p d _)
  · rw [checkFiles_broken rfl h]
    exact ⟨rfl, rfl⟩
  · exact execute_samePlaces walk p d stdin (samePlaces_of_mem d (checkRoots_mem p h))

def twoTemplates : Disk :=
  ⟨[(["p".toList], .directory 0), (["p".toList, "t".toList], .directory 0),
    (["p".toList, "t".toList, "a-b.html".toList], .file (.text "<p>".toList) 0),
    (["p".toList, "t".toList, "a".toList], .directory 0),
    (["p".toList, "t".toList, "a".toList, "b.html".toList],
      .file (.text "\n\x7b\x7b \x7d\x7d".toList) 0)], 1⟩

theorem check_independent_of_paths_two :
    shown (execute Ignore.walk ⟨"/p".toList, .standard⟩ (.text [])
        ⟨false, .check ["t".toList, "t/a/".toList]⟩ twoTemplates) =
      shown (execute Ignore.walk ⟨"/p".toList, .standard⟩ (.text [])
        ⟨false, .check ["t/a/".toList, "t".toList, "t".toList]⟩ twoTemplates) ∧
    templateFiles Ignore.walk twoTemplates "html".toList ["/p/t".toList, "/p/t/a/".toList] =
      [["p".toList, "t".toList, "a".toList, "b.html".toList],
        ["p".toList, "t".toList, "a-b.html".toList]] ∧
    (execute Ignore.walk ⟨"/p".toList, .standard⟩ (.text [])
        ⟨false, .check ["t".toList, "t/a/".toList]⟩ twoTemplates).1 =
      ⟨1, "t/a/b.html:2: Mustache tag is empty\n".toList, "Found 1 error in 1 file.\n".toList⟩ := by
  refine ⟨(check_independent_of_paths _ _ _ _ _ _).2.2.1 fun path => ?_, ?_⟩
  · simp [or_comm]
  · decide +kernel

def brokenTemplates : Disk :=
  ⟨[(["p".toList], .directory 0), (["p".toList, "t".toList], .directory 0),
    (["p".toList, "t".toList, "a.html".toList],
      .file (.text "\x7b\x7b\x7b $a \x7d\x7dé\x7d\x7d".toList) 0),
    (["p".toList, "t".toList, "b.html".toList], .file (.text "\x7b\x7b \x7d\x7d".toList) 0)], 1⟩

theorem check_silent_on_broken :
    checkedFiles Ignore.walk ⟨"/p".toList, .standard⟩ brokenTemplates ["t".toList] =
      [["p".toList, "t".toList, "a.html".toList], ["p".toList, "t".toList, "b.html".toList]] ∧
    fileError? {} brokenTemplates ["p".toList, "t".toList, "b.html".toList] =
      some (.refused ⟨.emptyTag, 1⟩) ∧
    (execute Ignore.walk ⟨"/p".toList, .standard⟩ (.text []) ⟨false, .check ["t".toList]⟩
        brokenTemplates).1 = ⟨101, [], []⟩ := by
  decide +kernel

end Stencil.CommandLine

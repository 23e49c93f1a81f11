import Stencil.Settings.Load
import Mathlib.Tactic.Common

/-!
Sources are merged field by field and converted at the end. The invariant compares what the fields so far
hold of a setting with the last one that gave it, tables counting as equal since none of them converts.
-/

namespace Stencil.Settings

open Files

inductive Setting where
  | debug
  | directivePrefix
  | dotAccess
  | templateDir
  | cacheDir
  | extension
  | precompiled
  deriving DecidableEq, Repr

def Fields.last? (name : Text) (fields : Fields) : Option Value :=
  (fields.reverse.find? fun f => f.1 == name).map Prod.snd

def compilerName : Text := "compiler".toList

def cacheName : Text := "cache".toList

namespace Setting

def Kind : Setting → Type
  | .debug | .dotAccess | .precompiled => Bool
  | .directivePrefix | .templateDir | .cacheDir | .extension => Text

def all : List Setting :=
  [.debug, .directivePrefix, .dotAccess, .templateDir, .cacheDir, .extension, .precompiled]

lemma mem_all (k : Setting) : k ∈ all := by
  cases k <;> decide

instance : (k : Setting) → DecidableEq k.Kind
  | .debug | .dotAccess | .precompiled => inferInstanceAs (DecidableEq Bool)
  | .directivePrefix | .templateDir | .cacheDir | .extension => inferInstanceAs (DecidableEq Text)

def table? : Setting → Option Text
  | .debug => none
  | .directivePrefix | .dotAccess => some compilerName
  | .templateDir | .cacheDir | .extension | .precompiled => some cacheName

def key : Setting → Text
  | .debug => "debug".toList
  | .directivePrefix => "directive_prefix".toList
  | .dotAccess => "dot_access".toList
  | .templateDir => "template_dir".toList
  | .cacheDir => "cache_dir".toList
  | .extension => "extension".toList
  | .precompiled => "precompiled".toList

def convert? : (k : Setting) → Value → Option k.Kind
  | .debug | .dotAccess | .precompiled => Value.toBoolean?
  | .directivePrefix | .templateDir | .cacheDir | .extension => Value.toText?

def read (s : Settings) : (k : Setting) → k.Kind
  | .debug => s.debug
  | .directivePrefix => s.compiler.directivePrefix
  | .dotAccess => s.compiler.dotAccess
  | .templateDir => s.cache.templateDir
  | .cacheDir => s.cache.cacheDir
  | .extension => s.cache.extension
  | .precompiled => s.cache.precompiled

def choose? (k : Setting) : Option Value → Option k.Kind
  | none => some (k.read standard)
  | some value => k.convert? value

def valueIn? (k : Setting) (field : Text × Value) : Option Value :=
  match k.table? with
  | none => if field.1 = k.key then some field.2 else none
  | some table => if field.1 = table then Fields.last? k.key field.2.fields else none

def Gives (k : Setting) (table : Fields) (value : Value) : Prop :=
  ∃ e ∈ table, k.valueIn? (topField e.1 e.2) = some value

def definedBy? (k : Setting) (table : Fields) : Option Value :=
  table.reverse.findSome? fun e => k.valueIn? (topField e.1 e.2)

end Setting

def Value.isTable : Value → Bool
  | .table _ => true
  | _ => false

def FieldProper (field : Text × Value) : Prop :=
  field.1 ∈ [compilerName, cacheName] → field.2.isTable = true

instance (field : Text × Value) : Decidable (FieldProper field) :=
  inferInstanceAs (Decidable (_ → _))

namespace Source

def all : List Source :=
  [.user, .composer, .hidden, .visible]

def priority : Source → Nat
  | .user => 0
  | .composer => 1
  | .hidden => 2
  | .visible => 3

lemma mem_all (source : Source) : source ∈ all := by
  cases source <;> decide

lemma priority_injective {source other : Source} (h : source.priority = other.priority) :
    source = other := by
  cases source <;> cases other <;> first | rfl | cases h

lemma all_increasing : all.Pairwise fun lower higher => lower.priority < higher.priority := by
  decide

end Source

structure Sources where
  user : Option Fields
  composer : Option Fields
  hidden : Option Fields
  visible : Option Fields

namespace Sources

def table? (s : Sources) : Source → Option Fields
  | .user => s.user
  | .composer => s.composer
  | .hidden => s.hidden
  | .visible => s.visible

def tables (s : Sources) : List Fields :=
  [s.user, s.composer, s.hidden, s.visible].filterMap id

/-- What a setting may be taken from: a value in the strongest source that gives one, or nothing if none
does. -/
def Wins (s : Sources) (k : Setting) : Option Value → Prop
  | none => ∀ source table value, s.table? source = some table → ¬ k.Gives table value
  | some value => ∃ source table, s.table? source = some table ∧ k.Gives table value ∧
      ∀ stronger other, source.priority < stronger.priority → s.table? stronger = some other →
        ∀ value, ¬ k.Gives other value

def Single (s : Sources) : Prop :=
  ∀ k ∈ Setting.all, ∀ table ∈ s.tables,
    (table.filterMap fun e => k.valueIn? (topField e.1 e.2)).length ≤ 1

instance (s : Sources) : Decidable s.Single :=
  inferInstanceAs (Decidable (∀ k ∈ Setting.all, ∀ table ∈ s.tables, _))

def winner? (s : Sources) (k : Setting) : Option Value :=
  s.tables.reverse.findSome? k.definedBy?

def chosen? (s : Sources) (k : Setting) : Option k.Kind :=
  k.choose? (s.winner? k)

/-- Where `compiler` and `cache` are set, they are tables. -/
def Proper (s : Sources) : Prop :=
  ∀ table ∈ s.tables, ∀ e ∈ table, FieldProper (topField e.1 e.2)

instance (s : Sources) : Decidable s.Proper :=
  inferInstanceAs (Decidable (∀ table ∈ s.tables, ∀ e ∈ table, _))

def arranged (s : Sources) (arrange : Source → Fields → Fields) : Sources where
  user := s.user.map (arrange .user)
  composer := s.composer.map (arrange .composer)
  hidden := s.hidden.map (arrange .hidden)
  visible := s.visible.map (arrange .visible)

structure ReadFrom (s : Sources) (d : Disk) (user root : Text) : Prop where
  user : tomlTable? d user = some s.user
  composer : composerTable d (Path.join root "composer.json".toList) = .ok s.composer
  hidden : tomlTable? d (Path.join root ".tplc.toml".toList) = some s.hidden
  visible : tomlTable? d (Path.join root "tplc.toml".toList) = some s.visible

end Sources

namespace Setting

lemma gives_of_definedBy? {k : Setting} {table : Fields} {value : Value}
    (h : k.definedBy? table = some value) : k.Gives table value := by
  obtain ⟨e, he, hvalue⟩ := List.exists_of_findSome?_eq_some h
  exact ⟨e, List.mem_reverse.mp he, hvalue⟩

lemma not_gives_of_definedBy? {k : Setting} {table : Fields} (h : k.definedBy? table = none)
    (value : Value) : ¬ k.Gives table value := by
  rintro ⟨e, he, hvalue⟩
  have hnone := List.findSome?_eq_none_iff.mp h e (List.mem_reverse.mpr he)
  cases hnone.symm.trans hvalue

lemma gives_perm {k : Setting} {table table' : Fields} (h : table.Perm table') {value : Value} :
    k.Gives table value ↔ k.Gives table' value := by
  simp only [Gives, h.mem_iff]

end Setting

namespace Sources

lemma findSome?_filterMap {α β γ : Type} (f : β → Option γ) (g : α → Option β) (xs : List α) :
    (xs.filterMap g).findSome? f = xs.findSome? fun a => (g a).bind f := by
  induction xs with
  | nil => rfl
  | cons x xs ih => cases hx : g x <;> simp [hx, ih, List.findSome?_cons]

lemma tables_eq (s : Sources) : s.tables = Source.all.filterMap s.table? := rfl

lemma winner?_eq (s : Sources) (k : Setting) :
    s.winner? k = Source.all.reverse.findSome? fun source => (s.table? source).bind k.definedBy? := by
  rw [winner?, tables_eq, ← List.filterMap_reverse, findSome?_filterMap]

lemma winner?_wins (s : Sources) (k : Setting) : s.Wins k (s.winner? k) := by
  have hwinner := s.winner?_eq k
  cases h : s.winner? k with
  | none =>
    rw [h, eq_comm, List.findSome?_eq_none_iff] at hwinner
    intro source table value hs
    have hnone := hwinner source (List.mem_reverse.mpr source.mem_all)
    rw [hs, Option.bind_some] at hnone
    exact Setting.not_gives_of_definedBy? hnone value
  | some value =>
    rw [h, eq_comm, List.findSome?_eq_some_iff] at hwinner
    obtain ⟨stronger, source, weaker, hall, hsource, hstronger⟩ := hwinner
    obtain ⟨table, hs, hdefined⟩ := Option.bind_eq_some_iff.mp hsource
    refine ⟨source, table, hs, Setting.gives_of_definedBy? hdefined, fun other table' hlt hs' => ?_⟩
    have hmem : other ∈ stronger := by
      have horder := List.pairwise_reverse.mpr Source.all_increasing
      rw [hall] at horder
      have hother := List.mem_reverse.mpr other.mem_all
      rw [hall, List.mem_append, List.mem_cons] at hother
      rcases hother with hmem | rfl | hweaker
      · exact hmem
      · exact absurd hlt (Nat.lt_irrefl _)
      · have hless := (List.pairwise_cons.mp (List.pairwise_append.mp horder).2.1).1 other hweaker
        omega
    have hnone := hstronger other hmem
    rw [hs', Option.bind_some] at hnone
    exact Setting.not_gives_of_definedBy? hnone

lemma Single.gives_unique {s : Sources} (h : s.Single) {k : Setting} {source : Source} {table : Fields}
    (hs : s.table? source = some table) {value value' : Value} (hvalue : k.Gives table value)
    (hvalue' : k.Gives table value') : value = value' := by
  have htable : table ∈ s.tables := by
    rw [tables_eq]
    exact List.mem_filterMap.mpr ⟨source, source.mem_all, hs⟩
  have hlength := h k k.mem_all table htable
  have hmem := List.mem_filterMap.mpr hvalue
  have hmem' := List.mem_filterMap.mpr hvalue'
  match hfound : table.filterMap fun e => k.valueIn? (topField e.1 e.2) with
  | [] =>
    rw [hfound] at hmem
    cases hmem
  | [only] =>
    rw [hfound, List.mem_singleton] at hmem hmem'
    rw [hmem, hmem']
  | _ :: _ :: _ =>
    rw [hfound] at hlength
    simp at hlength

lemma Single.unique {s : Sources} (h : s.Single) {k : Setting} {found found' : Option Value}
    (hfound : s.Wins k found) (hfound' : s.Wins k found') : found = found' := by
  cases found with
  | none =>
    cases found' with
    | none => rfl
    | some value' =>
      obtain ⟨source, table, hs, hgives, -⟩ := hfound'
      exact absurd hgives (hfound source table value' hs)
  | some value =>
    obtain ⟨source, table, hs, hgives, hstronger⟩ := hfound
    cases found' with
    | none => exact absurd hgives (hfound' source table value hs)
    | some value' =>
      obtain ⟨source', table', hs', hgives', hstronger'⟩ := hfound'
      rcases Nat.lt_trichotomy source.priority source'.priority with hlt | heq | hgt
      · exact absurd hgives' (hstronger source' table' hlt hs' value')
      · cases Source.priority_injective heq
        cases hs.symm.trans hs'
        rw [h.gives_unique hs hgives hgives']
      · exact absurd hgives (hstronger' source table hgt hs value)

def Offers (s : Sources) (k : Setting) (source : Source) (value : Value) : Prop :=
  ∃ table, s.table? source = some table ∧ k.Gives table value

lemma Wins.of_offers {s s' : Sources} {k : Setting}
    (h : ∀ source value, s.Offers k source value ↔ s'.Offers k source value) {found : Option Value}
    (hfound : s.Wins k found) : s'.Wins k found := by
  cases found with
  | none =>
    intro source table value hs hgives
    obtain ⟨table', hs', hgives'⟩ := (h source value).mpr ⟨table, hs, hgives⟩
    exact hfound source table' value hs' hgives'
  | some value =>
    obtain ⟨source, table, hs, hgives, hstronger⟩ := hfound
    obtain ⟨table', hs', hgives'⟩ := (h source value).mp ⟨table, hs, hgives⟩
    refine ⟨source, table', hs', hgives', fun stronger other hlt hother value' hother' => ?_⟩
    obtain ⟨table'', hs'', hgives''⟩ := (h stronger value').mpr ⟨other, hother, hother'⟩
    exact hstronger stronger table'' hlt hs'' value' hgives''

section

variable {arrange : Source → Fields → Fields}

lemma table?_arranged (s : Sources) (source : Source) :
    (s.arranged arrange).table? source = (s.table? source).map (arrange source) := by
  cases source <;> rfl

variable (h : ∀ source table, (arrange source table).Perm table)
include h

lemma offers_arranged (s : Sources) (k : Setting) (source : Source) (value : Value) :
    (s.arranged arrange).Offers k source value ↔ s.Offers k source value := by
  simp only [Offers, table?_arranged, Option.map_eq_some_iff]
  constructor
  · rintro ⟨_, ⟨table, hs, rfl⟩, hgives⟩
    exact ⟨table, hs, (Setting.gives_perm (h source table)).mp hgives⟩
  · rintro ⟨table, hs, hgives⟩
    exact ⟨_, ⟨table, hs, rfl⟩, (Setting.gives_perm (h source table)).mpr hgives⟩

lemma wins_arranged (s : Sources) (k : Setting) (found : Option Value) :
    (s.arranged arrange).Wins k found ↔ s.Wins k found :=
  ⟨.of_offers fun source value => offers_arranged h s k source value,
    .of_offers fun source value => (offers_arranged h s k source value).symm⟩

lemma Proper.arranged {s : Sources} (hs : s.Proper) : (s.arranged arrange).Proper := by
  intro table htable e he
  rw [tables_eq, List.mem_filterMap] at htable
  obtain ⟨source, hsource, htable⟩ := htable
  rw [table?_arranged] at htable
  obtain ⟨original, horiginal, rfl⟩ := Option.map_eq_some_iff.mp htable
  refine hs original ?_ e ((h source original).mem_iff.mp he)
  rw [tables_eq]
  exact List.mem_filterMap.mpr ⟨source, hsource, horiginal⟩

end

end Sources

namespace Value

def flat : Value → Value
  | .table _ => .table []
  | value => value

lemma flat_merge (earlier later : Value) : (merge earlier later).flat = later.flat := by
  cases later <;> rfl

lemma mergeFields_cons (fields rest : Fields) (field : Text × Value) :
    mergeFields fields (field :: rest) =
      mergeFields (Fields.set field.1 (merge ((Fields.get? field.1 fields).getD .null) field.2) fields)
        rest := by
  rw [mergeFields]

end Value

open Value

lemma Fields.last?_cons (name : Text) (field : Text × Value) (rest : Fields) :
    Fields.last? name (field :: rest) =
      (Fields.last? name rest).or (if field.1 = name then some field.2 else none) := by
  rw [last?, last?, List.reverse_cons, List.find?_append]
  cases rest.reverse.find? fun f => f.1 == name with
  | some f => rfl
  | none => by_cases h : field.1 = name <;> simp [h]

lemma get?_mergeFields_single (fields : Fields) (field : Text × Value) (name : Text) :
    Fields.get? name (mergeFields fields [field]) =
      if field.1 = name then some (merge ((Fields.get? name fields).getD .null) field.2)
      else Fields.get? name fields := by
  rw [mergeFields_cons, mergeFields, Fields.get?_set]
  by_cases h : field.1 = name <;> simp [h]

lemma get?_mergeFields (fields later : Fields) (name : Text) :
    (Fields.get? name (mergeFields fields later)).map flat =
      ((Fields.last? name later).or (Fields.get? name fields)).map flat := by
  induction later generalizing fields with
  | nil => rw [mergeFields]; rfl
  | cons field rest ih =>
    rw [mergeFields_cons, ih, Fields.last?_cons, Fields.get?_set]
    cases Fields.last? name rest with
    | some value => rfl
    | none =>
      by_cases h : field.1 = name
      · simp [h, flat_merge]
      · simp [h]

lemma convert?_flat (k : Setting) (value : Value) : k.convert? value.flat = k.convert? value := by
  cases k <;> cases value <;> rfl

lemma choose?_flat (k : Setting) {found found' : Option Value}
    (h : found.map flat = found'.map flat) : k.choose? found = k.choose? found' := by
  cases found with
  | none =>
    cases found' with
    | none => rfl
    | some value' => cases h
  | some value =>
    cases found' with
    | none => cases h
    | some value' =>
      have hflat : value.flat = value'.flat := Option.some.inj h
      change k.convert? value = k.convert? value'
      rw [← convert?_flat, hflat, convert?_flat]

def held? (k : Setting) (fields : Fields) : Option Value :=
  match k.table? with
  | none => Fields.get? k.key fields
  | some name => (Fields.get? name fields).bind fun value => Fields.get? k.key value.fields

def FieldsProper (fields : Fields) : Prop :=
  ∀ name ∈ [compilerName, cacheName], ∀ value, Fields.get? name fields = some value →
    value.isTable = true

lemma isTable_iff {value : Value} : value.isTable = true ↔ ∃ inner, value = .table inner := by
  cases value <;> simp [isTable]

lemma FieldsProper.merge {fields : Fields} (h : FieldsProper fields) {field : Text × Value}
    (hf : FieldProper field) : FieldsProper (mergeFields fields [field]) := by
  intro name hname value hget
  rw [get?_mergeFields_single] at hget
  split at hget
  · rename_i heq
    obtain ⟨inner, hinner⟩ := isTable_iff.mp (hf (heq ▸ hname))
    cases hget
    rw [hinner]
    rfl
  · exact h name hname value hget

lemma Setting.table?_mem {k : Setting} {table : Text} (h : k.table? = some table) :
    table ∈ [compilerName, cacheName] := by
  cases k <;> cases h <;> simp

lemma held?_merge {field : Text × Value} (hf : FieldProper field) (k : Setting) (fields : Fields) :
    (held? k (mergeFields fields [field])).map flat =
      ((k.valueIn? field).or (held? k fields)).map flat := by
  cases ht : k.table? with
  | none =>
    simp only [held?, Setting.valueIn?, ht, get?_mergeFields_single]
    split
    · exact congrArg some (flat_merge _ _)
    · rfl
  | some table =>
    simp only [held?, Setting.valueIn?, ht, get?_mergeFields_single]
    split
    · rename_i heq
      obtain ⟨inner, hinner⟩ := isTable_iff.mp (hf (heq ▸ Setting.table?_mem ht))
      have hbase : (Fields.get? table fields).bind (fun value => Fields.get? k.key value.fields) =
          Fields.get? k.key ((Fields.get? table fields).getD .null).fields := by
        cases Fields.get? table fields <;> rfl
      rw [hinner, hbase, Option.bind_some]
      exact get?_mergeFields _ inner k.key
    · rfl

lemma held?_foldl {later : Fields} (h : ∀ field ∈ later, FieldProper field) (k : Setting)
    {fields : Fields} (hp : FieldsProper fields) :
    FieldsProper (later.foldl (fun found field => mergeFields found [field]) fields) ∧
      (held? k (later.foldl (fun found field => mergeFields found [field]) fields)).map flat =
        ((later.reverse.findSome? k.valueIn?).or (held? k fields)).map flat := by
  induction later generalizing fields with
  | nil => exact ⟨hp, rfl⟩
  | cons field rest ih =>
    obtain ⟨hfield, hrest⟩ := List.forall_mem_cons.mp h
    obtain ⟨hproper, hheld⟩ := ih hrest (hp.merge hfield)
    refine ⟨hproper, ?_⟩
    rw [List.foldl_cons, hheld, List.reverse_cons, List.findSome?_append,
      List.findSome?_singleton, Option.or_assoc]
    cases rest.reverse.findSome? k.valueIn? with
    | some value => rfl
    | none =>
      rw [Option.none_or, Option.none_or, held?_merge hfield]

def topFields (tables : List Fields) : Fields :=
  tables.flatten.map fun e => topField e.1 e.2

lemma foldl_addTable (tables : List Fields) (fields : Fields) :
    tables.foldl addTable fields =
      (topFields tables).foldl (fun found field => mergeFields found [field]) fields := by
  induction tables generalizing fields with
  | nil => rfl
  | cons table rest ih =>
    rw [List.foldl_cons, ih, topFields, topFields, List.flatten_cons, List.map_append,
      List.foldl_append, addTable, List.foldl_map (l := table)]

lemma findSome?_topFields (k : Setting) (tables : List Fields) :
    (topFields tables).reverse.findSome? k.valueIn? = tables.reverse.findSome? k.definedBy? := by
  induction tables with
  | nil => rfl
  | cons table rest ih =>
    have hcons : topFields (table :: rest) =
        table.map (fun e => topField e.1 e.2) ++ topFields rest := by
      rw [topFields, topFields, List.flatten_cons, List.map_append]
    rw [hcons, List.reverse_append, List.findSome?_append, ih, List.reverse_cons,
      List.findSome?_append, ← List.map_reverse, List.findSome?_map]
    congr 1
    rw [List.findSome?_singleton]
    rfl

lemma fieldProper_of_proper {s : Sources} (h : s.Proper) :
    ∀ field ∈ topFields s.tables, FieldProper field := by
  intro field hfield
  obtain ⟨e, he, rfl⟩ := List.mem_map.mp hfield
  obtain ⟨table, htable, he⟩ := List.mem_flatten.mp he
  exact h table htable e he

lemma choose?_held {s : Sources} (h : s.Proper) :
    FieldsProper (s.tables.foldl addTable []) ∧
      ∀ k : Setting, k.choose? (held? k (s.tables.foldl addTable [])) = s.chosen? k := by
  have hempty : FieldsProper [] := by
    intro name _ value hget
    cases hget
  have hrun := fun k => held?_foldl (fieldProper_of_proper h) k hempty
  rw [foldl_addTable]
  refine ⟨(hrun .debug).1, fun k => choose?_flat k ?_⟩
  have hnone : held? k [] = none := by cases k <;> rfl
  rw [(hrun k).2, findSome?_topFields, hnone, Option.or_none, Sources.winner?]

lemma table?_proper {fields : Fields} (h : FieldsProper fields) {name : String}
    (hname : name.toList ∈ [compilerName, cacheName]) :
    table? name fields = some (((Fields.get? name.toList fields).map Value.fields).getD []) := by
  unfold table?
  cases hget : Fields.get? name.toList fields with
  | none => rfl
  | some value =>
    obtain ⟨inner, rfl⟩ := isTable_iff.mp (h _ hname value hget)
    rfl

lemma setting?_eq (k : Setting) (name : String) (hname : name.toList = k.key) (fields : Fields) :
    setting? k.convert? (k.read standard) name fields = k.choose? (Fields.get? k.key fields) := by
  rw [setting?, hname]
  cases Fields.get? k.key fields <;> rfl

lemma setting?_inner (k : Setting) (name table : String) (hname : name.toList = k.key)
    (htable : k.table? = some table.toList) (fields : Fields) :
    setting? k.convert? (k.read standard) name
        (((Fields.get? table.toList fields).map Value.fields).getD []) =
      k.choose? (held? k fields) := by
  simp only [setting?_eq k name hname, held?, htable]
  cases Fields.get? table.toList fields <;> rfl

lemma ofFields?_some {fields : Fields} (h : FieldsProper fields) {settings : Settings} :
    ofFields? fields = some settings ↔
      ∀ k : Setting, k.choose? (held? k fields) = some (k.read settings) := by
  have hdebug := setting?_eq .debug "debug" rfl fields
  have hprefix := setting?_inner .directivePrefix "directive_prefix" "compiler" rfl rfl fields
  have hdot := setting?_inner .dotAccess "dot_access" "compiler" rfl rfl fields
  have htemplate := setting?_inner .templateDir "template_dir" "cache" rfl rfl fields
  have hcache := setting?_inner .cacheDir "cache_dir" "cache" rfl rfl fields
  have hextension := setting?_inner .extension "extension" "cache" rfl rfl fields
  have hprecompiled := setting?_inner .precompiled "precompiled" "cache" rfl rfl fields
  have hcompiler : "compiler".toList ∈ [compilerName, cacheName] := List.mem_cons_self
  have hcached : "cache".toList ∈ [compilerName, cacheName] :=
    List.mem_cons_of_mem _ List.mem_cons_self
  rw [ofFields?, table?_proper h hcompiler, table?_proper h hcached]
  simp only [Option.bind_eq_bind, Option.bind_some]
  constructor
  · intro hall
    simp only [Option.bind_eq_some_iff] at hall
    obtain ⟨debug, h₁, directivePrefix, h₂, dotAccess, h₃, templateDir, h₄, cacheDir, h₅,
      extension, h₆, precompiled, h₇, hall⟩ := hall
    cases hall
    intro k
    cases k with
    | debug => exact hdebug.symm.trans h₁
    | directivePrefix => exact hprefix.symm.trans h₂
    | dotAccess => exact hdot.symm.trans h₃
    | templateDir => exact htemplate.symm.trans h₄
    | cacheDir => exact hcache.symm.trans h₅
    | extension => exact hextension.symm.trans h₆
    | precompiled => exact hprecompiled.symm.trans h₇
  · intro hall
    simp only [Option.bind_eq_some_iff]
    exact ⟨_, hdebug.trans (hall .debug), _, hprefix.trans (hall .directivePrefix), _,
      hdot.trans (hall .dotAccess), _, htemplate.trans (hall .templateDir), _,
      hcache.trans (hall .cacheDir), _, hextension.trans (hall .extension), _,
      hprecompiled.trans (hall .precompiled), rfl⟩

def ofValues (value : (k : Setting) → k.Kind) : Settings where
  debug := value .debug
  compiler := ⟨value .directivePrefix, value .dotAccess⟩
  cache := ⟨value .templateDir, value .cacheDir, value .extension, value .precompiled⟩

lemma read_ofValues (value : (k : Setting) → k.Kind) (k : Setting) :
    k.read (ofValues value) = value k := by
  cases k <;> rfl

lemma ofFields?_none {fields : Fields} (h : FieldsProper fields) :
    ofFields? fields = none ↔ ∃ k : Setting, k.choose? (held? k fields) = none := by
  constructor
  · intro hnone
    by_contra hall
    have hsome : ∀ k : Setting, ∃ value, k.choose? (held? k fields) = some value := fun k =>
      Option.ne_none_iff_exists'.mp fun hk => hall ⟨k, hk⟩
    choose value hvalue using hsome
    have hof : ofFields? fields = some (ofValues value) :=
      (ofFields?_some h).mpr fun k => by rw [hvalue, read_ofValues]
    cases hnone.symm.trans hof
  · rintro ⟨k, hk⟩
    cases hof : ofFields? fields with
    | none => rfl
    | some settings => cases hk.symm.trans ((ofFields?_some h).mp hof k)

lemma loadArranged_readFrom {arrange : Source → Fields → Fields} {d : Disk} {user root : Text}
    {s : Sources} (h : s.ReadFrom d user root) :
    loadArranged arrange d user root =
      (ofFields? ((s.arranged arrange).tables.foldl addTable [])).elim (.error .invalid) .ok := by
  have htables : ofTables? ([s.user.map (arrange .user), s.composer.map (arrange .composer),
      s.hidden.map (arrange .hidden), s.visible.map (arrange .visible)].filterMap id) =
      ofFields? ((s.arranged arrange).tables.foldl addTable []) := rfl
  rw [loadArranged, h.composer, h.user, h.hidden, h.visible, ← htables]
  simp only [bind, Except.bind, Option.bind_some]
  cases ofTables? _ <;> rfl

lemma ofFields?_sources {s : Sources} (h : s.Proper) {settings : Settings} :
    ofFields? (s.tables.foldl addTable []) = some settings ↔
      ∀ k : Setting, s.chosen? k = some (k.read settings) := by
  obtain ⟨hfields, hheld⟩ := choose?_held h
  simp only [ofFields?_some hfields, hheld]

section

variable {arrange : Source → Fields → Fields} {d : Disk} {user root : Text} {s : Sources}
  (h : ∀ source table, (arrange source table).Perm table) (hread : s.ReadFrom d user root)
  (hproper : s.Proper)
include h hread hproper

lemma loadArranged_eq_ok {settings : Settings} :
    loadArranged arrange d user root = .ok settings ↔
      ∀ k : Setting, (s.arranged arrange).chosen? k = some (k.read settings) := by
  rw [loadArranged_readFrom hread, ← ofFields?_sources (hproper.arranged h)]
  cases ofFields? ((s.arranged arrange).tables.foldl addTable []) <;> simp

lemma loadArranged_eq_error {e : LoadError} :
    loadArranged arrange d user root = .error e ↔
      e = .invalid ∧ ∃ k, (s.arranged arrange).chosen? k = none := by
  obtain ⟨hfields, hheld⟩ := choose?_held (hproper.arranged h)
  simp only [loadArranged_readFrom hread, ← hheld, ← ofFields?_none hfields]
  cases ofFields? ((s.arranged arrange).tables.foldl addTable []) <;> simp [eq_comm]

end

/-- Each setting is taken from a value that wins, converted, and loading fails exactly if one of these
does not convert. Which value it is may depend on the order of the entries only where a source gives
several; otherwise all that matters are the values that win. -/
theorem load_layered {arrange : Source → Fields → Fields}
    (harrange : ∀ source table, (arrange source table).Perm table) {d : Disk} {user root : Text}
    {s : Sources} (hread : s.ReadFrom d user root) (hproper : s.Proper) :
    (∃ winner : Setting → Option Value, (∀ k, s.Wins k (winner k)) ∧
      (∀ settings, loadArranged arrange d user root = .ok settings ↔
        ∀ k : Setting, k.choose? (winner k) = some (k.read settings)) ∧
      ∀ e, loadArranged arrange d user root = .error e ↔
        e = .invalid ∧ ∃ k : Setting, k.choose? (winner k) = none) ∧
    ((∀ k value value', s.Wins k value → s.Wins k value' → value = value') →
      ∀ (arrange' : Source → Fields → Fields) (d' : Disk) (user' root' : Text) (s' : Sources),
        (∀ source table, (arrange' source table).Perm table) → s'.ReadFrom d' user' root' →
        s'.Proper → (∀ k value, s'.Wins k value ↔ s.Wins k value) →
        loadArranged arrange' d' user' root' = loadArranged arrange d user root) := by
  have hwins := fun k => (Sources.wins_arranged harrange s k _).mp ((s.arranged arrange).winner?_wins k)
  refine ⟨⟨(s.arranged arrange).winner?, hwins, fun settings => ?_, fun e => ?_⟩, ?_⟩
  · exact loadArranged_eq_ok harrange hread hproper
  · exact loadArranged_eq_error harrange hread hproper
  · intro hunique arrange' d' user' root' s' harrange' hread' hproper' hsame
    have hwinner : ∀ k, (s'.arranged arrange').winner? k = (s.arranged arrange).winner? k := by
      intro k
      have hwins' := (Sources.wins_arranged harrange' s' k _).mp ((s'.arranged arrange').winner?_wins k)
      exact hunique k _ _ ((hsame k _).mp hwins') (hwins k)
    cases hload : loadArranged arrange d user root with
    | ok settings =>
      rw [loadArranged_eq_ok harrange hread hproper] at hload
      rw [loadArranged_eq_ok harrange' hread' hproper']
      intro k
      rw [Sources.chosen?, hwinner]
      exact hload k
    | error e =>
      rw [loadArranged_eq_error harrange hread hproper] at hload
      obtain ⟨he, k, hk⟩ := hload
      rw [loadArranged_eq_error harrange' hread' hproper']
      refine ⟨he, k, ?_⟩
      rw [Sources.chosen?, hwinner]
      exact hk

def layeredDisk : Disk :=
  ⟨[(["u".toList], .file (.text "debug = 'no'\n[cache]\nextension = 5".toList) 0),
    (["p".toList], .directory 0),
    (["p".toList, "composer.json".toList],
      .file (.text ("\x7b\"extra\":\x7b\"tplc\":".toList ++
        "\x7b\"compiler\":\x7b\"dot_access\":0\x7d\x7d\x7d\x7d".toList)) 0),
    (["p".toList, "tplc.toml".toList], .file (.text "debug = 1\nlines = 2".toList) 0)], 1⟩

def sourcesOf (d : Disk) (user root : Text) : Sources where
  user := (tomlTable? d user).getD none
  composer := (composerTable d (Path.join root "composer.json".toList)).toOption.getD none
  hidden := (tomlTable? d (Path.join root ".tplc.toml".toList)).getD none
  visible := (tomlTable? d (Path.join root "tplc.toml".toList)).getD none

lemma readFrom_sourcesOf {d : Disk} {user root : Text} (hu : (tomlTable? d user).isSome)
    (hc : (composerTable d (Path.join root "composer.json".toList)).toOption.isSome)
    (hh : (tomlTable? d (Path.join root ".tplc.toml".toList)).isSome)
    (hv : (tomlTable? d (Path.join root "tplc.toml".toList)).isSome) :
    (sourcesOf d user root).ReadFrom d user root := by
  obtain ⟨u, hu⟩ := Option.isSome_iff_exists.mp hu
  obtain ⟨h, hh⟩ := Option.isSome_iff_exists.mp hh
  obtain ⟨v, hv⟩ := Option.isSome_iff_exists.mp hv
  constructor <;> simp only [sourcesOf, hu, hh, hv, Option.getD_some]
  cases hx : composerTable d (Path.join root "composer.json".toList) with
  | ok c => rfl
  | error e => rw [hx] at hc; cases hc

theorem load_layered_sample :
    load layeredDisk "/u".toList "/p".toList =
      .ok ⟨true, ⟨[], false⟩, ⟨"templates".toList, "cache".toList, "5".toList, false⟩⟩ := by
  have hread : (sourcesOf layeredDisk "/u".toList "/p".toList).ReadFrom layeredDisk
      "/u".toList "/p".toList := by
    apply readFrom_sourcesOf <;> decide +kernel
  have hsources : (sourcesOf layeredDisk "/u".toList "/p".toList).Proper ∧
      (sourcesOf layeredDisk "/u".toList "/p".toList).Single ∧ ∀ k ∈ Setting.all,
        (sourcesOf layeredDisk "/u".toList "/p".toList).chosen? k = some (k.read
          ⟨true, ⟨[], false⟩, ⟨"templates".toList, "cache".toList, "5".toList, false⟩⟩) := by
    decide +kernel
  obtain ⟨hproper, hsingle, hchosen⟩ := hsources
  obtain ⟨winner, hwins, hok, -⟩ := (load_layered (fun _ _ => .refl _) hread hproper).1
  refine (hok _).mpr fun k => ?_
  rw [hsingle.unique (hwins k) (Sources.winner?_wins _ k)]
  exact hchosen k k.mem_all

def pathDisk : Disk :=
  ⟨[(["p".toList], .directory 0),
    (["p".toList, "tplc.toml".toList],
      .file (.text "\"compiler.dot_access\" = false".toList) 0)], 1⟩

theorem path_key_sets_setting :
    ((tomlTable? pathDisk (Path.join "/p".toList "tplc.toml".toList)).bind id).map
        (fun fields => fields.map Prod.fst) = some ["compiler.dot_access".toList] ∧
      load pathDisk "/u".toList "/p".toList =
        .ok { standard with compiler := ⟨[], false⟩ } := by
  decide +kernel

end Stencil.Settings

import Stencil.Proofs.Layering
import Stencil.Proofs.Places
import Stencil.Settings.Printer
import Mathlib.Tactic.Common

namespace Stencil.Settings

open Files

namespace Toml

lemma literalString?_append {content : Text} (hquote : '\'' ∉ content)
    (h : ∀ c ∈ content, isPrintable c = true) (rest : Text) :
    literalString? (content ++ '\'' :: rest) = some (content, rest) := by
  induction content with
  | nil => rfl
  | cons c cs ih =>
    rw [List.mem_cons, not_or] at hquote
    rw [List.forall_mem_cons] at h
    rw [List.cons_append, literalString?, if_neg (Ne.symm hquote.1), if_pos h.1, ih hquote.2 h.2]
    rfl

lemma basicString?_append {content : Text} (hquote : '"' ∉ content) (hescape : '\\' ∉ content)
    (h : ∀ c ∈ content, isPrintable c = true) (rest : Text) :
    basicString? (content ++ '"' :: rest) = some (content, rest) := by
  induction content with
  | nil => simp [basicString?]
  | cons c cs ih =>
    rw [List.mem_cons, not_or] at hquote hescape
    rw [List.forall_mem_cons] at h
    rw [List.cons_append, basicString?, if_neg (Ne.symm hquote.1), if_neg (Ne.symm hescape.1),
      if_pos h.1, ih hquote.2 hescape.2 h.2]
    rfl

lemma opening_ne {quote : Char} {content rest : Text} (hquote : quote ∉ content)
    (hbreak : '\n' ≠ quote) (more : Text) :
    content ++ quote :: '\n' :: rest ≠ quote :: quote :: more := by
  intro heq
  cases content with
  | nil => exact hbreak (List.cons.inj (List.cons.inj heq).2).1
  | cons c cs => exact hquote ((List.cons.inj heq).1 ▸ List.mem_cons_self)

end Toml

/-- Strings that are printed as they are between their quotes. -/
structure Quotable (content : Text) : Prop where
  printable : ∀ c ∈ content, isControl c = false
  quotes : '\'' ∈ content → '"' ∉ content ∧ '\\' ∉ content

lemma quotable_of_all {content : Text} (h : (content.all (!isControl ·) &&
    !(content.contains '\'' && (content.contains '"' || content.contains '\\'))) = true) :
    Quotable content := by
  simp only [Bool.and_eq_true, List.all_eq_true] at h
  refine ⟨fun c hc => by simpa using h.1 c hc, fun hmem => ?_⟩
  simpa [hmem] using h.2

lemma Quotable.single {content : Text} (h : Quotable content)
    (hescape : '"' ∈ content ∨ '\\' ∈ content) : '\'' ∉ content := fun hmem =>
  hescape.elim (h.quotes hmem).1 (h.quotes hmem).2

lemma isPrintable_of_isControl {c : Char} (h : isControl c = false) : Toml.isPrintable c = true := by
  simp only [isControl, Bool.or_eq_false_iff, decide_eq_false_iff_not, beq_eq_false_iff_ne] at h
  rw [Toml.isPrintable, Bool.or_eq_true, Bool.and_eq_true, bne_iff_ne, decide_eq_true_eq]
  exact .inr ⟨Nat.le_of_not_lt h.1, h.2⟩

lemma escapeChar_self {c : Char} (hquote : c ≠ '"') (hescape : c ≠ '\\') (h : isControl c = false) :
    escapeChar c = [c] := by
  unfold escapeChar
  split
  · exact absurd rfl hquote
  · exact absurd rfl hescape
  all_goals try cases h
  simp only [isControl, Bool.or_eq_false_iff, decide_eq_false_iff_not, beq_eq_false_iff_ne] at h
  exact if_neg (not_or.mpr h)

lemma printText_eq {content : Text} (h : Quotable content) :
    printText content =
      if '"' ∈ content ∨ '\\' ∈ content then '\'' :: content ++ ['\''] else '"' :: content ++ ['"'] := by
  have hcontrol : content.any isControl = false := by simpa using h.printable
  by_cases hescape : '"' ∈ content ∨ '\\' ∈ content
  · have hany : content.any (fun c => c == '"' || c == '\\') = true :=
      List.any_eq_true.mpr (hescape.elim (fun hmem => ⟨_, hmem, rfl⟩) fun hmem => ⟨_, hmem, rfl⟩)
    have hsingle : content.contains '\'' = false := by
      rw [List.contains_eq_mem, decide_eq_false_iff_not]
      exact h.single hescape
    rw [printText, hany, hcontrol, hsingle, if_pos hescape]
    rfl
  · rw [not_or] at hescape
    have hany : content.any (fun c => c == '"' || c == '\\') = false := by
      rw [List.any_eq_false]
      intro c hc
      simp [ne_of_mem_of_not_mem hc hescape.1, ne_of_mem_of_not_mem hc hescape.2]
    have hplain : content.flatMap escapeChar = content := by
      have hself : ∀ c ∈ content, escapeChar c = [c] := fun c hc =>
        escapeChar_self (ne_of_mem_of_not_mem hc hescape.1) (ne_of_mem_of_not_mem hc hescape.2)
          (h.printable c hc)
      rw [List.flatMap_congr hself, List.flatMap_singleton']
    rw [printText, hany, hplain, if_neg (not_or.mpr hescape)]
    rfl

structure Prints (text : Text) (value : Value) : Prop where
  start : ∀ rest, Toml.skipBlanks (text ++ rest) = text ++ rest
  read : ∀ levels rest, Toml.value? levels (text ++ '\n' :: rest) = some (value, '\n' :: rest)

lemma prints_text {content : Text} (h : Quotable content) :
    Prints (printText content) (.text content) := by
  have hprintable : ∀ c ∈ content, Toml.isPrintable c = true :=
    fun c hc => isPrintable_of_isControl (h.printable c hc)
  rw [printText_eq h]
  split
  · rename_i hescape
    refine ⟨fun rest => rfl, fun levels rest => ?_⟩
    rw [List.cons_append, List.cons_append, List.append_assoc, List.singleton_append, Toml.value?,
      Toml.literalString?_append (h.single hescape) hprintable]
    · rfl
    · exact Toml.opening_ne (h.single hescape) (by decide)
  · rename_i hescape
    rw [not_or] at hescape
    refine ⟨fun rest => rfl, fun levels rest => ?_⟩
    rw [List.cons_append, List.cons_append, List.append_assoc, List.singleton_append, Toml.value?,
      Toml.basicString?_append hescape.1 hescape.2 hprintable]
    · rfl
    · exact Toml.opening_ne hescape.1 (by decide)

lemma prints_boolean (b : Bool) : Prints (printBoolean b) (.boolean b) := by
  cases b with
  | false => exact ⟨fun rest => rfl, fun levels rest => by simp [printBoolean, Toml.value?]; rfl⟩
  | true => exact ⟨fun rest => rfl, fun levels rest => by simp [printBoolean, Toml.value?]; rfl⟩

namespace Toml

structure Bare (name : Text) : Prop where
  filled : name ≠ []
  bare : ∀ c ∈ name, isBare c = true

lemma bare_of_all {name : Text} (h : (!name.isEmpty && name.all isBare) = true) : Bare name := by
  simp only [Bool.and_eq_true, List.all_eq_true] at h
  exact ⟨by simpa using h.1, h.2⟩

def printHeader (name : String) : Text :=
  '\n' :: '[' :: (name.toList ++ [']', '\n'])

section

variable {name rest : Text}

lemma Bare.key? (h : Bare name) {c : Char} (hc : isBare c = false) :
    Toml.key? (name ++ c :: rest) = some (name, c :: rest) := by
  obtain ⟨d, ds, rfl⟩ := List.exists_cons_of_ne_nil h.filled
  have hd := h.bare d List.mem_cons_self
  have htake : (d :: ds ++ c :: rest).takeWhile isBare = d :: ds := by
    rw [List.takeWhile_append_of_pos h.bare, List.takeWhile_cons_of_neg (by simp [hc]), List.append_nil]
  have hdrop : (d :: ds ++ c :: rest).dropWhile isBare = c :: rest := by
    rw [List.dropWhile_append_of_pos h.bare, List.dropWhile_cons_of_neg (by simp [hc])]
  rw [List.cons_append] at htake hdrop ⊢
  rw [Toml.key?, htake, hdrop]
  · rfl
  · rintro rest' heq
    cases heq
    cases hd
  · rintro rest' heq
    cases heq
    cases hd

lemma Bare.keyPath? (h : Bare name) {c d : Char} {after : Text} (hc : isBare c = false)
    (hskip : skipBlanks (c :: rest) = d :: after) (hd : d ≠ '.') {count : Nat} (hcount : 0 < count) :
    Toml.keyPath? count (name ++ c :: rest) = some ([name], d :: after) := by
  obtain ⟨count, rfl⟩ := Nat.exists_eq_add_one.mpr hcount
  rw [Toml.keyPath?, h.key? hc]
  simp only [Option.bind_eq_bind, Option.bind_some, hskip]
  split
  · rename_i heq
    exact absurd (List.cons.inj heq).1 hd
  · rfl

lemma Bare.head_ne (h : Bare name) {c : Char} (hc : isBare c = false) (after : Text) :
    name ++ rest ≠ c :: after := by
  obtain ⟨d, ds, rfl⟩ := List.exists_cons_of_ne_nil h.filled
  intro heq
  rw [← (List.cons.inj heq).1, h.bare d List.mem_cons_self] at hc
  cases hc

lemma Bare.skipBlanks (h : Bare name) : Toml.skipBlanks (name ++ rest) = name ++ rest := by
  cases hcs : name ++ rest with
  | nil => rfl
  | cons d ds =>
    have hne : ∀ c, isBare c = false → d ≠ c := fun c hc heq => h.head_ne hc ds (heq ▸ hcs)
    rw [Toml.skipBlanks, List.dropWhile_cons_of_neg]
    simp [isBlank, hne ' ' (by decide), hne '\t' (by decide)]

lemma Bare.skipLines (h : Bare name) : Toml.skipLines (name ++ rest) = name ++ rest := by
  cases hcs : name ++ rest with
  | nil => simp [Toml.skipLines]
  | cons d ds =>
    have hne : ∀ c, isBare c = false → d ≠ c := fun c hc heq => h.head_ne hc ds (heq ▸ hcs)
    rw [Toml.skipLines, if_neg (hne '#' (by decide)), if_neg]
    simp [isBlank, hne ' ' (by decide), hne '\t' (by decide), hne '\n' (by decide),
      hne '\r' (by decide)]

lemma Bare.statement? (h : Bare name) {text : Text} {value : Value} (hv : Prints text value) :
    Toml.statement? (name ++ ' ' :: '=' :: ' ' :: (text ++ '\n' :: rest)) =
      some (.entry [name] value, rest) := by
  have hvalue : Toml.skipBlanks (' ' :: (text ++ '\n' :: rest)) = text ++ '\n' :: rest :=
    hv.start ('\n' :: rest)
  rw [Toml.statement?, h.keyPath? rfl rfl (by decide) (List.length_pos_iff.mpr (by simp))]
  · simp only [Option.bind_eq_bind, Option.bind_some, hvalue, hv.read]
    rfl
  · exact fun after heq => h.head_ne (by decide : isBare '[' = false) _ heq
  · exact fun after heq => h.head_ne (by decide) after heq

lemma Bare.header? (h : Bare name) :
    Toml.statement? ('[' :: (name ++ ']' :: '\n' :: rest)) = some (.header [name], rest) := by
  rw [Toml.statement?, h.skipBlanks, h.keyPath? rfl rfl (by decide) (List.length_pos_iff.mpr (by simp))]
  · rfl
  · exact fun after heq => h.head_ne (by decide) after heq

def Holds (cs : Text) (statements : List Statement) : Prop :=
  ∀ count, statements.length ≤ count → statements? count cs = some statements

lemma Holds.nil : Holds [] [] := by
  intro count _
  cases count <;> simp [statements?, Toml.skipLines]

lemma Holds.cons {cs first : Text} {statement : Statement} {statements : List Statement}
    (h : Holds rest statements) (hskip : Toml.skipLines cs = first) (hne : first ≠ [])
    (hfirst : Toml.statement? first = some (statement, rest)) :
    Holds cs (statement :: statements) := by
  intro count hcount
  obtain ⟨count, rfl⟩ := Nat.exists_eq_add_one.mpr (Nat.lt_of_lt_of_le (Nat.succ_pos _) hcount)
  have hmore := h count (Nat.le_of_succ_le_succ hcount)
  obtain ⟨c, cs', rfl⟩ := List.exists_cons_of_ne_nil hne
  unfold statements?
  simp [hskip, hfirst, hmore]

lemma Holds.entry {statements : List Statement} (h : Holds rest statements) {key : String}
    (hkey : Bare key.toList) {text : Text} {value : Value} (hv : Prints text value) :
    Holds (printEntry key text ++ rest) (.entry [key.toList] value :: statements) := by
  have hline : printEntry key text ++ rest =
      key.toList ++ ' ' :: '=' :: ' ' :: (text ++ '\n' :: rest) := by
    simp [printEntry]
  rw [hline]
  exact h.cons hkey.skipLines (by simp) (hkey.statement? hv)

lemma Holds.header {statements : List Statement} (h : Holds rest statements) {name : String}
    (hname : Bare name.toList) :
    Holds (printHeader name ++ rest) (.header [name.toList] :: statements) := by
  have hline : printHeader name ++ rest = '\n' :: '[' :: (name.toList ++ ']' :: '\n' :: rest) := by
    simp [printHeader]
  have hskip : Toml.skipLines ('\n' :: '[' :: (name.toList ++ ']' :: '\n' :: rest)) =
      '[' :: (name.toList ++ ']' :: '\n' :: rest) := by
    simp [Toml.skipLines, isBlank]
  rw [hline]
  exact h.cons hskip (List.cons_ne_nil _ _) hname.header?

end

end Toml

def strings (s : Settings) : List Text :=
  [s.compiler.directivePrefix, s.cache.templateDir, s.cache.cacheDir, s.cache.extension]

def toFields (s : Settings) : Fields :=
  [("debug".toList, .boolean s.debug),
   ("compiler".toList, .table [("directive_prefix".toList, .text s.compiler.directivePrefix),
     ("dot_access".toList, .boolean s.compiler.dotAccess)]),
   ("cache".toList, .table [("template_dir".toList, .text s.cache.templateDir),
     ("cache_dir".toList, .text s.cache.cacheDir), ("extension".toList, .text s.cache.extension),
     ("precompiled".toList, .boolean s.cache.precompiled)])]

def toStatements (s : Settings) : List Toml.Statement :=
  [.entry ["debug".toList] (.boolean s.debug),
   .header ["compiler".toList],
   .entry ["directive_prefix".toList] (.text s.compiler.directivePrefix),
   .entry ["dot_access".toList] (.boolean s.compiler.dotAccess),
   .header ["cache".toList],
   .entry ["template_dir".toList] (.text s.cache.templateDir),
   .entry ["cache_dir".toList] (.text s.cache.cacheDir),
   .entry ["extension".toList] (.text s.cache.extension),
   .entry ["precompiled".toList] (.boolean s.cache.precompiled)]

lemma toToml_holds {s : Settings} (h : ∀ content ∈ s.strings, Quotable content) :
    Toml.Holds s.toToml s.toStatements := by
  simp only [strings, List.forall_mem_cons] at h
  obtain ⟨hdirective, htemplates, hcache, hextension, -⟩ := h
  have hdocument : s.toToml =
      printEntry "debug" (printBoolean s.debug) ++ (Toml.printHeader "compiler" ++
        (printEntry "directive_prefix" (printText s.compiler.directivePrefix) ++
        (printEntry "dot_access" (printBoolean s.compiler.dotAccess) ++ (Toml.printHeader "cache" ++
        (printEntry "template_dir" (printText s.cache.templateDir) ++
        (printEntry "cache_dir" (printText s.cache.cacheDir) ++
        (printEntry "extension" (printText s.cache.extension) ++
        (printEntry "precompiled" (printBoolean s.cache.precompiled) ++ [])))))))) := by
    simp only [toToml, List.append_assoc, List.append_nil]
    rfl
  rw [hdocument]
  -- From the last line to the first: each lemma puts one line before the rest.
  apply Toml.Holds.entry _ (Toml.bare_of_all rfl) (prints_boolean _)
  apply Toml.Holds.header _ (Toml.bare_of_all rfl)
  apply Toml.Holds.entry _ (Toml.bare_of_all rfl) (prints_text hdirective)
  apply Toml.Holds.entry _ (Toml.bare_of_all rfl) (prints_boolean _)
  apply Toml.Holds.header _ (Toml.bare_of_all rfl)
  apply Toml.Holds.entry _ (Toml.bare_of_all rfl) (prints_text htemplates)
  apply Toml.Holds.entry _ (Toml.bare_of_all rfl) (prints_text hcache)
  apply Toml.Holds.entry _ (Toml.bare_of_all rfl) (prints_text hextension)
  apply Toml.Holds.entry _ (Toml.bare_of_all rfl) (prints_boolean _)
  exact .nil

lemma read?_toToml {s : Settings} (h : ∀ content ∈ s.strings, Quotable content) :
    Toml.read? s.toToml = some s.toFields := by
  have hlength : s.toStatements.length ≤ s.toToml.length := by
    simp [toStatements, toToml, printEntry]
    omega
  rw [Toml.read?, toToml_holds h _ hlength]
  rfl

lemma tomlTable?_toToml {s : Settings} (h : ∀ content ∈ s.strings, Quotable content) {d : Disk}
    {path : Text} {time : Nat} (hfind : d.find path = .ok (Disk.place path, .file (.text s.toToml) time)) :
    tomlTable? d path = some (some s.toFields) := by
  have hfile : d.isFile path = true := by
    rw [Disk.isFile, hfind]
    rfl
  have hcontent : d.content path = .ok (.text s.toToml) := by
    rw [Disk.content, hfind]
  have hstart : s.toToml.head? = some 'd' := rfl
  rw [tomlTable?, List.find?_cons_of_pos hfile]
  simp only [hcontent, Content.readLossy, hstart]
  rw [if_neg (by decide), read?_toToml h]
  rfl

lemma toFields_gives (k : Setting) (s : Settings) : ∃ value, k.Gives s.toFields value := by
  have hsome : (k.definedBy? s.toFields).isSome := by cases k <;> rfl
  obtain ⟨value, hvalue⟩ := Option.isSome_iff_exists.mp hsome
  exact ⟨value, Setting.gives_of_definedBy? hvalue⟩

lemma convert?_of_toFields {k : Setting} {s : Settings} {value : Value}
    (h : k.Gives s.toFields value) : k.convert? value = some (k.read s) := by
  obtain ⟨e, he, hvalue⟩ := h
  simp only [toFields, List.mem_cons, List.not_mem_nil, or_false] at he
  rcases he with rfl | rfl | rfl <;> cases k <;> cases hvalue <;> rfl

lemma Sources.Wins.of_visible {s : Sources} {k : Setting} {table : Fields} {found : Option Value}
    (h : s.Wins k found) (hvisible : s.visible = some table) (hgives : ∃ value, k.Gives table value) :
    ∃ value, found = some value ∧ k.Gives table value := by
  obtain ⟨value, hvalue⟩ := hgives
  cases found with
  | none => exact absurd hvalue (h .visible table value hvisible)
  | some winner =>
    obtain ⟨source, other, hs, hwinner, hstronger⟩ := h
    cases source with
    | visible =>
      cases hvisible.symm.trans hs
      exact ⟨winner, rfl, hwinner⟩
    | user => exact absurd hvalue (hstronger .visible table (by decide) hvisible value)
    | composer => exact absurd hvalue (hstronger .visible table (by decide) hvisible value)
    | hidden => exact absurd hvalue (hstronger .visible table (by decide) hvisible value)

lemma toFields_proper (s : Settings) : ∀ e ∈ s.toFields, FieldProper (topField e.1 e.2) := by
  have hdebug : "debug".toList ∉ [compilerName, cacheName] := by decide
  intro e he
  simp only [toFields, List.mem_cons, List.not_mem_nil, or_false] at he
  rcases he with rfl | rfl | rfl
  · exact fun hname => absurd hname hdebug
  · exact fun _ => rfl
  · exact fun _ => rfl

lemma tables_visible (least composer hidden : Option Fields) (table : Fields) :
    Sources.tables ⟨least, composer, hidden, some table⟩ =
      Sources.tables ⟨least, composer, hidden, none⟩ ++ [table] := by
  cases least <;> cases composer <;> cases hidden <;> rfl

/-- Settings that are written to the strongest source are loaded as they are, whatever the others
hold and however the entries are arranged. -/
theorem printed_settings_load {s : Settings} (hs : ∀ content ∈ s.strings, Quotable content)
    {d next : Disk} {user root : Text}
    (hwrite : d.writeFile (Path.join root "tplc.toml".toList) s.toToml = .ok next)
    {least composer hidden : Option Fields} (huser : tomlTable? next user = some least)
    (hcomposer : composerTable next (Path.join root "composer.json".toList) = .ok composer)
    (hhidden : tomlTable? next (Path.join root ".tplc.toml".toList) = some hidden)
    (hproper : Sources.Proper ⟨least, composer, hidden, none⟩) {arrange : Source → Fields → Fields}
    (harrange : ∀ source table, (arrange source table).Perm table) :
    loadArranged arrange next user root = .ok s := by
  obtain ⟨time, -, -, hfound⟩ := (Disk.writeFile_ok hwrite).found
  have hread : Sources.ReadFrom ⟨least, composer, hidden, some s.toFields⟩ next user root :=
    ⟨huser, hcomposer, hhidden, tomlTable?_toToml hs hfound⟩
  have hall : Sources.Proper ⟨least, composer, hidden, some s.toFields⟩ := by
    intro table htable
    rw [tables_visible, List.mem_append, List.mem_singleton] at htable
    rcases htable with hlower | rfl
    · exact hproper table hlower
    · exact toFields_proper s
  rw [loadArranged_eq_ok harrange hread hall]
  intro k
  have hwins := (Sources.wins_arranged harrange ⟨least, composer, hidden, some s.toFields⟩ k _).mp
    (Sources.winner?_wins _ k)
  obtain ⟨value, hvalue, hgives⟩ := hwins.of_visible rfl (toFields_gives k s)
  rw [Sources.chosen?, hvalue]
  exact convert?_of_toFields hgives

def quotedSettings : Settings :=
  ⟨true, ⟨"v-#=".toList, false⟩, ⟨"a\"b\\[c]".toList, "d'e.f".toList, "é\x7b".toList, true⟩⟩

def unsavedDisk : Disk :=
  ⟨[(["u".toList], .file (.text "debug = 'maybe'\n[cache]\nextension = 5".toList) 0),
    (["p".toList], .directory 0),
    (["p".toList, "composer.json".toList], .file (.text "\x7b\x7d".toList) 0)], 1⟩

def savedDisk : Disk :=
  (unsavedDisk.writeFile "/p/tplc.toml".toList quotedSettings.toToml).toOption.getD unsavedDisk

theorem printed_settings_load_quoted :
    (∀ content ∈ quotedSettings.strings, Quotable content) ∧
      unsavedDisk.writeFile "/p/tplc.toml".toList quotedSettings.toToml = .ok savedDisk ∧
      load savedDisk "/u".toList "/p".toList = .ok quotedSettings := by
  have hs : ∀ content ∈ quotedSettings.strings, Quotable content := by
    simp only [strings, List.forall_mem_cons]
    exact ⟨quotable_of_all rfl, quotable_of_all rfl, quotable_of_all rfl, quotable_of_all rfl,
      fun _ hmem => absurd hmem List.not_mem_nil⟩
  have hwrite : unsavedDisk.writeFile "/p/tplc.toml".toList quotedSettings.toToml = .ok savedDisk :=
    rfl
  have hread : (sourcesOf savedDisk "/u".toList "/p".toList).ReadFrom savedDisk "/u".toList
      "/p".toList := by
    apply readFrom_sourcesOf <;> decide +kernel
  have hproper : Sources.Proper { sourcesOf savedDisk "/u".toList "/p".toList with visible := none } := by
    decide +kernel
  exact ⟨hs, hwrite, printed_settings_load hs hwrite hread.user hread.composer hread.hidden hproper
    fun _ _ => .refl _⟩

end Stencil.Settings

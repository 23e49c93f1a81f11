import Stencil.Proofs.References
import Stencil.Template.File
import Mathlib.Tactic.Common

namespace Stencil.Template

inductive Call where
  | parse (source : Text)
  | parseFile (d : Files.Disk) (path : Text)
  | output

inductive Answer where
  | parsed (outcome : Except SyntaxError Unit)
  | loaded (outcome : Except FileError Unit)
  | code (text : Option Text)

def Call.source? : Call → Option Text
  | .parse source => some source
  | .parseFile d path => (d.readText path).toOption
  | .output => none

def lastSource? (calls : List Call) : Option Text :=
  (calls.filterMap Call.source?).getLast?

def Compiler.perform (c : Compiler) : Call → Answer × Compiler
  | .parse source => (.parsed (c.parse source).1, (c.parse source).2)
  | .parseFile d path => (.loaded (c.parseFile d path).1, (c.parseFile d path).2)
  | .output => (.code c.output?, c)

section

variable (o : Options)

def Compiler.after (calls : List Call) : Compiler :=
  calls.foldl (fun c call => (c.perform call).2) (.ofOptions o)

def freshCode? : Option Text → Option Text
  | none => some []
  | some source =>
    match compile? o source with
    | .ok code => code
    | .error _ => some []

/-- What a fresh compiler answers, had it read the source `last` before. -/
def freshAnswer (last : Option Text) : Call → Answer
  | .parse source => .parsed ((Compiler.ofOptions o).parse source).1
  | .parseFile d path => .loaded ((Compiler.ofOptions o).parseFile d path).1
  | .output => .code (freshCode? o last)

def Compiler.recalling : Option Text → Compiler
  | none => .ofOptions o
  | some source => ((Compiler.ofOptions o).parse source).2

end

section

variable {o : Options}

lemma clear_eq_ofOptions (c : Compiler) : c.clear = Compiler.ofOptions c.options :=
  rfl

lemma parse_eq_fresh (c : Compiler) (source : Text) :
    c.parse source = (Compiler.ofOptions c.options).parse source := by
  rw [Compiler.parse, Compiler.parse, clear_eq_ofOptions, clear_eq_ofOptions]
  rfl

lemma walk_options (c : Compiler) (tree : List Markup.Node) :
    (c.walk tree).2.options = c.options := by
  rw [Compiler.walk]
  split <;> rfl

lemma parse_options (c : Compiler) (source : Text) : (c.parse source).2.options = c.options :=
  walk_options c.clear (Markup.parse source)

lemma recalling_options (last : Option Text) : (Compiler.recalling o last).options = o := by
  cases last with
  | none => rfl
  | some source => exact parse_options _ source

lemma recalling_parse (last : Option Text) (source : Text) :
    (Compiler.recalling o last).parse source = (Compiler.ofOptions o).parse source := by
  rw [parse_eq_fresh, recalling_options]

lemma parseFile_eq (c : Compiler) (d : Files.Disk) (path : Text) :
    c.parseFile d path =
      match d.readText path with
      | .error e => (.error (.io e), c)
      | .ok source => ((c.parse source).1.mapError .refused, (c.parse source).2) := by
  rw [Compiler.parseFile]
  cases d.readText path with
  | error e => rfl
  | ok source =>
    dsimp only
    cases hparse : c.parse source with
    | mk outcome next =>
      cases outcome with
      | ok u => rfl
      | error e => rfl

lemma output?_refused {c next : Compiler} {source : Text} {e : SyntaxError}
    (h : c.parse source = (.error e, next)) : next.output? = some [] := by
  cases hresolve : resolve c.options (Markup.parse source) with
  | ok resolved =>
    rw [Compiler.parse_of_resolved hresolve] at h
    cases h
  | error stop =>
    rw [Compiler.parse_of_stopped hresolve] at h
    cases h
    rfl

-- The first tag is registered, and the second one is empty.
example : ((Compiler.ofOptions {}).parse "\x7b\x7b $a \x7d\x7d\x7b\x7b \x7d\x7d".toList).2.table =
    ⟨[.escapedEcho "$a".toList]⟩ := by decide +kernel

lemma recalling_output? (last : Option Text) :
    (Compiler.recalling o last).output? = freshCode? o last := by
  cases last with
  | none => rfl
  | some source =>
    rw [Compiler.recalling, freshCode?, compile?]
    cases hparse : (Compiler.ofOptions o).parse source with
    | mk outcome next =>
      cases outcome with
      | ok u => rfl
      | error e => exact output?_refused hparse

lemma freshCode?_isSome (last : Option Text) : (freshCode? o last).isSome = true := by
  cases last with
  | none => rfl
  | some source =>
    rw [freshCode?, compile?]
    cases hparse : (Compiler.ofOptions o).parse source with
    | mk outcome next =>
      cases outcome with
      | ok u =>
        obtain ⟨nodes, -, -, houtput⟩ := parse_emits hparse
        exact Option.isSome_of_mem houtput
      | error e => rfl

lemma perform_recalling (last : Option Text) (call : Call) :
    (Compiler.recalling o last).perform call =
      (freshAnswer o last call, Compiler.recalling o (call.source?.or last)) := by
  cases call with
  | parse source =>
    rw [Compiler.perform, recalling_parse]
    rfl
  | parseFile d path =>
    rw [Compiler.perform, freshAnswer, Call.source?, parseFile_eq, parseFile_eq]
    cases d.readText path with
    | error e => rfl
    | ok source =>
      dsimp only
      rw [recalling_parse]
      rfl
  | output =>
    rw [Compiler.perform, recalling_output?]
    rfl

lemma after_eq_recalling (calls : List Call) :
    Compiler.after o calls = Compiler.recalling o (lastSource? calls) := by
  induction calls using List.reverseRecOn with
  | nil => rfl
  | append_singleton calls call ih =>
    have hlast : lastSource? (calls ++ [call]) = call.source?.or (lastSource? calls) := by
      rw [lastSource?, List.filterMap_append, List.getLast?_append]
      cases hsource : call.source? with
      | none => simp [hsource, lastSource?]
      | some source => simp [hsource]
    rw [Compiler.after, List.foldl_concat, hlast]
    change ((Compiler.after o calls).perform call).2 = _
    rw [ih, perform_recalling]

end

/-- A compiler's history does not leak: after any calls, the answer to the next one is that of a fresh
compiler that has read the last source and nothing else. -/
theorem answer_eq_freshAnswer (o : Options) (calls : List Call) (call : Call) :
    ((Compiler.after o calls).perform call).1 = freshAnswer o (lastSource? calls) call ∧
      ((Compiler.after o calls).perform call).2 = call.source?.elim (Compiler.after o calls)
        (fun source => ((Compiler.ofOptions o).parse source).2) ∧
      (freshCode? o (lastSource? calls)).isSome = true := by
  rw [after_eq_recalling, perform_recalling]
  refine ⟨rfl, ?_, freshCode?_isSome _⟩
  cases call.source? with
  | none => rfl
  | some source => rfl

end Stencil.Template

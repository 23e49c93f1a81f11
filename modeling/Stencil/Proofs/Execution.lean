import Stencil.Proofs.Stream
import Mathlib.Tactic.Common

/-! Running a stream of chunks. An alternative belongs to the block closed right before it. -/

namespace Stencil.Template

/-- What the code of a template does to states of type `S`. -/
structure Interpretation (S : Type) where
  condition : Text → S → Bool × S
  rounds : Text → S → List (S → S)
  perform : Fragment → S → Text × S

abbrev Behaviour (S : Type) := S → Text × S

namespace Behaviour

variable {S : Type}

def write (content : Text) : Behaviour S := fun s => (content, s)

def andThen (first second : Behaviour S) : Behaviour S := fun s =>
  ((first s).1 ++ (second (first s).2).1, (second (first s).2).2)

def repeated (body : Behaviour S) : List (S → S) → Behaviour S
  | [] => write []
  | update :: rest => fun s => andThen body (repeated body rest) (update s)

end Behaviour

namespace Command

def opensBlock : Command → Bool
  | .fragment (.ifOpen _) | .fragment (.elseIfOpen _) | .fragment .elseOpen
  | .fragment (.foreachOpen _) => true
  | .fragment (.escapedEcho _) | .fragment (.rawEcho _) | .fragment (.statement _) | .close => false

end Command

namespace Chunk

def part {α : Type} : Chunk α → Text ⊕ α
  | .literal content => .inl content
  | .code c | .attributeCode c => .inr c

end Chunk

def block? : Nat → List (Chunk Command) → Option (List (Chunk Command) × List (Chunk Command))
  | _, [] => none
  | depth, p :: rest =>
    match p.part, depth with
    | .inr .close, 0 => some ([], rest)
    | .inr .close, depth + 1 => (block? depth rest).map fun split => (p :: split.1, split.2)
    | .inr (.fragment f), depth =>
      (block? (if (Command.fragment f).opensBlock then depth + 1 else depth) rest).map
        fun split => (p :: split.1, split.2)
    | .inl _, depth => (block? depth rest).map fun split => (p :: split.1, split.2)

lemma block?_length {depth : Nat} {ps : List (Chunk Command)}
    {split : List (Chunk Command) × List (Chunk Command)} (h : block? depth ps = some split) :
    split.1.length < ps.length ∧ split.2.length < ps.length := by
  induction ps generalizing depth split with
  | nil => cases h
  | cons p rest ih =>
    have hcons : ∀ d, (block? d rest).map (fun split => (p :: split.1, split.2)) = some split →
        split.1.length < (p :: rest).length ∧ split.2.length < (p :: rest).length := by
      intro d hd
      obtain ⟨inner, hi, rfl⟩ := Option.map_eq_some_iff.mp hd
      have := ih hi
      simp only [List.length_cons]
      omega
    unfold block? at h
    split at h
    · cases h
      simp
    · exact hcons _ h
    · exact hcons _ h
    · exact hcons _ h

variable {S : Type} (I : Interpretation S)

def resume (done : Text × S) (next : S → Option (Text × S)) : Option (Text × S) :=
  (next done.2).map fun r => (done.1 ++ r.1, r.2)

/-- Runs a block with its body and what comes after its close. `taken` says of a chain of
conditionals closed right before whether one of its branches was run. -/
def enter (body : S → Option (Text × S)) (after : Option Bool → S → Option (Text × S))
    (f : Fragment) (taken : Option Bool) (s : S) : Option (Text × S) :=
  let branch (r : Bool × S) : Option (Text × S) :=
    if r.1 then (body r.2).bind fun done => resume done (after (some true))
    else after (some false) r.2
  match f, taken with
  | .ifOpen condition, _ => branch (I.condition condition s)
  | .elseIfOpen condition, some false => branch (I.condition condition s)
  | .elseIfOpen _, some true => after (some true) s
  | .elseOpen, some false => (body s).bind fun done => resume done (after none)
  | .elseOpen, some true => after none s
  | .foreachOpen clause, _ =>
    let round (done : Text × S) (update : S → S) : Option (Text × S) :=
      resume (done.1, update done.2) body
    ((I.rounds clause s).foldlM round ([], s)).bind fun done => resume done (after none)
  | _, _ => none

/-- Runs a stream; none if its blocks do not match. -/
def run? (taken : Option Bool) (ps : List (Chunk Command)) (s : S) : Option (Text × S) :=
  match ps with
  | [] => some ([], s)
  | p :: rest =>
    match p.part with
    | .inl content => resume (content, s) (run? none rest)
    | .inr .close => none
    | .inr (.fragment f) =>
      if (Command.fragment f).opensBlock then
        match _h : block? 0 rest with
        | none => none
        | some (body, after) => enter I (run? none body) (fun t => run? t after) f taken s
      else resume (I.perform f s) (run? none rest)
termination_by ps.length
decreasing_by
  · simp
  · have hlength := (block?_length _h).1
    exact Nat.lt_succ_of_lt hlength
  · have hlength := (block?_length _h).2
    exact Nat.lt_succ_of_lt hlength
  · simp

@[simp] lemma run?_nil (taken : Option Bool) (s : S) : run? I taken [] s = some ([], s) := by
  rw [run?]

@[simp] lemma run?_literal (taken : Option Bool) (content : Text) (rest : List (Chunk Command)) (s : S) :
    run? I taken (.literal content :: rest) s = resume (content, s) (run? I none rest) := by
  rw [run?]
  rfl

lemma run?_perform (taken : Option Bool) {p : Chunk Command} {f : Fragment}
    (rest : List (Chunk Command)) (s : S) (hp : p.part = .inr (.fragment f))
    (hf : (Command.fragment f).opensBlock = false) :
    run? I taken (p :: rest) s = resume (I.perform f s) (run? I none rest) := by
  rw [run?]
  simp [hp, hf]

lemma run?_block (taken : Option Bool) {f : Fragment} {rest body after : List (Chunk Command)} (s : S)
    (hf : (Command.fragment f).opensBlock = true) (h : block? 0 rest = some (body, after)) :
    run? I taken (.code (.fragment f) :: rest) s =
      enter I (run? I none body) (fun t => run? I t after) f taken s := by
  rw [run?]
  simp only [Chunk.part, hf, if_true]
  split
  · rename_i h'
    rw [h] at h'
    cases h'
  · rename_i h'
    rw [h] at h'
    cases h'
    rfl

def Closed (ps : List (Chunk Command)) : Prop :=
  ∀ depth rest, block? depth (ps ++ rest) =
    (block? depth rest).map fun split => (ps ++ split.1, split.2)

namespace Closed

lemma nil : Closed [] := by
  intro depth rest
  simp

lemma append {ps qs : List (Chunk Command)} (hp : Closed ps) (hq : Closed qs) : Closed (ps ++ qs) := by
  intro depth rest
  rw [List.append_assoc, hp, hq, Option.map_map]
  congr 1
  funext split
  simp

lemma literal (content : Text) : Closed [.literal content] := by
  intro depth rest
  cases depth <;> rfl

lemma perform {p : Chunk Command} {f : Fragment} (hp : p.part = .inr (.fragment f))
    (hf : (Command.fragment f).opensBlock = false) : Closed [p] := by
  intro depth rest
  cases depth <;> simp [block?, hp, hf]

lemma split {body : List (Chunk Command)} (hb : Closed body) (after : List (Chunk Command)) :
    block? 0 (body ++ .code .close :: after) = some (body, after) := by
  rw [hb]
  simp [block?, Chunk.part]

lemma block {body : List (Chunk Command)} {f : Fragment}
    (hf : (Command.fragment f).opensBlock = true) (hb : Closed body) :
    Closed (.code (.fragment f) :: body ++ [.code .close]) := by
  intro depth rest
  have hstart : block? depth (.code (.fragment f) :: (body ++ .code .close :: rest)) =
      (block? (depth + 1) (body ++ .code .close :: rest)).map
        fun split => (.code (.fragment f) :: split.1, split.2) := by
    cases depth <;> simp [block?, Chunk.part, hf]
  have hclose : block? (depth + 1) (.code .close :: rest) =
      (block? depth rest).map fun split => (.code .close :: split.1, split.2) := rfl
  simp only [List.cons_append, List.append_assoc, List.nil_append]
  rw [hstart, hb, hclose, Option.map_map, Option.map_map]
  congr 1

end Closed

lemma resume_resume (done : Text × S) (b : Behaviour S) (next : S → Option (Text × S)) :
    resume done (fun s => resume (b s) next) =
      resume (done.1 ++ (b done.2).1, (b done.2).2) next := by
  simp only [resume, Option.map_map]
  congr 1
  funext r
  simp

lemma resume_nil (s : S) (next : S → Option (Text × S)) : resume ([], s) next = next s := by
  simp [resume]

def Neutral (ps : List (Chunk Command)) : Prop :=
  ∀ taken s, run? I taken ps s = run? I none ps s

def Runs (taken : Option Bool) (ps : List (Chunk Command)) (b : Behaviour S) : Prop :=
  ∀ next s, Neutral I next → run? I taken (ps ++ next) s = resume (b s) (run? I none next)

def Realizes (ps : List (Chunk Command)) (b : Behaviour S) : Prop :=
  ∀ taken, Runs I taken ps b

variable {I}

lemma Neutral.nil : Neutral I [] := by
  intro taken s
  simp

lemma Realizes.neutral {ps : List (Chunk Command)} {b : Behaviour S} (h : Realizes I ps b)
    {next : List (Chunk Command)} (hn : Neutral I next) : Neutral I (ps ++ next) := by
  intro taken s
  rw [h taken next s hn, h none next s hn]

lemma Runs.alone {taken : Option Bool} {ps : List (Chunk Command)} {b : Behaviour S}
    (h : Runs I taken ps b) (s : S) : run? I taken ps s = some (b s) := by
  have := h [] s Neutral.nil
  simpa [resume] using this

lemma Runs.append {taken : Option Bool} {ps qs : List (Chunk Command)} {b c : Behaviour S}
    (hp : Runs I taken ps b) (hq : Realizes I qs c) : Runs I taken (ps ++ qs) (b.andThen c) := by
  intro next s hn
  rw [List.append_assoc, hp _ s (hq.neutral hn)]
  have hrest : run? I none (qs ++ next) = fun s => resume (c s) (run? I none next) := by
    funext s
    exact hq none next s hn
  rw [hrest, resume_resume]
  rfl

lemma run?_chain {f : Fragment} {body ps next : List (Chunk Command)} (hc : Closed body)
    (hf : (Command.fragment f).opensBlock = true) (taken : Option Bool) (s : S) :
    run? I taken (.code (.fragment f) :: body ++ .code .close :: ps ++ next) s =
      enter I (run? I none body) (fun t => run? I t (ps ++ next)) f taken s := by
  have hsplit := hc.split (ps ++ next)
  simp only [List.cons_append, List.append_assoc]
  exact run?_block I taken s hf hsplit

namespace Realizes

lemma nil : Realizes I [] (Behaviour.write []) := by
  intro taken next s hn
  rw [List.nil_append, hn taken s]
  exact (resume_nil s _).symm

lemma append {ps qs : List (Chunk Command)} {b c : Behaviour S} (hp : Realizes I ps b)
    (hq : Realizes I qs c) : Realizes I (ps ++ qs) (b.andThen c) := fun taken =>
  (hp taken).append hq

lemma literal (content : Text) : Realizes I [.literal content] (Behaviour.write content) := by
  intro taken next s hn
  exact run?_literal I taken content next s

lemma perform {p : Chunk Command} {f : Fragment} (hp : p.part = .inr (.fragment f))
    (hf : (Command.fragment f).opensBlock = false) : Realizes I [p] (I.perform f) := by
  intro taken next s hn
  exact run?_perform I taken next s hp hf

lemma rounds {body : S → Option (Text × S)} {b : Behaviour S} (hb : ∀ s, body s = some (b s))
    (updates : List (S → S)) (done : Text × S) :
    updates.foldlM (fun done update => resume (done.1, update done.2) body) done =
      some (done.1 ++ (b.repeated updates done.2).1, (b.repeated updates done.2).2) := by
  induction updates generalizing done with
  | nil => simp [Behaviour.repeated, Behaviour.write]
  | cons update rest ih =>
    have hround : resume (done.1, update done.2) body =
        some (done.1 ++ (b (update done.2)).1, (b (update done.2)).2) := by
      simp only [resume, hb, Option.map_some]
    rw [List.foldlM_cons, hround, Option.bind_eq_bind, Option.bind_some, ih]
    simp only [Behaviour.repeated, Behaviour.andThen, List.append_assoc]

lemma loop {body : List (Chunk Command)} {b : Behaviour S} (hc : Closed body)
    (hb : Realizes I body b) (clause : Text) :
    Realizes I (.code (.fragment (.foreachOpen clause)) :: body ++ [.code .close])
      (fun s => b.repeated (I.rounds clause s) s) := by
  intro taken next s hn
  rw [run?_chain hc rfl]
  simp only [enter]
  rw [rounds (fun s => (hb none).alone s)]
  simp

end Realizes

def Behaviour.branch (test : S → Bool × S) (body yes no : Behaviour S) : Behaviour S := fun s =>
  if (test s).1 then body.andThen yes (test s).2 else no (test s).2

namespace Runs

variable {body ps : List (Chunk Command)} {b yes no : Behaviour S}

lemma bind_alone {taken : Option Bool} (hb : Realizes I body b) (hp : Runs I taken ps yes)
    {next : List (Chunk Command)} (hn : Neutral I next) (s : S) :
    ((run? I none body s).bind fun done => resume done (run? I taken (ps ++ next))) =
      resume (b.andThen yes s) (run? I none next) := by
  have hrest : run? I taken (ps ++ next) = fun s => resume (yes s) (run? I none next) := by
    funext s
    exact hp next s hn
  rw [(hb none).alone, Option.bind_some, hrest, resume_resume]
  rfl

lemma first (hc : Closed body) (hb : Realizes I body b) (hy : Runs I (some true) ps yes)
    (hno : Runs I (some false) ps no) (taken : Option Bool) (condition : Text) :
    Runs I taken (.code (.fragment (.ifOpen condition)) :: body ++ .code .close :: ps)
      (Behaviour.branch (I.condition condition) b yes no) := by
  intro next s hn
  rw [run?_chain hc rfl]
  simp only [enter, Behaviour.branch]
  split
  · exact bind_alone hb hy hn _
  · exact hno next _ hn

lemma next (hc : Closed body) (hb : Realizes I body b) (hy : Runs I (some true) ps yes)
    (hno : Runs I (some false) ps no) (condition : Text) :
    Runs I (some false) (.code (.fragment (.elseIfOpen condition)) :: body ++ .code .close :: ps)
      (Behaviour.branch (I.condition condition) b yes no) := by
  intro next s hn
  rw [run?_chain hc rfl]
  simp only [enter, Behaviour.branch]
  split
  · exact bind_alone hb hy hn _
  · exact hno next _ hn

lemma next_taken (hc : Closed body) (hy : Runs I (some true) ps yes) (condition : Text) :
    Runs I (some true) (.code (.fragment (.elseIfOpen condition)) :: body ++ .code .close :: ps)
      yes := by
  intro next s hn
  rw [run?_chain hc rfl]
  exact hy next s hn

lemma last (hc : Closed body) (hb : Realizes I body b) (hy : Runs I none ps yes) :
    Runs I (some false) (.code (.fragment .elseOpen) :: body ++ .code .close :: ps)
      (b.andThen yes) := by
  intro next s hn
  rw [run?_chain hc rfl]
  exact bind_alone hb hy hn s

lemma last_taken (hc : Closed body) (hy : Runs I none ps yes) :
    Runs I (some true) (.code (.fragment .elseOpen) :: body ++ .code .close :: ps) yes := by
  intro next s hn
  rw [run?_chain hc rfl]
  exact hy next s hn

end Runs

end Stencil.Template

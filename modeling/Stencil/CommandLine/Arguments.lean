import Stencil.Text

namespace Stencil.CommandLine

inductive Command where
  | compile (file : Text) (output : Option Text)
  | check (paths : List Text)
  | cache (force : Bool) (names : List Text)
  | config
  deriving DecidableEq, Repr

structure Invocation where
  quiet : Bool
  command : Command
  deriving DecidableEq, Repr

inductive Stop where
  | version
  | help
  | invalid
  deriving DecidableEq, Repr

inductive CommandName where
  | compile
  | check
  | cache
  | config
  deriving DecidableEq, Repr

namespace CommandName

def ofWord? (word : Text) : Option CommandName :=
  if word = "compile".toList then some .compile
  else if word = "check".toList then some .check
  else if word = "cache".toList then some .cache
  else if word = "config".toList then some .config
  else none

def takesMore (operands : List Text) : CommandName → Bool
  | .compile => operands.isEmpty
  | .check => true
  | .cache => true
  | .config => false

end CommandName

/-- What was given at one level: before the command, or after it. -/
structure Level where
  quiet : Bool := false
  verbose : Bool := false
  force : Bool := false
  output : Option Text := none
  operands : List Text := []
  deriving DecidableEq, Repr

namespace Level

def setQuiet (l : Level) : Except Stop Level :=
  if l.quiet then .error .invalid else .ok { l with quiet := true }

def setForce (l : Level) : Except Stop Level :=
  if l.force then .error .invalid else .ok { l with force := true }

def setOutput (l : Level) (file : Text) : Except Stop Level :=
  if l.output.isSome then .error .invalid else .ok { l with output := some file }

def addOperand (name : CommandName) (l : Level) (operand : Text) : Except Stop Level :=
  if name.takesMore l.operands then .ok { l with operands := l.operands ++ [operand] }
  else .error .invalid

def isSound (l : Level) : Bool :=
  !(l.quiet && l.verbose)

end Level

def letters (name? : Option CommandName) (l : Level) : Text → Except Stop (Level × Bool)
  | [] => .ok (l, false)
  | c :: cs =>
    if c = 'q' then do letters name? (← l.setQuiet) cs
    else if c = 'v' then letters name? { l with verbose := true } cs
    else if c = 'h' then .error .help
    else if c = 'V' ∧ name? = none then .error .version
    else if c = 'o' ∧ name? = some .compile then
      match cs with
      | [] => .ok (l, true)
      | '=' :: file => do return (← l.setOutput file, false)
      | file => do return (← l.setOutput file, false)
    else .error .invalid

def word (name? : Option CommandName) (l : Level) (cs : Text) : Except Stop (Level × Bool) :=
  let name := cs.takeWhile (· ≠ '=')
  let value? := if cs.contains '=' then some (cs.drop (name.length + 1)) else none
  if name = "output".toList ∧ name? = some .compile then
    match value? with
    | none => .ok (l, true)
    | some file => do return (← l.setOutput file, false)
  else if value?.isSome then .error .invalid
  else if name = "quiet".toList then do return (← l.setQuiet, false)
  else if name = "verbose".toList then .ok ({ l with verbose := true }, false)
  else if name = "help".toList then .error .help
  else if name = "version".toList ∧ name? = none then .error .version
  else if name = "force".toList ∧ name? = some .cache then do return (← l.setForce, false)
  else .error .invalid

inductive ArgumentKind where
  | operand
  | divider
  | letters (cs : Text)
  | word (cs : Text)
  deriving DecidableEq, Repr

def kindOf (argument : Text) : ArgumentKind :=
  match argument with
  | '-' :: '-' :: [] => .divider
  | '-' :: '-' :: cs => .word cs
  | '-' :: c :: cs => .letters (c :: cs)
  | _ => .operand

def flag (name? : Option CommandName) (l : Level) : ArgumentKind → Except Stop (Level × Bool)
  | .letters cs => letters name? l cs
  | .word cs => word name? l cs
  | _ => .error .invalid

def afterName (name : CommandName) (l : Level) : List Text → Except Stop Level
  | [] => .ok l
  | argument :: rest =>
    match kindOf argument with
    | .operand => do afterName name (← l.addOperand name argument) rest
    | .divider => rest.foldlM (Level.addOperand name) l
    | kind => do
      let (next, waits) ← flag (some name) l kind
      if waits then
        match rest with
        | [] => .error .invalid
        | value :: more =>
          if kindOf value = .operand then do afterName name (← next.setOutput value) more
          else .error .invalid
      else afterName name next rest
termination_by arguments => arguments.length

def commandOf (name : CommandName) (l : Level) : Except Stop Command :=
  match name, l.operands with
  | .compile, [file] => .ok (.compile file l.output)
  | .compile, _ => .error .invalid
  | .check, paths => .ok (.check paths)
  | .cache, [] => .error .invalid
  | .cache, names => .ok (.cache l.force names)
  | .config, _ => .ok .config

def help : List Text → Stop
  | [] => .help
  | [topic] =>
    if (CommandName.ofWord? topic).isSome ∨ topic = "help".toList then .help else .invalid
  | _ => .invalid

def parseFrom (l : Level) : List Text → Except Stop Invocation
  | [] => .error .invalid
  | argument :: rest =>
    match kindOf argument with
    | .operand =>
      match CommandName.ofWord? argument with
      | some name => do
        let inner ← afterName name {} rest
        let command ← commandOf name inner
        if l.isSound && inner.isSound then .ok ⟨l.quiet || inner.quiet, command⟩
        else .error .invalid
      | none => .error (if argument = "help".toList then help rest else .invalid)
    | kind => do
      let (next, _) ← flag none l kind
      parseFrom next rest

def parse (arguments : List Text) : Except Stop Invocation :=
  parseFrom {} arguments

end Stencil.CommandLine

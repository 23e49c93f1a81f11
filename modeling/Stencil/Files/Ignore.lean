import Stencil.Files.Disk

/-!
One walk below a directory, by the rules of ignore files. Excludes that a user sets for all repositories
are not looked up.
-/

namespace Stencil.Files.Ignore

inductive Sign where
  | char (c : Char)
  | any
  | many
  | oneOf (negated : Bool) (ranges : List (Char × Char))
  deriving DecidableEq, Repr

inductive Part where
  | anyDepth
  | name (signs : List Sign)
  deriving DecidableEq, Repr

structure Rule where
  parts : List Part
  negated : Bool
  onlyDirectories : Bool
  deriving DecidableEq, Repr

namespace Sign

def ranges? : Text → Option (List (Char × Char) × Nat)
  | [] => none
  | ']' :: _ => some ([], 1)
  | a :: '-' :: b :: cs =>
    if b = ']' then
      (ranges? ('-' :: b :: cs)).map fun (found, width) => ((a, a) :: found, width + 1)
    else (ranges? cs).map fun (found, width) => ((a, b) :: found, width + 3)
  | a :: cs => (ranges? cs).map fun (found, width) => ((a, a) :: found, width + 1)
termination_by cs => cs.length

def class? (cs : Text) : Option (Sign × Nat) :=
  let negated := cs.head? = some '!' ∨ cs.head? = some '^'
  let body := if negated then cs.drop 1 else cs
  let shift := if negated then 1 else 0
  match body with
  | ']' :: rest =>
    (ranges? rest).map fun (found, width) =>
      (.oneOf (decide negated) ((']', ']') :: found), shift + 1 + width)
  | _ => (ranges? body).map fun (found, width) => (.oneOf (decide negated) found, shift + width)

def read? (cs : Text) : Option (List Sign) :=
  match cs with
  | [] => some []
  | c :: rest =>
    if c = '*' then (read? rest).map (.many :: ·)
    else if c = '?' then (read? rest).map (.any :: ·)
    else if c = '\\' then
      match rest with
      | [] => none
      | d :: after => (read? after).map (.char d :: ·)
    else if c = '[' then
      match class? rest with
      | none => none
      | some (sign, width) => (read? (rest.drop width)).map (sign :: ·)
    else (read? rest).map (.char c :: ·)
termination_by cs.length
decreasing_by
  all_goals simp only [List.length_drop, List.length_cons]
  all_goals omega

def fits (sign : Sign) (c : Char) : Bool :=
  match sign with
  | .char d => c == d
  | .any => true
  | .many => true
  | .oneOf negated ranges => negated != ranges.any fun (low, high) => low ≤ c && c ≤ high

end Sign

def fitsName : List Sign → Text → Bool
  | [], cs => cs.isEmpty
  | .many :: signs, [] => fitsName signs []
  | .many :: signs, c :: cs => fitsName signs (c :: cs) || fitsName (.many :: signs) cs
  | _ :: _, [] => false
  | sign :: signs, c :: cs => sign.fits c && fitsName signs cs
termination_by signs cs => (signs.length, cs.length)

def fitsKey : List Part → Key → Bool
  | [], key => key.isEmpty
  | .anyDepth :: parts, [] => fitsKey parts []
  | .anyDepth :: parts, name :: key =>
    fitsKey parts (name :: key) || fitsKey (.anyDepth :: parts) key
  | .name _ :: _, [] => false
  | .name signs :: parts, name :: key => fitsName signs name && fitsKey parts key
termination_by parts key => (parts.length, key.length)

namespace Part

def read? (cs : Text) : Option Part :=
  if cs = "**".toList then some .anyDepth else (Sign.read? cs).map .name

end Part

namespace Rule

def stripEnd (line : Text) : Text :=
  match line.reverse with
  | ' ' :: '\\' :: _ => line
  | reversed => (reversed.dropWhile Text.isSpace).reverse

def read? (line : Text) : Option Rule :=
  let line := if line.head? = some '#' then [] else stripEnd line
  if line.isEmpty then none
  else
    let escaped := "\\!".toList.isPrefixOf line || "\\#".toList.isPrefixOf line
    let negated := !escaped && line.head? == some '!'
    let body := if escaped || negated then line.drop 1 else line
    let anchored := body.head? == some '/'
    let body := if anchored then body.drop 1 else body
    let onlyDirectories := body.getLast? == some '/'
    let body := if onlyDirectories then body.dropLast else body
    let written := Text.split '/' body
    let written := if anchored || 1 < written.length then written else "**".toList :: written
    let written :=
      if 1 < written.length ∧ written.getLast? = some "**".toList then written ++ ["*".toList]
      else written
    (written.mapM Part.read?).map fun parts => ⟨parts, negated, onlyDirectories⟩

end Rule

inductive Verdict where
  | ignore
  | keep
  deriving DecidableEq, Repr

def verdict? (rules : List Rule) (key : Key) (isDirectory : Bool) : Option Verdict :=
  (rules.reverse.find? fun rule =>
    (isDirectory || !rule.onlyDirectories) && fitsKey rule.parts key).map fun rule =>
      if rule.negated then .keep else .ignore

def rules (d : Disk) (key : Key) : List Rule :=
  match d.entry? key with
  | some (.file (.text content) _) =>
    (Text.split '\n' content).filterMap fun line =>
      Rule.read? (if line.getLast? = some '\r' then line.dropLast else line)
  | _ => []

def nearest? (d : Disk) (file : Key) (isDirectory : Bool) : (levels : Nat) → Key → Option Verdict
  | 0, _ => none
  | levels + 1, key =>
    (verdict? (rules d (key.take levels ++ file)) (key.drop levels) isDirectory).or
      (nearest? d file isDirectory levels key)

def ruleFiles : List Key :=
  [[".ignore".toList], [".gitignore".toList], [".git".toList, "info".toList, "exclude".toList]]

def entryVerdict? (d : Disk) (key : Key) (isDirectory : Bool) : Option Verdict :=
  ruleFiles.findSome? fun file => nearest? d file isDirectory key.length key

/-- Whether a walk leaves an entry out: a rule says so, or the name starts with a dot and no rule
keeps it. -/
def leavesOut (d : Disk) (key : Key) (isDirectory : Bool) : Bool :=
  match entryVerdict? d key isDirectory with
  | some .ignore => true
  | some .keep => false
  | none => (key.getLast?.getD []).head? == some '.'

def reached (d : Disk) (root key : Key) : Bool :=
  root.isPrefixOf key && root.length < key.length &&
    (List.range (key.length - root.length)).all fun i =>
      let place := key.take (root.length + i + 1)
      !leavesOut d place ((d.entry? place).any Entry.isDirectory)

def walk (d : Disk) (root : Key) : List Key :=
  (d.entries.filter fun (key, entry) => entry.isFile && reached d root key).map Prod.fst

end Stencil.Files.Ignore

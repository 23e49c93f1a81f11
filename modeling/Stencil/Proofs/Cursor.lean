import Stencil.Proofs.Faults

/-! The lexer as a cursor that moves by numbers of bytes and slices UTF-8. -/

namespace Stencil.Code.Lexer.Cursor

open Text

inductive Crash where
  | slice
  | stuck
  deriving DecidableEq, Repr

structure Read where
  kind : Kind
  size : Nat
  next : Mode
  deriving DecidableEq, Repr

abbrev Outcome := Except Crash (Except Fault Read)

def sliceFrom (n : Nat) (rest : Text) : Except Crash Text :=
  (dropBytes? n rest).elim (.error .slice) .ok

def sliceTo (n : Nat) (rest : Text) : Except Crash Text :=
  (takeBytes? n rest).elim (.error .slice) .ok

def token (kind : Kind) (size : Nat) : Outcome :=
  .ok (.ok ⟨kind, size, .code kind.isMemberOperator⟩)

def blockComment (member : Bool) (rest : Text) : Outcome := do
  let body ← sliceFrom 2 rest
  let doc := ((bytes rest).drop 2).head? = some '*' ∧ ((bytes rest).drop 3).head?.any isWhitespace
  return .ok ⟨if doc then .docComment else .comment,
    2 + byteSize (body.take (blockCommentWidth body)), .code member⟩

def closeTag (rest : Text) : Outcome := do
  let after ← sliceFrom 2 rest
  return .ok ⟨.closeTag, 2 + lineBreakWidth (bytes after), .markup⟩

def heredocLabel (start quotes : Nat) (rest : Text) : Outcome := do
  let size := Text.run isNameChar ((bytes rest).drop start)
  let labelled ← sliceFrom start rest
  let label ← sliceTo size labelled
  let after ← sliceFrom (start + size + quotes) rest
  return .ok ⟨.startHeredoc, start + size + quotes + lineBreakWidth (bytes after), .heredoc label⟩

def heredocStart (rest : Text) : Outcome :=
  let blanks := 3 + Text.run isBlank ((bytes rest).drop 3)
  let quote := ((bytes rest).drop blanks).head?
  if quote = some '\'' ∨ quote = some '"' then heredocLabel (blanks + 1) 1 rest
  else heredocLabel blanks 0 rest

def paren (rest : Text) : Outcome := do
  let inner ← sliceFrom 1 rest
  let close := byteSize (inner.takeWhile (· ≠ ')'))
  let type ← sliceTo close inner
  match Cast.ofTypeName? (Text.trimBy isBlank type) with
  | some type => if close < byteSize inner then token (.cast type) (close + 2) else token (.symbol .openParen) 1
  | none => token (.symbol .openParen) 1

def word (member : Bool) (rest : Text) : Outcome := do
  let head := Text.run isNameChar (bytes rest)
  let segments := segmentsWidth ((bytes rest).drop head)
  let text ← sliceTo (head + segments) rest
  let kind :=
    if segments ≠ 0 then
      if Text.lower (text.takeWhile (· ≠ '\\')) = "namespace".toList then Kind.relativeName
      else Kind.qualifiedName
    else if member then .identifier
    else
      match Keyword.ofWord? text with
      | some k => .keyword k
      | none => .identifier
  token kind (head + segments)

def sign (rest : Text) : Outcome :=
  match Symbol.read? rest with
  | some (spelling, s) => token (.symbol s) (byteSize spelling)
  | none => .ok (.error (.unexpectedCharacter (rest.head?.getD '\x00')))

def code (member : Bool) (rest : Text) : Outcome :=
  match bytes rest with
  | [] => .error .stuck
  | b :: bs =>
    let next := bs.head?
    if isWhitespace b then .ok (.ok ⟨.whitespace, 1 + Text.run isWhitespace bs, .code member⟩)
    else if b = '#' ∧ next = some '[' then token .attributeStart 2
    else if b = '#' ∨ (b = '/' ∧ next = some '/') then
      token .comment (byteSize (rest.take (lineCommentWidth rest)))
    else if b = '/' ∧ next = some '*' then blockComment member rest
    else if b = '$' ∧ next.any isNameStart then token .variableName (1 + Text.run isNameChar bs)
    else if b = '\'' then
      match quotedWidth? b bs with
      | some size => token .string (1 + size)
      | none => .ok (.error .unterminatedString)
    else if b = '"' then
      match quotedWidth? b bs with
      | some size => token (if interpolates bs then .interpolatedString else .string) (1 + size)
      | none => .ok (.error .unterminatedString)
    else if b = '\x60' then token .backtick 1
    else if b = '?' ∧ next = some '>' then closeTag rest
    else if b = '<' ∧ "<<".toList.isPrefixOf bs then heredocStart rest
    else if b = '(' then paren rest
    else if b.isDigit ∨ (b = '.' ∧ next.any Char.isDigit) then
      token (number (b :: bs)).1 (number (b :: bs)).2
    else if b = '\\' ∧ next.any isNameStart then
      let head := Text.run isNameChar bs
      token .fullyQualifiedName (1 + head + segmentsWidth (bs.drop head))
    else if isNameStart b then word member rest
    else sign rest

def heredocEnd (label line : Text) : Except Crash (Option Nat) := do
  let blanks := byteSize (line.takeWhile Lexer.isBlank)
  let rest ← sliceFrom blanks line
  return if label ≠ [] ∧ label.isPrefixOf rest ∧ !(bytes (rest.drop label.length)).head?.any isNameChar then
    some (blanks + byteSize label)
  else none

def heredocBody (label rest : Text) : Except Crash Nat :=
  if '\n' ∈ rest then
    let line := byteSize (rest.takeWhile (· ≠ '\n')) + 1
    match dropBytes? line rest with
    | none => .error .slice
    | some after =>
      if after.length < rest.length then
        match heredocEnd label after with
        | .error crash => .error crash
        | .ok (some _) => .ok line
        | .ok none => (heredocBody label after).map (line + ·)
      else .error .stuck
  else .ok (byteSize rest)
termination_by rest.length

def heredoc (label rest : Text) : Outcome := do
  match ← heredocEnd label rest with
  | some size => return .ok ⟨.endHeredoc, size, .code false⟩
  | none => return .ok ⟨.heredocBody, ← heredocBody label rest, .heredoc label⟩

def markup (rest : Text) : Outcome :=
  match openTag? (bytes rest) with
  | some (kind, size) => .ok (.ok ⟨kind, size, .code false⟩)
  | none => .ok (.ok ⟨.inlineHtml, inlineWidth (bytes rest), .markup⟩)

def read (mode : Mode) (rest : Text) : Outcome :=
  match mode with
  | .markup => markup rest
  | .code member => code member rest
  | .heredoc label => heredoc label rest

def tokensFrom (mode : Mode) (rest : Text) : Except Crash (Except Fault (List Token)) :=
  if rest = [] then .ok (.ok [])
  else
    match read mode rest with
    | .error crash => .error crash
    | .ok (.error fault) => .ok (.error fault)
    | .ok (.ok r) =>
      match takeBytes? r.size rest, dropBytes? r.size rest with
      | some text, some after =>
        if after.length < rest.length then
          (tokensFrom r.next after).map (Except.map (⟨r.kind, text⟩ :: ·))
        else .error .stuck
      | _, _ => .error .slice
termination_by rest.length

lemma sliceFrom_take (rest : Text) (n : Nat) :
    sliceFrom (byteSize (rest.take n)) rest = .ok (rest.drop n) := by
  rw [sliceFrom, dropBytes?_take]
  rfl

lemma sliceTo_take (rest : Text) (n : Nat) :
    sliceTo (byteSize (rest.take n)) rest = .ok (rest.take n) := by
  rw [sliceTo, takeBytes?_take]
  rfl

def outcome {α β : Type} (f : α → β) : Except Fault α → Except Crash (Except Fault β)
  | .ok a => .ok (.ok (f a))
  | .error .truncatedHeredoc => .error .slice
  | .error fault => .ok (.error fault)

def sized (c : Char) (cs : Text) (l : Lexeme) : Read :=
  ⟨l.kind, byteSize (c :: cs.take l.width), l.next⟩

lemma outcome_ite {c : Char} {cs : Text} {p q : Prop} [Decidable p] [Decidable q] (h : p ↔ q)
    {x y : Outcome} {u v : Except Fault Lexeme} (hx : q → x = outcome (sized c cs) u)
    (hy : ¬ q → y = outcome (sized c cs) v) :
    (if p then x else y) = outcome (sized c cs) (if q then u else v) := by
  by_cases hq : q
  · rw [if_pos (h.2 hq), if_pos hq, hx hq]
  · rw [if_neg (fun hp => hq (h.1 hp)), if_neg hq, hy hq]

section

variable {c b x : Char} {cs bs : Text}

lemma size_eq (hc : c.toNat < 128) (cs : Text) (n : Nat) :
    byteSize (c :: cs.take n) = 1 + byteSize (cs.take n) := by
  rw [byteSize_cons, utf8Size_ascii hc]

lemma token_eq (hc : c.toNat < 128) (kind : Kind) (width : Nat) :
    token kind (1 + byteSize (cs.take width)) =
      outcome (sized c cs) (.ok ⟨kind, width, .code kind.isMemberOperator⟩) := by
  rw [token, outcome, sized, size_eq hc]

lemma first_eq (hb : bytes (c :: cs) = b :: bs) (hx : x.toNat < 128) : b = x ↔ c = x := by
  have hhead := head?_bytes hx (c :: cs)
  rwa [hb, List.head?_cons, List.head?_cons, Option.some.injEq, Option.some.injEq] at hhead

lemma first_class {p : Char → Bool} (hb : bytes (c :: cs) = b :: bs) (hp : Uniform p) : p b = p c := by
  have hhead := hp.head? (c :: cs)
  rwa [hb] at hhead

lemma rest_eq (hb : bytes (c :: cs) = b :: bs) (hc : c.toNat < 128) : b = c ∧ bs = bytes cs := by
  rw [bytes_ascii hc] at hb
  cases hb
  exact ⟨rfl, rfl⟩

lemma first_and (hb : bytes (c :: cs) = b :: bs) (hx : x.toNat < 128) {p : Text → Prop} {q : Prop}
    (h : p (bytes cs) ↔ q) : (b = x ∧ p bs) ↔ (c = x ∧ q) := by
  rw [first_eq hb hx]
  refine and_congr_right fun hc => ?_
  rw [(rest_eq hb (hc ▸ hx)).2, h]

end

lemma lineComment_eq {c : Char} {cs : Text} (hc : c = '#' ∨ c = '/') :
    token .comment (byteSize ((c :: cs).take (lineCommentWidth (c :: cs)))) =
      outcome (sized c cs) (.ok ⟨.comment, lineCommentWidth cs, .code false⟩) := by
  have hwidth : lineCommentWidth (c :: cs) = lineCommentWidth cs + 1 := by
    rcases hc with rfl | rfl <;> rfl
  rw [hwidth, List.take_succ_cons]
  rfl

lemma blockComment_eq (member : Bool) (cs : Text) :
    blockComment member ('/' :: '*' :: cs) =
      outcome (sized '/' ('*' :: cs)) (.ok ⟨if cs.head? = some '*' ∧ (cs.drop 1).head?.any isWhitespace = true then
        .docComment else .comment, 1 + blockCommentWidth cs, .code member⟩) := by
  have hslice : sliceFrom 2 ('/' :: '*' :: cs) = .ok cs := sliceFrom_take ('/' :: '*' :: cs) 2
  have hdoc : ((bytes cs).head? = some '*' ∧ ((bytes cs).drop 1).head?.any isWhitespace = true) ↔
      (cs.head? = some '*' ∧ (cs.drop 1).head?.any isWhitespace = true) := by
    cases cs with
    | nil => simp
    | cons c cs =>
      obtain ⟨b, bs, hb⟩ := List.exists_cons_of_ne_nil (mt bytes_eq_nil.1 (List.cons_ne_nil c cs))
      rw [hb, List.head?_cons, List.head?_cons, Option.some.injEq, Option.some.injEq]
      exact first_and (p := fun bs => bs.head?.any isWhitespace = true) hb (by decide)
        (by rw [uniform_isWhitespace.head?]; rfl)
  simp only [blockComment, hslice, outcome, sized, bytes_ascii (c := '/') (by decide),
    bytes_ascii (c := '*') (by decide), List.drop_succ_cons, List.drop_zero, hdoc]
  change Except.ok (Except.ok _) = _
  rw [size_eq (by decide), byteSize_take_ascii (by decide), ← Nat.add_assoc]

lemma closeTag_eq (cs : Text) :
    closeTag ('?' :: '>' :: cs) =
      outcome (sized '?' ('>' :: cs)) (.ok ⟨.closeTag, 1 + lineBreakWidth cs, .markup⟩) := by
  have hslice : sliceFrom 2 ('?' :: '>' :: cs) = .ok cs := sliceFrom_take ('?' :: '>' :: cs) 2
  rw [closeTag, hslice, outcome, sized, size_eq (by decide), byteSize_take_ascii (by decide),
    byteSize_lineBreak, ← Nat.add_assoc, ← lineBreakWidth_bytes]
  rfl

lemma sign_eq (c : Char) (cs : Text) :
    sign (c :: cs) = outcome (sized c cs)
      (match Symbol.read? (c :: cs) with
        | some (spelling, s) =>
          .ok ⟨.symbol s, spelling.length - 1, .code (Kind.symbol s).isMemberOperator⟩
        | none => .error (.unexpectedCharacter c)) := by
  rw [sign]
  split
  · rename_i spelling s hread
    rw [token, outcome, sized, read?_text hread]
  · rfl

lemma heredocEnd_eq (label line : Text) :
    heredocEnd label line = .ok ((heredocEnd? label line).map fun n => byteSize (line.take n)) := by
  rw [heredocEnd, ← Text.take_run, sliceFrom_take]
  change Except.ok _ = _
  rw [uniform_isNameChar.head?, heredocEnd?]
  split
  · rename_i hlabel
    obtain ⟨more, hmore⟩ := List.isPrefixOf_iff_prefix.1 hlabel.2.1
    rw [Option.map_some, byteSize_take_add, ← hmore, List.take_left]
  · rfl

lemma heredocBodyWidth_other {label : Text} {c : Char} (h : c ≠ '\n') (cs : Text) :
    heredocBodyWidth label (c :: cs) = heredocBodyWidth label cs + 1 :=
  heredocBodyWidth.eq_3 label c cs h

lemma heredocBodyWidth_line {label front : Text} (h : '\n' ∉ front) (after : Text) :
    heredocBodyWidth label (front ++ '\n' :: after) =
      front.length + if (heredocEnd? label after).isSome then 1 else heredocBodyWidth label after + 1 := by
  induction front with
  | nil => rw [List.nil_append, heredocBodyWidth, List.length_nil, Nat.zero_add]
  | cons c front ih =>
    rw [List.mem_cons, not_or] at h
    rw [List.cons_append, heredocBodyWidth_other (Ne.symm h.1), ih h.2, List.length_cons]
    omega

lemma heredocBodyWidth_last {label cs : Text} (h : '\n' ∉ cs) : heredocBodyWidth label cs = cs.length := by
  induction cs with
  | nil => rfl
  | cons c cs ih =>
    rw [List.mem_cons, not_or] at h
    rw [heredocBodyWidth_other (Ne.symm h.1), ih h.2, List.length_cons]

lemma exists_line {cs : Text} (h : '\n' ∈ cs) :
    ∃ front after, cs = front ++ '\n' :: after ∧ '\n' ∉ front ∧ cs.takeWhile (· ≠ '\n') = front := by
  induction cs with
  | nil => cases h
  | cons c cs ih =>
    by_cases hc : c = '\n'
    · subst hc
      exact ⟨[], cs, rfl, List.not_mem_nil, rfl⟩
    · obtain ⟨front, after, rfl, hfront, htake⟩ := ih (List.mem_of_ne_of_mem (Ne.symm hc) h)
      refine ⟨c :: front, after, rfl, List.not_mem_cons_of_ne_of_not_mem (Ne.symm hc) hfront, ?_⟩
      rw [List.takeWhile_cons_of_pos (by simpa using hc), htake]

lemma heredocBody_eq (label cs : Text) :
    heredocBody label cs = .ok (byteSize (cs.take (heredocBodyWidth label cs))) := by
  induction hlength : cs.length using Nat.strongRecOn generalizing cs with
  | ind length ih =>
    rw [heredocBody]
    by_cases hfeed : '\n' ∈ cs
    · obtain ⟨front, after, rfl, hfront, htake⟩ := exists_line hfeed
      have hsize : byteSize front + 1 = byteSize ((front ++ '\n' :: after).take (front.length + 1)) := by
        rw [List.take_length_add_append, byteSize_append]
        rfl
      have hdrop : dropBytes? (byteSize front + 1) (front ++ '\n' :: after) = some after := by
        rw [hsize, dropBytes?_take, List.drop_length_add_append]
        rfl
      have hless : after.length < (front ++ '\n' :: after).length := by
        rw [List.length_append, List.length_cons]
        omega
      rw [if_pos hfeed, heredocBodyWidth_line hfront]
      simp only [htake, hdrop, heredocEnd_eq]
      rw [if_pos hless]
      cases hend : heredocEnd? label after with
      | some n => simp only [Option.map_some, Option.isSome_some, if_true, hsize]
      | none =>
        have hlines : front.length + (heredocBodyWidth label after + 1) =
            front.length + 1 + heredocBodyWidth label after := by omega
        have hrest : (front ++ '\n' :: after).drop (front.length + 1) = after := by
          rw [List.drop_length_add_append]
          rfl
        simp only [Option.map_none, Option.isSome_none, ih _ (hlength ▸ hless) after rfl]
        rw [if_neg Bool.false_ne_true, hlines, byteSize_take_add, ← hsize, hrest]
        rfl
    · rw [if_neg hfeed, heredocBodyWidth_last hfeed, List.take_length]

lemma heredocEnd?_pos {label cs : Text} {n : Nat} (h : heredocEnd? label cs = some n) : 0 < n := by
  rw [heredocEnd?] at h
  split at h
  · rename_i hlabel
    cases h
    have := List.length_pos_iff.2 hlabel.1
    omega
  · cases h

lemma heredocBodyWidth_pos (label : Text) (c : Char) (cs : Text) :
    0 < heredocBodyWidth label (c :: cs) := by
  by_cases hc : c = '\n'
  · subst hc
    rw [heredocBodyWidth]
    split <;> omega
  · rw [heredocBodyWidth_other hc]
    omega

lemma heredoc_eq (label : Text) (c : Char) (cs : Text) :
    heredoc label (c :: cs) = outcome (sized c cs) (lexeme (.heredoc label) c cs) := by
  rw [heredoc, heredocEnd_eq]
  cases hend : heredocEnd? label (c :: cs) with
  | some n =>
    simp only [lexeme, hend, outcome, sized]
    rw [← List.take_cons (heredocEnd?_pos hend)]
    rfl
  | none =>
    simp only [lexeme, hend, outcome, sized]
    rw [← List.take_cons (heredocBodyWidth_pos label c cs), heredocBody_eq]
    rfl

lemma openTag?_size {cs : Text} {kind : Kind} {n : Nat} (h : openTag? cs = some (kind, n)) :
    byteSize (cs.take n) = n ∧ 0 < n := by
  rw [openTag?_eq] at h
  split at h
  · rename_i hecho
    obtain ⟨more, rfl⟩ := List.isPrefixOf_iff_prefix.1 hecho
    cases h
    exact ⟨rfl, by omega⟩
  split at h
  swap
  · cases h
  rename_i hphp
  have hsize : byteSize (cs.take 5) = 5 := byteSize_of_lower (by decide) hphp
  split at h
  · cases h
    exact ⟨hsize, by omega⟩
  split at h
  · rename_i hbreak
    obtain ⟨more, hmore⟩ := List.isPrefixOf_iff_prefix.1 hbreak
    cases h
    refine ⟨?_, by omega⟩
    rw [byteSize_take_add cs 5 2, hsize, ← hmore]
    rfl
  split at h
  · rename_i hspace
    cases h
    refine ⟨?_, by omega⟩
    obtain ⟨d, ds, hd⟩ : ∃ d ds, cs.drop 5 = d :: ds := by
      apply List.exists_cons_of_ne_nil
      intro hnil
      rw [hnil] at hspace
      cases hspace
    rw [hd] at hspace
    rw [byteSize_take_add cs 5 1, hsize, hd, List.take_succ_cons, byteSize_cons,
      utf8Size_ascii (isWhitespace_ascii hspace)]
    rfl
  · cases h

lemma markup_eq (c : Char) (cs : Text) : markup (c :: cs) = outcome (sized c cs) (lexeme .markup c cs) := by
  rw [markup, openTag?_bytes]
  cases htag : openTag? (c :: cs) with
  | some found =>
    obtain ⟨kind, n⟩ := found
    obtain ⟨hsize, hpos⟩ := openTag?_size htag
    simp only [lexeme, htag, outcome, sized]
    rw [← List.take_cons hpos, hsize]
  | none =>
    have hwidth : inlineWidth (c :: cs) = inlineWidth cs + 1 := by
      rw [inlineWidth, htag]
      rfl
    simp only [lexeme, htag, outcome, sized]
    rw [inlineWidth_bytes, hwidth, List.take_succ_cons]

lemma paren_eq (cs : Text) :
    paren ('(' :: cs) = outcome (sized '(' cs)
      (match cast? cs with
        | some (type, width) => .ok ⟨.cast type, width, .code false⟩
        | none => .ok ⟨.symbol .openParen, 0, .code false⟩) := by
  obtain ⟨inner, tail, hinner, htail⟩ :
      ∃ inner tail, cs.takeWhile (· ≠ ')') = inner ∧ cs.dropWhile (· ≠ ')') = tail := ⟨_, _, rfl, rfl⟩
  have hcs : cs = inner ++ tail := by rw [← hinner, ← htail, List.takeWhile_append_dropWhile]
  have hslice : sliceFrom 1 ('(' :: cs) = .ok cs := sliceFrom_take ('(' :: cs) 1
  have htype : sliceTo (byteSize inner) cs = .ok inner := by
    have htake := sliceTo_take cs inner.length
    rwa [hcs, List.take_left, ← hcs] at htake
  rw [paren, hslice]
  change (sliceTo (byteSize (cs.takeWhile (· ≠ ')'))) cs >>= _) = _
  rw [hinner, htype, cast?, hinner]
  cases hname : Cast.ofTypeName? (Text.trimBy isBlank inner) with
  | none =>
    rw [Option.map_none, ite_self]
    simp only [bind, Except.bind, hname]
    rfl
  | some type =>
    simp only [bind, Except.bind, hname]
    cases tail with
    | nil =>
      rw [List.append_nil] at hcs
      subst hcs
      simp only [lt_irrefl, if_false]
      rfl
    | cons d more =>
      have hd : d = ')' := by
        by_contra hne
        have hfirst := List.head?_dropWhile_not (· ≠ ')') cs
        rw [htail] at hfirst
        simp [hne] at hfirst
      subst hd
      have hsize : byteSize inner < byteSize cs := by
        rw [hcs, byteSize_append, byteSize_cons, utf8Size_ascii (by decide)]
        omega
      have hlength : inner.length < cs.length := by
        rw [hcs, List.length_append, List.length_cons]
        omega
      have htake : byteSize ('(' :: cs.take (inner.length + 1)) = byteSize inner + 2 := by
        rw [hcs, List.take_length_add_append, byteSize_cons, byteSize_append, Nat.add_comm]
        rfl
      simp only [if_pos hsize, if_pos hlength, Option.map_some, token, outcome, sized]
      rw [htake]
      rfl

lemma word_eq (member : Bool) {c : Char} (cs : Text) (hc : isNameStart c = true) :
    word member (c :: cs) = outcome (sized c cs)
      (.ok ⟨(name member c cs).1, (name member c cs).2, .code (name member c cs).1.isMemberOperator⟩) := by
  obtain ⟨head, hhead⟩ : ∃ head, Text.run isNameChar cs = head := ⟨_, rfl⟩
  obtain ⟨segments, hsegments⟩ : ∃ segments, segmentsWidth (cs.drop head) = segments := ⟨_, rfl⟩
  have hle : segments ≤ (cs.drop head).length := hsegments ▸ segmentsWidth_le _
  have hrun : Text.run isNameChar (bytes (c :: cs)) = byteSize ((c :: cs).take (head + 1)) := by
    rw [uniform_isNameChar.run, ← hhead]
    simp [Text.run, isNameChar, hc]
  have hmore : segmentsWidth ((bytes (c :: cs)).drop (byteSize ((c :: cs).take (head + 1)))) =
      byteSize ((cs.drop head).take segments) := by
    rw [drop_bytes, List.drop_succ_cons, segmentsWidth_bytes, hsegments]
  have hsize : byteSize ((c :: cs).take (head + 1)) + byteSize ((cs.drop head).take segments) =
      byteSize (c :: cs.take (head + segments)) := by
    rw [List.take_succ_cons, byteSize_cons, byteSize_cons, byteSize_take_add, Nat.add_assoc]
  have htext : sliceTo (byteSize (c :: cs.take (head + segments))) (c :: cs) =
      .ok (c :: cs.take (head + segments)) := sliceTo_take (c :: cs) (head + segments + 1)
  have hfirst : segments ≠ 0 →
      (c :: cs.take (head + segments)).takeWhile (· ≠ '\\') = c :: cs.take head := by
    intro hne
    have hslash : (cs.drop head).head? = some '\\' := by
      by_contra hother
      exact hne (hsegments ▸ segmentsWidth_other hother)
    obtain ⟨more, hdrop⟩ := List.head?_eq_some_iff.1 hslash
    obtain ⟨n, rfl⟩ := Nat.exists_eq_succ_of_ne_zero hne
    have hplain : ∀ d ∈ c :: cs.take head, decide (d ≠ '\\') = true := by
      intro d hd
      rw [decide_eq_true_eq]
      rcases List.mem_cons.1 hd with rfl | hd
      · exact ne_of_class hc (by decide)
      · exact ne_of_class (mem_take_run (hhead ▸ hd)) (by decide)
    rw [List.take_add, ← List.cons_append, List.takeWhile_append_of_pos hplain, hdrop, List.take_succ_cons,
      List.takeWhile_cons_of_neg (by simp), List.append_nil]
  have hzero := byteSize_take_eq_zero hle
  simp only [word, hrun, hmore, hsize, htext, name, hhead, hsegments, outcome, sized]
  change token _ _ = _
  by_cases hnone : segments = 0
  · subst hnone
    simp only [List.take_zero, byteSize_nil, ne_eq, not_true_eq_false, if_false, Nat.add_zero]
    rfl
  · have hsome : byteSize ((cs.drop head).take segments) ≠ 0 := fun h => hnone (hzero.1 h)
    simp only [if_pos hnone, if_pos hsome, hfirst hnone]
    rfl

section

variable (rest : Text) (m : Nat)

lemma label_size : Text.run isNameChar ((bytes rest).drop (byteSize (rest.take m))) =
    byteSize ((rest.drop m).take (Text.run isNameChar (rest.drop m))) := by
  rw [drop_bytes, uniform_isNameChar.run]

lemma heredocLabel_eq (quotes : Nat) {after : Text}
    (h : sliceFrom (byteSize (rest.take (m + Text.run isNameChar (rest.drop m))) + quotes) rest = .ok after) :
    heredocLabel (byteSize (rest.take m)) quotes rest =
      .ok (.ok ⟨.startHeredoc, byteSize (rest.take (m + Text.run isNameChar (rest.drop m))) + quotes +
        lineBreakWidth after, .heredoc ((rest.drop m).take (Text.run isNameChar (rest.drop m)))⟩) := by
  rw [heredocLabel, label_size, sliceFrom_take]
  change (sliceTo _ (rest.drop m) >>= _) = _
  rw [sliceTo_take, ← byteSize_take_add]
  change (sliceFrom _ rest >>= _) = _
  rw [h, ← lineBreakWidth_bytes]
  rfl

lemma heredocLabel_plain :
    heredocLabel (byteSize (rest.take m)) 0 rest =
      .ok (.ok ⟨.startHeredoc, byteSize (rest.take (m + (Text.run isNameChar (rest.drop m) +
        lineBreakWidth ((rest.drop m).drop (Text.run isNameChar (rest.drop m)))))),
        .heredoc ((rest.drop m).takeWhile isNameChar)⟩) := by
  rw [heredocLabel_eq rest m 0 (sliceFrom_take rest _), Text.take_run, List.drop_drop, ← Nat.add_assoc,
    byteSize_take_add rest (m + _), byteSize_lineBreak]
  rfl

lemma heredocLabel_quoted {d : Char} {after : Text}
    (h : rest.drop (m + Text.run isNameChar (rest.drop m)) = d :: after) :
    heredocLabel (byteSize (rest.take m)) 1 rest =
      .ok (.ok ⟨.startHeredoc, byteSize (rest.take (m + (Text.run isNameChar (rest.drop m) + 1 +
        lineBreakWidth after))), .heredoc ((rest.drop m).takeWhile isNameChar)⟩) := by
  have hd : d.utf8Size = 1 := by
    have hstop := List.head?_dropWhile_not isNameChar (rest.drop m)
    rw [← Text.drop_run, List.drop_drop, h] at hstop
    apply utf8Size_ascii
    by_contra hhigh
    simp [isNameChar, isNameStart_high (Nat.le_of_not_lt hhigh)] at hstop
  have hquote : byteSize (rest.take (m + Text.run isNameChar (rest.drop m))) + 1 =
      byteSize (rest.take (m + Text.run isNameChar (rest.drop m) + 1)) := by
    rw [byteSize_take_add rest _ 1, h, List.take_succ_cons, byteSize_cons, hd]
    rfl
  have hafter : rest.drop (m + Text.run isNameChar (rest.drop m) + 1) = after := by
    rw [← List.drop_drop, h]
    rfl
  have hslice := sliceFrom_take rest (m + Text.run isNameChar (rest.drop m) + 1)
  rw [← hquote, hafter] at hslice
  rw [heredocLabel_eq rest m 1 hslice, Text.take_run, hquote, ← Nat.add_assoc, ← Nat.add_assoc,
    byteSize_take_add rest (m + _ + 1), hafter, byteSize_lineBreak]

lemma heredocLabel_past (h : rest.drop (m + Text.run isNameChar (rest.drop m)) = []) :
    heredocLabel (byteSize (rest.take m)) 1 rest = .error .slice := by
  have hall : rest.take (m + Text.run isNameChar (rest.drop m)) = rest :=
    List.take_of_length_le (List.drop_eq_nil_iff.1 h)
  have hpast : sliceFrom (byteSize rest + 1) rest = .error .slice := by
    rw [sliceFrom, dropBytes?_past (Nat.lt_succ_self _)]
    rfl
  rw [heredocLabel, label_size, sliceFrom_take]
  change (sliceTo _ (rest.drop m) >>= _) = _
  rw [sliceTo_take, ← byteSize_take_add, hall]
  change (sliceFrom _ rest >>= _) = _
  rw [hpast]
  rfl

end

lemma heredocStart_eq (cs : Text) :
    heredocStart ('<' :: '<' :: '<' :: cs) = outcome (sized '<' ('<' :: '<' :: cs))
      (match Lexer.heredocStart cs with
        | .ok (width, label) => .ok ⟨.startHeredoc, 2 + width, .heredoc label⟩
        | .error fault => .error fault) := by
  obtain ⟨rest, hrest⟩ : ∃ rest, '<' :: '<' :: '<' :: cs = rest := ⟨_, rfl⟩
  obtain ⟨blanks, hblanks⟩ : ∃ blanks, Text.run isBlank cs = blanks := ⟨_, rfl⟩
  have hbytes : (bytes rest).drop 3 = bytes cs := by
    rw [← hrest, bytes_ascii (by decide), bytes_ascii (by decide), bytes_ascii (by decide)]
    rfl
  have hstart : 3 + Text.run isBlank ((bytes rest).drop 3) = byteSize (rest.take (3 + blanks)) := by
    rw [hbytes, uniform_isBlank.run, hblanks, byteSize_take_add, ← hrest]
    rfl
  have hdrop : rest.drop (3 + blanks) = cs.drop blanks := by
    rw [← List.drop_drop, ← hrest]
    rfl
  have hsize : ∀ n, byteSize ('<' :: List.take (2 + n) ('<' :: '<' :: cs)) = byteSize (rest.take (3 + n)) := by
    intro n
    rw [← List.take_succ_cons, hrest, Nat.add_right_comm]
  rw [hrest, heredocStart]
  simp only [hstart, drop_bytes, hdrop]
  rw [Lexer.heredocStart]
  simp only [hblanks]
  cases hafter : cs.drop blanks with
  | nil =>
    rw [if_neg (by simp), heredocLabel_plain, hdrop, hafter, outcome, sized, hsize]
    rfl
  | cons quote labelled =>
    have hquote : (bytes (quote :: labelled)).head? = some '\'' ∨
        (bytes (quote :: labelled)).head? = some '"' ↔ quote = '\'' ∨ quote = '"' := by
      rw [head?_bytes (by decide), head?_bytes (by decide), List.head?_cons, Option.some.injEq,
        Option.some.injEq]
    by_cases hq : quote = '\'' ∨ quote = '"'
    · have hascii : quote.utf8Size = 1 := by rcases hq with rfl | rfl <;> rfl
      have hlabel : byteSize (rest.take (3 + blanks)) + 1 = byteSize (rest.take (3 + blanks + 1)) := by
        rw [byteSize_take_add rest _ 1, hdrop, hafter, List.take_succ_cons, byteSize_cons, hascii]
        rfl
      have hlabelled : rest.drop (3 + blanks + 1) = labelled := by
        rw [← List.drop_drop, hdrop, hafter]
        rfl
      rw [if_pos (hquote.2 hq), hlabel]
      simp only [if_pos hq]
      cases hend : labelled.drop (labelled.takeWhile isNameChar).length with
      | nil =>
        rw [heredocLabel_past]
        · rfl
        · rw [← List.drop_drop, hlabelled]
          exact hend
      | cons d after =>
        have hstop : rest.drop (3 + blanks + 1 + Text.run isNameChar (rest.drop (3 + blanks + 1))) =
            d :: after := by
          rw [← List.drop_drop, hlabelled]
          exact hend
        rw [heredocLabel_quoted rest _ hstop, hlabelled, outcome, sized, hsize, Text.run]
        congr 5
        omega
    · rw [if_neg (fun h => hq (hquote.1 h)), heredocLabel_plain, hdrop, hafter]
      simp only [if_neg hq, outcome, sized, hsize]
      rw [Text.run, Nat.add_assoc, Nat.add_assoc]

lemma quoted_eq {quote : Char} (hq : quote.toNat < 128) (cs : Text) (kind : Kind) :
    (match quotedWidth? quote (bytes cs) with
      | some size => token kind (1 + size)
      | none => .ok (.error .unterminatedString)) = outcome (sized quote cs)
      (match quotedWidth? quote cs with
        | some width => .ok ⟨kind, width, .code kind.isMemberOperator⟩
        | none => .error .unterminatedString) := by
  rw [quotedWidth?_bytes hq]
  cases quotedWidth? quote cs with
  | none => rfl
  | some width => exact token_eq hq kind width

lemma number_pos {c : Char} {cs : Text} (h : c.isDigit = true ∨ (c = '.' ∧ cs.head?.any Char.isDigit = true)) :
    0 < (number (c :: cs)).2 := by
  have hdecimal : 0 < (decimal (c :: cs)).2 := by
    simp only [decimal]
    rcases h with hd | ⟨rfl, hd⟩
    · have hrun : 0 < Text.run isDecimal (c :: cs) := by simp [Text.run, isDecimal, hd]
      omega
    · have hrun : Text.run isDecimal ('.' :: cs) = 0 := rfl
      have hdot : ¬ (cs.head? = some '.' ∨ cs.head? = some '=') := by
        rintro (hn | hn) <;> rw [hn] at hd <;> cases hd
      rw [hrun, List.drop_zero, fractionWidth_dot, if_neg hdot]
      omega
  by_cases hc : c = '0'
  · subst hc
    cases cs with
    | nil => exact hdecimal
    | cons d cs =>
      rw [number_base]
      split
      · exact Nat.lt_of_lt_of_le Nat.zero_lt_two (Nat.le_add_right 2 _)
      · exact hdecimal
  · rwa [number_decimal hc]

lemma number_eq {c : Char} (hc : c.toNat < 128) (cs : Text)
    (h : c.isDigit = true ∨ (c = '.' ∧ cs.head?.any Char.isDigit = true)) :
    token (number (c :: bytes cs)).1 (number (c :: bytes cs)).2 = outcome (sized c cs)
      (.ok ⟨(number (c :: cs)).1, (number (c :: cs)).2 - 1, .code (number (c :: cs)).1.isMemberOperator⟩) := by
  rw [number_bytes hc, token, outcome, sized, ← List.take_cons (number_pos h)]

lemma qualified_eq (cs : Text) :
    token .fullyQualifiedName (1 + Text.run isNameChar (bytes cs) +
      segmentsWidth ((bytes cs).drop (Text.run isNameChar (bytes cs)))) = outcome (sized '\\' cs)
      (.ok ⟨.fullyQualifiedName, Text.run isNameChar cs + segmentsWidth (cs.drop (Text.run isNameChar cs)),
        .code false⟩) := by
  rw [uniform_isNameChar.run, drop_bytes, segmentsWidth_bytes, Nat.add_assoc, ← byteSize_take_add]
  exact token_eq (by decide) _ _

lemma code_eq (member : Bool) (c : Char) (cs : Text) :
    code member (c :: cs) = outcome (sized c cs) (codeLexeme member c cs) := by
  obtain ⟨b, bs, hb⟩ := List.exists_cons_of_ne_nil (mt bytes_eq_nil.1 (List.cons_ne_nil c cs))
  have hnext : ∀ {x y : Char}, x.toNat < 128 → y.toNat < 128 →
      ((b = x ∧ bs.head? = some y) ↔ (c = x ∧ cs.head? = some y)) := fun hx hy =>
    first_and (p := fun bs => bs.head? = some _) hb hx (head?_bytes hy cs)
  have hclass : ∀ {x : Char} {q : Char → Bool}, x.toNat < 128 → Uniform q →
      ((b = x ∧ bs.head?.any q = true) ↔ (c = x ∧ cs.head?.any q = true)) := fun hx hq =>
    first_and (p := fun bs => bs.head?.any _ = true) hb hx (by rw [hq.head?])
  have hspace : isWhitespace b = true ↔ isWhitespace c = true := by
    rw [first_class hb uniform_isWhitespace]
  have hangle : (b = '<' ∧ "<<".toList.isPrefixOf bs = true) ↔ (c = '<' ∧ "<<".toList.isPrefixOf cs = true) :=
    first_and (p := fun bs => "<<".toList.isPrefixOf bs = true) hb (by decide)
      (by rw [isPrefixOf_bytes _ (by decide)])
  have hdigit : b.isDigit = true ↔ c.isDigit = true := by rw [first_class hb uniform_isDigit]
  have hname : isNameStart b = true ↔ isNameStart c = true := by
    rw [first_class hb uniform_isNameStart]
  rw [code, hb]
  unfold codeLexeme
  extract_lets token' next
  refine outcome_ite hspace (fun h => ?_) fun _ => ?_
  · rw [(rest_eq hb (isWhitespace_ascii h)).2, uniform_isWhitespace.run, outcome, sized,
      size_eq (isWhitespace_ascii h)]
  refine outcome_ite (hnext (by decide) (by decide)) (fun h => ?_) fun _ => ?_
  · obtain ⟨rfl, hn⟩ := h
    obtain ⟨more, rfl⟩ := List.head?_eq_some_iff.1 hn
    rfl
  refine outcome_ite (or_congr (first_eq hb (by decide)) (hnext (by decide) (by decide))) (fun h => ?_)
    fun _ => ?_
  · exact lineComment_eq (h.imp_right And.left)
  refine outcome_ite (hnext (by decide) (by decide)) (fun h => ?_) fun _ => ?_
  · obtain ⟨rfl, hn⟩ := h
    obtain ⟨more, rfl⟩ := List.head?_eq_some_iff.1 hn
    exact blockComment_eq member more
  refine outcome_ite (hclass (by decide) uniform_isNameStart) (fun h => ?_) fun _ => ?_
  · obtain ⟨rfl, -⟩ := h
    rw [(rest_eq hb (by decide)).2, uniform_isNameChar.run]
    exact token_eq (by decide) _ _
  refine outcome_ite (first_eq hb (by decide)) (fun h => ?_) fun _ => ?_
  · subst h
    obtain ⟨rfl, rfl⟩ := rest_eq hb (by decide)
    exact quoted_eq (by decide) cs .string
  refine outcome_ite (first_eq hb (by decide)) (fun h => ?_) fun _ => ?_
  · subst h
    obtain ⟨rfl, rfl⟩ := rest_eq hb (by decide)
    rw [interpolates_bytes]
    exact quoted_eq (by decide) cs _
  refine outcome_ite (first_eq hb (by decide)) (fun h => ?_) fun _ => ?_
  · subst h
    rfl
  refine outcome_ite (hnext (by decide) (by decide)) (fun h => ?_) fun _ => ?_
  · obtain ⟨rfl, hn⟩ := h
    obtain ⟨more, rfl⟩ := List.head?_eq_some_iff.1 hn
    exact closeTag_eq more
  refine outcome_ite hangle (fun h => ?_) fun _ => ?_
  · obtain ⟨rfl, hn⟩ := h
    obtain ⟨more, rfl⟩ := List.isPrefixOf_iff_prefix.1 hn
    exact heredocStart_eq more
  refine outcome_ite (first_eq hb (by decide)) (fun h => ?_) fun _ => ?_
  · subst h
    exact paren_eq cs
  refine outcome_ite (or_congr hdigit (hclass (by decide) uniform_isDigit)) (fun h => ?_) fun _ => ?_
  · have hascii : c.toNat < 128 := by
      rcases h with hd | ⟨rfl, -⟩
      · have := toNat_of_isDigit hd
        omega
      · decide
    obtain ⟨rfl, rfl⟩ := rest_eq hb hascii
    exact number_eq hascii cs h
  refine outcome_ite (hclass (by decide) uniform_isNameStart) (fun h => ?_) fun _ => ?_
  · obtain ⟨rfl, -⟩ := h
    rw [(rest_eq hb (by decide)).2]
    exact qualified_eq cs
  refine outcome_ite hname (fun h => ?_) fun _ => ?_
  · exact word_eq member cs h
  · exact sign_eq c cs

lemma read_eq (mode : Mode) (c : Char) (cs : Text) :
    read mode (c :: cs) = outcome (sized c cs) (lexeme mode c cs) := by
  cases mode with
  | markup => exact markup_eq c cs
  | code member => exact code_eq member c cs
  | heredoc label => exact heredoc_eq label c cs

lemma tokensFrom_error {mode : Mode} {c : Char} {cs : Text} {fault : Fault}
    (h : lexeme mode c cs = .error fault) :
    tokensFrom mode (c :: cs) = outcome id (.error fault : Except Fault (List Token)) := by
  rw [tokensFrom, if_neg (List.cons_ne_nil c cs), read_eq, h]
  cases fault <;> rfl

lemma tokensFrom_step {mode : Mode} {c : Char} {cs : Text} {l : Lexeme} (h : lexeme mode c cs = .ok l) :
    tokensFrom mode (c :: cs) =
      (tokensFrom l.next (cs.drop l.width)).map (Except.map (⟨l.kind, c :: cs.take l.width⟩ :: ·)) := by
  have hless : (cs.drop l.width).length < (c :: cs).length := by
    rw [List.length_drop, List.length_cons]
    omega
  have htake : takeBytes? (byteSize (c :: cs.take l.width)) (c :: cs) = some (c :: cs.take l.width) :=
    takeBytes?_take (c :: cs) (l.width + 1)
  have hdrop : dropBytes? (byteSize (c :: cs.take l.width)) (c :: cs) = some (cs.drop l.width) :=
    dropBytes?_take (c :: cs) (l.width + 1)
  rw [tokensFrom, if_neg (List.cons_ne_nil c cs), read_eq, h]
  simp only [outcome, sized, htake, hdrop]
  rw [if_pos hless]

theorem tokensFrom_eq (mode : Mode) (source : Text) :
    tokensFrom mode source = outcome id (Lexer.tokensFrom mode source) := by
  induction hlength : source.length using Nat.strongRecOn generalizing mode source with
  | ind length ih =>
    cases source with
    | nil => rw [tokensFrom, Lexer.tokensFrom, if_pos rfl, outcome, id]
    | cons c cs =>
      cases hl : lexeme mode c cs with
      | error fault =>
        rw [tokensFrom_error hl, Lexer.tokensFrom, hl]
      | ok l =>
        have hless : (cs.drop l.width).length < length := by
          rw [← hlength, List.length_drop, List.length_cons]
          omega
        rw [tokensFrom_step hl, ih _ hless l.next _ rfl, (Scans.step hl .done).tokensFrom_eq]
        cases Lexer.tokensFrom l.next (cs.drop l.width) with
        | error fault => cases fault <;> rfl
        | ok tokens => rfl

/-- Reading ends in tokens that spell the source, in one of two faults, or in the one crash, which is
that of a heredoc label in quotes at the end of the source. The cursor slices nothing else apart. -/
theorem tokenize_lossless_total (source : Text) :
    ((∃ tokens, tokenize source = .ok tokens ∧ tokensFrom .markup source = .ok (.ok tokens) ∧
        (∀ t ∈ tokens, t.text ≠ []) ∧ tokens.flatMap Token.text = source) ∨
      (tokenize source = .error .unterminatedString ∧
        tokensFrom .markup source = .ok (.error .unterminatedString)) ∨
      (∃ c, IsControl c ∧ tokenize source = .error (.unexpectedCharacter c) ∧
        tokensFrom .markup source = .ok (.error (.unexpectedCharacter c))) ∨
      (tokenize source = .error .truncatedHeredoc ∧ tokensFrom .markup source = .error .slice)) ∧
    (tokensFrom .markup source = .error .slice ↔
      ∃ ts member rest, Scans .markup source ts (.code member) rest ∧ OpenLabel rest) := by
  have hcursor : tokensFrom .markup source = outcome id (tokenize source) := tokensFrom_eq .markup source
  have hcrash : tokensFrom .markup source = .error .slice ↔ tokenize source = .error .truncatedHeredoc := by
    rw [hcursor]
    constructor
    · intro h
      cases hr : tokenize source with
      | ok tokens =>
        rw [hr] at h
        cases h
      | error fault =>
        rw [hr] at h
        cases fault <;> first | rfl | cases h
    · intro h
      rw [h]
      rfl
  refine ⟨?_, hcrash.trans tokensFrom_truncated⟩
  cases hr : tokenize source with
  | ok tokens =>
    rw [hr] at hcursor
    obtain ⟨stop, hs⟩ := scans_of_tokensFrom hr
    refine Or.inl ⟨tokens, rfl, hcursor, hs.text_ne_nil, ?_⟩
    rw [← List.append_nil (tokens.flatMap Token.text), ← hs.text]
  | error fault =>
    rw [hr] at hcursor
    obtain ⟨ts, mid, c, cs, hs, hl⟩ := exists_fault hr
    obtain ⟨member, rfl, hstop⟩ := lexeme_stops hl
    cases hstop with
    | string => exact Or.inr (Or.inl ⟨rfl, hcursor⟩)
    | control hc => exact Or.inr (Or.inr (Or.inl ⟨c, hc, rfl, hcursor⟩))
    | label => exact Or.inr (Or.inr (Or.inr ⟨rfl, hcursor⟩))

end Stencil.Code.Lexer.Cursor

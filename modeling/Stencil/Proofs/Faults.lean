import Stencil.Proofs.Readers

namespace Stencil.Code.Lexer

open Text

/-- A heredoc whose label opens with a quote and runs to the end. -/
def OpenLabel (cs : Text) : Prop :=
  ∃ blanks quote label, cs = '<' :: '<' :: '<' :: (blanks ++ quote :: label) ∧
    (∀ c ∈ blanks, isBlank c = true) ∧ (quote = '\'' ∨ quote = '"') ∧ ∀ c ∈ label, isNameChar c = true

def IsControl (c : Char) : Prop :=
  (c.toNat < 32 ∨ c.toNat = 127) ∧ c ≠ '\t' ∧ c ≠ '\n' ∧ c ≠ '\r'

inductive Stops (c : Char) (cs : Text) : Fault → Prop
  | string : (c = '\'' ∨ c = '"') → quotedWidth? c cs = none → Stops c cs .unterminatedString
  | control : IsControl c → Stops c cs (.unexpectedCharacter c)
  | label : OpenLabel (c :: cs) → Stops c cs .truncatedHeredoc

lemma exists_fault {mode : Mode} {source : Text} {fault : Fault}
    (h : tokensFrom mode source = .error fault) :
    ∃ ts mid c cs, Scans mode source ts mid (c :: cs) ∧ lexeme mid c cs = .error fault := by
  induction hlength : source.length using Nat.strongRecOn generalizing mode source with
  | ind length ih =>
    cases source with
    | nil =>
      rw [tokensFrom] at h
      cases h
    | cons c cs =>
      cases hl : lexeme mode c cs with
      | error other =>
        rw [tokensFrom, hl] at h
        cases h
        exact ⟨[], mode, c, cs, .done, hl⟩
      | ok l =>
        rw [(Scans.step hl .done).tokensFrom_eq] at h
        have hless : (cs.drop l.width).length < length := by
          rw [← hlength, List.length_drop, List.length_cons]
          omega
        cases hr : tokensFrom l.next (cs.drop l.width) with
        | ok tokens =>
          rw [hr] at h
          cases h
        | error other =>
          rw [hr] at h
          cases h
          obtain ⟨ts, mid, d, ds, hs, hd⟩ := ih _ hless hr rfl
          exact ⟨_ :: ts, mid, d, ds, .step hl hs, hd⟩

lemma heredocStart_error {cs : Text} {fault : Fault} (h : heredocStart cs = .error fault) :
    fault = .truncatedHeredoc ∧ OpenLabel ('<' :: '<' :: '<' :: cs) := by
  rw [heredocStart] at h
  have hcs : cs = cs.takeWhile isBlank ++ cs.drop (Text.run isBlank cs) := by
    rw [← Text.take_run, List.take_append_drop]
  dsimp only at h
  split at h
  · rename_i quote labelled hafter
    split at h
    · rename_i hquote
      split at h
      · rename_i hlabel
        have hall : labelled.takeWhile isNameChar = labelled := by
          rw [← Text.take_run]
          exact List.take_of_length_le (List.drop_eq_nil_iff.1 hlabel)
        cases h
        refine ⟨rfl, cs.takeWhile isBlank, quote, labelled, ?_, ?_, hquote, ?_⟩
        · rw [← hafter, ← hcs]
        · exact fun c hc => List.all_eq_true.1 List.all_takeWhile c hc
        · exact fun c hc => List.all_eq_true.1 List.all_takeWhile c (hall ▸ hc)
      · cases h
    · cases h
  · cases h

lemma heredocStart_truncated {blanks label : Text} {quote : Char} (hb : ∀ c ∈ blanks, isBlank c = true)
    (hq : quote = '\'' ∨ quote = '"') (hl : ∀ c ∈ label, isNameChar c = true) :
    heredocStart (blanks ++ quote :: label) = .error .truncatedHeredoc := by
  have hquote : isBlank quote = false := by rcases hq with rfl | rfl <;> rfl
  have hrun : Text.run isBlank (blanks ++ quote :: label) = blanks.length := by
    rw [Text.run, List.takeWhile_append_of_pos hb, List.takeWhile_cons_of_neg (by simp [hquote]),
      List.append_nil]
  rw [heredocStart]
  simp only [hrun, List.drop_left, if_pos hq, List.takeWhile_eq_self_iff.2 hl, List.drop_length]

lemma printable_known : ∀ n ∈ List.range' 33 94, isNameStart (Char.ofNat n) = true ∨
    (Char.ofNat n).isDigit = true ∨ Char.ofNat n ∈ ['#', '\'', '"', '\x60', '('] ∨
    [Char.ofNat n] ∈ Symbol.spellings.map Prod.fst := by
  decide +kernel

lemma isControl_of_unread {c : Char} {cs : Text} (hs : IsSign c cs) (h : Symbol.read? (c :: cs) = none) :
    IsControl c := by
  have hspace := hs.notSpace
  simp only [isWhitespace, Bool.or_eq_false_iff, beq_eq_false_iff_ne] at hspace
  obtain ⟨⟨⟨hblank, htab⟩, hfeed⟩, hreturn⟩ := hspace
  refine ⟨?_, htab, hfeed, hreturn⟩
  have hascii : c.toNat < 128 := by
    by_contra hhigh
    have hname := isNameStart_high (Nat.le_of_not_lt hhigh)
    rw [hs.notName] at hname
    cases hname
  have hne : c.toNat ≠ 32 := fun h32 => hblank (Char.toNat_inj.1 h32)
  by_contra hprintable
  rcases printable_known c.toNat (by rw [List.mem_range']; exact ⟨c.toNat - 33, by omega, by omega⟩)
    with hname | hdigit | hmark | hspelled
  all_goals rw [Char.ofNat_toNat] at *
  · rw [hs.notName] at hname
    cases hname
  · exact hs.notNumber (Or.inl hdigit)
  · have := hs.notHash
    have := hs.notQuote
    have := hs.notParen
    simp_all
  · obtain ⟨entry, hm, hc⟩ := List.mem_map.1 hspelled
    have hunread := List.find?_eq_none.1 h entry hm
    rw [hc] at hunread
    simp at hunread

lemma codeLexeme_stops {member : Bool} {c : Char} {cs : Text} {fault : Fault}
    (h : codeLexeme member c cs = .error fault) : Stops c cs fault := by
  have hresult := codeLexeme_result member c cs
  rw [h] at hresult
  cases hresult with
  | string hquote hopen => exact .string hquote hopen
  | heredoc hc hangle hstart =>
    subst hc
    obtain ⟨more, rfl⟩ := List.isPrefixOf_iff_prefix.1 hangle
    obtain ⟨rfl, hlabel⟩ := heredocStart_error hstart
    exact .label hlabel
  | unread hsign hread => exact .control (isControl_of_unread hsign hread)

lemma lexeme_stops {mode : Mode} {c : Char} {cs : Text} {fault : Fault}
    (h : lexeme mode c cs = .error fault) : ∃ member, mode = .code member ∧ Stops c cs fault := by
  cases mode with
  | markup =>
    rw [lexeme] at h
    split at h <;> cases h
  | code member => exact ⟨member, rfl, codeLexeme_stops h⟩
  | heredoc label =>
    rw [lexeme] at h
    split at h <;> cases h

lemma OpenLabel.lexeme_eq {c : Char} {cs : Text} (h : OpenLabel (c :: cs)) (member : Bool) :
    lexeme (.code member) c cs = .error .truncatedHeredoc := by
  obtain ⟨blanks, quote, label, hcs, hblanks, hquote, hlabel⟩ := h
  cases hcs
  have hstart := heredocStart_truncated hblanks hquote hlabel
  simp [lexeme, codeLexeme, isWhitespace, hstart]

lemma tokensFrom_truncated {mode : Mode} {source : Text} :
    tokensFrom mode source = .error .truncatedHeredoc ↔
      ∃ ts member rest, Scans mode source ts (.code member) rest ∧ OpenLabel rest := by
  constructor
  · intro h
    obtain ⟨ts, mid, c, cs, hs, hl⟩ := exists_fault h
    obtain ⟨member, rfl, hstop⟩ := lexeme_stops hl
    cases hstop with
    | label hlabel => exact ⟨ts, member, c :: cs, hs, hlabel⟩
  · rintro ⟨ts, member, rest, hs, hlabel⟩
    obtain ⟨c, cs, rfl⟩ : ∃ c cs, rest = c :: cs := by
      obtain ⟨blanks, quote, label, rfl, -⟩ := hlabel
      exact ⟨_, _, rfl⟩
    rw [hs.tokensFrom_eq, tokensFrom, hlabel.lexeme_eq]
    rfl

lemma Scans.text_ne_nil {mode stop : Mode} {source rest : Text} {ts : List Token}
    (h : Scans mode source ts stop rest) : ∀ t ∈ ts, t.text ≠ [] := by
  induction h with
  | done => simp
  | step _ _ ih => exact List.forall_mem_cons.2 ⟨List.cons_ne_nil _ _, ih⟩

end Stencil.Code.Lexer

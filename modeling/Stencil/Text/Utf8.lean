import Stencil.Text

namespace Stencil.Text

/-- What a first byte announces: its own bits, the number of bytes that follow, and the range of the
next one. -/
structure Lead where
  bits : Nat
  following : Nat
  low : Nat
  high : Nat
  deriving DecidableEq, Repr

def lead? (b : Nat) : Option Lead :=
  if b < 0x80 then some ⟨b, 0, 0x80, 0xbf⟩
  else if b < 0xc2 then none
  else if b < 0xe0 then some ⟨b - 0xc0, 1, 0x80, 0xbf⟩
  else if b < 0xf0 then
    some ⟨b - 0xe0, 2, if b = 0xe0 then 0xa0 else 0x80, if b = 0xed then 0x9f else 0xbf⟩
  else if b < 0xf5 then
    some ⟨b - 0xf0, 3, if b = 0xf0 then 0x90 else 0x80, if b = 0xf4 then 0x8f else 0xbf⟩
  else none

def following (code : Nat) : (count low high : Nat) → List UInt8 → Option Nat × Nat
  | 0, _, _, _ => (some code, 0)
  | _ + 1, _, _, [] => (none, 0)
  | count + 1, low, high, b :: rest =>
    if low ≤ b.toNat ∧ b.toNat ≤ high then
      let (found, used) := following (code * 64 + (b.toNat - 0x80)) count 0x80 0xbf rest
      (found, used + 1)
    else (none, 0)

def ofBytesLossy (bytes : List UInt8) : Text :=
  match bytes with
  | [] => []
  | b :: rest =>
    match lead? b.toNat with
    | none => '\ufffd' :: ofBytesLossy rest
    | some l =>
      let (found, used) := following l.bits l.following l.low l.high rest
      (found.elim '\ufffd' Char.ofNat) :: ofBytesLossy (rest.drop used)
termination_by bytes.length

end Stencil.Text

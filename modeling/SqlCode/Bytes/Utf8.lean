/-!
# UTF-8

The bytes of a text, and the text of any bytes: each maximal run of bytes that starts a
character without completing it, and each byte that starts none, reads as U+FFFD.
-/

namespace SqlCode

namespace Utf8

def encode (s : String) : List UInt8 := s.toList.flatMap String.utf8EncodeChar

/-- A character whose first bytes have been read: `owed` bytes are missing, the next of them in
`low … high`, and `bits` holds the bits so far. -/
structure Pending where
  owed : Nat
  low : Nat
  high : Nat
  bits : Nat

/-- The character that stands for malformed bytes. -/
def replacement : Char := Char.ofNat 0xfffd

/-- Reads a byte as the first one of a character. -/
def start (b : Nat) : Except Char Pending :=
  if b < 0x80 then .error (Char.ofNat b)
  else if 0xc2 ≤ b ∧ b ≤ 0xdf then .ok ⟨1, 0x80, 0xbf, b % 32⟩
  else if b = 0xe0 then .ok ⟨2, 0xa0, 0xbf, 0⟩
  else if b = 0xed then .ok ⟨2, 0x80, 0x9f, 13⟩
  else if 0xe1 ≤ b ∧ b ≤ 0xef then .ok ⟨2, 0x80, 0xbf, b % 16⟩
  else if b = 0xf0 then .ok ⟨3, 0x90, 0xbf, 0⟩
  else if 0xf1 ≤ b ∧ b ≤ 0xf3 then .ok ⟨3, 0x80, 0xbf, b % 8⟩
  else if b = 0xf4 then .ok ⟨3, 0x80, 0x8f, 4⟩
  else .error replacement

/-- Decodes bytes after the bytes of a pending character, if there is one. -/
def decodeFrom (pending : Option Pending) : List UInt8 → List Char
  | [] => if pending.isSome then [replacement] else []
  | b :: bs =>
    let fresh (_ : Unit) : List Char :=
      match start b.toNat with
      | .error c => c :: decodeFrom none bs
      | .ok p => decodeFrom (some p) bs
    match pending with
    | none => fresh ()
    | some p =>
      if p.low ≤ b.toNat ∧ b.toNat ≤ p.high then
        let bits := p.bits * 64 + b.toNat % 64
        if p.owed = 1 then Char.ofNat bits :: decodeFrom none bs
        else decodeFrom (some ⟨p.owed - 1, 0x80, 0xbf, bits⟩) bs
      else replacement :: fresh ()

def decode (bs : List UInt8) : String := String.ofList (decodeFrom none bs)

end Utf8

end SqlCode

import SqlCode.Number.Word

/-!
# Bitwise operations

Conjunction, disjunction and exclusive disjunction of the bits of words and of bytes.
-/

namespace SqlCode

inductive BitOp
  | and
  | or
  | xor
deriving DecidableEq, Repr

namespace BitOp

def onWords : BitOp → Int64 → Int64 → Int64
  | .and => Word.bitAnd
  | .or => Word.bitOr
  | .xor => Word.bitXor

def onBytes : BitOp → UInt8 → UInt8 → UInt8
  | .and => (· &&& ·)
  | .or => (· ||| ·)
  | .xor => (· ^^^ ·)

def routine : BitOp → String
  | .and => "bitAnd"
  | .or => "bitOr"
  | .xor => "bitXor"

end BitOp

end SqlCode

import SqlCode.Number.Double

/-!
# Random numbers

A stream of words in which each state is mixed into the next word, and numbers drawn from it.
-/

namespace SqlCode

/-- The state of a stream. -/
structure Random where
  state : UInt64 := 0
deriving DecidableEq, Repr

namespace Random

def ofSeed (seed : Int64) : Random := ⟨seed.toUInt64⟩

def next (r : Random) : UInt64 × Random :=
  let s := r.state + 0x9e3779b97f4a7c15
  let z := (s ^^^ (s >>> 30)) * 0xbf58476d1ce4e5b9
  let z := (z ^^^ (z >>> 27)) * 0x94d049bb133111eb
  (z ^^^ (z >>> 31), ⟨s⟩)

/-- A double from zero up to but excluding one. -/
def unit (r : Random) : Float × Random :=
  let (w, r) := r.next
  (Double.nearest false (w >>> 11).toNat (pow2 53), r)

/-- An integer from zero up to but excluding a positive bound. -/
def below (r : Random) (bound : Int) : Int × Random :=
  let (w, r) := r.next
  ((w.toNat : Int) % bound, r)

end Random

end SqlCode

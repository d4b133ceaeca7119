import SqlCode.Routine.Cast
import SqlCode.Routine.Collections
import SqlCode.Routine.Comparison
import SqlCode.Routine.Documents
import SqlCode.Routine.Math
import SqlCode.Routine.Patterns
import SqlCode.Routine.Strings

/-!
# The routine library

All routines and mutators that code refers to by name.
-/

namespace SqlCode

def Routine.library : List (String × Routine) :=
  comparisons ++ strings ++ patterns ++ mathematics ++ temporals ++ collections ++ documents ++ casts

def Routine.find? (name : String) : Option Routine := library.lookup name

def Mutator.library : List (String × Mutator) := collections ++ documents

def Mutator.find? (name : String) : Option Mutator := library.lookup name

end SqlCode

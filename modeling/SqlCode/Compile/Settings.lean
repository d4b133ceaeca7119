/-!
# Settings

The choices that compilation leaves open.
-/

namespace SqlCode

/-- Which plain aggregates may run over a window. -/
inductive WindowReuse
  /-- Those that are listed as reusable. -/
  | allowList
  | never
deriving DecidableEq, Repr

/-- The choices that compilation leaves open. -/
structure Settings where
  /-- TRIM strips any of several characters. -/
  extendedTrim : Bool := false
  /-- What LISTAGG puts between values if the call does not say. -/
  separator : String := ","
  windowReuse : WindowReuse := .allowList
deriving DecidableEq, Repr

/-- The settings that accept the most. -/
def Settings.lenient : Settings := { extendedTrim := true }

/-- The settings without reuse of plain aggregates over windows. -/
def Settings.strictWindows : Settings := { windowReuse := .never }

end SqlCode

import SqlCode.Value.Basic

/-!
# Stores

The variables of a machine, as a list of bindings. Binding a name again replaces its value.
-/

namespace SqlCode

/-- Names with what they are bound to. -/
abbrev Bindings (α : Type) := List (String × α)

namespace Bindings

def get? {α : Type} : Bindings α → String → Option α
  | [], _ => none
  | e :: es, name => if e.1 == name then some e.2 else get? es name

/-- Binds a name, in place of its binding if it has one. -/
def set {α : Type} : Bindings α → String → α → Bindings α
  | [], name, a => [(name, a)]
  | e :: es, name, a => if e.1 == name then (name, a) :: es else e :: set es name a

theorem get?_set_self {α : Type} (b : Bindings α) (name : String) (a : α) :
    (b.set name a).get? name = some a := by
  induction b with
  | nil => simp [set, get?]
  | cons e es ih =>
    by_cases h : e.1 = name
    · simp [set, get?, h]
    · simpa [set, get?, h] using ih

theorem get?_set_of_ne {α : Type} (b : Bindings α) {name other : String} (a : α)
    (h : other ≠ name) : (b.set name a).get? other = b.get? other := by
  induction b with
  | nil => simp [set, get?, h.symm]
  | cons e es ih =>
    by_cases he : e.1 = name
    · simp [set, get?, he, h.symm]
    · by_cases ho : e.1 = other
      · simp [set, get?, ho, h]
      · simpa [set, get?, he, ho] using ih

theorem set_set {α : Type} (b : Bindings α) (name : String) (a a' : α) :
    (b.set name a).set name a' = b.set name a' := by
  induction b with
  | nil => simp [set]
  | cons e es ih =>
    by_cases h : e.1 = name
    · simp [set, h]
    · simpa [set, h] using ih

end Bindings

end SqlCode

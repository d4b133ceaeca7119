import SqlCode.SqlType.Name

/-!
# SQL types

A type has a name, may admit null, and for structured types has component types: the elements of
arrays and multisets, the keys and values of maps, the fields of rows.
-/

namespace SqlCode

/-- A SQL type. `component` is the element type of a collection and the value type of a map. -/
structure SqlType where
  name : TypeName
  nullable : Bool := false
  component : Option SqlType := none
  key : Option SqlType := none
  fields : List SqlType := []

namespace SqlType

def plain (name : TypeName) (nullable : Bool) : SqlType := { name, nullable }

def array (component : SqlType) : SqlType := { name := .array, component := some component }

def multiset (component : SqlType) : SqlType := { name := .multiset, component := some component }

def map (key value : SqlType) : SqlType :=
  { name := .map, key := some key, component := some value }

def row (fields : List SqlType) : SqlType := { name := .row, fields }

def withNullable (t : SqlType) (nullable : Bool) : SqlType := { t with nullable }

mutual

/-- Equality of types, decided along their structure. -/
def same : SqlType → SqlType → Bool
  | ⟨n, b, c, k, fs⟩, ⟨n', b', c', k', fs'⟩ =>
    n == n' && b == b' && sameOption c c' && sameOption k k' && sameFields fs fs'
termination_by structural t => t

@[inherit_doc same]
def sameOption : Option SqlType → Option SqlType → Bool
  | none, none => true
  | some t, some u => same t u
  | _, _ => false
termination_by structural t => t

@[inherit_doc same]
def sameFields : List SqlType → List SqlType → Bool
  | [], [] => true
  | t :: ts, u :: us => same t u && sameFields ts us
  | _, _ => false
termination_by structural t => t

end

instance : BEq SqlType := ⟨same⟩

/-- The types differ at most in whether they admit null themselves. -/
def sameUpToNull (t u : SqlType) : Bool :=
  t.name == u.name && sameOption t.component u.component && sameOption t.key u.key &&
    sameFields t.fields u.fields

mutual

theorem eq_of_same : ∀ {t u : SqlType}, same t u = true → t = u
  | ⟨_, _, c, k, fs⟩, ⟨_, _, c', k', fs'⟩, h => by
    simp only [same, Bool.and_eq_true, beq_iff_eq] at h
    obtain ⟨⟨⟨⟨rfl, rfl⟩, hc⟩, hk⟩, hf⟩ := h
    rw [eq_of_sameOption hc, eq_of_sameOption hk, eq_of_sameFields hf]

theorem eq_of_sameOption : ∀ {t u : Option SqlType}, sameOption t u = true → t = u
  | none, none, _ => rfl
  | some t, some u, h => by rw [eq_of_same (t := t) (u := u) h]
  | none, some _, h => by simp [sameOption] at h
  | some _, none, h => by simp [sameOption] at h

theorem eq_of_sameFields : ∀ {ts us : List SqlType}, sameFields ts us = true → ts = us
  | [], [], _ => rfl
  | t :: ts, u :: us, h => by
    simp only [sameFields, Bool.and_eq_true] at h
    rw [eq_of_same h.1, eq_of_sameFields h.2]
  | [], _ :: _, h => by simp [sameFields] at h
  | _ :: _, [], h => by simp [sameFields] at h

end

mutual

theorem same_refl : ∀ t : SqlType, same t t = true
  | ⟨_, _, c, k, fs⟩ => by
    simp [same, sameOption_refl c, sameOption_refl k, sameFields_refl fs]

theorem sameOption_refl : ∀ t : Option SqlType, sameOption t t = true
  | none => rfl
  | some t => same_refl t

theorem sameFields_refl : ∀ ts : List SqlType, sameFields ts ts = true
  | [] => rfl
  | t :: ts => by simp [sameFields, same_refl t, sameFields_refl ts]

end

instance : LawfulBEq SqlType where
  eq_of_beq := eq_of_same
  rfl := same_refl _

instance : DecidableEq SqlType := fun t u =>
  if h : same t u then isTrue (eq_of_same h)
  else isFalse fun e => h (e ▸ same_refl t)

end SqlType

end SqlCode

import SqlCode.Proofs.NumberCalls

/-!
# Terms that give numbers

Calls on two numbers are composed to terms, whose leaves are inputs and literals. A term counts what a function of the
row says if its code gives that number from every row that is good for it.

* `Builtin.gives_onNumbers`: a call whose code computes a number from two numbers;
* `Term.Leaf`: inputs and literals;
* `Term.Counts`: terms that give a number, with `Term.Leaf.counts` and `Term.Counts.call`;
* `Term.Counts.program_run`: the program of such a term.
-/

namespace SqlCode

open Run SqlCode.Expr

/-! ### Values -/

namespace Value

/-- The number that a value is. -/
def number : Value → ℤ
  | .int x => x.toInt
  | _ => 0

theorem fits_number (v : Value) : Word.Fits v.number := by
  cases v with
  | int x => exact Word.fits_toInt x
  | _ => exact (by decide : Word.Fits 0)

/-- A function of two numbers. -/
def onNumbers (f : ℤ → ℤ → ℤ) : List Value → Value
  | [.int x, .int y] => .int (Int64.ofInt (f x.toInt y.toInt))
  | _ => .null

theorem onNumbers_null {f : ℤ → ℤ → ℤ} {vs : List Value} (h : .null ∈ vs) : onNumbers f vs = .null := by
  unfold onNumbers
  split
  · simp at h
  · rfl

/-- The values are two numbers of which the condition holds. -/
def AreNumbers (good : ℤ → ℤ → Prop) (vs : List Value) : Prop :=
  ∃ x y : Int64, vs = [.int x, .int y] ∧ good x.toInt y.toInt

section AreNumbers

variable {good : ℤ → ℤ → Prop} {u v : Value}

theorem areNumbers_pair {x y : Int64} (hu : u = .int x) (hv : v = .int y) (h : good x.toInt y.toInt) :
    AreNumbers good [u, v] :=
  ⟨x, y, by rw [hu, hv], h⟩

theorem AreNumbers.left (h : AreNumbers good [u, v]) : ∃ x : Int64, u = .int x := by
  obtain ⟨x, y, ⟨⟩, -⟩ := h
  exact ⟨x, rfl⟩

theorem AreNumbers.right (h : AreNumbers good [u, v]) : ∃ y : Int64, v = .int y := by
  obtain ⟨x, y, ⟨⟩, -⟩ := h
  exact ⟨y, rfl⟩

theorem AreNumbers.null_notMem {vs : List Value} (h : AreNumbers good vs) : .null ∉ vs := by
  obtain ⟨x, y, rfl, -⟩ := h
  simp

theorem AreNumbers.number (h : AreNumbers good [u, v]) : good u.number v.number := by
  obtain ⟨x, y, ⟨⟩, h⟩ := h
  exact h

end AreNumbers

end Value

/-! ### Calls -/

/-- A call whose code computes a number from two numbers. -/
theorem Builtin.gives_onNumbers {f : Builtin} (hf : f.IsStrict) {left right result : TypeName} {w₁ w₂ w₃ : IntegerType}
    (hleft : w₁.Represents left) (hright : w₂.Represents right) (hresult : w₃.Represents result) {n n' b : Bool}
    {routines : List String} {code : Expr → Expr → Expr} {g : ℤ → ℤ → ℤ} {good : List Value → Prop}
    (hnull : ∀ {vs}, good vs → .null ∈ vs → n ∨ n' → b)
    (hcode : ∀ {site : CallSite} {d e : Expr}, site.op = .builtin f → site.type.name = result →
      site.operands.map (·.type) = [.plain left n, .plain right n'] → f.lowering.compute site [d, e] = pure (code d e))
    (hholds : ∀ x y, w₃.Holds (g x y))
    (hnumber : ∀ {m d e} {x y : Int64}, m.Unregistered routines → d.Number w₁ m x.toInt → e.Number w₂ m y.toInt →
      good [.int x, .int y] → (code d e).Number w₃ m (g x.toInt y.toInt)) :
    f.Gives [.plain left n, .plain right n'] (.plain result b) routines good (Value.onNumbers g) := by
  have hfits : ∀ x y, (Value.int (Int64.ofInt (g x y))).Fits (SqlType.plain result b).rep := by
    intro x y
    rw [hresult b]
    exact IntegerType.fits_type (hholds x y).fits_prim b
  refine gives_strict hf.toFramed (hresult b ▸ w₃.plain_defaultOf b) (fun _ => hf.emit _ _) ?_ ?_ ?_
  · intro vs hvs hgood
    obtain - | ⟨hx, - | ⟨hy, - | -⟩⟩ := hvs
    obtain ⟨rfl, hn⟩ | ⟨x, rfl, -⟩ := hleft.cases hx
    · rw [Value.onNumbers_null (by simp)]
      exact fits_null (hnull hgood (by simp) (.inl hn))
    · obtain ⟨rfl, hn⟩ | ⟨y, rfl, -⟩ := hright.cases hy
      · exact fits_null (hnull hgood (by simp) (.inr hn))
      · exact hfits _ _
  · exact fun _ h => Value.onNumbers_null h
  · intro site args hcalls
    have hargs := hcalls.args
    obtain - | ⟨hx, - | ⟨hy, - | -⟩⟩ := hargs
    rename_i d e
    refine ⟨code d.value.unbox e.value.unbox, ?_, fun {m vs} hm hvs hgood hnot => ?_⟩
    · rw [hf.harmonizes]
      exact hcode hcalls.op (congrArg SqlType.name hcalls.type) hcalls.operands
    · obtain - | ⟨hd, - | ⟨he, - | -⟩⟩ := hvs
      obtain ⟨x, rfl, hd'⟩ := hd.number hx hleft fun h => hnot (by simp [h])
      obtain ⟨y, rfl, he'⟩ := he.number hy hright fun h => hnot (by simp [h])
      exact (hnumber hm hd' he' hgood).carries.evalsTo_mkConvert (hfits _ _)

/-! ### Terms -/

namespace Term

open Value

/-- The term is an input or a literal that is not null. It has the type, and the function is its value in a row. -/
inductive Leaf (fields : List (String × SqlType)) : Term → SqlType → (List Value → Value) → Prop
  | input {i : ℕ} {name : String} {type : SqlType} (hi : fields[i]? = some (name, type)) :
    Leaf fields (.input i type) type fun row => row.getD i .null
  | literal {v : Value} {type : SqlType} (hv : v.Fits type.rep) (hne : v ≠ .null) :
    Leaf fields (.literal v type) type fun _ => v

/-- The term has the type, and from the good rows its code gives a number. -/
structure Counts (fields : List (String × SqlType)) (good : List Value → Prop) (type : SqlType)
    (count : List Value → ℤ) (t : Term) : Prop where
  type_eq : t.type = type
  gives : t.Gives fields [] good fun row => .int (Int64.ofInt (count row))
  fits : ∀ {row}, good row → Word.Fits (count row)

variable {fields : List (String × SqlType)} {good : List Value → Prop} {t d e : Term} {type left right : SqlType}
  {value value' : List Value → Value} {count count' : List Value → ℤ}

theorem Leaf.counts (h : t.Leaf fields type value) (good : List Value → Prop)
    (hgood : ∀ {row}, good row → ∃ x : Int64, value row = .int x) :
    t.Counts fields good type fun row => (value row).number := by
  have hgives : t.Gives fields [] good value := by
    cases h with
    | input hi => exact gives_input hi
    | literal hv hne => exact gives_literal hv
  refine ⟨by cases h <;> rfl, hgives.congr fun {row} hrow => ?_, fun _ => Value.fits_number _⟩
  obtain ⟨x, hx⟩ := hgood hrow
  rw [hx]
  exact congrArg Value.int (Int64.ofInt_toInt x).symm

/-- A leaf of a type that is represented by integers is a number of the type, unless it is null. -/
theorem Leaf.holds {name : TypeName} {n : Bool} (h : t.Leaf fields (.plain name n) value) {w : IntegerType}
    (hw : w.Represents name) {row : List Value} (hrow : IsRow fields row) {x : Int64} (hx : value row = .int x) :
    w.Holds x.toInt := by
  have hfits : (value row).Fits (SqlType.plain name n).rep := by
    cases h with
    | input hi => exact (hrow.getD hi).fits
    | literal hv hne => exact hv
  rw [hx] at hfits
  obtain ⟨⟨⟩, -⟩ | ⟨_, ⟨⟩, hholds⟩ := hw.cases hfits
  exact hholds

theorem Counts.call {f : Builtin} {g : ℤ → ℤ → ℤ} {good' : ℤ → ℤ → Prop}
    (hf : f.Gives [left, right] type [] (AreNumbers good') (onNumbers g)) (hfits : ∀ x y, Word.Fits (g x y))
    (hd : d.Counts fields good left count) (he : e.Counts fields good right count')
    (hgood : ∀ {row}, good row → good' (count row) (count' row)) :
    (Term.call (.builtin f) type [d, e]).Counts fields good type fun row => g (count row) (count' row) := by
  refine ⟨rfl, ?_, fun _ => hfits _ _⟩
  have htypes : [d, e].map Term.type = [left, right] := by rw [List.map_cons, hd.type_eq, List.map_singleton, he.type_eq]
  refine (gives_call (htypes ▸ hf) (.cons hd.gives (.cons he.gives .nil)) fun row hrow => ?_).congr fun {row} hrow => ?_
  · refine ⟨_, _, rfl, ?_⟩
    rw [Word.toInt_ofInt (hd.fits hrow), Word.toInt_ofInt (he.fits hrow)]
    exact hgood hrow
  · show Value.int (Int64.ofInt (g (Int64.ofInt (count row)).toInt (Int64.ofInt (count' row)).toInt)) = _
    rw [Word.toInt_ofInt (hd.fits hrow), Word.toInt_ofInt (he.fits hrow)]

theorem Counts.program_run (h : t.Counts fields good type count) (settings : Settings) (defs : List Term) :
    ∃ p, t.program settings defs fields = .ok p ∧
      ∀ {row m}, IsRow fields row → good row → ((p.run row).result m).1 = .ok (.int (Int64.ofInt (count row))) := by
  obtain ⟨p, hp, hrun⟩ := h.gives.program_run_of_good settings defs
  exact ⟨p, hp, fun hrow hgood => hrun hrow hgood (by simp [Machine.Unregistered])⟩

end Term

end SqlCode

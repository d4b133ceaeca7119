import SqlCode.Proofs.IntegerArithmetic

/-!
# Calls on whole numbers

Dates, times, timestamps and intervals are whole numbers. The functions of one of them take it alone or with a unit,
and their code computes with the number that the operand carries.

* `Expr.Number`: an expression that carries a whole number, and what the building blocks of code do to it;
* `UnitPlace`: where the unit stands;
* `Builtin.Codes`: what the code of a call on a number yields;
* `Builtin.Codes.program_run`: what the program of the call yields.
-/

namespace SqlCode

open Run SqlCode.Expr IntegerType

variable {p : UnitPlace} {v : Value} {n : Bool} {m : Machine}

/-! ### Whole numbers in code -/

theorem mod_ne_zero_iff (a b : Int64) : a % b ≠ 0 ↔ ¬ b.toInt ∣ a.toInt := by
  rw [Int.dvd_iff_tmod_eq_zero, ← Int64.toInt_mod, not_iff_not, ← Int64.toInt_inj]
  rfl

/-- The correction of the quotient makes it the one that is rounded down. -/
theorem floorDiv_eq (a : Int64) {b : Int64} (hb : b ≠ 0) :
    floorDiv a b = checked "floorDiv" (a.toInt.fdiv b.toInt) := by
  have hb' : b.toInt ≠ 0 := fun h => hb (Int64.toInt_inj.1 h)
  have hneg : ∀ w : Int64, w < 0 ↔ w.toInt < 0 := fun w => Int64.lt_iff_toInt_lt
  rw [floorDiv, if_neg hb]
  by_cases hdvd : b.toInt ∣ a.toInt
  · have hzero : ¬ a % b ≠ 0 := by rwa [mod_ne_zero_iff, not_not]
    rw [Int.fdiv_eq_tdiv, if_pos hdvd, Int.sub_zero]
    cases checked "floorDiv" (a.toInt.tdiv b.toInt) with
    | error e => rfl
    | ok q => exact congrArg Except.ok (if_neg fun h => hzero h.1)
  · have hone : 2 ≤ b.toInt.natAbs := by
      by_contra hlt
      rcases (by omega : b.toInt = 1 ∨ b.toInt = -1) with h | h
      · exact hdvd (h ▸ one_dvd _)
      · exact hdvd (h ▸ Int.neg_dvd.2 (one_dvd _))
    have ha := Word.fits_iff.1 (Word.fits_toInt a)
    have hsmall : (a.toInt.tdiv b.toInt).natAbs ≤ a.toInt.natAbs / 2 := by
      rw [Int.natAbs_tdiv]
      exact Nat.div_le_div_left hone (by decide)
    have hq : Word.Fits (a.toInt.tdiv b.toInt) := Word.fits_iff.2 ⟨by omega, by omega⟩
    have hq' : Word.Fits (a.toInt.tdiv b.toInt - 1) := Word.fits_iff.2 ⟨by omega, by omega⟩
    have hcorrection : a.toInt.fdiv b.toInt = a.toInt.tdiv b.toInt -
        if decide (a < 0) ≠ decide (b < 0) then 1 else 0 := by
      rw [Int.fdiv_eq_tdiv, if_neg hdvd]
      by_cases ha0 : a.toInt < 0 <;> rcases Int.lt_or_gt_of_ne hb' with hb0 | hb0
      all_goals simp [hneg, ha0, hb0, hb0.le, not_le.2, not_lt.1, not_lt.2 hb0.le, Int.sign_eq_one_of_pos,
        Int.sign_eq_neg_one_of_neg]
    rw [Value.checked_of_fits hq, hcorrection]
    show Except.ok (if _ then _ else _) = _
    by_cases hsigns : decide (a < 0) ≠ decide (b < 0)
    · rw [if_pos ⟨(mod_ne_zero_iff a b).2 hdvd, hsigns⟩, if_pos hsigns, Value.checked_of_fits hq',
        Int64.ofInt_sub]
      rfl
    · rw [if_neg fun h => hsigns h.2, if_neg hsigns, Int.sub_zero, Value.checked_of_fits hq]

/-- The remainder is that of the quotient that is rounded down. -/
theorem floorMod_eq (a b : Int64) :
    floorMod a b = (floorDiv a b).map fun _ => Word.wrap (a.toInt.fmod b.toInt) := by
  by_cases hb : b = 0
  · rw [floorMod, floorDiv, if_pos hb]
    rfl
  · rw [floorMod, floorDiv_eq a hb]
    unfold checked
    cases hq : Word.ofInt? (a.toInt.fdiv b.toInt) with
    | none => rfl
    | some q =>
      refine congrArg Except.ok ?_
      rw [Int.fmod_def, ← Word.ofInt?_eq_some_iff.1 hq, Word.wrap, Int64.ofInt_sub, Int64.ofInt_mul,
        Int64.ofInt_toInt, Int64.ofInt_toInt, Int64.ofInt_toInt, Int64.mul_comm]

theorem floorDiv_of_pos (a : Int64) {b : Int64} (hb : 0 < b.toInt) :
    Word.Fits (a.toInt / b.toInt) ∧ floorDiv a b = .ok (Int64.ofInt (a.toInt / b.toInt)) := by
  have hne : b ≠ 0 := by
    rintro rfl
    exact absurd hb (by decide)
  have hfits : Word.Fits (a.toInt / b.toInt) := by
    have hle := Int64.le_toInt a
    have hlt := Int64.toInt_lt a
    exact ⟨Int.le_ediv_of_mul_le hb (by unfold Word.least; nlinarith),
      Int.lt_add_one_iff.1 (Int.ediv_lt_of_lt_mul hb (by unfold Word.greatest; nlinarith))⟩
  refine ⟨hfits, ?_⟩
  rw [floorDiv_eq a hne, Int.fdiv_eq_ediv_of_nonneg _ hb.le, Value.checked_of_fits hfits]

theorem floorMod_of_pos (a : Int64) {b : Int64} (hb : 0 < b.toInt) :
    floorMod a b = .ok (Int64.ofInt (a.toInt % b.toInt)) := by
  rw [floorMod_eq, (floorDiv_of_pos a hb).2, Int.fmod_eq_emod_of_nonneg _ hb.le]
  rfl

theorem IntegerType.holds_big {n : ℤ} (h : Word.Fits n) : IntegerType.big.Holds n :=
  ⟨h.1, Int.lt_add_one_of_le h.2⟩

theorem IntegerType.Holds.fits_prim {w : IntegerType} {n : ℤ} (h : w.Holds n) :
    (Value.int (Int64.ofInt n)).Fits (.prim w.prim) :=
  fits_prim_iff.2 ⟨_, rfl, by rwa [Word.toInt_ofInt h.fits]⟩

namespace Expr

/-- The expression has the representation of the integer type and carries the number. -/
structure Number (w : IntegerType) (m : Machine) (n : ℤ) (e : Expr) : Prop where
  rep : e.rep = .prim w.prim
  holds : w.Holds n
  carries : e.Carries m (.int (Int64.ofInt n))

variable {e e' : Expr} {w : IntegerType} {n k : ℤ}

theorem number_of_carries {x : Int64} (hrep : e.rep = .prim w.prim) (h : e.Carries m (.int x)) (hx : w.Holds x.toInt) :
    e.Number w m x.toInt :=
  ⟨hrep, hx, by rwa [Int64.ofInt_toInt]⟩

theorem number_of_evalsTo (hrep : e.rep = .prim .i64) (hne : ∀ a r, e ≠ .convert a r) (hn : Word.Fits n)
    (h : e.EvalsTo m (.int (Int64.ofInt n))) : e.Number .big m n :=
  ⟨hrep, holds_big hn, .plain h (by rw [hrep]; exact fits_big _) hne⟩

theorem number_whole (hk : Word.Fits k) : (whole k).Number .big m k :=
  number_of_evalsTo rfl (by simp [whole, long]) hk rfl

namespace Number

theorem fits (h : e.Number w m n) : Word.Fits n := h.holds.fits

theorem toInt (h : e.Number w m n) : (Int64.ofInt n).toInt = n := Word.toInt_ofInt h.fits

theorem toLong (h : e.Number w m n) : e.toLong.Number .big m n :=
  ⟨rep_mkConvert _ _, holds_big h.fits, h.carries.mkConvert (fits_big _)⟩

theorem evalsTo_ofWords (h : e.Number w m n) (hk : Word.Fits k) {f : String} {g : Int64 → Int64 → Except Fault Int64}
    {q : ℤ} (hm : m.routines.get? f = none) (hs : ∀ vs, stateful? f vs = none)
    (hf : Routine.find? f = some (Routine.ofWords f g))
    (hq : g (Int64.ofInt n) (Int64.ofInt k) = .ok (Int64.ofInt q)) :
    (Expr.call f [e.toLong, .whole k] (.prim .i64)).EvalsTo m (.int (Int64.ofInt q)) := by
  refine evalsTo_call _ (.cons h.toLong.carries.evalsTo (.cons (number_whole hk).carries.evalsTo .nil)) ?_
  rw [Run.result_call_library hm (hs _) hf]
  show ((g (Int64.ofInt n) (Int64.ofInt k)).map Value.int, m) = _
  rw [hq]
  rfl

theorem floorDiv (h : e.Number w m n) (hm : m.routines.get? "floorDiv" = none) (hk : 0 < k) (hfits : Word.Fits k) :
    (e.floorDiv k).Number .big m (n / k) := by
  have hk' := Word.toInt_ofInt hfits
  obtain ⟨hquotient, hroutine⟩ := floorDiv_of_pos (Int64.ofInt n) (b := Int64.ofInt k) (by rwa [hk'])
  rw [h.toInt, hk'] at hquotient hroutine
  exact number_of_evalsTo rfl (by simp [Expr.floorDiv]) hquotient
    (h.evalsTo_ofWords hfits hm (fun _ => rfl) rfl hroutine)

theorem floorMod (h : e.Number w m n) (hm : m.routines.get? "floorMod" = none) (hk : 1 < k) (hfits : Word.Fits k) :
    (e.floorMod k).Number .big m (n % k) := by
  have hk' := Word.toInt_ofInt hfits
  have hcall : e.floorMod k = .call "floorMod" [e.toLong, .whole k] (.prim .i64) := if_neg hk.ne'
  have hroutine := floorMod_of_pos (Int64.ofInt n) (b := Int64.ofInt k) (by rw [hk']; omega)
  rw [h.toInt, hk'] at hroutine
  have hrest : Word.Fits (n % k) := by
    have := Int.emod_nonneg n (show k ≠ 0 by omega)
    have := Int.emod_lt_of_pos n (show 0 < k by omega)
    simp only [Word.fits_iff] at *
    omega
  rw [hcall]
  exact number_of_evalsTo rfl (by simp) hrest (h.evalsTo_ofWords hfits hm (fun _ => rfl) rfl hroutine)

/-- Arithmetic with a 64-bit number is done in 64 bits. -/
theorem arithmetic (h : e.Number w m n) (h' : e'.Number .big m k) {o : Arithmetic} {r : ℤ}
    (hr : o.ideal? n k = some r) (hfits : Word.Fits r) : (mkBinary o.op e e').Number .big m r := by
  have hlogical : o.op.isLogical = false := by cases o <;> rfl
  have hcmp : o.op.isComparison = false := by cases o <;> rfl
  have hnode : mkBinary o.op e e' = .binary o.op e e' (.prim .i64) := by
    rw [mkBinary_of_not_isLogical hlogical, hcmp, h.rep, h'.rep]
    cases w <;> rfl
  have happly : Value.applyBinary o.op (.int (Int64.ofInt n)) (.int (Int64.ofInt k)) (.prim .i64) =
      .ok (.int (Int64.ofInt r)) := by
    rw [Value.applyBinary, hcmp, if_neg Bool.false_ne_true, Arithmetic.arithmetic_eq, Arithmetic.wordArithmetic_eq,
      h.toInt, h'.toInt, hr]
    simp only [Value.checked_of_fits hfits]
    rfl
  rw [hnode]
  exact number_of_evalsTo rfl (by simp) hfits (evalsTo_binary hlogical h.carries.evalsTo h'.carries.evalsTo happly)

theorem divide (h : e.Number w m n) (hk : 0 < k) (hfits : Word.Fits k) :
    (mkBinary .divide e (.whole k)).Number .big m (n.tdiv k) := by
  have hquotient : Word.Fits (n.tdiv k) := by
    have hle := Int.natAbs_tdiv_le_natAbs n k
    have hn := h.fits
    have hsign : -(n.natAbs : ℤ) ≤ n.tdiv k ∧ n.tdiv k ≤ n.natAbs := by omega
    have hnonpos : n ≤ 0 → n.tdiv k ≤ 0 := by
      intro hle'
      have hneg := Int.tdiv_nonneg (neg_nonneg.2 hle') hk.le
      rw [Int.neg_tdiv] at hneg
      omega
    simp only [Word.fits_iff] at *
    omega
  exact h.arithmetic (o := .divide) (number_whole hfits) (if_neg hk.ne') hquotient

end Number

end Expr

/-! ### Operands -/

/-- Values of the type are represented by integers. -/
def IntegerType.Represents (w : IntegerType) (type : TypeName) : Prop :=
  ∀ n, (SqlType.plain type n).rep = (w.type n).rep

theorem IntegerType.Represents.cases {w : IntegerType} {type : TypeName} (hw : w.Represents type)
    (h : v.Fits (SqlType.plain type n).rep) : (v = .null ∧ n) ∨ ∃ x : Int64, v = .int x ∧ w.Holds x.toInt := by
  rw [hw] at h
  by_cases hne : v = .null
  · subst hne
    exact .inl ⟨rfl, nullable_of_fits_null h⟩
  · exact .inr (fits_prim_iff.1 (fits_of_bits_le h hne le_rfl))

/-- The integers that represent dates, times, timestamps and intervals. -/
def TypeName.word : TypeName → IntegerType
  | .date | .time | .intervalYear | .intervalYearMonth | .intervalMonth => .regular
  | _ => .big

theorem TypeName.represents_word {type : TypeName} (h : type.isDatetime ∨ type.isInterval) :
    type.word.Represents type := by
  intro n
  cases type <;> simp [isDatetime, isInterval, isYearMonthInterval, isDayTimeInterval] at h <;> cases n <;> rfl

namespace Flagged

variable {f : Flagged} {w : IntegerType} {type : TypeName}

theorem Shaped.rep_unbox_number (h : f.Shaped (.plain type n)) (hw : w.Represents type) :
    f.value.unbox.rep = .prim w.prim := by
  rw [Expr.rep_unbox, h.rep, hw, rep_type]
  cases n <;> rfl

theorem Represents.number (h : f.Represents m v) (hf : f.Shaped (.plain type n)) (hw : w.Represents type)
    (hne : v ≠ .null) : ∃ x : Int64, v = .int x ∧ f.value.unbox.Number w m x.toInt := by
  obtain ⟨rfl, -⟩ | ⟨x, rfl, hx⟩ := hw.cases (hf.rep ▸ h.fits)
  · exact absurd rfl hne
  · exact ⟨x, rfl, number_of_carries (hf.rep_unbox_number hw) ((h.carries hf.isAtom).unbox hne) hx⟩

end Flagged

/-- A function of numbers, applied to a value that is a number or null. -/
def Value.onNumber (g : ℤ → Value) : Value → Value
  | .int x => g x.toInt
  | _ => .null

/-- A unit stands before or after the number, or there is none. -/
inductive UnitPlace
  | none
  | before (span : TimeSpan)
  | after (span : TimeSpan)
deriving DecidableEq, Repr

namespace UnitPlace

/-- A number with the unit in its place. -/
def around {α : Type} (p : UnitPlace) (unit : TimeSpan → α) (number : α) : List α :=
  match p with
  | .none => [number]
  | .before span => [unit span, number]
  | .after span => [number, unit span]

section Around

variable {α β : Type} {R : α → β → Prop} {u : TimeSpan → α} {v : TimeSpan → β} {x : α} {y : β}

theorem map_around (p : UnitPlace) (f : α → β) (u : TimeSpan → α) (x : α) :
    (p.around u x).map f = p.around (f ∘ u) (f x) := by
  cases p <;> rfl

theorem forall₂_around (p : UnitPlace) (hu : ∀ span, R (u span) (v span)) (hx : R x y) :
    List.Forall₂ R (p.around u x) (p.around v y) := by
  cases p with
  | none => exact .cons hx .nil
  | before span => exact .cons (hu span) (.cons hx .nil)
  | after span => exact .cons hx (.cons (hu span) .nil)

theorem rel_of_forall₂_around (h : List.Forall₂ R (p.around u x) (p.around v y)) : R x y := by
  cases p <;> simp only [around, List.forall₂_cons] at h
  · exact h.1
  · exact h.2.1
  · exact h.1

end Around

/-- The operands of a call. -/
def terms (p : UnitPlace) (t : Term) : List Term := p.around (.symbol <| .timeUnit ·) t

/-- The types of the operands. -/
def types (p : UnitPlace) (type : SqlType) : List SqlType := p.around (fun _ => .plain .symbol false) type

/-- The code of the operands. -/
def exprs (p : UnitPlace) (e : Expr) : List Expr := p.around (fun span => .const (.symbol (.timeUnit span)) .symbol) e

/-- The values of the operands. -/
def values (p : UnitPlace) (v : Value) : List Value := p.around (.symbol <| .timeUnit ·) v

theorem map_type_terms (p : UnitPlace) (t : Term) : (p.terms t).map Term.type = p.types t.type := p.map_around _ _ _

/-- What a call yields from the values of its operands, by what it yields from the number. -/
def outcome (p : UnitPlace) (f : ℤ → Except Fault Value) (vs : List Value) : Except Fault Value :=
  match p, vs with
  | .none, [.int x] | .before _, [.symbol _, .int x] | .after _, [.int x, .symbol _] => f x.toInt
  | _, _ => .ok .null

variable {f : ℤ → Except Fault Value}

theorem outcome_values (p : UnitPlace) (f : ℤ → Except Fault Value) (x : Int64) :
    p.outcome f (p.values (.int x)) = f x.toInt := by
  cases p <;> rfl

theorem outcome_values_null (p : UnitPlace) (f : ℤ → Except Fault Value) :
    p.outcome f (p.values .null) = .ok .null := by
  cases p <;> rfl

theorem outcome_null {vs : List Value} (h : .null ∈ vs) : p.outcome f vs = .ok .null := by
  unfold outcome
  split
  · simp at h
  · simp at h
  · simp at h
  · rfl

theorem outcome_values_ok (p : UnitPlace) (g : ℤ → Value) (v : Value) :
    p.outcome (fun k => .ok (g k)) (p.values v) = .ok (v.onNumber g) := by
  cases p <;> cases v <;> rfl

theorem outcome_values_ne {fault : Fault} (hf : ∀ x, v = .int x → f x.toInt ≠ .error fault) :
    p.outcome f (p.values v) ≠ .error fault := by
  cases v with
  | int x =>
    rw [outcome_values]
    exact hf x rfl
  | _ => cases p <;> simp [outcome, values, around]

end UnitPlace

/-! ### Calls -/

/-- The outcome can be that of a call of the type: a value fits it, and a fault is not about a variable. -/
structure SqlType.Admits (type : SqlType) (o : Except Fault Value) : Prop where
  fits : ∀ v, o = .ok v → v.Fits type.rep
  bound : ∀ x, o ≠ .error (.unboundVariable x)

theorem SqlType.admits_ok {type : SqlType} (h : v.Fits type.rep) : type.Admits (.ok v) := by
  refine ⟨?_, by simp⟩
  rintro _ ⟨⟩
  exact h

theorem SqlType.admits_error (type : SqlType) {fault : Fault} (h : ∀ x, fault ≠ .unboundVariable x) :
    type.Admits (.error fault) :=
  ⟨by simp, by simpa using h⟩

namespace Builtin

open Emit Lowering

/-- Every null operand makes a call null, and the operands are not converted before. -/
structure IsStrict (b : Builtin) : Prop extends b.Framed .strict where
  emit : ∀ site args, b.lowering.emit site args = b.lowering.framed site args
  harmonizes : b.lowering.harmonizes = false

variable {b : Builtin} {source : TypeName} {w : IntegerType} {type : SqlType} {ready : Machine → Prop}
  {good : Context → ℤ → Prop} {outcome : Context → ℤ → Except Fault Value}

/-- The code of a call on a number of the type yields an outcome from the context and the number, if these are good
for it. -/
def Codes (b : Builtin) (p : UnitPlace) (source : TypeName) (w : IntegerType) (type : SqlType)
    (ready : Machine → Prop) (good : Context → ℤ → Prop) (outcome : Context → ℤ → Except Fault Value) : Prop :=
  ∀ ⦃site : CallSite⦄ ⦃e : Expr⦄ ⦃n : Bool⦄, site.op = .builtin b → site.type = type →
    site.operands.map (·.type) = p.types (.plain source n) → e.rep = .prim w.prim →
    ∃ raw, b.lowering.compute site (p.exprs e) = pure raw ∧ (∀ a r, raw ≠ .convert a r) ∧
      ∀ {m k}, ready m → good m.context k → e.Number w m k → raw.eval.result m = (outcome m.context k, m)

theorem exists_operands {t : Term} {site : CallSite} {args : List Flagged}
    (hcalls : site.Calls b (p.types (.plain source n)) type args) (hliterals : Term.Literals (p.terms t) args) :
    ∃ f : Flagged, f.Shaped (.plain source n) ∧ args.map (·.value.unbox) = p.exprs f.value.unbox ∧
      ∀ {m v}, List.Forall₂ (fun a v => a.Represents m v) args (p.values v) → f.Represents m v := by
  have hsymbol : ∀ {g : Flagged} {j : Nat} {span : TimeSpan}, args[j]? = some g →
      (p.terms t)[j]? = some (.symbol (.timeUnit span)) →
      g.value.unbox = .const (.symbol (.timeUnit span)) .symbol := by
    intro g j span hg hj
    have hfits : (Value.symbol (.timeUnit span)).Fits (SqlType.plain .symbol false).rep := rfl
    have hget := hliterals hj
    rw [Builtin.literal_of_fits hfits, hg] at hget
    cases hget
    rfl
  have hargs := hcalls.args
  cases p with
  | none =>
    obtain - | ⟨hf, - | -⟩ := hargs
    rename_i f
    refine ⟨f, hf, rfl, fun h => ?_⟩
    obtain - | ⟨hv, -⟩ := h
    exact hv
  | before span =>
    obtain - | ⟨-, - | ⟨hf, - | -⟩⟩ := hargs
    rename_i g f
    refine ⟨f, hf, ?_, fun h => ?_⟩
    · show [g.value.unbox, f.value.unbox] = _
      rw [hsymbol (j := 0) rfl rfl]
      rfl
    · obtain - | ⟨-, - | ⟨hv, -⟩⟩ := h
      exact hv
  | after span =>
    obtain - | ⟨hf, - | ⟨-, - | -⟩⟩ := hargs
    rename_i f g
    refine ⟨f, hf, ?_, fun h => ?_⟩
    · show [f.value.unbox, g.value.unbox] = _
      rw [hsymbol (j := 1) rfl rfl]
      rfl
    · obtain - | ⟨hv, -⟩ := h
      exact hv

section Operand

variable {t : Term} {fields : List (String × SqlType)} {routines : List String} {value : List Value → Value}

theorem fits_of_outcome (hw : w.Represents source) (ht : t.type = .plain source n)
    (hnull : n → type.nullable) {f : ℤ → Except Fault Value}
    (hadmits : ∀ x, v = .int x → type.Admits (f x.toInt)) {u : Value}
    (hts : List.Forall₂ (fun t v => v.Fits t.type.rep) (p.terms t) (p.values v))
    (hu : p.outcome f (p.values v) = .ok u) : u.Fits type.rep := by
  have hv : v.Fits t.type.rep :=
    UnitPlace.rel_of_forall₂_around (R := fun (t : Term) (v : Value) => v.Fits t.type.rep) hts
  rw [ht] at hv
  obtain ⟨rfl, hn⟩ | ⟨x, rfl, -⟩ := hw.cases hv
  · rw [UnitPlace.outcome_values_null] at hu
    cases hu
    exact fits_null (hnull hn)
  · rw [UnitPlace.outcome_values] at hu
    exact (hadmits x rfl).fits u hu

theorem forall₂_gives {good : List Value → Prop} (p : UnitPlace) (h : t.Gives fields routines good value) :
    List.Forall₂ (fun t value => t.Gives fields routines good value) (p.terms t)
      (p.around (fun span _ => Value.symbol (.timeUnit span)) value) :=
  p.forall₂_around (fun _ => Term.gives_literal rfl) h

theorem map_around_apply (p : UnitPlace) (value : List Value → Value) (row : List Value) :
    (p.around (fun span _ => Value.symbol (.timeUnit span)) value).map (· row) = p.values (value row) :=
  p.map_around (fun value : List Value → Value => value row) _ _

variable (h : b.Codes p source w type ready good outcome) (hb : b.IsStrict) (hw : w.Represents source)
  (hadmits : ∀ c k, good c k → type.Admits (outcome c k))
include h hb hw hadmits

theorem Codes.exists_raw (ht : t.type = .plain source n) {site : CallSite}
    {args : List Flagged} (hcalls : site.Calls b ((p.terms t).map Term.type) type args)
    (hliterals : Term.Literals (p.terms t) args) :
    ∃ raw, b.lowering.compute site (operandsFor .strict b.lowering.harmonizes site args) = pure raw ∧
      ∀ {m v}, ready m → List.Forall₂ (fun a v => a.Represents m v) args (p.values v) →
        (∀ x, v = .int x → good m.context x.toInt) → .null ∉ p.values v →
        (raw.mkConvert type.rep).eval.result m = (p.outcome (outcome m.context) (p.values v), m) := by
  rw [UnitPlace.map_type_terms, ht] at hcalls
  obtain ⟨f, hf, hargs, hrepresents⟩ := exists_operands hcalls hliterals
  obtain ⟨raw, hraw, hne, heval⟩ := h hcalls.op hcalls.type hcalls.operands (hf.rep_unbox_number hw)
  refine ⟨raw, ?_, fun {m v} hm hvs hgood hnot => ?_⟩
  · have hoperands : operandsFor .strict b.lowering.harmonizes site args = args.map (·.value.unbox) := by
      rw [hb.harmonizes]
      exact List.map_map
    rw [hoperands, hargs, hraw]
  · -- a unit is never null, so that no null among the values says that the operand is a number
    have hv : v ≠ .null := by
      rintro rfl
      exact hnot (by cases p <;> simp [UnitPlace.values, UnitPlace.around])
    obtain ⟨x, rfl, hx⟩ := (hrepresents hvs).number hf hw hv
    rw [UnitPlace.outcome_values]
    exact result_mkConvert hne (heval hm (hgood x rfl) hx) (hadmits _ _ (hgood x rfl)).fits

variable (hplain : (defaultOf type.rep).Plain) (hnull : n = true → type.nullable = true)
include hplain hnull

/-- A call whose code yields an outcome from a number yields null from null. -/
theorem Codes.yieldsIn (ht : t.type = .plain source n) :
    b.YieldsIn (p.terms t) type ready
      (fun c vs => ∃ v, vs = p.values v ∧ ∀ x, v = .int x → good c x.toInt) fun c => p.outcome (outcome c) := by
  refine yieldsIn_framed hb.toFramed hplain (fun _ => hb.emit _ _) ?_ ?_ ?_ ?_
  · rintro c vs u hts ⟨v, rfl, hgood⟩ hu
    exact fits_of_outcome hw ht hnull (fun x hx => hadmits c _ (hgood x hx)) hts hu
  · rintro c vs ⟨v, rfl, hgood⟩ x
    exact UnitPlace.outcome_values_ne fun y hy => (hadmits c _ (hgood y hy)).bound x
  · exact fun _ h => UnitPlace.outcome_null h
  · intro site args hcalls hliterals
    obtain ⟨raw, hraw, heval⟩ := h.exists_raw hb hw hadmits ht hcalls hliterals
    refine ⟨raw, hraw, ?_⟩
    rintro m vs hm hvs ⟨v, rfl, hgood⟩ hnot
    exact heval hm hvs hgood hnot

/-- The program of a call on an operand that gives a number or null. -/
theorem Codes.program_run_of_gives (hready : Machine.Lasting ready)
    (hlibrary : ∀ {m}, ready m → m.Unregistered routines) (ht : t.type = .plain source n)
    (hvalue : t.Gives fields routines (IsRow fields) value) (settings : Settings) (defs : List Term) :
    ∃ q, (Term.call (.builtin b) type (p.terms t)).program settings defs fields = .ok q ∧
      ∀ {row m}, IsRow fields row → ready m →
        (value row = .null → ((q.run row).result m).1 = .ok .null) ∧
        ∀ {x : Int64}, value row = .int x → good m.context x.toInt →
          ((q.run row).result m).1 = outcome m.context x.toInt := by
  obtain ⟨q, hq, hrun⟩ := (h.yieldsIn hb hw hadmits hplain hnull ht).program_run hready hlibrary IsRow.fits
    (forall₂_gives p hvalue) settings defs
  refine ⟨q, hq, fun {row m} hrow hm => ?_⟩
  have hresult : ∀ {v}, value row = v → (∀ x, v = .int x → good m.context x.toInt) →
      ((q.run row).result m).1 = p.outcome (outcome m.context) (p.values v) := by
    rintro _ rfl hgood
    rw [← map_around_apply]
    exact hrun hrow ⟨_, map_around_apply p value row, hgood⟩ hm
  refine ⟨fun hv => ?_, fun {x} hx hgood => ?_⟩
  · exact (hresult hv (by simp)).trans (p.outcome_values_null _)
  · refine (hresult hx ?_).trans (p.outcome_values _ x)
    rintro _ ⟨⟩
    exact hgood

theorem Codes.program_run (hready : Machine.Lasting ready) (settings : Settings) (defs : List Term)
    {i : Nat} {name : String} (hi : fields[i]? = some (name, .plain source n)) :
    ∃ q, (Term.call (.builtin b) type (p.terms (.input i (.plain source n)))).program settings defs fields =
        .ok q ∧
      ∀ {row m}, IsRow fields row → ready m →
        (row[i]? = some .null → ((q.run row).result m).1 = .ok .null) ∧
        ∀ {x : Int64}, row[i]? = some (.int x) → good m.context x.toInt →
          ((q.run row).result m).1 = outcome m.context x.toInt := by
  have hlibrary : ∀ {m}, ready m → m.Unregistered [] := fun _ _ hg => absurd hg (by simp)
  obtain ⟨q, hq, hrun⟩ := h.program_run_of_gives hb hw hadmits hplain hnull hready hlibrary rfl (Term.gives_input hi)
    settings defs
  refine ⟨q, hq, fun {row m} hrow hm => ?_⟩
  have hget : ∀ {v}, row[i]? = some v → row.getD i .null = v := by
    intro v hv
    rw [List.getD_eq_getElem?_getD, hv, Option.getD_some]
  obtain ⟨hnone, hsome⟩ := hrun hrow hm
  exact ⟨fun hv => hnone (hget hv), fun hx => hsome (hget hx)⟩

end Operand

theorem Codes.gives {t : Term} {fields : List (String × SqlType)} {routines : List String}
    {value : List Value → Value} {g : ℤ → Value} {good : List Value → Prop}
    (h : b.Codes p source w type (·.Unregistered routines) (fun _ _ => True) fun _ k => .ok (g k))
    (hb : b.IsStrict) (hw : w.Represents source) (hplain : (defaultOf type.rep).Plain)
    (hnull : n → type.nullable) (hg : ∀ k, (g k).Fits type.rep) (ht : t.type = .plain source n)
    (hvalue : t.Gives fields routines good value) :
    (Term.call (.builtin b) type (p.terms t)).Gives fields routines good fun row => (value row).onNumber g := by
  have hyields := h.yieldsIn hb hw (fun _ k _ => SqlType.admits_ok (hg k)) hplain hnull ht
  refine (Term.yieldsIn_call_of_gives (Machine.lasting_unregistered routines) id hyields (forall₂_gives p hvalue)
    fun {_ row} hrow => ⟨hrow, _, map_around_apply p value row, fun _ _ => trivial⟩).congr fun {_ row} _ => ?_
  rw [map_around_apply]
  exact p.outcome_values_ok g _

end Builtin

end SqlCode

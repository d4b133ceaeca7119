import SqlCode.Proofs.CompiledOutcomes

/-!
# Arithmetic on the integer types

Sums, differences, products and quotients of TINYINT, SMALLINT, INTEGER and BIGINT operands. The operands are
brought to the wider of their types, the machine computes in 32 or 64 bits, and the value is cut to the type of
the call. So below 64 bits the exact result is wrapped, and in 64 bits it is exact or a fault.
-/

namespace SqlCode

open Run SqlCode.Expr

variable {o : Arithmetic} {v v' : Value} {e e' : Expr} {n : Int} {r : Rep} {m : Machine}

/-! ### Types -/

/-- The integer types. -/
inductive IntegerType
  | tiny
  | small
  | regular
  | big
deriving DecidableEq, Repr

namespace IntegerType

/-- The name of the SQL type. -/
def name : IntegerType → TypeName
  | .tiny => .tinyInt
  | .small => .smallInt
  | .regular => .integer
  | .big => .bigInt

/-- The machine kind. -/
def prim : IntegerType → Prim
  | .tiny => .i8
  | .small => .i16
  | .regular => .i32
  | .big => .i64

/-- The width. -/
def bits : IntegerType → Nat
  | .tiny => 8
  | .small => 16
  | .regular => 32
  | .big => 64

/-- The SQL type, with or without null. -/
def type (w : IntegerType) (nullable : Bool) : SqlType := .plain w.name nullable

/-- The wider of two types. -/
def wider (w w' : IntegerType) : IntegerType := if w.bits ≤ w'.bits then w' else w

/-- The type that the machine computes in. -/
def computed : IntegerType → IntegerType
  | .big => .big
  | _ => .regular

/-- The number is one of the type. -/
def Holds (w : IntegerType) (n : Int) : Prop := -2 ^ (w.bits - 1) ≤ n ∧ n < 2 ^ (w.bits - 1)

instance (w : IntegerType) (n : Int) : Decidable (w.Holds n) := inferInstanceAs (Decidable (_ ∧ _))

theorem rep_type (w : IntegerType) (nullable : Bool) :
    (w.type nullable).rep = if nullable then .boxed w.prim else .prim w.prim := by
  cases w <;> rfl

theorem plain_defaultOf (w : IntegerType) (nullable : Bool) : (Expr.defaultOf (w.type nullable).rep).Plain := by
  rw [rep_type]
  cases w <;> cases nullable <;> exact Expr.plain_const rfl _

theorem unbox_rep_type (w : IntegerType) (nullable : Bool) : (w.type nullable).rep.unbox = .prim w.prim := by
  rw [rep_type]
  cases nullable <;> rfl

theorem wider_self (w : IntegerType) : w.wider w = w := ite_self w

theorem bits_le_wider (w w' : IntegerType) : w.bits ≤ (w.wider w').bits ∧ w'.bits ≤ (w.wider w').bits := by
  unfold wider
  split_ifs with h
  · exact ⟨h, le_rfl⟩
  · exact ⟨le_rfl, by omega⟩

theorem Holds.mono {w w' : IntegerType} (h : w.Holds n) (hw : w.bits ≤ w'.bits) : w'.Holds n := by
  have hpow : (2 : Int) ^ (w.bits - 1) ≤ 2 ^ (w'.bits - 1) :=
    pow_le_pow_right₀ (by norm_num) (Nat.sub_le_sub_right hw 1)
  exact ⟨by linarith [h.1], by linarith [h.2]⟩

theorem holds_iff {w : IntegerType} : w.Holds n ↔ n.bmod (2 ^ w.bits) = n := by
  have hpow : ((2 ^ w.bits : Nat) : Int) = 2 * 2 ^ (w.bits - 1) := by cases w <;> decide
  constructor
  · rintro ⟨hlo, hhi⟩
    exact Int.bmod_eq_of_le (by rw [hpow]; omega) (by rw [hpow]; omega)
  · intro h
    have hpos : 0 < 2 ^ w.bits := Nat.two_pow_pos _
    have hlo := Int.le_bmod (x := n) hpos
    have hhi := Int.bmod_lt (x := n) hpos
    rw [h, hpow] at hlo hhi
    exact ⟨by omega, by omega⟩

theorem Holds.fits {w : IntegerType} (h : w.Holds n) : Word.Fits n := by
  unfold Holds at h
  rw [Word.fits_iff]
  cases w <;> simp only [bits] at h <;> norm_num at h <;> omega

theorem holds_bmod (w : IntegerType) (n : Int) : w.Holds (n.bmod (2 ^ w.bits)) :=
  holds_iff.2 Int.bmod_bmod

/-- The value with the low bits of a number. -/
def wrapped (w : IntegerType) (n : Int) : Value := .int (Int64.ofInt (n.bmod (2 ^ w.bits)))

theorem toPrim_int (w : IntegerType) (n : Int64) : (Value.int n).toPrim w.prim = .ok (w.wrapped n.toInt) := by
  cases w with
  | big =>
    have hmod : n.toInt.bmod (2 ^ IntegerType.big.bits) = n.toInt :=
      holds_iff.1 ⟨Int64.le_toInt n, Int64.toInt_lt n⟩
    rw [wrapped, hmod, Int64.ofInt_toInt]
    rfl
  | _ => rfl

theorem fits_prim_iff {w : IntegerType} :
    v.Fits (.prim w.prim) ↔ ∃ n : Int64, v = .int n ∧ w.Holds n.toInt := by
  rw [Value.fits_prim_iff]
  constructor
  · intro h
    cases v with
    | int n =>
      rw [toPrim_int, wrapped, Except.ok.injEq, Value.int.injEq] at h
      refine ⟨n, rfl, ?_⟩
      rw [← h, Word.toInt_ofInt (w.holds_bmod _).fits]
      exact w.holds_bmod _
    | decimal d => cases w <;> simp only [prim, Value.toPrim] at h <;> split at h <;> simp at h
    | _ => cases w <;> simp [prim, Value.toPrim] at h
  · rintro ⟨n, rfl, hn⟩
    rw [toPrim_int, wrapped, holds_iff.1 hn, Int64.ofInt_toInt]

theorem fits_big (n : Int64) : (Value.int n).Fits (.prim big.prim) :=
  fits_prim_iff.2 ⟨n, rfl, Int64.le_toInt n, Int64.toInt_lt n⟩

theorem fits_wrapped (w : IntegerType) (n : Int) : (w.wrapped n).Fits (.prim w.prim) :=
  fits_prim_iff.2 ⟨_, rfl, by rw [Word.toInt_ofInt (w.holds_bmod n).fits]; exact w.holds_bmod n⟩

theorem fits_type {w : IntegerType} (h : v.Fits (.prim w.prim)) (nullable : Bool) :
    v.Fits (w.type nullable).rep := by
  rw [rep_type]
  cases nullable with
  | false => exact h
  | true => exact Value.fits_boxed_iff.2 (.inr h)

theorem nullable_of_fits_null {w : IntegerType} {nullable : Bool}
    (h : Value.null.Fits (w.type nullable).rep) : nullable := by
  cases nullable with
  | false =>
    rw [rep_type] at h
    exact absurd rfl (Value.ne_null_of_fits_prim h)
  | true => rfl

/-- Cutting a number to the width that the machine computes in, and then to that of the type. -/
theorem convert_wrapped {w : IntegerType} (hr : r.unbox = .prim w.prim) (n : Int) :
    (w.computed.wrapped n).convert r = .ok (w.wrapped n) := by
  have hconvert : ∀ u : Int64, (Value.int u).convert r = (Value.int u).toPrim w.prim := by
    intro u
    cases r <;> cases hr <;> rfl
  have hdvd : 2 ^ w.bits ∣ 2 ^ w.computed.bits := Nat.pow_dvd_pow 2 (by cases w <;> decide)
  rw [wrapped, hconvert, toPrim_int, Word.toInt_ofInt (w.computed.holds_bmod n).fits, wrapped,
    Int.bmod_bmod_of_dvd hdvd, wrapped]

theorem fits_of_bits_le {w w' : IntegerType} {nullable : Bool} (h : v.Fits (w.type nullable).rep)
    (hv : v ≠ .null) (hw : w.bits ≤ w'.bits) : v.Fits (.prim w'.prim) := by
  have hprim : v.Fits (.prim w.prim) := by
    rw [rep_type] at h
    cases nullable with
    | false => exact h
    | true => exact (Value.fits_boxed_iff.1 h).resolve_left hv
  obtain ⟨n, rfl, hn⟩ := fits_prim_iff.1 hprim
  exact fits_prim_iff.2 ⟨n, rfl, hn.mono hw⟩

end IntegerType

open IntegerType

/-! ### Operations -/

/-- Sums, differences, products and quotients. -/
inductive Arithmetic
  | plus
  | minus
  | multiply
  | divide
deriving DecidableEq, Repr

namespace Arithmetic

/-- The operator of terms. -/
def builtin : Arithmetic → Builtin
  | .plus => .plus
  | .minus => .minus
  | .multiply => .multiply
  | .divide => .divide

/-- The operator of the machine. -/
def op : Arithmetic → BinaryOp
  | .plus => .add
  | .minus => .subtract
  | .multiply => .multiply
  | .divide => .divide

/-- The exact result; quotients are cut toward zero, and a zero divisor has none. -/
def ideal? : Arithmetic → Int → Int → Option Int
  | .plus, a, b => some (a + b)
  | .minus, a, b => some (a - b)
  | .multiply, a, b => some (a * b)
  | .divide, a, b => if b = 0 then none else some (a.tdiv b)

/-- The exact result as a value of the type: wrapped below 64 bits; in 64 bits as it is, if it fits. -/
def store (o : Arithmetic) : IntegerType → Int → Except Fault Value
  | .big, n => if Word.Fits n then .ok (.int (Int64.ofInt n)) else .error (.overflow o.op.label)
  | w, n => .ok (w.wrapped n)

/-- What a call of the type gives on the values of its operands. -/
def outcome (o : Arithmetic) (w : IntegerType) : Value → Value → Except Fault Value
  | .int a, .int b =>
    match o.ideal? a.toInt b.toInt with
    | some n => o.store w n
    | none => .error .divisionByZero
  | _, _ => .ok .null

variable {w : IntegerType}

/-- Results on less than 64 bits fit into 64. -/
theorem fits_of_ideal? {a b : Int} (hw : w ≠ .big) (ha : w.Holds a) (hb : w.Holds b)
    (h : o.ideal? a b = some n) : Word.Fits n := by
  have hrange : ∀ {x : Int}, w.Holds x → -2147483648 ≤ x ∧ x ≤ 2147483647 := by
    intro x hx
    unfold IntegerType.Holds at hx
    cases w <;> simp only [IntegerType.bits] at hx <;> norm_num at hx
    case big => exact absurd rfl hw
    all_goals omega
  have ha' := hrange ha
  have hb' := hrange hb
  rw [Word.fits_iff]
  cases o with
  | plus | minus =>
    cases h
    omega
  | multiply =>
    cases h
    constructor <;> nlinarith
  | divide =>
    simp only [ideal?] at h
    split_ifs at h
    cases h
    have := Int.natAbs_tdiv_le_natAbs a b
    omega

theorem wordArithmetic_eq (o : Arithmetic) (a b : Int64) : Value.wordArithmetic o.op a b =
    match o.ideal? a.toInt b.toInt with
    | some n => checked o.op.label n
    | none => .error .divisionByZero := by
  cases o with
  | divide =>
    have hzero : b = 0 ↔ b.toInt = 0 := by rw [← Int64.toInt_inj]; rfl
    simp only [op, ideal?, Value.wordArithmetic, hzero]
    split_ifs <;> rfl
  | _ => rfl

theorem arithmetic_eq (o : Arithmetic) (a b : Int64) :
    Value.arithmetic o.op (.int a) (.int b) = (Value.wordArithmetic o.op a b).map .int := rfl

/-- Storing a result is checking it as a word and cutting the word. -/
theorem store_eq (h : w ≠ .big → Word.Fits n) :
    o.store w n = (checked o.op.label n).map fun u => w.wrapped u.toInt := by
  by_cases hn : Word.Fits n
  · rw [Value.checked_of_fits hn, Except.map, Word.toInt_ofInt hn]
    cases w with
    | big =>
      have hmod : n.bmod (2 ^ IntegerType.big.bits) = n :=
        holds_iff.1 ⟨hn.1, Int.lt_add_one_of_le hn.2⟩
      rw [store, if_pos hn, IntegerType.wrapped, hmod]
    | _ => rfl
  · have hw : w = .big := by
      by_contra hw
      exact hn (h hw)
    simp [hw, store, hn, checked, Word.ofInt?, Except.map]

theorem outcome_int {a b : Int64} (ha : w.Holds a.toInt) (hb : w.Holds b.toInt) {w' : IntegerType}
    (hw : w' ≠ .big → w ≠ .big) : o.outcome w' (.int a) (.int b) =
      (Value.wordArithmetic o.op a b).map fun u => w'.wrapped u.toInt := by
  rw [outcome, wordArithmetic_eq]
  cases hn : o.ideal? a.toInt b.toInt with
  | none => rfl
  | some n => exact store_eq fun hbig => fits_of_ideal? (hw hbig) ha hb hn

theorem outcome_null (h : v = .null ∨ v' = .null) : o.outcome w v v' = .ok .null := by
  rcases h with rfl | rfl
  · rfl
  · cases v <;> rfl

theorem outcome_ne_unbound {x : String} : o.outcome w v v' ≠ .error (.unboundVariable x) := by
  unfold outcome
  split
  · cases o.ideal? _ _ with
    | none => simp
    | some n =>
      cases w with
      | big => by_cases h : Word.Fits n <;> simp [store, h]
      | _ => simp [store]
  · simp

theorem fits_of_outcome {u : Value} (hv : v.Fits (.prim w.prim)) (hv' : v'.Fits (.prim w.prim))
    (h : o.outcome w v v' = .ok u) : u.Fits (.prim w.prim) := by
  obtain ⟨a, rfl, ha⟩ := fits_prim_iff.1 hv
  obtain ⟨b, rfl, hb⟩ := fits_prim_iff.1 hv'
  rw [outcome] at h
  cases hn : o.ideal? a.toInt b.toInt with
  | none =>
    rw [hn] at h
    cases h
  | some n =>
    rw [hn] at h
    cases w with
    | big =>
      simp only [store] at h
      split_ifs at h
      cases h
      exact fits_big _
    | _ =>
      cases h
      exact fits_wrapped _ n

/-- The machine computes in 32 or 64 bits, and cutting its value to the type gives the outcome. -/
theorem applyBinary_convert (hv : v.Fits (.prim w.prim))
    (hv' : v'.Fits (.prim w.prim)) (hr : r.unbox = .prim w.prim) :
    Value.applyBinary o.op v v' (.prim w.computed.prim) = o.outcome w.computed v v' ∧
      (o.outcome w.computed v v' >>= fun u => u.convert r) = o.outcome w v v' := by
  obtain ⟨a, rfl, ha⟩ := fits_prim_iff.1 hv
  obtain ⟨b, rfl, hb⟩ := fits_prim_iff.1 hv'
  have hbig : w.computed ≠ .big → w ≠ .big := by cases w <;> simp [IntegerType.computed]
  have hcmp : o.op.isComparison = false := by cases o <;> rfl
  rw [outcome_int ha hb hbig, outcome_int ha hb id]
  constructor
  · rw [Value.applyBinary, hcmp, if_neg Bool.false_ne_true, arithmetic_eq]
    cases Value.wordArithmetic o.op a b with
    | error e => rfl
    | ok u => exact w.computed.toPrim_int u
  · cases Value.wordArithmetic o.op a b with
    | error e => rfl
    | ok u => exact convert_wrapped hr u.toInt

/-- The operation of the machine, converted to a representation of the type, has the outcome. -/
theorem result_mkConvert_mkBinary
    (hr : r.unbox = .prim w.prim) (hrep : e.rep = .prim w.prim) (hrep' : e'.rep = .prim w.prim)
    (hv : v.Fits (.prim w.prim)) (hv' : v'.Fits (.prim w.prim)) (he : e.EvalsTo m v) (he' : e'.EvalsTo m v') :
    ((Expr.mkBinary o.op e e').mkConvert r).eval.result m = (o.outcome w v v', m) := by
  have hlogical : o.op.isLogical = false := by cases o <;> rfl
  have hnode : Expr.mkBinary o.op e e' = .binary o.op e e' (.prim w.computed.prim) := by
    rw [mkBinary_of_not_isLogical hlogical, hrep, hrep']
    cases o <;> cases w <;> rfl
  obtain ⟨happly, hconvert⟩ := applyBinary_convert (o := o) hv hv' hr
  have heval : (Expr.binary o.op e e' (.prim w.computed.prim)).eval.result m =
      (o.outcome w.computed v v', m) := by
    rw [result_binary m hlogical, he, andThen_ok, result_bind, he', andThen_ok, result_lift, happly]
  rw [hnode]
  by_cases hsame : Rep.prim w.computed.prim = r
  · -- the machine computes in the width of the type
    have hw : w.computed = w := by
      subst hsame
      cases w <;> first | rfl | cases hr
    rw [mkConvert_of_rep_eq (show (Expr.binary o.op e e' _).rep = _ from hsame), heval, hw]
  · have hnode' : (Expr.binary o.op e e' (.prim w.computed.prim)).mkConvert r =
        .convert (.binary o.op e e' (.prim w.computed.prim)) r := if_neg hsame
    rw [hnode', result_convert, heval, ← hconvert]
    cases o.outcome w.computed v v' <;> rfl

end Arithmetic

/-! ### The code of a call -/

namespace Arithmetic

open Emit

variable {w w' : IntegerType} {n n' : Bool} {site : CallSite} {x y : Flagged} {type : SqlType}

/-- Values of the operands: one is null, and then the call admits null, or both are numbers of the wider
type. -/
theorem null_or_fits (hv : v.Fits (w.type n).rep) (hv' : v'.Fits (w'.type n').rep) :
    ((v = .null ∨ v' = .null) ∧ (n || n')) ∨
      v.Fits (.prim (w.wider w').prim) ∧ v'.Fits (.prim (w.wider w').prim) := by
  obtain ⟨hle, hle'⟩ := w.bits_le_wider w'
  by_cases hnull : v = .null
  · subst hnull
    exact .inl ⟨.inl rfl, by rw [nullable_of_fits_null hv, Bool.true_or]⟩
  · by_cases hnull' : v' = .null
    · subst hnull'
      exact .inl ⟨.inr rfl, by rw [nullable_of_fits_null hv', Bool.or_true]⟩
    · exact .inr ⟨fits_of_bits_le hv hnull hle, fits_of_bits_le hv' hnull' hle'⟩

theorem exists_operands (h : site.Calls o.builtin [w.type n, w'.type n'] type [x, y]) :
    ∃ e e', operandsFor .strict true site [x, y] = [e, e'] ∧
      e.rep = .prim (w.wider w').prim ∧ e'.rep = .prim (w.wider w').prim ∧
      ∀ {m v v'}, x.Represents m v → y.Represents m v' → v ≠ .null → v' ≠ .null →
        e.EvalsTo m v ∧ e'.EvalsTo m v' := by
  have hargs := h.args
  obtain - | ⟨hx, - | ⟨hy, - | -⟩⟩ := hargs
  obtain ⟨hle, hle'⟩ := w.bits_le_wider w'
  have hharm : site.harmonize [x.value, y.value] = if w = w' ∧ n = n' then [x.value, y.value] else
      [x.value.mkConvert ((w.wider w').type (n || n')).rep,
        y.value.mkConvert ((w.wider w').type (n || n')).rep] := by
    simp only [CallSite.harmonize, h.operands]
    cases w <;> cases w' <;> cases n <;> cases n' <;> rfl
  have hops : operandsFor .strict true site [x, y] =
      (site.harmonize [x.value, y.value]).map Expr.unbox := rfl
  rw [hops, hharm]
  split_ifs with hsame
  · obtain ⟨rfl, rfl⟩ := hsame
    refine ⟨_, _, rfl, ?_, ?_, fun hv hw hv' hw' => ⟨?_, ?_⟩⟩
    · rw [rep_unbox, hx.rep, unbox_rep_type, wider_self]
    · rw [rep_unbox, hy.rep, unbox_rep_type, wider_self]
    · exact ((hv.carries hx.isAtom).unbox hv').evalsTo
    · exact ((hw.carries hy.isAtom).unbox hw').evalsTo
  · refine ⟨_, _, rfl, ?_, ?_, fun {m v v'} hv hw hv' hw' => ⟨?_, ?_⟩⟩
    · rw [rep_unbox, rep_mkConvert, unbox_rep_type]
    · rw [rep_unbox, rep_mkConvert, unbox_rep_type]
    · have hfits := fits_type (fits_of_bits_le (hx.rep ▸ hv.fits) hv' hle) (n || n')
      exact (((hv.carries hx.isAtom).mkConvert hfits).unbox hv').evalsTo
    · have hfits := fits_type (fits_of_bits_le (hy.rep ▸ hw.fits) hw' hle') (n || n')
      exact (((hw.carries hy.isAtom).mkConvert hfits).unbox hw').evalsTo

theorem compute_eq (h : site.Calls o.builtin [w.type n, w'.type n'] type [x, y])
    (hrep : e.rep = .prim (w.wider w').prim) (hrep' : e'.rep = .prim (w.wider w').prim) :
    o.builtin.lowering.compute site [e, e'] = pure (.mkBinary o.op e e') := by
  have hany := h.any_operands (by cases w <;> cases w' <;> rfl)
  have hbackup : CallSite.needsBackup o.op e.rep e'.rep = false := by
    rw [hrep, hrep']
    cases w.wider w' <;> cases o <;> rfl
  have hbinary : ∀ f, site.binary o.op (some f) [e, e'] = .ok (.mkBinary o.op e e') := by
    intro f
    simp only [CallSite.binary, hany, hbackup, Bool.false_eq_true, if_false]
  cases o <;> exact congrArg Emit.lift (hbinary _)

theorem yields (o : Arithmetic) (w w' : IntegerType) (n n' : Bool) (i j : Nat) :
    o.builtin.Yields [.input i (w.type n), .input j (w'.type n')] ((w.wider w').type (n || n')) [] (fun _ => True)
      fun vs => o.outcome (w.wider w') (vs.getD 0 .null) (vs.getD 1 .null) := by
  have hharm : o.builtin.lowering.harmonizes := by cases o <;> rfl
  have hframed : o.builtin.Framed .strict := by cases o <;> exact ⟨rfl, rfl, by decide⟩
  refine Builtin.yieldsIn_framed hframed (plain_defaultOf _ _) (by cases o <;> exact fun _ => rfl) ?_
    (fun _ _ => outcome_ne_unbound) ?_ ?_
  · intro _ vs u hvs _ hu
    obtain - | ⟨hv, - | ⟨hv', - | -⟩⟩ := hvs
    rcases null_or_fits hv hv' with ⟨hnull, hn⟩ | ⟨hfits, hfits'⟩
    · cases (outcome_null hnull).symm.trans hu
      rw [rep_type, hn]
      rfl
    · exact fits_type (fits_of_outcome hfits hfits' hu) _
  · rintro _ (_ | ⟨v, _ | ⟨v', _ | ⟨u, vs⟩⟩⟩) hlen hmem <;> simp [NullPolicy.deciding] at hlen hmem
    exact outcome_null (hmem.imp Eq.symm Eq.symm)
  · intro site args hsite _
    have hargs := hsite.args
    obtain - | ⟨hx, - | ⟨hy, - | -⟩⟩ := hargs
    obtain ⟨e, e', hops, hrep, hrep', heval⟩ := exists_operands hsite
    refine ⟨_, by rw [hharm, hops, compute_eq hsite hrep hrep'], fun {m vs} _ hvs _ hnot => ?_⟩
    obtain - | ⟨hv, - | ⟨hv', - | -⟩⟩ := hvs
    simp only [NullPolicy.deciding, List.mem_cons, List.not_mem_nil, or_false, not_or] at hnot
    have hne := Ne.symm hnot.1
    have hne' := Ne.symm hnot.2
    obtain ⟨he, he'⟩ := heval hv hv' hne hne'
    obtain ⟨hnull | hnull, -⟩ | ⟨hfits, hfits'⟩ := null_or_fits (hx.rep ▸ hv.fits) (hy.rep ▸ hv'.fits)
    · exact absurd hnull hne
    · exact absurd hnull hne'
    · exact result_mkConvert_mkBinary (unbox_rep_type _ _) hrep hrep' hfits hfits' he he'

end Arithmetic

/-! ### Programs -/

/-- Integer arithmetic is exact up to the declared width. A sum, difference, product or quotient of two input
fields of integer types, of the wider of these types and nullable if one of them is, compiles. On every row,
and whatever the state and its routines, it gives null if an operand is null. Otherwise it faults for a zero
divisor, gives the exact result wrapped in two's complement if its type is narrower than 64 bits, and in 64
bits gives the exact result if that fits and overflows if not. -/
theorem Term.program_run_arithmetic (settings : Settings) (defs : List Term)
    {fields : List (String × SqlType)} (o : Arithmetic) {w w' : IntegerType} {n n' : Bool} {i j : Nat}
    {name name' : String} (hi : fields[i]? = some (name, w.type n))
    (hj : fields[j]? = some (name', w'.type n')) :
    ∃ p, (Term.call (.builtin o.builtin) ((w.wider w').type (n || n'))
        [.input i (w.type n), .input j (w'.type n')]).program settings defs fields = .ok p ∧
      ∀ (row : List Value) (m : Machine) (v v' : Value),
        List.Forall₂ (fun field u => u.Fits field.2.rep) fields row → row[i]? = some v →
        row[j]? = some v' → ((p.run row).result m).1 = o.outcome (w.wider w') v v' := by
  obtain ⟨p, hp, hrun⟩ := Builtin.YieldsIn.program_run (o.yields w w' n n' i j)
    (Machine.lasting_unregistered []) id id (.cons (gives_input hi) (.cons (gives_input hj) .nil)) settings defs
  refine ⟨p, hp, fun row m v v' hrow hv hv' => ?_⟩
  rw [hrun hrow trivial (by simp [Machine.Unregistered])]
  simp only [List.map_cons, List.getD_eq_getElem?_getD, List.getElem?_cons_zero, List.getElem?_cons_succ,
    Option.getD_some, hv, hv']

/-- The least TINYINT divided by minus one, whose exact result is one too large for the type; and a product of
BIGINT and SMALLINT operands that overflows. -/
theorem Term.program_run_arithmetic_extremes :
    let fields := [("x", IntegerType.tiny.type true), ("y", IntegerType.tiny.type false)]
    let fields' := [("x", IntegerType.big.type false), ("y", IntegerType.small.type true)]
    (∃ p, (Term.call (.builtin .divide) (IntegerType.tiny.type true)
        [.input 0 (IntegerType.tiny.type true), .input 1 (IntegerType.tiny.type false)]).program {} [] fields =
          .ok p ∧ ((p.run [.int (-128), .int (-1)]).result {}).1 = .ok (.int (-128)) ∧
        ((p.run [.null, .int 0]).result {}).1 = .ok .null ∧
        ((p.run [.int 1, .int 0]).result {}).1 = .error .divisionByZero) ∧
      ∃ p, (Term.call (.builtin .multiply) (IntegerType.big.type true)
        [.input 0 (IntegerType.big.type false), .input 1 (IntegerType.small.type true)]).program {} [] fields' =
          .ok p ∧ ((p.run [.int 4611686018427387904, .int (-2)]).result {}).1 = .ok (.int Int64.minValue) ∧
        ((p.run [.int 4611686018427387904, .int 2]).result {}).1 = .error (.overflow "Multiply") := by
  intro fields fields'
  have hx : fields[0]? = some ("x", IntegerType.tiny.type true) := rfl
  have hy : fields[1]? = some ("y", IntegerType.tiny.type false) := rfl
  have hx' : fields'[0]? = some ("x", IntegerType.big.type false) := rfl
  have hy' : fields'[1]? = some ("y", IntegerType.small.type true) := rfl
  obtain ⟨p, hp, hrun⟩ := program_run_arithmetic {} [] .divide hx hy
  obtain ⟨q, hq, hrun'⟩ := program_run_arithmetic {} [] .multiply hx' hy'
  refine ⟨⟨p, hp, ?_, ?_, ?_⟩, q, hq, ?_, ?_⟩
  · exact hrun [.int (-128), .int (-1)] {} _ _ (.cons rfl (.cons rfl .nil)) rfl rfl
  · exact hrun [.null, .int 0] {} _ _ (.cons rfl (.cons rfl .nil)) rfl rfl
  · exact hrun [.int 1, .int 0] {} _ _ (.cons rfl (.cons rfl .nil)) rfl rfl
  · exact hrun' [.int 4611686018427387904, .int (-2)] {} _ _ (.cons rfl (.cons rfl .nil)) rfl rfl
  · exact hrun' [.int 4611686018427387904, .int 2] {} _ _ (.cons rfl (.cons rfl .nil)) rfl rfl

end SqlCode

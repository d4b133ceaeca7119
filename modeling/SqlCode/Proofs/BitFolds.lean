import SqlCode.Proofs.Extremes

/-!
# Bitwise folds

BIT_AND, BIT_OR and BIT_XOR. The bits of the rows in one place make up a column of bits, and the bit of the result
in that place is set if all of them are, if one of them is, or if an odd number of them is. This holds if the
accumulator starts from a neutral value. Over integers it does. Over binaries BIT_OR and BIT_XOR start from null,
which is neutral, but BIT_AND starts from an integer, and its first row is a fault.
-/

namespace SqlCode

open Run SqlCode.Expr

variable {op : BitOp} {s : BitShape} {c : AggregateCall}

/-! ### Columns of bits -/

namespace BitOp

/-- The operation on two bits. -/
def onBits : BitOp → Bool → Bool → Bool
  | .and => Bool.and
  | .or => Bool.or
  | .xor => Bool.xor

/-- The operation on a column of bits: all are set, one is set, or an odd number is set. -/
def ofColumn : BitOp → List Bool → Bool
  | .and, bs => bs.all id
  | .or, bs => bs.any id
  | .xor, bs => decide (bs.count true % 2 = 1)

theorem ofColumn_singleton (op : BitOp) (b : Bool) : op.ofColumn [b] = b := by
  cases op <;> cases b <;> rfl

theorem ofColumn_concat (op : BitOp) (bs : List Bool) (b : Bool) :
    op.ofColumn (bs ++ [b]) = op.onBits (op.ofColumn bs) b := by
  cases op with
  | and | or => simp [ofColumn, onBits]
  | xor =>
    simp only [ofColumn, onBits, List.count_append]
    cases b with
    | false => simp
    | true =>
      rcases Nat.mod_two_eq_zero_or_one (bs.count true) with h | h <;> simp [h, Nat.add_mod]

theorem ofColumn_perm (op : BitOp) {bs bs' : List Bool} (h : bs.Perm bs') : op.ofColumn bs = op.ofColumn bs' := by
  cases op with
  | and => exact h.all_eq
  | or => exact h.any_eq
  | xor => simp only [ofColumn, h.count_eq]

/-- What the accumulator starts from. -/
def start : BitOp → Rep → Value
  | .and, _ => .int (-1)
  | .or, r | .xor, r => r.initial

/-- What a row makes of the accumulator. -/
def combine (op : BitOp) (a v : Value) : Except Fault Value := Routine.bitwise op [a, v]

theorem getLsbD_onWords (op : BitOp) (x y : Int64) (i : Nat) :
    (op.onWords x y).toBitVec.getLsbD i = op.onBits (x.toBitVec.getLsbD i) (y.toBitVec.getLsbD i) := by
  cases op with
  | and => exact BitVec.getLsbD_and
  | or => exact BitVec.getLsbD_or
  | xor => exact BitVec.getLsbD_xor

theorem getLsbD_onBytes (op : BitOp) (x y : UInt8) (i : Nat) :
    (op.onBytes x y).toBitVec.getLsbD i = op.onBits (x.toBitVec.getLsbD i) (y.toBitVec.getLsbD i) := by
  cases op with
  | and => exact BitVec.getLsbD_and
  | or => exact BitVec.getLsbD_or
  | xor => exact BitVec.getLsbD_xor

end BitOp

/-- The numbers of a type are those whose low bits, with the highest of them repeated, are the whole word. -/
theorem IntegerType.holds_iff_signExtend {w : IntegerType} {k : Int64} :
    w.Holds k.toInt ↔ (k.toBitVec.setWidth w.bits).signExtend 64 = k.toBitVec := by
  have hle : w.bits ≤ 64 := by cases w <;> decide
  have hmod : ((k.toBitVec.setWidth w.bits).signExtend 64).toInt = k.toInt.bmod (2 ^ w.bits) := by
    rw [BitVec.toInt_signExtend_of_le hle, ← BitVec.signExtend_eq_setWidth_of_le _ hle,
      BitVec.toInt_signExtend_eq_toInt_bmod_of_le _ hle]
    rfl
  rw [holds_iff, ← hmod, ← BitVec.toInt_inj]
  rfl

theorem IntegerType.Holds.onWords {w : IntegerType} {x y : Int64} (op : BitOp) (hx : w.Holds x.toInt)
    (hy : w.Holds y.toInt) : w.Holds (op.onWords x y).toInt := by
  rw [holds_iff_signExtend] at hx hy ⊢
  cases op with
  | and =>
    show ((x.toBitVec &&& y.toBitVec).setWidth w.bits).signExtend 64 = x.toBitVec &&& y.toBitVec
    rw [BitVec.setWidth_and, BitVec.signExtend_and, hx, hy]
  | or =>
    show ((x.toBitVec ||| y.toBitVec).setWidth w.bits).signExtend 64 = x.toBitVec ||| y.toBitVec
    rw [BitVec.setWidth_or, BitVec.signExtend_or, hx, hy]
  | xor =>
    show ((x.toBitVec ^^^ y.toBitVec).setWidth w.bits).signExtend 64 = x.toBitVec ^^^ y.toBitVec
    rw [BitVec.setWidth_xor, BitVec.signExtend_xor, hx, hy]

/-! ### Rows -/

/-- The bit in a place: of integers in two's complement, of binaries byte by byte. -/
def Value.bit : Value → Nat → Bool
  | .int k, i => k.toBitVec.getLsbD i
  | .bytes bs, i => (bs.getD (i / 8) 0).toBitVec.getLsbD (i % 8)
  | _, _ => false

/-- What bits stand in: integers of a type, or binaries of one length. -/
inductive BitShape
  | integer (w : IntegerType)
  | binary (length : Nat)

namespace BitShape

/-- The values of a shape. -/
def Holds : BitShape → Value → Prop
  | .integer w, v => ∃ k : Int64, v = .int k ∧ w.Holds k.toInt
  | .binary n, v => ∃ bs, v = .bytes bs ∧ bs.length = n

variable {a v : Value}

/-- Values of one shape are told apart by their bits. -/
theorem eq_of_bit (ha : s.Holds a) (hv : s.Holds v) (h : ∀ i, a.bit i = v.bit i) : a = v := by
  cases s with
  | integer w =>
    obtain ⟨x, rfl, -⟩ := ha
    obtain ⟨y, rfl, -⟩ := hv
    have hbits : x.toBitVec = y.toBitVec := BitVec.eq_of_getLsbD_eq fun i _ => h i
    rw [Int64.toBitVec_inj.1 hbits]
  | binary n =>
    obtain ⟨xs, rfl, hxs⟩ := ha
    obtain ⟨ys, rfl, hys⟩ := hv
    refine congrArg Value.bytes (List.ext_getElem (hxs.trans hys.symm) fun j hj hj' => ?_)
    refine UInt8.toBitVec_inj.1 (BitVec.eq_of_getLsbD_eq fun i hi => ?_)
    have hplace := h (8 * j + i)
    have hdiv : (8 * j + i) / 8 = j := by omega
    have hmod : (8 * j + i) % 8 = i := by omega
    simpa only [Value.bit, hdiv, hmod, List.getD_eq_getElem?_getD, List.getElem?_eq_getElem hj,
      List.getElem?_eq_getElem hj', Option.getD_some] using hplace

theorem exists_bitwise (op : BitOp) (ha : s.Holds a) (hv : s.Holds v) :
    ∃ u, op.combine a v = .ok u ∧ s.Holds u ∧ ∀ i, u.bit i = op.onBits (a.bit i) (v.bit i) := by
  cases s with
  | integer w =>
    obtain ⟨x, rfl, hx⟩ := ha
    obtain ⟨y, rfl, hy⟩ := hv
    exact ⟨.int (op.onWords x y), rfl, ⟨_, rfl, hx.onWords op hy⟩, op.getLsbD_onWords x y⟩
  | binary n =>
    obtain ⟨xs, rfl, hxs⟩ := ha
    obtain ⟨ys, rfl, hys⟩ := hv
    have hlength : xs.length = ys.length := hxs.trans hys.symm
    refine ⟨.bytes (xs.zipWith op.onBytes ys), ?_, ⟨_, rfl, by simp [hlength, hys]⟩, fun i => ?_⟩
    · show (if xs.length = ys.length then _ else _) = _
      rw [if_pos hlength]
    · have hbyte : (xs.zipWith op.onBytes ys).getD (i / 8) 0 = op.onBytes (xs.getD (i / 8) 0) (ys.getD (i / 8) 0) := by
        by_cases hi : i / 8 < xs.length
        · have hi' : i / 8 < ys.length := hlength ▸ hi
          simp [List.getD_eq_getElem?_getD, hi, hi']
        · -- past the end the bytes are zero, and so is their combination
          have hi' : ¬ i / 8 < ys.length := hlength ▸ hi
          have hzero : op.onBytes 0 0 = 0 := by cases op <;> rfl
          simp [List.getD_eq_getElem?_getD, Nat.not_lt.1 hi, Nat.not_lt.1 hi', hzero]
      show ((xs.zipWith op.onBytes ys).getD (i / 8) 0).toBitVec.getLsbD (i % 8) = _
      rw [hbyte, op.getLsbD_onBytes]
      rfl

/-- From a neutral value, the bits of the rows are combined place by place. -/
theorem foldlM_bitwise {start : Value} (hstart : ∀ v, s.Holds v → op.combine start v = .ok v)
    {vs : List Value} (hvs : ∀ v ∈ vs, s.Holds v) (hne : vs ≠ []) :
    ∃ u, vs.foldlM op.combine start = .ok u ∧ s.Holds u ∧
      ∀ i, u.bit i = op.ofColumn (vs.map (·.bit i)) := by
  induction vs using List.reverseRecOn with
  | nil => exact absurd rfl hne
  | append_singleton vs v ih =>
    have hv := hvs v (by simp)
    rcases eq_or_ne vs [] with rfl | hvs'
    · refine ⟨v, ?_, hv, fun i => (op.ofColumn_singleton _).symm⟩
      show op.combine start v >>= pure = _
      rw [bind_pure, hstart v hv]
    · obtain ⟨a, hfold, ha, hbits⟩ := ih (fun u hu => hvs u (by simp [hu])) hvs'
      obtain ⟨u, hu, hshape, hcombine⟩ := exists_bitwise op ha hv
      refine ⟨u, ?_, hshape, fun i => ?_⟩
      · rw [List.foldlM_append, hfold]
        show op.combine a v >>= pure = _
        rw [bind_pure, hu]
      · rw [List.map_append, List.map_singleton, op.ofColumn_concat, hcombine, hbits]

theorem combine_start_integer (op : BitOp) {w : IntegerType} (hv : (integer w).Holds v) :
    op.combine (op.start (.prim w.prim)) v = .ok v := by
  obtain ⟨k, rfl, -⟩ := hv
  have hstart : op.start (.prim w.prim) = .int (if op = .and then -1 else 0) := by
    cases op <;> cases w <;> rfl
  have hneutral : op.onWords (if op = .and then -1 else 0) k = k := by
    cases op with
    | and => exact Int64.neg_one_and
    | or => exact Int64.zero_or
    | xor => exact Int64.zero_xor
  rw [hstart]
  show Except.ok (Value.int (op.onWords _ k)) = _
  rw [hneutral]

theorem combine_null (op : BitOp) (v : Value) : op.combine .null v = .ok v := by
  cases v <;> rfl

end BitShape

/-! ### The code -/

namespace Fold

variable {type : SqlType}

theorem computes_bits (op : BitOp) (hc : c.parameters = [type]) (hname : type.name = c.returnType.name) :
    (bits op).Computes c (fun _ => True) (op.start c.notNullRep) fun a row => op.combine a (row.getD 0 .null) := by
  have hinitial : ∀ m, ((bits op).initial c.notNullRep).EvalsTo m (op.start c.notNullRep) := by
    intro m
    cases op with
    | and => rfl
    | or | xor => exact evalsTo_defaultOf m _
  refine computes_of_combine (fun x y => .call op.routine [x, y] c.notNullRep) hc rfl rfl (fun e => rfl) hinitial
    trivial ?_
  intro a v _ hv hne
  refine ⟨fun _ _ => trivial, v, fits_notNullRep hname hv hne, fun {m x y} hm _ _ hx hy => ?_⟩
  rw [result_call, result_evalAll (.cons hx (.cons hy .nil)), andThen_ok]
  cases op <;> exact Run.result_call_library (hm _ (List.mem_singleton_self _)) rfl rfl

end Fold

namespace AggregateProgram

variable {p : AggregateProgram} {type : SqlType} {vs : List Value} {m : Machine}

/-- The value has the bits of the rows combined place by place, and it is the result in whatever order the rows
come. -/
structure IsCombination (p : AggregateProgram) (m : Machine) (op : BitOp) (s : BitShape) (vs : List Value)
    (u : Value) : Prop where
  shape : s.Holds u
  bits : ∀ i, u.bit i = op.ofColumn ((vs.filter fun v => !v.isNull).map (·.bit i))
  result : ∀ vs', vs.Perm vs' → ((p.aggregate (vs'.map ([·]))).result m).1 = .ok u

section Column

variable (hname : type.name = c.returnType.name) (hc : c.parameters = [type]) (hvs : ∀ v ∈ vs, v.Fits type.rep)
  (hsome : ∃ v ∈ vs, v ≠ .null)
include hname hc hvs hsome

/-- If the accumulator starts from a neutral value, the rows are combined. -/
theorem exists_isCombination (hp : p.Implements (.strict (.bits op)) c)
    (hm : m.Unregistered (Fold.bits op).calls)
    (hstart : ∀ v, s.Holds v → op.combine (op.start c.notNullRep) v = .ok v)
    (hshape : ∀ v ∈ vs, v ≠ .null → s.Holds v) : ∃ u, p.IsCombination m op s vs u := by
  have hall : ∀ vs', vs.Perm vs' → ∃ u, s.Holds u ∧
      (∀ i, u.bit i = op.ofColumn ((vs.filter fun v => !v.isNull).map (·.bit i))) ∧
      ((p.aggregate (vs'.map ([·]))).result m).1 = .ok u := by
    intro vs' hperm
    have hsome' : ∃ v ∈ vs', v ≠ .null := by simpa only [hperm.mem_iff] using hsome
    have hmem : ∀ v ∈ vs'.filter fun v => !v.isNull, s.Holds v :=
      Fold.forall_mem_filter_isNull fun v hv => hshape v (hperm.mem_iff.2 hv)
    obtain ⟨u, hfold, hu, hbits⟩ := BitShape.foldlM_bitwise hstart hmem (Fold.filter_isNull_ne_nil hsome')
    refine ⟨u, hu, fun i => ?_, ?_⟩
    · rw [hbits, op.ofColumn_perm ((hperm.filter _).map _)]
    · exact ((Fold.computes_bits op hc hname).result_aggregate_of_exists hp hc
        (fun v hv => hvs v (hperm.mem_iff.2 hv)) hm hsome').trans hfold
  -- the results of all orders have the same bits, so that they are equal
  obtain ⟨u, hu, hbits, -⟩ := hall vs (.refl vs)
  refine ⟨u, hu, hbits, fun vs' hperm => ?_⟩
  obtain ⟨u', hu', hbits', hresult⟩ := hall vs' hperm
  rw [hresult, BitShape.eq_of_bit hu' hu fun i => (hbits' i).trans (hbits i).symm]

/-- BIT_AND of binaries starts from an integer, with which no binary can be combined. -/
theorem result_bitAnd_binary (hp : p.Implements (.strict (.bits .and)) c)
    (hm : m.Unregistered (Fold.bits .and).calls) (hbinary : ∀ v ∈ vs, v ≠ .null → ∃ bs, v = .bytes bs) :
    ((p.aggregate (vs.map ([·]))).result m).1 =
      .error (.invalidArgument "bitAnd" "expected two integers or equal-length binaries") := by
  rw [(Fold.computes_bits .and hc hname).result_aggregate_of_exists hp hc hvs hm hsome]
  cases hrows : vs.filter fun v => !v.isNull with
  | nil => exact absurd hrows (Fold.filter_isNull_ne_nil hsome)
  | cons v rest =>
    obtain ⟨hv, hne⟩ := Fold.mem_filter_isNull.1 (hrows ▸ List.mem_cons_self : v ∈ vs.filter fun v => !v.isNull)
    obtain ⟨bs, rfl⟩ := hbinary v hv hne
    rfl

end Column

end AggregateProgram

/-! ### Types -/

theorem SqlType.rep_of_isBinary {type : SqlType} (h : type.name.isBinary) : type.rep = .bytes := by
  obtain ⟨name, nullable, component, key, fields⟩ := type
  cases name <;> first | rfl | cases h

theorem IntegerType.notNullRep_of_name {w : IntegerType} (h : c.returnType.name = w.name) :
    c.notNullRep = .prim w.prim := by
  have hrep : c.notNullRep = (w.type false).rep :=
    Fold.rep_withNullable (show c.returnType.name = (w.type false).name from h) false
  rw [hrep, rep_type]
  rfl

theorem Value.exists_bytes {type : SqlType} {v : Value} (h : type.name.isBinary) (hv : v.Fits type.rep)
    (hne : v ≠ .null) : ∃ bs, v = .bytes bs := by
  rw [SqlType.rep_of_isBinary h] at hv
  cases v with
  | null => exact absurd rfl hne
  | bytes bs => exact ⟨bs, rfl⟩
  | _ => cases hv

/-! ### The main result -/

/-- The operation of a bitwise aggregate. -/
def Aggregate.bitOp? : Aggregate → Option BitOp
  | .bitAnd => some .and
  | .bitOr => some .or
  | .bitXor => some .xor
  | _ => none

/-- BIT_AND, BIT_OR and BIT_XOR of a column with a value. Over integers, and for the last two over binaries of one
length, the result has the bits of the rows combined place by place, in every order of the rows; an integer stays
within its type. BIT_AND over binaries is a fault. -/
theorem AggregateFunction.aggregate_bits {a : Aggregate} {op : BitOp} (ha : a.bitOp? = some op) (settings : Settings)
    (call : AggregateCall) (window : Bool) (hwindow : window = true → settings.windowReuse = .allowList)
    {type : SqlType} (hc : call.parameters = [type]) (hname : type.name = call.returnType.name) :
    ∃ p, (builtin a).program settings call window = .ok p ∧
      ∀ m : Machine, m.routines.get? op.routine = none →
        ∀ vs : List Value, (∀ v ∈ vs, v.Fits type.rep) → (∃ v ∈ vs, v ≠ .null) →
          (∀ w : IntegerType, type.name = w.name → ∃ u, p.IsCombination m op (.integer w) vs u) ∧
          (type.name.isBinary = true →
            (op ≠ .and → ∀ n, (∀ bs, .bytes bs ∈ vs → bs.length = n) →
              ∃ u, p.IsCombination m op (.binary n) vs u) ∧
            (op = .and → ((p.aggregate (vs.map ([·]))).result m).1 =
              .error (.invalidArgument "bitAnd" "expected two integers or equal-length binaries"))) := by
  have ha : a.plain? = some (.strict (.bits op)) ∧ a.isReusable = true := by
    cases a <;> cases ha <;> exact ⟨rfl, rfl⟩
  replace hname : type.name = (call.complete settings).returnType.name := hname
  obtain ⟨p, hp, himp⟩ := exists_program_of_computes ha.1 ha.2 hwindow (Fold.computes_bits op hc hname)
  refine ⟨p, hp, fun m hm vs hvs hsome => ?_⟩
  have hlibrary : m.Unregistered (Fold.bits op).calls := Fold.unregistered_singleton hm
  refine ⟨fun w hw => ?_, fun hbinary => ?_⟩
  · have hrep : (call.complete settings).notNullRep = .prim w.prim :=
      IntegerType.notNullRep_of_name (hname.symm.trans hw)
    refine AggregateProgram.exists_isCombination hname hc hvs hsome himp hlibrary (fun v hv => ?_) fun v hv hne => ?_
    · rw [hrep]
      exact BitShape.combine_start_integer op hv
    · exact IntegerType.fits_prim_iff.1 (hrep ▸ Fold.fits_notNullRep hname (hvs v hv) hne)
  · have hbytes : ∀ v ∈ vs, v ≠ .null → ∃ bs, v = .bytes bs := fun v hv hne =>
      Value.exists_bytes hbinary (hvs v hv) hne
    refine ⟨fun hop n hlength => ?_, ?_⟩
    · have hstart : op.start (call.complete settings).notNullRep = .null := by
        rw [show (call.complete settings).notNullRep = .bytes from
          SqlType.rep_of_isBinary (hname ▸ hbinary : call.returnType.name.isBinary = true)]
        cases op <;> first | rfl | exact absurd rfl hop
      refine AggregateProgram.exists_isCombination hname hc hvs hsome himp hlibrary (fun v _ => ?_) fun v hv hne => ?_
      · rw [hstart]
        exact BitShape.combine_null op v
      · obtain ⟨bs, rfl⟩ := hbytes v hv hne
        exact ⟨bs, rfl, hlength bs hv⟩
    · rintro rfl
      exact AggregateProgram.result_bitAnd_binary hname hc hvs hsome himp hlibrary hbytes

/-- -128 and 127 as TINYINT differ in all bits; 0x0f and 0x3c as VARBINARY have a disjunction, but no
conjunction. -/
theorem AggregateFunction.aggregate_bits_of_two :
    (∃ p, (builtin .bitXor).program {} { returnType := .plain .tinyInt true, parameters := [.plain .tinyInt true] }
        false = .ok p ∧
      ((p.aggregate [[.int (-128)], [.null], [.int 127]]).result {}).1 = .ok (.int (-1))) ∧
    (∃ p, (builtin .bitOr).program {}
        { returnType := .plain .varBinary true, parameters := [.plain .varBinary true] } false = .ok p ∧
      ((p.aggregate [[.bytes [0x0f]], [.bytes [0x3c]]]).result {}).1 = .ok (.bytes [0x3f])) ∧
    ∃ p, (builtin .bitAnd).program {}
        { returnType := .plain .varBinary true, parameters := [.plain .varBinary true] } false = .ok p ∧
      ((p.aggregate [[.bytes [0x0f]], [.bytes [0x3c]]]).result {}).1 =
        .error (.invalidArgument "bitAnd" "expected two integers or equal-length binaries") := by
  have hpair : ∀ (op : BitOp) (x y : Bool), op.ofColumn [x, y] = op.onBits x y := by
    intro op x y
    cases op <;> cases x <;> cases y <;> rfl
  have hbytes : ∀ v ∈ [Value.bytes [0x0f], .bytes [0x3c]], v.Fits (SqlType.plain .varBinary true).rep :=
    List.forall_mem_cons.2 ⟨rfl, List.forall_mem_singleton.2 rfl⟩
  refine ⟨?_, ?_, ?_⟩
  · obtain ⟨p, hp, hbits⟩ := aggregate_bits (a := .bitXor) rfl {}
      { returnType := .plain .tinyInt true, parameters := [.plain .tinyInt true] } false (by simp) rfl rfl
    obtain ⟨u, hu⟩ := (hbits {} rfl [.int (-128), .null, .int 127]
      (List.forall_mem_cons.2 ⟨rfl, List.forall_mem_cons.2 ⟨rfl, List.forall_mem_singleton.2 rfl⟩⟩) ⟨.int 127, by simp, by simp⟩).1 .tiny rfl
    have heq : u = .int (-1) := by
      refine BitShape.eq_of_bit hu.shape ⟨-1, rfl, by decide, by decide⟩ fun i => (hu.bits i).trans ?_
      exact (hpair _ _ _).trans (BitOp.xor.getLsbD_onWords (-128) 127 i).symm
    exact ⟨p, hp, heq ▸ hu.result _ (.refl _)⟩
  · obtain ⟨p, hp, hbits⟩ := aggregate_bits (a := .bitOr) rfl {}
      { returnType := .plain .varBinary true, parameters := [.plain .varBinary true] } false (by simp) rfl rfl
    obtain ⟨u, hu⟩ := ((hbits {} rfl _ hbytes ⟨.bytes [0x0f], by simp, by simp⟩).2 rfl).1 (by decide) 1 (by simp)
    obtain ⟨u', hu', hshape, hcombine⟩ := BitShape.exists_bitwise (s := .binary 1) .or
      (a := .bytes [0x0f]) (v := .bytes [0x3c]) ⟨_, rfl, rfl⟩ ⟨_, rfl, rfl⟩
    have heq : u = u' :=
      BitShape.eq_of_bit hu.shape hshape fun i => (hu.bits i).trans ((hpair _ _ _).trans (hcombine i).symm)
    refine ⟨p, hp, (hu.result _ (.refl _)).trans (congrArg _ ?_)⟩
    exact heq.trans (Except.ok.inj hu').symm
  · obtain ⟨p, hp, hbits⟩ := aggregate_bits (a := .bitAnd) rfl {}
      { returnType := .plain .varBinary true, parameters := [.plain .varBinary true] } false (by simp) rfl rfl
    exact ⟨p, hp, ((hbits {} rfl _ hbytes ⟨.bytes [0x0f], by simp, by simp⟩).2 rfl).2 rfl⟩

end SqlCode

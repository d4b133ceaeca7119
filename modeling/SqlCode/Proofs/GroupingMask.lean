import SqlCode.Proofs.WindowRanks

/-!
# The mask of rolled-up group keys

GROUPING and GROUPING_ID tell which of the group keys they are asked about are rolled up. The result is a sum of
choices between a bit and zero, one for each argument, the first one highest. With at most 63 arguments the sum is a
64-bit integer that is not negative, so that no addition overflows.
-/

namespace SqlCode

open Run SqlCode.Expr IntegerType

variable {flags : List Bool} {as : List ℕ} {c : AggregateCall}

/-! ### Masks -/

/-- The flag of the first group key with the ordinal is set. -/
def isRolledUp (keys : List ℕ) (flags : List Bool) (ordinal : ℕ) : Bool := flags.getD (keys.idxOf ordinal) false

/-- The bit of an argument that has the given number of arguments after it. -/
def rolledUpBit (keys : List ℕ) (flags : List Bool) (ordinal after : ℕ) : ℕ :=
  if isRolledUp keys flags ordinal then 2 ^ after else 0

/-- The sum of the bits of the arguments that are rolled up. -/
def rolledUpMask (keys : List ℕ) (flags : List Bool) (arguments : List ℕ) : ℕ :=
  ∑ j : Fin arguments.length, rolledUpBit keys flags (arguments.get j) (arguments.length - 1 - j)

section Mask

variable {keys : List ℕ}

theorem rolledUpMask_cons (a : ℕ) (as : List ℕ) : rolledUpMask keys flags (a :: as) =
    rolledUpBit keys flags a as.length + rolledUpMask keys flags as := by
  have hsum : rolledUpMask keys flags (a :: as) = ∑ j : Fin (as.length + 1),
      rolledUpBit keys flags ((a :: as).get j) (as.length - j) := rfl
  rw [hsum, Fin.sum_univ_succ]
  refine congrArg₂ _ rfl (Finset.sum_congr rfl fun j _ => ?_)
  rw [show as.length - (j.succ : ℕ) = as.length - 1 - j by simp [Nat.sub_sub, Nat.add_comm]]
  rfl

/-- The bits of the arguments after the first one do not reach its bit. -/
theorem rolledUpMask_lt (as : List ℕ) : rolledUpMask keys flags as < 2 ^ as.length := by
  induction as with
  | nil => simp [rolledUpMask]
  | cons a as ih =>
    have hbit : rolledUpBit keys flags a as.length ≤ 2 ^ as.length := by
      unfold rolledUpBit
      split_ifs <;> simp
    rw [rolledUpMask_cons, List.length_cons, pow_succ]
    omega

theorem fits_rolledUpMask (h : as.length ≤ 63) : Word.Fits (rolledUpMask keys flags as) := by
  have hlt : rolledUpMask keys flags as < 2 ^ as.length := rolledUpMask_lt as
  have hle : 2 ^ as.length ≤ 2 ^ 63 := Nat.pow_le_pow_right (by decide) h
  rw [Word.fits_iff]
  omega

end Mask

/-! ### Sums of words -/

/-- A sum of words that are not negative, where the whole sum is a word. -/
theorem Expr.carries_foldl_add {m : Machine} {es : List Expr} {ns : List ℕ} {e : Expr} {n : ℕ}
    (hes : List.Forall₂ (fun e (n : ℕ) => e.rep = .prim .i64 ∧ e.Carries m (.word n)) es ns)
    (he : e.rep = .prim .i64 ∧ e.Carries m (.word n)) (hfits : Word.Fits (n + ns.sum : ℕ)) :
    (es.foldl (mkBinary .add) e).Carries m (.word (n + ns.sum : ℕ)) := by
  induction hes generalizing e n with
  | nil => simpa using he.2
  | @cons e' k es ns he' _ ih =>
    rw [List.sum_cons, ← Nat.add_assoc] at hfits ⊢
    have hsum : Word.Fits (n + k : ℕ) := Word.fits_of_le (by omega) (by omega) hfits
    have hadd : (mkBinary .add e e').EvalsTo m (.word (n + k : ℕ)) :=
      evalsTo_arithmetic_word (o := .plus) (by simp [Arithmetic.ideal?])
        (Word.fits_of_le (by omega) (by omega) hsum) (Word.fits_of_le (by omega) (by omega) hsum) hsum he.1 he'.1
        he.2.evalsTo he'.2.evalsTo
    have hrep : (mkBinary .add e e').rep = .prim .i64 := by
      rw [mkBinary_of_not_isLogical rfl, he.1, he'.1]
      rfl
    refine ih ⟨hrep, .plain hadd (by rw [hrep]; exact fits_big _) fun a r h => ?_⟩ hfits
    rw [mkBinary_of_not_isLogical rfl] at h
    cases h

namespace Strategy

variable {m : Machine}

/-- The flags of the group keys are bound. -/
def RolledUp (c : AggregateCall) (flags : List Bool) (m : Machine) : Prop :=
  List.Forall₂ (fun s b => m.get? s.name = some (.bool b)) c.rolledUpSlots flags

theorem length_rolledUpSlots (c : AggregateCall) : c.rolledUpSlots.length = c.keys.length := by
  simp [AggregateCall.rolledUpSlots, Slot.numbered]

/-- The flag of a group key is among what a group binds after its keys. -/
theorem getElem?_indicator (c : AggregateCall) (i : ℕ) :
    (c.keySlots ++ c.rolledUpSlots)[c.keys.length + i]? = c.rolledUpSlots[i]? := by
  have hkeys : c.keySlots.length = c.keys.length := by
    simp [AggregateCall.keySlots, Slot.numbered]
  rw [List.getElem?_append_right (by omega), hkeys, Nat.add_sub_cancel_left]

/-- The code for an argument that is a group key is a choice by the flag of the key. -/
theorem groupingTerm_of_mem {a : ℕ} (ha : a ∈ c.keys) (bit : Int64) :
    ∃ s, c.rolledUpSlots[c.keys.idxOf a]? = some s ∧
      groupingTerm c a bit = .ok (mkCond s (.long bit) (.long 0)) := by
  obtain ⟨i, hi⟩ := Option.isSome_iff_exists.1 (List.isSome_idxOf?.2 ha)
  have hidx : c.keys.idxOf a = i := by rw [List.idxOf_eq_getD_idxOf?, hi, Option.getD_some]
  have hlt : i < c.rolledUpSlots.length := by
    rw [length_rolledUpSlots, ← hidx]
    exact List.idxOf_lt_length_of_mem ha
  rw [hidx, groupingTerm, hi]
  simp only [getElem?_indicator, List.getElem?_eq_getElem hlt]
  exact ⟨_, rfl, rfl⟩

theorem toInt_shiftRight_bit : ∀ j : Fin 62, (Int64.ofInt (2 ^ (j + 1 : ℕ)) >>> 1).toInt = 2 ^ (j : ℕ) := by
  decide

/-- The bits go down by halves. -/
theorem shiftRight_bit {bit : Int64} {j : ℕ} (hj : j < 62) (hbit : bit.toInt = 2 ^ (j + 1)) :
    (bit >>> 1).toInt = 2 ^ j := by
  rw [← Int64.ofInt_toInt bit, hbit]
  exact toInt_shiftRight_bit ⟨j, hj⟩

theorem firstBit?_fin : ∀ j : Fin 63, (firstBit? (j + 1)).map Int64.toInt = some (2 ^ (j : ℕ)) := by
  decide

/-- The first bit is a positive word exactly for at most 63 arguments. -/
theorem firstBit?_spec {count : ℕ} (hcount : count ≠ 0) :
    (count ≤ 63 → ∃ bit, firstBit? count = some bit ∧ bit.toInt = 2 ^ (count - 1)) ∧
      (63 < count → firstBit? count = none) := by
  obtain ⟨j, rfl⟩ := Nat.exists_eq_succ_of_ne_zero hcount
  refine ⟨fun hle => Option.map_eq_some_iff.1 (firstBit?_fin ⟨j, by omega⟩), fun hlt => ?_⟩
  by_cases hj : j = 63
  · subst hj
    decide
  · unfold firstBit? Word.checkedShl
    rw [if_neg (show ¬ j + 1 - 1 < 64 by omega)]
    split_ifs <;> rfl

/-- A choice between a word and zero. The word is not zero, so that the choice is not folded away. -/
theorem carries_choice {s : Slot} {w : Int64} {b : Bool} (hw : w ≠ 0) (hget : m.get? s.name = some (.bool b)) :
    (mkCond s (.long w) (.long 0)).Carries m (.int (if b then w else 0)) := by
  have htest : (Expr.slot s).EvalsTo m (.bool b) := evalsTo_slot hget
  have hne : (Expr.long w).same (.long 0) = false := by simpa [same, long, Value.same] using hw
  have hcode : mkCond s (.long w) (.long 0) = .cond s (.long w) (.long 0) (.prim .i64) := by
    simp [mkCond, hne]
    rfl
  have hcond : (Expr.cond s (.long w) (.long 0) (.prim .i64)).EvalsTo m (.int (if b then w else 0)) := by
    rw [EvalsTo, result_cond, htest]
    cases b <;> rfl
  rw [hcode]
  exact .plain hcond (fits_big _) (by simp)

theorem carries_groupingTerm {a after : ℕ} {bit : Int64} {s : Slot}
    (hs : c.rolledUpSlots[c.keys.idxOf a]? = some s) (hbit : bit.toInt = 2 ^ after)
    (hm : RolledUp c flags m) :
    (mkCond s (.long bit) (.long 0)).Carries m (.word (rolledUpBit c.keys flags a after)) := by
  obtain ⟨b, hb, hget⟩ := forall₂_getElem? hm hs
  have hflag : isRolledUp c.keys flags a = b := by
    rw [isRolledUp, List.getD_eq_getElem?_getD, hb, Option.getD_some]
  have hne : bit ≠ 0 := by
    rintro rfl
    exact pow_ne_zero after two_ne_zero hbit.symm
  have hvalue : Value.int (if b then bit else 0) = .word (rolledUpBit c.keys flags a after) := by
    rw [rolledUpBit, hflag, ← Int64.ofInt_toInt bit, hbit]
    cases b <;> rfl
  rw [← hvalue]
  exact carries_choice hne hget

/-- The code for arguments that are group keys: the values of the terms add up to the mask. -/
theorem exists_groupingTerms {bit : Int64} (has : ∀ a ∈ as, a ∈ c.keys) (hlen : as.length ≤ 63)
    (hbit : as ≠ [] → bit.toInt = 2 ^ (as.length - 1)) :
    ∃ es, groupingTerms c bit as = .ok es ∧ ∀ {m flags}, RolledUp c flags m → ∃ ns : List ℕ,
      ns.sum = rolledUpMask c.keys flags as ∧
        List.Forall₂ (fun e (n : ℕ) => e.rep = .prim .i64 ∧ e.Carries m (.word n)) es ns := by
  induction as generalizing bit with
  | nil => exact ⟨[], rfl, fun _ => ⟨[], by simp [rolledUpMask], .nil⟩⟩
  | cons a as ih =>
    rw [List.length_cons] at hlen
    have hfirst : bit.toInt = 2 ^ as.length := hbit (List.cons_ne_nil a as)
    have hnext : as ≠ [] → (bit >>> 1).toInt = 2 ^ (as.length - 1) := by
      intro hne
      have hpos := List.length_pos_of_ne_nil hne
      exact shiftRight_bit (by omega) (by rw [hfirst, Nat.sub_add_cancel hpos])
    obtain ⟨s, hs, hterm⟩ := groupingTerm_of_mem (has a (by simp)) bit
    obtain ⟨es, hes, hsum⟩ := ih (fun b hb => has b (by simp [hb])) (by omega) hnext
    refine ⟨_ :: es, by rw [groupingTerms, hterm, hes]; rfl, fun {m flags} hm => ?_⟩
    obtain ⟨ns, hns, hall⟩ := hsum hm
    refine ⟨rolledUpBit c.keys flags a as.length :: ns, by rw [List.sum_cons, hns, rolledUpMask_cons], .cons ?_ hall⟩
    exact ⟨rep_mkCond rfl (by simp [Expr.rep, long]), carries_groupingTerm hs hfirst hm⟩

/-- An argument that is no group key is refused. -/
theorem groupingTerms_of_notMem {k : ℕ} (hk : k ∈ as) (hkey : k ∉ c.keys) (bit : Int64) :
    ∃ reason, groupingTerms c bit as = .error (.invalidCall "GROUPING" reason) := by
  induction as generalizing bit with
  | nil => cases hk
  | cons a as ih =>
    by_cases ha : a ∈ c.keys
    · have hmem : k ∈ as := (List.mem_cons.1 hk).resolve_left fun h => hkey (h ▸ ha)
      obtain ⟨s, -, hterm⟩ := groupingTerm_of_mem ha bit
      obtain ⟨reason, hrest⟩ := ih hmem (bit >>> 1)
      rw [groupingTerms, hterm, hrest]
      exact ⟨_, rfl⟩
    · have hnone : groupingTerm c a bit =
          .error (.invalidCall "GROUPING" (toString a ++ " is not a group key")) := by
        rw [groupingTerm, List.idxOf?_eq_none_iff.2 ha]
      rw [groupingTerms, hnone]
      exact ⟨_, rfl⟩

/-! ### The code of the result -/

theorem fits_of_bigInt (h : c.returnType.name = .bigInt) (w : Int64) : (Value.int w).Fits c.rep := by
  have hbig := fits_big w
  unfold AggregateCall.rep SqlType.rep
  rw [h]
  cases c.returnType.nullable with
  | false => exact hbig
  | true => exact Value.fits_boxed_iff.2 (.inr hbig)

/-- With one grouping set or without arguments, the result is zero. -/
theorem exists_groupingValue_zero (hreturn : c.returnType.name = .bigInt)
    (h : c.groupingSets ≤ 1 ∨ c.arguments = []) :
    ∃ e, groupingValue c = .ok e ∧ ∀ m : Machine, e.EvalsTo m (.int 0) :=
  ⟨_, if_pos h, fun _ => ((carries_const (fits_big 0)).mkConvert (fits_of_bigInt hreturn 0)).evalsTo⟩

/-- With several grouping sets and at most 63 arguments, all of them group keys, the result is the mask. -/
theorem exists_groupingValue (hreturn : c.returnType.name = .bigInt) (hsets : 1 < c.groupingSets)
    (hsome : c.arguments ≠ []) (hkeys : ∀ a ∈ c.arguments, a ∈ c.keys)
    (hlen : c.arguments.length ≤ 63) :
    ∃ e, groupingValue c = .ok e ∧ ∀ {m flags}, RolledUp c flags m →
      e.EvalsTo m (.word (rolledUpMask c.keys flags c.arguments)) := by
  obtain ⟨bit, hfirst, hbit⟩ := (firstBit?_spec (mt List.length_eq_zero_iff.1 hsome)).1 hlen
  obtain ⟨es, hes, hsum⟩ := exists_groupingTerms hkeys hlen fun _ => hbit
  have hno : ¬(c.groupingSets ≤ 1 ∨ c.arguments = []) := not_or.2 ⟨by omega, hsome⟩
  unfold groupingValue
  simp only [if_neg hno, hfirst, hes]
  cases es with
  | nil =>
    refine ⟨_, rfl, fun {m flags} hm => ?_⟩
    obtain ⟨ns, hns, hall⟩ := hsum hm
    cases hall
    rw [← hns]
    exact ((carries_const (fits_of_bigInt hreturn 0)).mkConvert (fits_of_bigInt hreturn 0)).evalsTo
  | cons e es =>
    refine ⟨_, rfl, fun {m flags} hm => ?_⟩
    obtain ⟨ns, hns, hall⟩ := hsum hm
    obtain - | ⟨he, hrest⟩ := hall
    rename_i n ns
    rw [List.sum_cons] at hns
    have hfits : Word.Fits (rolledUpMask c.keys flags c.arguments) := fits_rolledUpMask hlen
    rw [← hns] at hfits ⊢
    exact ((carries_foldl_add hrest he hfits).mkConvert (fits_of_bigInt hreturn _)).evalsTo

theorem groupingValue_of_length (hsets : 1 < c.groupingSets) (hlen : 63 < c.arguments.length) :
    groupingValue c = .error (.invalidCall "GROUPING"
      ("at most 63 arguments, got " ++ toString c.arguments.length)) := by
  have hsome : c.arguments ≠ [] := List.ne_nil_of_length_pos (by omega)
  rw [groupingValue, if_neg (not_or.2 ⟨by omega, hsome⟩), (firstBit?_spec (by omega)).2 hlen]

theorem groupingValue_of_notMem (hsets : 1 < c.groupingSets) {k : ℕ} (hk : k ∈ c.arguments) (hkey : k ∉ c.keys) :
    ∃ reason, groupingValue c = .error (.invalidCall "GROUPING" reason) := by
  unfold groupingValue
  rw [if_neg (not_or.2 ⟨by omega, List.ne_nil_of_mem hk⟩)]
  cases firstBit? c.arguments.length with
  | none => exact ⟨_, rfl⟩
  | some bit =>
    obtain ⟨reason, hterms⟩ := groupingTerms_of_notMem hk hkey bit
    simp only [hterms]
    exact ⟨_, rfl⟩

end Strategy

/-! ### Groups -/

namespace AggregateProgram

variable {p : AggregateProgram}

/-- Before the result, a group only binds slots, and the group keys are bound last. -/
theorem exists_group_grouping (hp : p.Implements .grouping c) (hframe : p.frame = none) (g : Group) (m : Machine) :
    ∃ m' : Machine, ((p.group g).result m).1 =
      (p.value.eval.result (m'.bindSlots (c.keySlots ++ c.rolledUpSlots) g.keys)).1 := by
  have hadd : p.add = [] := (Except.ok.inj hp.add).symm
  obtain ⟨m', hrows⟩ : ∃ m', (p.takePlaced g.rows).result m = (.ok (), m') := by
    induction g.rows generalizing m with
    | nil => exact ⟨m, rfl⟩
    | cons row rows ih =>
      obtain ⟨m', hrest⟩ := ih (m.bindSlots p.arguments row.arguments)
      refine ⟨m', ?_⟩
      rw [takePlaced, bindFrame, hframe, take, hadd]
      exact hrest
  refine ⟨m', ?_⟩
  unfold group start finish bindKeys Block.exec
  rw [hp.reset, hp.result, hp.keys, result_bind]
  show ((p.takePlaced g.rows >>= _).result m).1 = _
  rw [result_bind, hrows]
  rfl

theorem rolledUp_bindSlots {values : List Value} (hvalues : values.length = c.keys.length)
    (hflags : flags.length = c.keys.length) (m : Machine) :
    Strategy.RolledUp c flags (m.bindSlots (c.keySlots ++ c.rolledUpSlots) (values ++ flags.map .bool)) := by
  have hkeys : c.keySlots.length = values.length := by
    rw [hvalues]
    simp [AggregateCall.keySlots, Slot.numbered]
  have hsplit : m.bindSlots (c.keySlots ++ c.rolledUpSlots) (values ++ flags.map .bool) =
      (m.bindSlots c.keySlots values).bindSlots c.rolledUpSlots (flags.map .bool) := by
    unfold Machine.bindSlots
    rw [List.zip_append hkeys, List.foldl_append]
  have hlength : c.rolledUpSlots.length = (flags.map Value.bool).length := by
    rw [Strategy.length_rolledUpSlots, List.length_map, hflags]
  have hbound := Machine.forall₂_get?_bindSlots (Slot.nodup_numbered _ _) hlength (m.bindSlots c.keySlots values)
  rw [List.forall₂_map_right_iff] at hbound
  rw [hsplit]
  exact hbound

end AggregateProgram

/-- GROUPING and GROUPING_ID of type BIGINT. With one grouping set or without arguments, the result is zero. With
several grouping sets and arguments that are group keys, the call compiles exactly with at most 63 arguments, and then
the result is the sum of the bits of the arguments that are rolled up, the first one highest; an argument that occurs
twice has two bits, and of a key that occurs twice the first flag counts. An argument that is no group key is
refused. -/
theorem AggregateFunction.group_grouping {a : Aggregate} (ha : a = .grouping ∨ a = .groupingId) (settings : Settings)
    (call : AggregateCall) (hreturn : call.returnType.name = .bigInt) :
    (call.groupingSets ≤ 1 ∨ call.arguments = [] →
      ∃ p, (builtin a).program settings call false = .ok p ∧ ∀ g m, ((p.group g).result m).1 = .ok (.int 0)) ∧
    (1 < call.groupingSets → call.arguments ≠ [] → (∀ k ∈ call.arguments, k ∈ call.keys) →
      ((∃ p, (builtin a).program settings call false = .ok p) ↔ call.arguments.length ≤ 63) ∧
      ∀ p, (builtin a).program settings call false = .ok p →
        ∀ (rows : List GroupRow) (values : List Value) (flags : List Bool) (m : Machine),
          values.length = call.keys.length → flags.length = call.keys.length →
          ∃ n : Int64, ((p.group ⟨rows, values ++ flags.map .bool⟩).result m).1 = .ok (.int n) ∧
            n.toInt = rolledUpMask call.keys flags call.arguments) ∧
    (1 < call.groupingSets → ∀ k ∈ call.arguments, k ∉ call.keys →
      ∃ reason, (builtin a).program settings call false = .error (.invalidCall "GROUPING" reason)) := by
  have hstrategy : (builtin a).strategy settings false = .ok .grouping := by
    rcases ha with rfl | rfl <;> rfl
  have hprogram : ∀ {e}, Strategy.groupingValue (call.complete settings) = .ok e →
      ∃ p, (builtin a).program settings call false = .ok p ∧ p.Implements .grouping (call.complete settings) ∧
        p.frame = none ∧ p.value = e := by
    intro e he
    have hvalue : Strategy.grouping.value (call.complete settings) = .ok e := he
    obtain ⟨p, hp, himp, hframe⟩ := exists_implements hstrategy rfl hvalue
    exact ⟨p, hp, himp, hframe, Except.ok.inj (himp.value.symm.trans he)⟩
  have herror : ∀ {e}, Strategy.groupingValue (call.complete settings) = .error e →
      (builtin a).program settings call false = .error e := by
    intro e he
    unfold AggregateCall.complete at he
    unfold program
    simp only [bind, Except.bind, hstrategy, Strategy.add, Strategy.value, he]
  refine ⟨fun hzero => ?_, fun hsets hsome hkeys => ?_, fun hsets k hk hkey => ?_⟩
  · obtain ⟨e, he, heval⟩ := Strategy.exists_groupingValue_zero (c := call.complete settings) hreturn hzero
    obtain ⟨p, hp, himp, hframe, rfl⟩ := hprogram he
    refine ⟨p, hp, fun g m => ?_⟩
    obtain ⟨m', hm'⟩ := AggregateProgram.exists_group_grouping himp hframe g m
    rw [hm', heval]
  · by_cases hlen : call.arguments.length ≤ 63
    · obtain ⟨e, he, heval⟩ :=
        Strategy.exists_groupingValue (c := call.complete settings) hreturn hsets hsome hkeys hlen
      obtain ⟨p, hp, himp, hframe, rfl⟩ := hprogram he
      refine ⟨⟨fun _ => hlen, fun _ => ⟨p, hp⟩⟩, fun p' hp' rows values flags m hvalues hflags => ?_⟩
      cases hp.symm.trans hp'
      obtain ⟨m', hm'⟩ := AggregateProgram.exists_group_grouping himp hframe ⟨rows, values ++ flags.map .bool⟩ m
      have hrolled := AggregateProgram.rolledUp_bindSlots (c := call.complete settings) hvalues hflags m'
      refine ⟨_, hm'.trans (congrArg Prod.fst (heval hrolled)), ?_⟩
      exact Word.toInt_ofInt (fits_rolledUpMask hlen)
    · have hfail := herror (Strategy.groupingValue_of_length (c := call.complete settings) hsets (not_le.1 hlen))
      have hnone : ∀ p, (builtin a).program settings call false ≠ .ok p := by simp [hfail]
      exact ⟨iff_of_false (not_exists.2 hnone) hlen, fun p hp => absurd hp (hnone p)⟩
  · obtain ⟨reason, hreason⟩ := Strategy.groupingValue_of_notMem (c := call.complete settings) hsets hk hkey
    exact ⟨reason, herror hreason⟩

/-- Of the keys 3, 7 and 5, the first and the last are rolled up. The arguments 5, 7 and 3 give the bits 1, 0 and 1. -/
theorem AggregateFunction.group_grouping_two_of_three :
    let call : AggregateCall :=
      { returnType := .plain .bigInt false, groupingSets := 2, keys := [3, 7, 5], arguments := [5, 7, 3] }
    ∃ p, (builtin .groupingId).program {} call false = .ok p ∧
      ((p.group ⟨[], [.null, .null, .null, .bool true, .bool false, .bool true]⟩).result {}).1 = .ok (.int 5) := by
  intro call
  obtain ⟨-, hmask, -⟩ := group_grouping (a := .groupingId) (.inr rfl) {} call rfl
  obtain ⟨hcompiles, hvalue⟩ := hmask (by decide) (by decide) (by decide)
  obtain ⟨p, hp⟩ := hcompiles.2 (by decide)
  obtain ⟨n, hn, hmask⟩ := hvalue p hp [] [.null, .null, .null] [true, false, true] {} rfl rfl
  have hfive : n = 5 := Int64.toInt_inj.1 (hmask.trans (by decide))
  exact ⟨p, hp, hfive ▸ hn⟩

end SqlCode

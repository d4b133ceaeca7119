import SqlCode.Proofs.AggregateCode
import SqlCode.Proofs.Representation

/-!
# Rows with nulls

A strict aggregate does not see rows in which an argument is null. Taking in such a row changes nothing but
the slots of the arguments (`take_of_null`); a row without nulls acts alike in states that differ in these
slots only (`alike_take`); and the result does not read them (`alike_finish`). The run over all rows and the
run over the rows without nulls therefore keep in step (`alike_takeAll`).
-/

namespace SqlCode

open Run SqlCode.Expr Strategy Machine

variable {f : Fold} {m : Machine} {s : Strategy} {c : AggregateCall}

/-! ### Runs over rows -/

/-- Takes in rows in order. -/
def AggregateProgram.takeAll (p : AggregateProgram) : List (List Value) → Run Unit
  | [] => return ()
  | row :: rows => do
    p.take row
    p.takeAll rows

/-- The result of a group with the given rows. -/
def AggregateProgram.aggregate (p : AggregateProgram) (rows : List (List Value)) : Run Value := do
  p.start
  p.takeAll rows
  p.finish

/-- No value of the row is null. -/
def Value.isComplete (row : List Value) : Bool := !row.any Value.isNull

theorem Expr.eq_of_same_null {a : Expr} {r : Rep} (h : a.same (.const .null r)) :
    a = .const .null r := by
  cases a with
  | const v r' =>
    simp only [same, Bool.and_eq_true, beq_iff_eq] at h
    cases v <;> simp_all [Value.same]
  | _ => simp [same] at h

/-! ### The test for nulls -/

namespace Strategy

/-- On slots that hold values of their representations, the test finds whether one of them is null. -/
theorem evalsTo_noNull {slots : List Slot} {row : List Value}
    (h : List.Forall₂ (fun s v => m.get? s.name = some v ∧ v.Fits s.rep) slots row) :
    (noNull slots).EvalsTo m (.bool (Value.isComplete row)) := by
  have hall : List.Forall₂ (fun e b => e.EvalsTo m (.bool b))
      (slots.map fun s => (Expr.slot s).mkIsNull.mkNot) (row.map fun v => !v.isNull) := by
    induction h with
    | nil => exact .nil
    | @cons s v _ _ hs _ ih =>
      refine .cons ?_ ih
      have hslot : (Expr.slot s).EvalsTo m v := evalsTo_slot hs.1
      have hnull := evalsTo_mkIsNull hslot
      rw [show (Expr.slot s).rep = s.rep from rfl, Value.isNull_of_fits hs.2] at hnull
      exact refines_mkNot _ _ _ (result_unary_eq_ok.2 ⟨_, hnull, rfl⟩)
  have hconj := evalsTo_conj hall
  rwa [List.all_map, show (row.all (id ∘ fun v => !v.isNull)) = Value.isComplete row by
    simp [Value.isComplete, List.all_eq_not_any_not]] at hconj

theorem result_strictAdd_of_null {b : Block} (h : strictAdd f c = .ok b)
    (ht : (noNull c.argumentSlots).EvalsTo m (.bool false)) :
    (Stmt.execBlock b).result m = (.ok (), m) := by
  obtain ⟨body, -, rfl⟩ := strictAdd_eq_ok h
  split_ifs with hconst
  · -- a test that is known to hold does not fail
    obtain ⟨r, hr⟩ := eq_const_of_isConstBool hconst
    rw [hr] at ht
    cases ht
  · rw [Stmt.result_execBlock_cons, Stmt.when, Stmt.result_ite, ht]
    rfl

/-- The fold of a strategy that tests rows for nulls. -/
def fold? (s : Strategy) (c : AggregateCall) : Option Fold :=
  match s with
  | .strict f => some f
  | .windowCount => if c.hasNullableArgument then some .count else none
  | _ => none

/-- A strategy that tests rows for nulls has the code of the strict strategy. -/
theorem eq_strict_of_fold? (h : s.fold? c = some f) :
    s.accumulator c = (strict f).accumulator c ∧ s.reset c = strictReset f c ∧
      s.add c = strictAdd f c ∧ s.value c = .ok (strictValue f c) := by
  cases s with
  | strict g =>
    cases h
    exact ⟨rfl, rfl, rfl, rfl⟩
  | windowCount =>
    unfold fold? at h
    split_ifs at h with hn
    cases h
    exact windowCount_of_hasNullableArgument hn
  | _ => cases h

/-- The note has a slot of its own. -/
theorem name_taken_ne {t : Slot} (ht : taken? f c = some t) (hf : (f.state? c).isSome) :
    t.name ≠ "acc0" := by
  obtain ⟨r, hr⟩ := Option.isSome_iff_exists.1 hf
  unfold taken? at ht
  rw [hr] at ht
  split_ifs at ht
  cases ht
  show "acc" ++ toString 1 ≠ "acc0"
  decide

end Strategy

/-! ### The run over all rows and the run over the rows without nulls -/

namespace AggregateProgram

variable {p : AggregateProgram} {m' : Machine} {row : List Value}

/-- The row has a value of its type for each parameter. -/
abbrev Suits (c : AggregateCall) (row : List Value) : Prop :=
  List.Forall₂ (fun v t => v.Fits t.rep) row c.parameters

/-- The states differ in the slots of the arguments only. -/
abbrev Apart (c : AggregateCall) : Machine → Machine → Prop :=
  Machine.Twins (· ∉ c.argumentSlots.map (·.name))

theorem length_argumentSlots (h : Suits c row) : c.argumentSlots.length = row.length := by
  rw [h.length_eq]
  simp [AggregateCall.argumentSlots, Slot.numbered]

theorem forall₂_argumentSlots (h : Suits c row) (m : Machine) :
    List.Forall₂ (fun s v => (m.bindSlots c.argumentSlots row).get? s.name = some v ∧ v.Fits s.rep)
      c.argumentSlots row := by
  have hget := forall₂_get?_bindSlots (Slot.nodup_numbered "arg" _) (length_argumentSlots h) m
  have hfits : List.Forall₂ (fun s v => v.Fits s.rep) c.argumentSlots row := by
    have hreps : List.Forall₂ (fun r v => v.Fits r) (c.argumentSlots.map (·.rep)) row := by
      rw [AggregateCall.argumentSlots, Slot.reps_numbered, List.forall₂_map_left_iff]
      exact h.flip
    rwa [List.forall₂_map_left_iff] at hreps
  rw [List.forall₂_iff_zip] at hget hfits ⊢
  exact ⟨hget.1, fun hmem => ⟨hget.2 hmem, hfits.2 hmem⟩⟩

/-- A row with a null changes the slots of the arguments only. -/
theorem take_of_null (hp : p.Implements s c) (hf : s.fold? c = some f) (hrow : Suits c row)
    (hnull : Value.isComplete row = false) (m : Machine) :
    (p.take row).result m = (.ok (), m.bindSlots c.argumentSlots row) := by
  have hadd : Strategy.strictAdd f c = .ok p.add := by
    rw [← (eq_strict_of_fold? hf).2.2.1, hp.add]
  have htest := evalsTo_noNull (forall₂_argumentSlots hrow m)
  rw [hnull] at htest
  rw [hp.result_take]
  exact result_strictAdd_of_null hadd htest

theorem apart_bindSlots (m : Machine) (row : List Value) :
    Apart c m (m.bindSlots c.argumentSlots row) :=
  ⟨bindSlots_rest _ _ m, fun _ hx => (get?_bindSlots_of_notMem hx row m).symm⟩

/-- Against a row with a null, doing nothing keeps the states in step. -/
theorem alike_take_of_null (hp : p.Implements s c) (hf : s.fold? c = some f) (hrow : Suits c row)
    (hnull : Value.isComplete row = false) :
    Alike (Apart c) (Apart c) (p.take row) (pure ()) := by
  intro m m' hm
  rw [take_of_null hp hf hrow hnull]
  exact ⟨rfl, fun _ _ => (apart_bindSlots m row).symm.trans hm⟩

/-- A row acts alike in states that differ in the slots of the arguments: it binds all of them. -/
theorem alike_take (hp : p.Implements s c) (hrow : Suits c row) :
    Alike (Apart c) (Apart c) (p.take row) (p.take row) := by
  have hbound : Alike (Apart c) (Machine.Twins fun _ => True)
      (modify (Machine.bindSlots p.arguments row) : Run Unit)
      (modify (Machine.bindSlots p.arguments row)) := by
    refine .modify fun m m' hm => ?_
    rw [hp.arguments]
    exact (hm.bindSlots (length_argumentSlots hrow).le).mono fun x _ => em' _
  refine .bind hbound fun _ => ?_
  have hcode := Stmt.alike_execBlock (indistinct_twins fun _ => True)
    (Stmt.usesAll_iff.2 fun t (_ : t ∈ p.add) => t.uses_true)
  exact hcode.mono (fun _ _ h => h) fun _ _ h => h.mono fun _ _ => trivial

theorem notMem_argumentSlots {x : String} (h : Slot.mark x ≠ Slot.mark "arg") :
    x ∉ c.argumentSlots.map (·.name) := fun hx => h (Slot.mark_numbered (by decide) hx)

theorem alike_finish (hp : p.Implements s c) : Alike (Apart c) (Apart c) p.finish p.finish := by
  have huses : p.value.Uses (· ∉ c.argumentSlots.map (·.name)) fun _ => True := by
    refine uses_value hp.value (fun x hx => ?_) (fun t ht => ?_) (fun _ x hx => ?_) fun _ _ => trivial
    · exact notMem_argumentSlots (by rw [Slot.mark_numbered (by decide) hx]; decide)
    · have hmark : Slot.mark t.name = Slot.mark "rolled_up" :=
        Slot.mark_numbered (by decide) (List.mem_map_of_mem ht)
      exact notMem_argumentSlots (by rw [hmark]; decide)
    · refine notMem_argumentSlots ?_
      have hmarks : ∀ y ∈ Fold.frameNames, Slot.mark y ≠ Slot.mark "arg" := by decide
      exact hmarks x hx
  rw [hp.finish_eq]
  exact alike_eval (indistinct_twins _) huses

/-- Over states that differ in the slots of the arguments, taking in all rows and taking in the rows without
nulls keep in step. -/
theorem alike_takeAll (hp : p.Implements s c) (hf : s.fold? c = some f) {rows : List (List Value)}
    (hrows : ∀ row ∈ rows, Suits c row) :
    Alike (Apart c) (Apart c) (p.takeAll rows) (p.takeAll (rows.filter Value.isComplete)) := by
  induction rows with
  | nil => exact .pure ()
  | cons row rows ih =>
    have hrow := hrows row (by simp)
    have hrest := ih fun r hr => hrows r (by simp [hr])
    cases hc : Value.isComplete row with
    | false =>
      rw [List.filter_cons_of_neg (by simp [hc])]
      exact (alike_take_of_null hp hf hrow hc).bind fun _ => hrest
    | true =>
      rw [List.filter_cons_of_pos hc]
      exact (alike_take hp hrow).bind fun _ => hrest

/-! ### Groups in which no row is taken in -/

theorem get?_taken_of_start (hp : p.Implements s c) (hf : s.fold? c = some f) {t : Slot}
    (ht : Strategy.taken? f c = some t) {m₁ : Machine} (h : p.start.result m = (.ok (), m₁)) :
    m₁.get? t.name = some (.bool false) := by
  unfold start Block.exec at h
  rw [hp.reset, (eq_strict_of_fold? hf).2.1, Strategy.strictReset, ht] at h
  simp only [Option.toList_some, List.map_cons, List.map_nil, List.singleton_append] at h
  rw [Stmt.result_execBlock_cons, Stmt.result_assign] at h
  cases hr : f.state? c with
  | none =>
    rw [hr] at h
    cases h
    exact get?_bind_self _ _ _
  | some r =>
    have hname : t.name ≠ "acc0" := name_taken_ne ht (by rw [hr]; rfl)
    rw [hr] at h
    -- the state of the fold is in a slot of its own
    change (Stmt.execBlock [.assign (f.slot c) (f.initial r)]).result (m.bind t.name (.bool false)) = _ at h
    rw [Stmt.result_execBlock_cons, Stmt.result_assign] at h
    obtain ⟨_, m₂, hassign, hnil⟩ := andThen_eq_ok.1 h
    cases hnil
    obtain ⟨v, m₃, heval, hbind⟩ := andThen_eq_ok.1 hassign
    cases hbind
    have hkeeps : (m.bind t.name (.bool false)).WritesOnly [] _ := writesOnly_eval (f.initial r) _
    rw [heval] at hkeeps
    calc (m₃.bind "acc0" v).get? t.name = m₃.get? t.name := get?_bind_of_ne m₃ v hname
      _ = (m.bind t.name (.bool false)).get? t.name := hkeeps.slots t.name List.not_mem_nil
      _ = some (.bool false) := get?_bind_self m t.name _

theorem finish_of_not_taken (hp : p.Implements s c) (hf : s.fold? c = some f) {t : Slot}
    (ht : Strategy.taken? f c = some t) (hm : m.get? t.name = some (.bool false)) :
    p.finish.result m = (.ok .null, m) := by
  have hvalue : p.value = .mkCond t (f.value c) (.null c.rep) := by
    have h := (eq_strict_of_fold? hf).2.2.2
    rw [hp.value, Strategy.strictValue, ht] at h
    exact Except.ok.inj h
  have htest : (Expr.slot t).EvalsTo m (.bool false) := evalsTo_slot hm
  rw [hp.finish_eq, hvalue]
  refine (result_mkCond htest fun _ hsame => ?_).trans rfl
  rw [eq_of_same_null hsame]
  rfl

theorem result_start_fst (hp : p.Implements s c) (hf : s.fold? c = some f)
    (hr : ∀ rs, f ≠ .routines rs) (m : Machine) : (p.start.result m).1 = .ok () := by
  have hinitial : ∀ (r : Rep) (n : Machine), ∃ v, (f.initial r).EvalsTo n v := by
    intro r n
    cases f with
    | sum | extreme => cases r <;> exact ⟨_, rfl⟩
    | bits op => cases op <;> cases r <;> exact ⟨_, rfl⟩
    | count | rowNumber => cases r <;> exact ⟨_, rfl⟩
    | routines rs => exact absurd rfl (hr rs)
    | _ => exact ⟨_, rfl⟩
  -- every statement of the start is an assignment of a value that is there
  have hassign : ∀ t ∈ Strategy.strictReset f c, ∀ n : Machine, (t.exec.result n).1 = .ok () := by
    intro t ht n
    rcases List.mem_append.1 ht with ht | ht
    · obtain ⟨x, -, rfl⟩ := List.mem_map.1 ht
      rfl
    · obtain ⟨r, -, rfl⟩ := List.mem_map.1 ht
      obtain ⟨v, hv⟩ := hinitial r n
      rw [Stmt.result_assign, hv]
      rfl
  unfold start Block.exec
  rw [hp.reset, (eq_strict_of_fold? hf).2.1]
  generalize Strategy.strictReset f c = block at hassign
  induction block generalizing m with
  | nil => rfl
  | cons t block ih =>
    rw [Stmt.result_execBlock_cons]
    have ht := hassign t (by simp) m
    rcases hres : t.exec.result m with ⟨r, n⟩
    rw [hres] at ht
    cases ht
    exact ih n fun t' ht' => hassign t' (by simp [ht'])

end AggregateProgram

/-! ### The main result -/

namespace AggregateFunction

/-- The fold of a call whose rows are tested for nulls. -/
def fold? (f : AggregateFunction) (settings : Settings) (call : AggregateCall) (window : Bool) :
    Option Fold :=
  match f.strategy settings window with
  | .ok s => s.fold? call
  | .error _ => none

theorem ne_routines_of_builtin {a : Aggregate} {settings : Settings} {window : Bool}
    {g : Fold} (hs : (builtin a).strategy settings window = .ok s)
    (hg : s.fold? c = some g) (rs : AggregateRoutines) : g ≠ .routines rs := by
  rintro rfl
  rcases strategy_builtin hs with ⟨-, h⟩ | ⟨-, h⟩
  · cases a <;> cases h <;> simp [Strategy.fold?] at hg
  · cases a <;> cases h <;> simp [Strategy.fold?] at hg

open AggregateProgram in
/-- A call whose rows are tested for nulls gives what it gives over the rows without nulls. If there are no
such rows and the result may be null, it is null; only a routine that starts the group can fault then. -/
theorem aggregate_eq_without_nulls {f : AggregateFunction} {settings : Settings} {call : AggregateCall}
    {window : Bool} {p : AggregateProgram} (hp : f.program settings call window = .ok p)
    (hf : (f.fold? settings call window).isSome = true) {rows : List (List Value)}
    (hrows : ∀ row ∈ rows, Suits call row) (m : Machine) :
    ((p.aggregate rows).result m).1 =
        ((p.aggregate (rows.filter Value.isComplete)).result m).1 ∧
      (rows.filter Value.isComplete = [] → call.returnType.nullable = true →
        ((p.aggregate rows).result m).1 = (p.start.result m).1.map fun _ => .null) ∧
      ∀ a, f = .builtin a → (p.start.result m).1 = .ok () := by
  obtain ⟨s, hs, himp, -⟩ := implements_of_program hp
  obtain ⟨g, hg⟩ : ∃ g, s.fold? (call.complete settings) = some g := by
    unfold fold? at hf
    rw [hs] at hf
    exact Option.isSome_iff_exists.1 hf
  have hsame : ((p.aggregate rows).result m).1 =
      ((p.aggregate (rows.filter Value.isComplete)).result m).1 := by
    unfold aggregate
    rw [result_bind, result_bind]
    rcases p.start.result m with ⟨r, n⟩
    cases r with
    | error e => rfl
    | ok u =>
      have hrun := (alike_takeAll himp hg hrows).bind fun _ => alike_finish himp
      exact (hrun (.refl _ n)).1
  refine ⟨hsame, fun hnone hnull => ?_, fun a ha => ?_⟩
  · obtain ⟨t, ht⟩ : ∃ t, Strategy.taken? g (call.complete settings) = some t :=
      ⟨_, if_pos hnull⟩
    rw [hsame, hnone]
    unfold aggregate
    rw [result_bind]
    rcases hr : p.start.result m with ⟨r, n⟩
    cases r with
    | error e => rfl
    | ok u =>
      have hfinish := finish_of_not_taken himp hg ht (get?_taken_of_start himp hg ht hr)
      exact congrArg Prod.fst hfinish
  · subst ha
    exact result_start_fst himp hg (ne_routines_of_builtin hs hg) m

open AggregateProgram in
/-- A sum over a null and a number is the sum over the number, and over a null alone it is null. -/
theorem aggregate_eq_without_nulls_sum :
    let integer : SqlType := .plain .integer true
    let call : AggregateCall := { returnType := integer, parameters := [integer] }
    ∃ p, (builtin .sum).program {} call false = .ok p ∧
      (∀ row ∈ [[.null], [.int 5]], Suits call row) ∧
      ((p.aggregate [[.null], [.int 5]]).result {}).1 = ((p.aggregate [[.int 5]]).result {}).1 ∧
      ((p.aggregate [[.null]]).result {}).1 = .ok .null := by
  intro integer call
  have hnull : Suits call [.null] := .cons rfl .nil
  have hfive : Suits call [.int 5] := .cons rfl .nil
  have hrows : ∀ row ∈ [[.null], [.int 5]], Suits call row := by simp [hnull, hfive]
  obtain ⟨p, hp⟩ : ∃ p, (builtin .sum).program {} call false = .ok p := ⟨_, rfl⟩
  refine ⟨p, hp, hrows, (aggregate_eq_without_nulls hp rfl hrows {}).1, ?_⟩
  obtain ⟨-, hnone, hstart⟩ := aggregate_eq_without_nulls hp rfl
    (List.forall_mem_singleton.2 hnull) {}
  rw [hnone rfl rfl, hstart .sum rfl]
  rfl

end AggregateFunction

end SqlCode

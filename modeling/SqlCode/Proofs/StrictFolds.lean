import SqlCode.Proofs.CompiledCalls
import SqlCode.Proofs.FailedRows

/-!
# Strict aggregates as folds

The code of a strict aggregate computes a left fold over the rows without nulls. A row is described by what it
makes of the accumulator (`Fold.Computes`), and from that follows what a group gives.
-/

namespace SqlCode

open Run SqlCode.Expr Strategy AggregateProgram Machine

variable {vs : List Value} {f : Fold} {rows : List (List Value)} {p : AggregateProgram} {settings : Settings}
  {c : AggregateCall} {window : Bool} {start v : Value} {e : Fault} {r : Rep} {m : Machine} {good : Value → Prop}

theorem Run.fst_result_bind_of_error {α β : Type} {x : Run α} {k : α → Run β}
    (h : (x.result m).1 = .error e) : ((x >>= k).result m).1 = .error e := by
  rw [result_bind]
  rcases hx : x.result m with ⟨r, n⟩
  rw [hx] at h
  cases h
  rfl

/-- A fold that faults does so at a first item. -/
theorem exists_of_foldlM_error {α β : Type} {next : β → α → Except Fault β} {xs : List α} {b : β}
    (h : xs.foldlM next b = .error e) :
    ∃ before x after b', xs = before ++ x :: after ∧ before.foldlM next b = .ok b' ∧ next b' x = .error e := by
  induction xs generalizing b with
  | nil => cases h
  | cons x xs ih =>
    rw [List.foldlM_cons] at h
    cases hx : next b x with
    | error e' =>
      rw [hx] at h
      cases h
      exact ⟨[], x, xs, b, rfl, rfl, hx⟩
    | ok b₁ =>
      rw [hx] at h
      obtain ⟨before, y, after, b', rfl, hbefore, hy⟩ := ih h
      refine ⟨x :: before, y, after, b', rfl, ?_, hy⟩
      rw [List.foldlM_cons, hx]
      exact hbefore

/-- Starting a strict aggregate: no row is noted, and the accumulator gets its first value. -/
theorem AggregateProgram.start_strict
    (hp : p.Implements (.strict f) c) (hr : f.state? c = some r) (hinitial : ∀ m, (f.initial r).EvalsTo m v)
    (m : Machine) : ∃ m', p.start.result m = (.ok (), m') ∧ m'.get? "acc0" = some v ∧
      (∀ t, Strategy.taken? f c = some t → m'.get? t.name = some (.bool false)) ∧ m'.routines = m.routines := by
  have hassign : ∀ m : Machine, (Stmt.execBlock [.assign (f.slot c) (f.initial r)]).result m =
      (.ok (), m.bind "acc0" v) := by
    intro m
    rw [Stmt.result_execBlock_singleton, Stmt.result_assign, hinitial m]
    rfl
  have hreset : p.reset = (Strategy.taken? f c).toList.map (fun t => Stmt.assign t (.bool false)) ++
      [.assign (f.slot c) (f.initial r)] := by
    rw [hp.reset, Strategy.reset, Strategy.strictReset, hr]
    rfl
  unfold start Block.exec
  rw [hreset]
  cases ht : Strategy.taken? f c with
  | none =>
    refine ⟨_, hassign m, get?_bind_self m _ v, fun t ht' => ?_, rfl⟩
    cases ht'
  | some t =>
    refine ⟨_, hassign (m.bind t.name (.bool false)), get?_bind_self _ _ v, fun t' ht' => ?_, rfl⟩
    cases ht'
    rw [get?_bind_of_ne _ _ (name_taken_ne ht (by rw [hr]; rfl)), get?_bind_self]

/-- A row without nulls passes the test: it is noted and then folded in. -/
theorem AggregateProgram.take_of_isComplete
    (hp : p.Implements (.strict f) c) {row : List Value} (hrow : Suits c row) (hc : Value.isComplete row)
    {body : Block} (hbody : f.step c (c.argumentSlots.map fun s => (Expr.slot s).unbox) = .ok body) (m : Machine) :
    (p.take row).result m =
      (Stmt.execBlock body).result (Strategy.marked f c (m.bindSlots c.argumentSlots row)) := by
  have htest := evalsTo_noNull (forall₂_argumentSlots hrow m)
  rw [hc] at htest
  rw [hp.result_take]
  obtain ⟨body', hbody', ⟨e, -, hno⟩ | ⟨v, hv, hadd⟩⟩ :=
    result_strictAdd hp.add (m.bindSlots c.argumentSlots row)
  · exact absurd htest (hno _)
  · cases hv.symm.trans htest
    cases hbody.symm.trans hbody'
    exact hadd

/-- The result of a strict aggregate: null if it may be null and no row was noted, else the value of the fold. -/
theorem AggregateProgram.finish_strict
    (hp : p.Implements (.strict f) c) {taken : Bool}
    (hnote : ∀ t, Strategy.taken? f c = some t → m.get? t.name = some (.bool taken))
    (hvalue : (f.value c).EvalsTo m v) :
    p.finish.result m = (.ok (if c.returnType.nullable && !taken then .null else v), m) := by
  have hcode : p.value = Strategy.strictValue f c := (Except.ok.inj hp.value).symm
  rw [hp.finish_eq, hcode, Strategy.strictValue]
  cases hn : c.returnType.nullable with
  | false =>
    have ht : Strategy.taken? f c = none := by simp [Strategy.taken?, hn]
    rw [ht]
    exact hvalue
  | true =>
    obtain ⟨t, ht⟩ : ∃ t, Strategy.taken? f c = some t := ⟨_, if_pos hn⟩
    have htest : (Expr.slot t).EvalsTo m (.bool taken) := evalsTo_slot (hnote t ht)
    rw [ht]
    refine (result_mkCond htest fun _ hsame => ?_).trans ?_
    · rw [eq_of_same_null hsame]
      rfl
    · cases taken with
      | false => rfl
      | true => exact hvalue

namespace Fold

/-! ### Descriptions of folds -/

/-- In the state, the accumulator holds the value, and the note, if there is one, says whether a row was taken
in. -/
structure Holds (f : Fold) (c : AggregateCall) (a : Value) (taken : Bool) (m : Machine) : Prop where
  accumulator : m.get? "acc0" = some a
  note : ∀ t, Strategy.taken? f c = some t → m.get? t.name = some (.bool taken)
  unregistered : m.Unregistered f.calls

/-- From the state, the computation ends with the value in the accumulator, or in the fault. -/
def Reaches (f : Fold) (c : AggregateCall) (taken : Bool) (x : Run Unit) (m : Machine) :
    Except Fault Value → Prop
  | .ok a => ∃ m', x.result m = (.ok (), m') ∧ f.Holds c a taken m'
  | .error e => (x.result m).1 = .error e

/-- From the state, the computation stores the value in the accumulator and does nothing else, or it ends in the
fault. -/
def Stores (x : Run Unit) (m : Machine) : Except Fault Value → Prop
  | .ok a => x.result m = (.ok (), m.bind "acc0" a)
  | .error e => (x.result m).1 = .error e

theorem stores_of_result {x : Run Unit} {o : Except Fault Value}
    (h : x.result m = (Run.lift o >>= Run.assign "acc0").result m) : Stores x m o := by
  rw [result_bind, result_lift] at h
  cases o with
  | error e => exact congrArg Prod.fst h
  | ok a => exact h

theorem carries_argument {s : Slot} (h : m.get? s.name = some v) (hfits : v.Fits s.rep)
    (hv : v ≠ .null) : (Expr.slot s).unbox.Carries m v := (carries_slot h hfits).unbox hv

/-- The accumulator starts as `start`, a row without nulls takes it from `a` to `next a row`, and its last value
is the result. All its values are `good`. -/
structure Computes (f : Fold) (c : AggregateCall) (good : Value → Prop) (start : Value)
    (next : Value → List Value → Except Fault Value) : Prop where
  initial : ∃ r, f.state? c = some r ∧ ∀ m, (f.initial r).EvalsTo m start
  good_start : good start
  step : ∃ body, f.step c (c.argumentSlots.map fun s => (Expr.slot s).unbox) = .ok body ∧
    ∀ {m a row}, m.Unregistered f.calls → m.get? "acc0" = some a → good a →
      List.Forall₂ (fun s v => m.get? s.name = some v ∧ v.Fits s.rep) c.argumentSlots row →
      Value.isComplete row → Stores (Stmt.execBlock body) m (next a row)
  good_next : ∀ {a row a'}, good a → AggregateProgram.Suits c row → Value.isComplete row →
    next a row = .ok a' → good a'
  value : f.value c = .slot (f.slot c)

variable {a : Value} {taken : Bool}

theorem unregistered_of_calls_eq_nil (hf : f.calls = []) (m : Machine) : m.Unregistered f.calls := by
  rw [hf]
  intro g hg
  cases hg

theorem unregistered_singleton {g : String} (h : m.routines.get? g = none) : m.Unregistered [g] :=
  fun _ hg => List.mem_singleton.1 hg ▸ h

theorem Holds.bindSlots (h : f.Holds c a taken m) (hf : (f.state? c).isSome) (row : List Value) :
    f.Holds c a taken (m.bindSlots c.argumentSlots row) := by
  have hown : ∀ x ∈ ((Strategy.strict f).accumulator c).map (·.name),
      (m.bindSlots c.argumentSlots row).get? x = m.get? x := by
    intro x hx
    refine get?_bindSlots_of_notMem (notMem_argumentSlots ?_) row m
    rw [Slot.mark_numbered (by decide) hx]
    decide
  refine ⟨?_, fun t ht => ?_, ?_⟩
  · rw [hown "acc0" (mem_accumulator_strict.2 (.inl ⟨rfl, hf⟩)), h.accumulator]
  · rw [hown t.name (mem_accumulator_strict.2 (.inr ⟨t, ht, rfl⟩)), h.note t ht]
  · rw [bindSlots_rest]
    exact h.unregistered

theorem Holds.marked (h : f.Holds c a taken m) (hf : (f.state? c).isSome) :
    f.Holds c a true (Strategy.marked f c m) := by
  have hacc : ∀ t, Strategy.taken? f c = some t → "acc0" ≠ t.name := fun t ht =>
    (name_taken_ne ht hf).symm
  refine ⟨?_, fun t ht => ?_, ?_⟩
  · rw [get?_marked_of_ne hacc, h.accumulator]
  · rw [marked_of_taken ht, get?_bind_self]
  · unfold Strategy.marked
    cases Strategy.taken? f c <;> exact h.unregistered

theorem Holds.bind (h : f.Holds c a taken m) (hf : (f.state? c).isSome) (a' : Value) :
    f.Holds c a' taken (m.bind "acc0" a') := by
  refine ⟨get?_bind_self m _ a', fun t ht => ?_, h.unregistered⟩
  rw [get?_bind_of_ne m a' (name_taken_ne ht hf), h.note t ht]

theorem Reaches.bind {x : Run Unit} {k : Unit → Run Unit} {m' : Machine} {o : Except Fault Value}
    (hx : x.result m = (.ok (), m')) (hk : f.Reaches c taken (k ()) m' o) :
    f.Reaches c taken (x >>= k) m o := by
  have hresult : (x >>= k).result m = (k ()).result m' := by rw [result_bind, hx, andThen_ok]
  cases o <;> simpa only [Reaches, hresult] using hk

/-! ### Running the code -/

namespace Computes

variable {next : Value → List Value → Except Fault Value}

theorem isSome_state? (h : f.Computes c good start next) : (f.state? c).isSome := by
  obtain ⟨r, hr, -⟩ := h.initial
  rw [hr]
  rfl

theorem good_foldlM (h : f.Computes c good start next)
    (hrows : ∀ row ∈ rows, AggregateProgram.Suits c row ∧ Value.isComplete row) {b : Value} (ha : good a)
    (hb : rows.foldlM next a = .ok b) : good b := by
  induction rows generalizing a with
  | nil =>
    cases hb
    exact ha
  | cons row rows ih =>
    obtain ⟨hrow, hc⟩ := hrows row (by simp)
    rw [List.foldlM_cons] at hb
    cases hnext : next a row with
    | error e =>
      rw [hnext] at hb
      cases hb
    | ok a' =>
      rw [hnext] at hb
      exact ih (fun r hr => hrows r (by simp [hr])) (h.good_next ha hrow hc hnext) hb

variable (h : f.Computes c good start next) (hp : p.Implements (.strict f) c)
include h hp

theorem reaches_start (hm : m.Unregistered f.calls) : f.Reaches c false p.start m (.ok start) := by
  obtain ⟨r, hr, hinitial⟩ := h.initial
  obtain ⟨m', hstart, hacc, hnote, hroutines⟩ := start_strict hp hr hinitial m
  refine ⟨m', hstart, hacc, hnote, ?_⟩
  intro g hg
  rw [hroutines]
  exact hm g hg

/-- A row: one with a null changes nothing, and any other is taken in. -/
theorem reaches_take (hm : f.Holds c a taken m) (ha : good a) {row : List Value} (hrow : AggregateProgram.Suits c row) :
    f.Reaches c (taken || Value.isComplete row) (p.take row) m
      (if Value.isComplete row then next a row else .ok a) := by
  have hbound := hm.bindSlots h.isSome_state? row
  cases hc : Value.isComplete row with
  | false => exact ⟨_, take_of_null hp rfl hrow hc m, by rwa [Bool.or_false]⟩
  | true =>
    obtain ⟨body, hbody, hstep⟩ := h.step
    have hargs := forall₂_argumentSlots hrow m
    have htake := take_of_isComplete hp hrow hc hbody m
    have hmarked := hbound.marked h.isSome_state?
    have hargs' : List.Forall₂ (fun s v => (Strategy.marked f c (m.bindSlots c.argumentSlots row)).get? s.name =
        some v ∧ v.Fits s.rep) c.argumentSlots row := by
      rw [List.forall₂_iff_zip] at hargs ⊢
      refine ⟨hargs.1, fun {s v} hsv => ⟨?_, (hargs.2 hsv).2⟩⟩
      rw [get?_marked_of_ne fun t ht => ?_, (hargs.2 hsv).1]
      -- the note is not in the slot of an argument
      intro heq
      have hs : s.name ∈ c.argumentSlots.map (·.name) := List.mem_map_of_mem (List.of_mem_zip hsv).1
      have hacc : s.name ∈ ((Strategy.strict f).accumulator c).map (·.name) :=
        mem_accumulator_strict.2 (.inr ⟨t, ht, heq⟩)
      have hmark := (Slot.mark_numbered (by decide) hs).symm.trans (Slot.mark_numbered (by decide) hacc)
      exact absurd hmark (by decide)
    have hstores := hstep hmarked.unregistered hmarked.accumulator ha hargs' hc
    rw [if_pos rfl, Bool.or_true]
    cases hnext : next a row with
    | error e =>
      rw [hnext] at hstores
      exact (congrArg Prod.fst htake).trans hstores
    | ok a' =>
      rw [hnext] at hstores
      exact ⟨_, htake.trans hstores, hmarked.bind h.isSome_state? a'⟩

/-- The rows in order: the rows without nulls are folded into the accumulator. -/
theorem reaches_takeAll (hrows : ∀ row ∈ rows, AggregateProgram.Suits c row)
    (hm : f.Holds c a taken m) (ha : good a) :
    f.Reaches c (taken || rows.any Value.isComplete) (p.takeAll rows) m
      ((rows.filter Value.isComplete).foldlM next a) := by
  induction rows generalizing m a taken with
  | nil => exact ⟨m, rfl, by simpa using hm⟩
  | cons row rows ih =>
    have hrow := hrows row (by simp)
    have hfirst := h.reaches_take hp hm ha hrow
    have hrest : ∀ r ∈ rows, AggregateProgram.Suits c r := fun r hr => hrows r (by simp [hr])
    rw [List.any_cons, ← Bool.or_assoc]
    cases hc : Value.isComplete row with
    | false =>
      rw [List.filter_cons_of_neg (by simp [hc])]
      rw [hc] at hfirst
      obtain ⟨m', hm', hholds⟩ := hfirst
      exact .bind hm' (ih hrest hholds ha)
    | true =>
      rw [List.filter_cons_of_pos hc, List.foldlM_cons]
      rw [hc, if_pos rfl] at hfirst
      cases hnext : next a row with
      | error e =>
        rw [hnext] at hfirst
        exact fst_result_bind_of_error hfirst
      | ok a' =>
        rw [hnext] at hfirst
        obtain ⟨m', hm', hholds⟩ := hfirst
        exact .bind hm' (ih hrest hholds (h.good_next ha hrow hc hnext))

/-- The result: null if it may be null and no row was taken in, else the accumulator. -/
theorem result_finish (hm : f.Holds c a taken m) :
    p.finish.result m = (.ok (if c.returnType.nullable && !taken then .null else a), m) :=
  finish_strict hp hm.note (h.value ▸ evalsTo_slot hm.accumulator)

/-- A group: the fold over the rows without nulls, or null if there are none and the result may be null. -/
theorem result_aggregate (hrows : ∀ row ∈ rows, AggregateProgram.Suits c row)
    (hm : m.Unregistered f.calls) :
    ((p.aggregate rows).result m).1 = ((rows.filter Value.isComplete).foldlM next start).map fun a =>
      if c.returnType.nullable && !rows.any Value.isComplete then .null else a := by
  obtain ⟨m₁, hstart, hholds⟩ := h.reaches_start hp hm
  have hall := h.reaches_takeAll hp hrows hholds h.good_start
  unfold AggregateProgram.aggregate
  rw [result_bind, hstart, andThen_ok]
  cases ho : (rows.filter Value.isComplete).foldlM next start with
  | error e =>
    rw [ho] at hall
    exact fst_result_bind_of_error hall
  | ok a =>
    rw [ho] at hall
    obtain ⟨m₂, hrun, hholds₂⟩ := hall
    rw [result_bind, hrun, andThen_ok, h.result_finish hp hholds₂]
    rfl

/-- A group that faults does so at a first row: the rows before it are taken in, and taking in the row
faults. -/
theorem exists_fault (hrows : ∀ row ∈ rows, AggregateProgram.Suits c row)
    (hm : m.Unregistered f.calls)
    (he : (rows.filter Value.isComplete).foldlM next start = .error e) :
    ∃ before row after a m', rows = before ++ row :: after ∧ Value.isComplete row ∧
      (before.filter Value.isComplete).foldlM next start = .ok a ∧ next a row = .error e ∧
      (p.start >>= fun _ => p.takeAll before).result m = (.ok (), m') ∧
      ((p.take row).result m').1 = .error e := by
  obtain ⟨before', row, after', a, hsplit, hbefore, hnext⟩ := exists_of_foldlM_error he
  obtain ⟨before, after, rfl, rfl, hafter⟩ := List.filter_eq_append_iff.1 hsplit
  obtain ⟨nulls, after, rfl, hnulls, hc, -⟩ := List.filter_eq_cons_iff.1 hafter
  -- the rows with nulls between are skipped
  have hfilter : (before ++ nulls).filter Value.isComplete = before.filter Value.isComplete := by
    rw [List.filter_append, List.filter_eq_nil_iff.2 hnulls, List.append_nil]
  rw [← hfilter] at hbefore
  have hsuits : ∀ r ∈ before ++ nulls, AggregateProgram.Suits c r := fun r hr =>
    hrows r (by simp only [List.mem_append] at hr ⊢; tauto)
  obtain ⟨m₁, hstart, hholds₁⟩ := h.reaches_start hp hm
  have hall := h.reaches_takeAll hp hsuits hholds₁ h.good_start
  rw [hbefore] at hall
  obtain ⟨m₂, hrun, hholds₂⟩ := hall
  have hgood : good a := h.good_foldlM
    (fun r hr => ⟨hsuits r (List.mem_of_mem_filter hr), List.of_mem_filter hr⟩) h.good_start hbefore
  have htake := h.reaches_take hp hholds₂ hgood (hrows row (by simp))
  rw [if_pos hc, hnext] at htake
  refine ⟨before ++ nulls, row, after, a, m₂, by simp, hc, hbefore, hnext, ?_, htake⟩
  rw [result_bind, hstart, andThen_ok, hrun]

end Computes

/-! ### Folds of one argument -/

theorem mem_filter_isNull :
    v ∈ vs.filter (fun v => !v.isNull) ↔ v ∈ vs ∧ v ≠ .null := by
  rw [List.mem_filter, Bool.not_eq_true', ← Bool.not_eq_true, Value.isNull_iff]

theorem forall_mem_filter_isNull {P : Value → Prop} (h : ∀ v ∈ vs, v ≠ .null → P v) :
    ∀ v ∈ vs.filter (fun v => !v.isNull), P v :=
  fun v hv => h v (mem_filter_isNull.1 hv).1 (mem_filter_isNull.1 hv).2

theorem filter_isNull_ne_nil (h : ∃ v ∈ vs, v ≠ .null) : vs.filter (fun v => !v.isNull) ≠ [] := by
  obtain ⟨v, hv, hne⟩ := h
  exact List.ne_nil_of_mem (mem_filter_isNull.2 ⟨hv, hne⟩)

section Column

variable {next : Value → Value → Except Fault Value} {type : SqlType}

theorem forall_null_or_exists (vs : List Value) : (∀ v ∈ vs, v = .null) ∨ ∃ v ∈ vs, v ≠ .null := by
  by_cases h : ∃ v ∈ vs, v ≠ .null
  · exact .inr h
  · exact .inl (by simpa using h)

/-- A fold of one argument, from what its code does with the slot of the argument. -/
theorem computes_of_argument (hc : c.parameters = [type]) (hstate : f.state? c = some r)
    (hvalue : f.value c = .slot (f.slot c)) (hinitial : ∀ m, (f.initial r).EvalsTo m start) (hstart : good start)
    (hnext : ∀ {a v a'}, good a → v.Fits type.rep → v ≠ .null → next a v = .ok a' → good a')
    {body : Block} (hbody : f.step c [(Expr.slot ⟨"arg0", type.rep⟩).unbox] = .ok body)
    (hstep : ∀ {m a v}, m.Unregistered f.calls → m.get? "acc0" = some a → good a → m.get? "arg0" = some v →
      v.Fits type.rep → v ≠ .null → Stores (Stmt.execBlock body) m (next a v)) :
    f.Computes c good start fun a row => next a (row.getD 0 .null) := by
  have hslots : c.argumentSlots = [⟨"arg0", type.rep⟩] := by
    simp only [AggregateCall.argumentSlots, hc]
    rfl
  have hne : ∀ {v}, Value.isComplete [v] → v ≠ .null := by
    rintro v hcomplete rfl
    cases hcomplete
  refine ⟨⟨r, hstate, hinitial⟩, hstart, ?_, ?_, hvalue⟩
  · rw [hslots]
    refine ⟨body, hbody, fun {m a row} hm hacc ha hrow hcomplete => ?_⟩
    obtain - | ⟨⟨hget, hfits⟩, - | -⟩ := hrow
    exact hstep hm hacc ha hget hfits (hne hcomplete)
  · intro a row a' ha hrow hcomplete hok
    rw [AggregateProgram.Suits, hc] at hrow
    obtain - | ⟨hfits, - | -⟩ := hrow
    exact hnext ha hfits (hne hcomplete) hok

/-- A fold that combines the accumulator with its argument, converted to the representation of the
accumulator. -/
theorem computes_of_combine (combine : Expr → Expr → Expr) (hc : c.parameters = [type])
    (hstate : f.state? c = some r) (hvalue : f.value c = .slot (f.slot c))
    (hstep : ∀ e, f.step c [e] = .ok [.assign (f.slot c) (combine (.slot (f.slot c)) (e.mkConvert r))])
    (hinitial : ∀ m, (f.initial r).EvalsTo m start) (hstart : good start)
    (hnext : ∀ {a v}, good a → v.Fits type.rep → v ≠ .null → (∀ a', next a v = .ok a' → good a') ∧
      ∃ u, v.convert r = .ok u ∧ ∀ {m x y}, m.Unregistered f.calls → x.rep = r → y.rep = r →
        x.EvalsTo m a → y.EvalsTo m u → (combine x y).eval.result m = (next a v, m)) :
    f.Computes c good start fun a row => next a (row.getD 0 .null) := by
  have hslot : (Expr.slot (f.slot c)).rep = r := by
    show (f.slot c).rep = r
    rw [slot, hstate]
    rfl
  refine computes_of_argument hc hstate hvalue hinitial hstart
    (fun {a v a'} ha hv hne hok => (hnext ha hv hne).1 a' hok) (hstep _) ?_
  intro m a v hm hacc ha hget hv hne
  obtain ⟨-, u, hu, hcombine⟩ := hnext ha hv hne
  have harg := carries_argument (s := ⟨"arg0", type.rep⟩) hget hv hne
  refine stores_of_result ?_
  rw [Stmt.result_execBlock_singleton, Stmt.result_assign,
    hcombine hm hslot (rep_mkConvert _ _) (evalsTo_slot hacc) (harg.evalsTo_mkConvert hu), result_bind, result_lift]
  rfl

theorem suits_singleton (hc : c.parameters = [type]) (hvs : ∀ v ∈ vs, v.Fits type.rep) :
    ∀ row ∈ vs.map ([·]), AggregateProgram.Suits c row := by
  intro row hrow
  obtain ⟨v, hv, rfl⟩ := List.mem_map.1 hrow
  rw [AggregateProgram.Suits, hc]
  exact .cons (hvs v hv) .nil

theorem isComplete_comp_singleton : (Value.isComplete ∘ fun v => [v]) = fun v => !v.isNull := by
  funext v
  simp [Value.isComplete]

/-- The rows of one value without the nulls. -/
theorem foldlM_column (vs : List Value) (a : Value) :
    ((vs.map ([·])).filter Value.isComplete).foldlM (fun a row => next a (row.getD 0 .null)) a =
      (vs.filter fun v => !v.isNull).foldlM next a := by
  rw [List.filter_map, List.foldlM_map, isComplete_comp_singleton]
  rfl

variable (h : f.Computes c good start fun a row => next a (row.getD 0 .null)) (hp : p.Implements (.strict f) c)
  (hc : c.parameters = [type]) (hvs : ∀ v ∈ vs, v.Fits type.rep) (hm : m.Unregistered f.calls)
include h hp hc hvs hm

theorem Computes.result_aggregate_column :
    ((p.aggregate (vs.map ([·]))).result m).1 = ((vs.filter fun v => !v.isNull).foldlM next start).map fun a =>
      if c.returnType.nullable && vs.all Value.isNull then .null else a := by
  have hnone : (!(vs.map ([·])).any Value.isComplete) = vs.all Value.isNull := by
    rw [List.any_map, isComplete_comp_singleton, List.all_eq_not_any_not]
  rw [h.result_aggregate hp (suits_singleton hc hvs) hm, foldlM_column, hnone]

theorem Computes.result_aggregate_of_forall_null (hnull : ∀ v ∈ vs, v = .null) :
    ((p.aggregate (vs.map ([·]))).result m).1 = .ok (if c.returnType.nullable then .null else start) := by
  have hall : vs.all Value.isNull := List.all_eq_true.2 fun v hv => by rw [hnull v hv]; rfl
  have hnone : (vs.filter fun v => !v.isNull) = [] := List.eq_nil_iff_forall_not_mem.2 fun v hv =>
    (mem_filter_isNull.1 hv).2 (hnull v (mem_filter_isNull.1 hv).1)
  rw [h.result_aggregate_column hp hc hvs hm, hall, hnone, Bool.and_true]
  rfl

theorem Computes.result_aggregate_of_exists (hsome : ∃ v ∈ vs, v ≠ .null) :
    ((p.aggregate (vs.map ([·]))).result m).1 = (vs.filter fun v => !v.isNull).foldlM next start := by
  obtain ⟨v, hv, hne⟩ := hsome
  have hall : vs.all Value.isNull = false := List.all_eq_false.2 ⟨v, hv, fun h => hne (Value.isNull_iff.1 h)⟩
  rw [h.result_aggregate_column hp hc hvs hm, hall, Bool.and_false]
  cases (vs.filter fun v => !v.isNull).foldlM next start <;> rfl

theorem Computes.exists_fault_column (he : (vs.filter fun v => !v.isNull).foldlM next start = .error e) :
    ∃ before v after a m', vs = before ++ v :: after ∧ v ≠ .null ∧
      (before.filter fun v => !v.isNull).foldlM next start = .ok a ∧ next a v = .error e ∧
      (p.start >>= fun _ => p.takeAll (before.map ([·]))).result m = (.ok (), m') ∧
      ((p.take [v]).result m').1 = .error e := by
  rw [← foldlM_column] at he
  obtain ⟨rows, row, rows', a, m', hsplit, hcomplete, hbefore, hnext, hrun, htake⟩ :=
    h.exists_fault hp (suits_singleton hc hvs) hm he
  obtain ⟨before, rest, rfl, rfl, hrest⟩ := List.map_eq_append_iff.1 hsplit
  obtain ⟨v, after, rfl, rfl, -⟩ := List.map_eq_cons_iff.1 hrest
  rw [foldlM_column] at hbefore
  refine ⟨before, v, after, a, m', rfl, ?_, hbefore, hnext, hrun, htake⟩
  rintro rfl
  cases hcomplete

end Column

end Fold

/-- The strategy of a reusable aggregate over groups is also that over windows, if the settings let it. -/
theorem AggregateFunction.strategy_of_isReusable {a : Aggregate}
    {s : Strategy} (hplain : a.plain? = some s) (ha : a.isReusable)
    (hwindow : window → settings.windowReuse = .allowList) :
    (builtin a).strategy settings window = .ok s := by
  have hgroup : plain (builtin a).name a = .ok s := by rw [plain, hplain]
  cases window with
  | false => exact hgroup
  | true =>
    have hnone : a.windowed? = none := by cases a <;> first | rfl | cases ha
    have hallows : settings.windowReuse.allows a := by rw [hwindow rfl]; exact ha
    simp only [strategy, if_true, hnone, hallows]
    exact hgroup

/-- A call compiles if its strategy gives code for its rows and for its result. -/
theorem AggregateFunction.exists_implements {f : AggregateFunction} {call : AggregateCall}
    {s : Strategy} {add : Block} {value : Expr} (hs : f.strategy settings window = .ok s)
    (hadd : s.add (call.complete settings) = .ok add) (hvalue : s.value (call.complete settings) = .ok value) :
    ∃ p, f.program settings call window = .ok p ∧ p.Implements s (call.complete settings) ∧
      p.frame = if window then some {} else none := by
  obtain ⟨p, hp⟩ : ∃ p, f.program settings call window = .ok p :=
    exists_program hs (p := ⟨_, _, _, none, _, add, [], value⟩) ⟨rfl, rfl, rfl, rfl, hadd, rfl, hvalue⟩
  obtain ⟨s', hs', himp, hframe⟩ := implements_of_program hp
  cases hs.symm.trans hs'
  exact ⟨p, hp, himp, hframe⟩

theorem AggregateFunction.exists_program_of_computes {a : Aggregate} {call : AggregateCall}
    {next : Value → List Value → Except Fault Value} (hplain : a.plain? = some (.strict f))
    (ha : a.isReusable) (hwindow : window → settings.windowReuse = .allowList)
    (hf : f.Computes (call.complete settings) good start next) :
    ∃ p, (builtin a).program settings call window = .ok p ∧ p.Implements (.strict f) (call.complete settings) := by
  obtain ⟨add, hadd⟩ : ∃ add, Strategy.strictAdd f (call.complete settings) = .ok add := by
    obtain ⟨body, hbody, -⟩ := hf.step
    unfold Strategy.strictAdd
    rw [hbody]
    exact ⟨_, rfl⟩
  obtain ⟨p, hp, himp, -⟩ := exists_implements (strategy_of_isReusable hplain ha hwindow) hadd rfl
  exact ⟨p, hp, himp⟩

end SqlCode

import SqlCode.Proofs.Sums

/-!
# Collecting aggregates

COLLECT, FUSION, INTERSECTION, LISTAGG and SINGLE_VALUE. The first four see the rows without nulls, and what they
give is said of the list of these rows. An accumulator that is null has taken in nothing yet: an empty multiset and
an empty text are values like any other. SINGLE_VALUE sees every row, and a second row is a fault.
-/

namespace SqlCode

open Run SqlCode.Expr

/-! ### Rows -/

namespace Value

/-- The elements of a multiset. -/
def items? : Value → Option (List Value)
  | .list items => some items
  | _ => none

/-- The elements of all multisets. -/
def fusion (xs : List (List Value)) : Value := .list xs.flatten

/-- The elements of the first multiset that occur in all others; null if there is none. -/
def intersection : List (List Value) → Value
  | [] => .null
  | x :: xs => .list (x.filter fun v => xs.all fun y => Multiset.occurs v y)

/-- The text of the value in a row. -/
def rowText (row : List Value) : String := (row.getD 0 .null).text

/-- The separator of a row: its own, if it has one. -/
def rowSeparator (separator : String) (row : List Value) : String :=
  match row[1]? with
  | some s => s.text
  | none => separator

/-- The texts of the rows, each but the first one after its separator; null if there is none. -/
def listAgg (separator : String) : List (List Value) → Value
  | [] => .null
  | row :: rows =>
    .str (rowText row ++ String.join (rows.map fun row => rowSeparator separator row ++ rowText row))

/-- The value of the only row; a default without a row, and a fault with more than one. -/
def only (default : Value) : List (List Value) → Except Fault Value
  | [] => .ok default
  | [row] => .ok (row.getD 0 .null)
  | _ :: _ :: _ => .error (.cardinalityViolation "SINGLE_VALUE")

end Value

namespace Mutator

/-- What a row makes of a container with a mutator of one argument. -/
def taking (f : Mutator) (a v : Value) : Except Fault Value := f a [v]

/-- What a row makes of an intersection: the first one is copied, and later ones only remove elements. -/
def intersect (a v : Value) : Except Fault Value :=
  if a.isNull then addAll.taking (.list []) v else retainAll.taking a v

theorem foldlM_add (vs xs : List Value) : vs.foldlM add.taking (.list xs) = .ok (.list (xs ++ vs)) := by
  induction vs generalizing xs with
  | nil => simp [pure, Except.pure]
  | cons v vs ih =>
    rw [List.foldlM_cons]
    show vs.foldlM add.taking (.list (xs ++ [v])) = _
    rw [ih, List.append_assoc, List.singleton_append]

theorem foldlM_addAll {vs : List Value} (hvs : ∀ v ∈ vs, ∃ x, v = .list x) (xs : List Value) :
    vs.foldlM addAll.taking (.list xs) = .ok (.list (xs ++ (vs.filterMap Value.items?).flatten)) := by
  induction vs generalizing xs with
  | nil => simp [pure, Except.pure]
  | cons v vs ih =>
    obtain ⟨x, rfl⟩ := hvs v (by simp)
    rw [List.foldlM_cons]
    show vs.foldlM addAll.taking (.list (xs ++ x)) = _
    rw [ih fun u hu => hvs u (by simp [hu])]
    simp [Value.items?]

theorem foldlM_retain {vs : List Value} (hvs : ∀ v ∈ vs, ∃ x, v = .list x) (x : List Value) :
    vs.foldlM intersect (.list x) =
      .ok (.list (x.filter fun v => (vs.filterMap Value.items?).all fun y => Multiset.occurs v y)) := by
  induction vs generalizing x with
  | nil => simp [pure, Except.pure]
  | cons v vs ih =>
    obtain ⟨y, rfl⟩ := hvs v (by simp)
    rw [List.foldlM_cons]
    show vs.foldlM intersect (.list (x.filter fun v => Multiset.occurs v y)) = _
    rw [ih fun u hu => hvs u (by simp [hu]), List.filter_filter]
    simp [Value.items?, Bool.and_comm]

theorem foldlM_intersect {vs : List Value} (hvs : ∀ v ∈ vs, ∃ x, v = .list x) :
    vs.foldlM intersect .null = .ok (Value.intersection (vs.filterMap Value.items?)) := by
  cases vs with
  | nil => rfl
  | cons v vs =>
    obtain ⟨x, rfl⟩ := hvs v (by simp)
    rw [List.foldlM_cons]
    exact foldlM_retain (fun u hu => hvs u (by simp [hu])) x

end Mutator

namespace Value

/-- What a row makes of a joined text. -/
def append (separator : String) (a : Value) (row : List Value) : Except Fault Value :=
  .ok (if a.isNull then .str (rowText row) else .str (a.text ++ (rowSeparator separator row ++ rowText row)))

theorem foldlM_append_str (separator : String) (rows : List (List Value)) (s : String) :
    rows.foldlM (append separator) (.str s) =
      .ok (.str (s ++ String.join (rows.map fun row => rowSeparator separator row ++ rowText row))) := by
  induction rows generalizing s with
  | nil => simp [pure, Except.pure]
  | cons row rows ih =>
    rw [List.foldlM_cons]
    show rows.foldlM (append separator) (.str (s ++ (rowSeparator separator row ++ rowText row))) = _
    rw [ih, String.append_assoc, List.map_cons, String.join_cons]

theorem foldlM_append (separator : String) (rows : List (List Value)) :
    rows.foldlM (append separator) .null = .ok (listAgg separator rows) := by
  cases rows with
  | nil => rfl
  | cons row rows =>
    rw [List.foldlM_cons]
    exact foldlM_append_str separator rows (rowText row)

end Value

/-! ### The code of a row -/

namespace Fold

variable {f : Fold} {c : AggregateCall} {type : SqlType} {m : Machine} {a v : Value}

theorem stores_mutate {s : Slot} {g : String} {mutator : Mutator} {es : List Expr} {vs : List Value}
    (hs : s.name = "acc0") (hg : Mutator.find? g = some mutator) (hacc : m.get? "acc0" = some a)
    (hes : List.Forall₂ (fun e v => e.EvalsTo m v) es vs) :
    Stores (Stmt.execBlock [.invoke s g es]) m (mutator a vs) := by
  refine stores_of_result ?_
  rw [Stmt.result_execBlock_singleton, Stmt.result_invoke, result_evalAll hes, andThen_ok, hs]
  unfold Run.mutate
  simp only [hg]
  rw [result_bind, result_get, andThen_ok, hacc]

theorem stores_invoke {g : String} {mutator : Mutator} {e : Expr} (hg : Mutator.find? g = some mutator)
    (hacc : m.get? "acc0" = some a) (he : e.EvalsTo m v) :
    Stores (Stmt.execBlock [.invoke (f.slot c) g [e]]) m (mutator.taking a v) :=
  stores_mutate rfl hg hacc (.cons he .nil)

theorem Stores.congr {x y : Run Unit} {o : Except Fault Value} (hy : Stores y m o) (h : x.result m = y.result m) :
    Stores x m o := by
  unfold Stores at hy ⊢
  rwa [h]

theorem Stores.of_bind {x y : Run Unit} {o : Except Fault Value} {w : Value}
    (hy : Stores y (m.bind "acc0" w) o) (h : x.result m = y.result (m.bind "acc0" w)) : Stores x m o := by
  cases o with
  | error e => exact (congrArg Prod.fst h).trans hy
  | ok a => exact (h.trans hy).trans (by rw [Machine.bind_bind])

section Column

variable (hc : c.parameters = [type])
include hc

theorem computes_adding {f : Fold} {add : Mutator} (h : f = .collect ∧ add = .add ∨ f = .fusion ∧ add = .addAll) :
    f.Computes c (fun _ => True) (.list []) fun a row => add.taking a (row.getD 0 .null) := by
  obtain ⟨rfl, rfl⟩ | ⟨rfl, rfl⟩ := h
  all_goals
    refine computes_of_argument hc rfl rfl (fun m => rfl) trivial (fun _ _ _ _ => trivial) rfl ?_
    intro m a v _ hacc _ hget hfits hne
    exact stores_invoke rfl hacc (Builtin.carries_box (carries_argument hget hfits hne)).evalsTo

theorem computes_intersection :
    intersection.Computes c (fun _ => True) .null fun a row => Mutator.intersect a (row.getD 0 .null) := by
  refine computes_of_argument hc rfl rfl (fun m => rfl) trivial (fun _ _ _ _ => trivial) rfl ?_
  intro m a v _ hacc _ hget hfits hne
  have htest : (Expr.slot (intersection.slot c)).mkIsNull.EvalsTo m (.bool a.isNull) :=
    evalsTo_mkIsNull (evalsTo_slot hacc)
  have harg : ∀ {m : Machine}, m.get? "arg0" = some v → (Expr.slot ⟨"arg0", type.rep⟩).unbox.EvalsTo m v :=
    fun hget => (carries_argument hget hfits hne).evalsTo
  unfold Mutator.intersect
  cases hnull : a.isNull with
  | false =>
    refine (stores_invoke (f := intersection) (c := c) (g := "collectionRetainAll") rfl hacc (harg hget)).congr ?_
    rw [Stmt.result_execBlock_singleton, Stmt.result_ite, htest, hnull]
    rfl
  | true =>
    -- the empty multiset is stored first, and the row is added to it
    have hget' : (m.bind "acc0" (.list [])).get? "arg0" = some v := by
      rw [Machine.get?_bind_of_ne m _ (by decide), hget]
    refine (stores_invoke (f := intersection) (c := c) (g := "collectionAddAll") rfl
      (Machine.get?_bind_self m _ (.list [])) (harg hget')).of_bind ?_
    rw [Stmt.result_execBlock_singleton, Stmt.result_ite, htest, hnull]
    exact Stmt.result_execBlock_cons ..

end Column

theorem convert_string (hv : v ≠ .null) : v.convert .string = .ok (.str v.text) := by
  cases v <;> first | rfl | exact absurd rfl hv

theorem concat_str (u : Value) (s : String) : Routine.concat [u, .str s] = .ok (.str (u.text ++ s)) := by
  cases u <;> rfl

theorem evalsTo_joined {s : Slot} {e : Expr} {u : Value} (hm : m.Unregistered listAgg.calls)
    (hacc : m.get? "acc0" = some a) (ha : a = .null ∨ ∃ t, a = .str t) (hget : m.get? s.name = some v)
    (hfits : v.Fits s.rep) (hv : v ≠ .null) (he : e.EvalsTo m u) :
    (joined (.slot (listAgg.slot c)) e ((Expr.slot s).unbox.mkConvert .string)).EvalsTo m
      (if a.isNull then .str v.text else .str (a.text ++ (u.text ++ v.text))) := by
  have hvalue : ((Expr.slot s).unbox.mkConvert .string).EvalsTo m (.str v.text) :=
    (carries_argument hget hfits hv).evalsTo_mkConvert (convert_string hv)
  have htest : (Expr.slot (listAgg.slot c)).mkIsNull.EvalsTo m (.bool a.isNull) :=
    evalsTo_mkIsNull (evalsTo_slot hacc)
  have hconcat : ∀ {x y : Expr} {w : Value} {t : String}, x.EvalsTo m w → y.EvalsTo m (.str t) →
      (Expr.call "concat" [x, y] .string).EvalsTo m (.str (w.text ++ t)) := fun {x y w t} hx hy =>
    evalsTo_call .string (.cons hx (.cons hy .nil))
      ((Run.result_call_library (hm "concat" (List.mem_singleton_self _)) rfl rfl).trans
        (by rw [concat_str]))
  -- the value is no call, so that the choice is not folded away
  have hsame : ∀ args r, ((Expr.slot s).unbox.mkConvert .string).same (.call "concat" args r) = false := by
    intro args r
    obtain ⟨name, rep⟩ := s
    cases rep <;> rfl
  unfold joined
  rw [EvalsTo, result_mkCond htest fun _ h => by rw [hsame] at h; cases h]
  rcases ha with rfl | ⟨t, rfl⟩
  · exact hvalue
  · exact hconcat (evalsTo_slot hacc) (hconcat he hvalue)

theorem exists_argumentSlots {types : List SqlType} (hc : c.parameters = type :: types) :
    ∃ s slots, c.argumentSlots = s :: slots := by
  simp [AggregateCall.argumentSlots, Slot.numbered, hc, List.mapIdx_cons]

theorem computes_listAgg {types : List SqlType} (hc : c.parameters = type :: types) :
    listAgg.Computes c (fun a => a = .null ∨ ∃ t, a = .str t) .null (Value.append (c.separator.getD ",")) := by
  obtain ⟨s, slots, hslots⟩ := exists_argumentSlots hc
  refine ⟨⟨.string, rfl, fun m => rfl⟩, .inl rfl, ?_, ?_, rfl⟩
  · rw [hslots]
    refine ⟨_, rfl, fun {m a row} hm hacc ha hrow hcomplete => ?_⟩
    obtain - | ⟨⟨hget, hfits⟩, hrest⟩ := hrow
    rename_i v vs
    obtain ⟨hv, hvs⟩ : v ≠ .null ∧ ∀ u ∈ vs, u ≠ .null := by
      simpa [Value.isComplete, ← Value.isNull_iff] using hcomplete
    -- the separator of the row, or else that of the call
    obtain ⟨u, hseparator, htext⟩ : ∃ u,
        ((((s :: slots).map fun s => (Expr.slot s).unbox)[1]?).getD (Expr.string (c.separator.getD ","))).EvalsTo m u ∧
          u.text = Value.rowSeparator (c.separator.getD ",") (v :: vs) := by
      cases hrest with
      | nil => exact ⟨.str (c.separator.getD ","), rfl, rfl⟩
      | @cons s' u _ _ hs' _ =>
        exact ⟨u, (carries_argument hs'.1 hs'.2 (hvs u (by simp))).evalsTo, rfl⟩
    have hjoined := evalsTo_joined (c := c) hm hacc ha hget hfits hv hseparator
    show (Stmt.execBlock _).result m = _
    rw [Stmt.result_execBlock_singleton, Stmt.result_assign, hjoined, htext]
    rfl
  · intro a row a' _ _ _ hok
    cases hok
    split_ifs
    · exact .inr ⟨_, rfl⟩
    · exact .inr ⟨_, rfl⟩

end Fold

/-! ### Groups -/

namespace AggregateProgram

variable {p : AggregateProgram} {c : AggregateCall} {f : Fold} {type : SqlType} {vs : List Value} {m : Machine}

theorem result_aggregate_of_null {good : Value → Prop} {next : Value → List Value → Except Fault Value}
    (h : f.Computes c good .null next) (hp : p.Implements (.strict f) c) {rows : List (List Value)}
    (hrows : ∀ row ∈ rows, Suits c row) (hm : m.Unregistered f.calls) :
    ((p.aggregate rows).result m).1 = (rows.filter Value.isComplete).foldlM next .null := by
  rw [h.result_aggregate hp hrows hm]
  cases hany : rows.any Value.isComplete with
  | true =>
    rw [Bool.not_true, Bool.and_false]
    cases (rows.filter Value.isComplete).foldlM next .null <;> rfl
  | false =>
    have hnone : rows.filter Value.isComplete = [] :=
      List.filter_eq_nil_iff.2 fun row hrow => by simpa using List.any_eq_false.1 hany row hrow
    rw [hnone]
    exact congrArg Except.ok (ite_self _)

/-! ### The only row -/

/-- In the state, it is noted whether a row was seen, and its value is kept. -/
structure HoldsSingle (seen : Bool) (v : Value) (m : Machine) : Prop where
  seen : m.get? "acc0" = some (.bool seen)
  value : m.get? "acc1" = some v

theorem holdsSingle_bind (m : Machine) (seen : Bool) (v : Value) :
    HoldsSingle seen v ((m.bind "acc0" (.bool seen)).bind "acc1" v) :=
  ⟨by rw [Machine.get?_bind_of_ne _ _ (by decide), Machine.get?_bind_self], Machine.get?_bind_self ..⟩

section Single

variable {types : List SqlType} (hp : p.Implements .singleValue c)
include hp

theorem result_start_single (m : Machine) :
    ∃ m', p.start.result m = (.ok (), m') ∧ HoldsSingle false c.rep.initial m' := by
  refine ⟨_, ?_, holdsSingle_bind m false c.rep.initial⟩
  unfold start Block.exec
  rw [hp.reset]
  show (Stmt.execBlock [.assign Strategy.seenSlot (.bool false),
    .assign (Strategy.singleSlot c) (.defaultOf c.rep)]).result m = _
  rw [Stmt.result_execBlock_cons, Stmt.result_assign]
  show (Stmt.execBlock [.assign (Strategy.singleSlot c) (.defaultOf c.rep)]).result (m.bind "acc0" (.bool false)) = _
  rw [Stmt.result_execBlock_singleton, Stmt.result_assign, evalsTo_defaultOf]
  rfl

omit hp in
theorem HoldsSingle.bindSlots {seen : Bool} {v : Value} (h : HoldsSingle seen v m) (row : List Value) :
    HoldsSingle seen v (m.bindSlots c.argumentSlots row) := by
  refine ⟨?_, ?_⟩
  · rw [Machine.get?_bindSlots_of_notMem (notMem_argumentSlots (by decide)), h.seen]
  · rw [Machine.get?_bindSlots_of_notMem (notMem_argumentSlots (by decide)), h.value]

omit hp in
theorem get?_first {s : Slot} {slots : List Slot} (hslots : c.argumentSlots = s :: slots) {row : List Value}
    (hrow : Suits c row) (m : Machine) :
    (m.bindSlots c.argumentSlots row).get? s.name = some (row.getD 0 .null) ∧ (row.getD 0 .null).Fits s.rep := by
  have hargs := forall₂_argumentSlots hrow m
  generalize m.bindSlots c.argumentSlots row = m₁ at hargs ⊢
  rw [hslots] at hargs
  obtain - | ⟨hfirst, -⟩ := hargs
  exact hfirst

section Take

variable {row : List Value} {seen : Bool} {v : Value}

/-- Taking in a row: the note is read first. -/
theorem result_take_single {s : Slot} {slots : List Slot}
    (hslots : c.argumentSlots = s :: slots) (hm : HoldsSingle seen v m) :
    (p.take row).result m =
      (if seen then (.error (.cardinalityViolation "SINGLE_VALUE"), m.bindSlots c.argumentSlots row)
      else (Stmt.execBlock [.assign (Strategy.singleSlot c) ((Expr.slot s).mkConvert c.rep)]).result
        ((m.bindSlots c.argumentSlots row).bind "acc0" (.bool true))) := by
  have hadd : p.add = [.when Strategy.seenSlot [.throw (.cardinalityViolation "SINGLE_VALUE")],
      .assign Strategy.seenSlot (.bool true), .assign (Strategy.singleSlot c) ((Expr.slot s).mkConvert c.rep)] := by
    have hadd := hp.add
    rw [Strategy.add, Strategy.singleAdd, hslots] at hadd
    exact (Except.ok.inj hadd).symm
  have htest : (Expr.slot Strategy.seenSlot).EvalsTo (m.bindSlots c.argumentSlots row) (.bool seen) :=
    evalsTo_slot (hm.bindSlots row).seen
  rw [hp.result_take, hadd, Stmt.result_execBlock_cons, Stmt.when,
    Stmt.result_ite, htest]
  cases seen <;> rfl

theorem exists_take_single
    (hc : c.parameters = type :: types) (hrow : Suits c row) (hvalue : (row.getD 0 .null).Fits c.rep)
    (hm : HoldsSingle false v m) :
    ∃ m', (p.take row).result m = (.ok (), m') ∧ HoldsSingle true (row.getD 0 .null) m' := by
  obtain ⟨s, slots, hslots⟩ := Fold.exists_argumentSlots hc
  obtain ⟨hget, hfits⟩ := get?_first hslots hrow m
  have hname : s.name ≠ "acc0" := by
    intro hname
    have hmem : s.name ∈ c.argumentSlots.map (·.name) := by simp [hslots]
    exact absurd (hname ▸ Slot.mark_numbered (by decide) hmem : Slot.mark "acc0" = _) (by decide)
  have hcarries : (Expr.slot s).Carries ((m.bindSlots c.argumentSlots row).bind "acc0" (.bool true))
      (row.getD 0 .null) :=
    carries_slot ((Machine.get?_bind_of_ne _ _ hname).trans hget) hfits
  refine ⟨_, ?_, holdsSingle_bind (m.bindSlots c.argumentSlots row) true (row.getD 0 .null)⟩
  rw [result_take_single hp hslots hm, if_neg (by simp), Stmt.result_execBlock_singleton, Stmt.result_assign,
    (hcarries.mkConvert hvalue).evalsTo]
  rfl

theorem fst_take_single
    (hc : c.parameters = type :: types) (hm : HoldsSingle true v m) (row : List Value) :
    ((p.take row).result m).1 = .error (.cardinalityViolation "SINGLE_VALUE") := by
  obtain ⟨s, slots, hslots⟩ := Fold.exists_argumentSlots hc
  rw [result_take_single hp hslots hm, if_pos rfl]

end Take

theorem result_finish_single {seen : Bool} {v : Value}
    (hm : HoldsSingle seen v m) : p.finish.result m = (.ok v, m) := by
  have hvalue : p.value = .slot (Strategy.singleSlot c) := by
    rw [← Except.ok.inj hp.value]
    exact mkConvert_of_rep_eq rfl
  rw [hp.finish_eq, hvalue]
  exact evalsTo_slot hm.value

theorem result_single (hc : c.parameters = type :: types)
    {rows : List (List Value)} (hrows : ∀ row ∈ rows, Suits c row)
    (hvalues : ∀ row ∈ rows, (row.getD 0 .null).Fits c.rep) (m : Machine) :
    ((p.aggregate rows).result m).1 = Value.only c.rep.initial rows := by
  obtain ⟨m₁, hstart, hm₁⟩ := result_start_single hp m
  unfold aggregate
  rw [result_bind, hstart, andThen_ok]
  cases rows with
  | nil => exact congrArg Prod.fst (result_finish_single hp hm₁)
  | cons row rows =>
    obtain ⟨m₂, htake, hm₂⟩ := exists_take_single hp hc (hrows row (by simp)) (hvalues row (by simp)) hm₁
    cases rows with
    | nil =>
      rw [takeAll, result_bind, result_bind, htake]
      exact congrArg Prod.fst (result_finish_single hp hm₂)
    | cons row' rows =>
      refine fst_result_bind_of_error ?_
      rw [takeAll, result_bind, htake]
      exact fst_result_bind_of_error (fst_take_single hp hc hm₂ row')

end Single

end AggregateProgram

/-! ### The main result -/

/-- The collecting aggregates of rows whose values are of their types. COLLECT gives the values, FUSION the elements
of all multisets, INTERSECTION the elements of the first multiset that occur in all others, and LISTAGG the texts
with separators; they see the rows without nulls, in their order, and without such rows the result is null if it may
be null. SINGLE_VALUE gives the value of the only row, and a second row is a fault. -/
theorem AggregateFunction.aggregate_collecting (settings : Settings) (call : AggregateCall) (window : Bool)
    (hwindow : window = true → settings.windowReuse = .allowList) {type : SqlType} {types : List SqlType}
    (hc : call.parameters = type :: types) :
    (types = [] → ∃ p, (builtin .collect).program settings call window = .ok p ∧
      ∀ (m : Machine) (vs : List Value), (∀ v ∈ vs, v.Fits type.rep) →
        ((p.aggregate (vs.map ([·]))).result m).1 =
          .ok (if call.returnType.nullable && vs.all Value.isNull then .null
            else .list (vs.filter fun v => !v.isNull))) ∧
    (types = [] → ∃ p, (builtin .fusion).program settings call window = .ok p ∧
      ∀ (m : Machine) (vs : List Value), (∀ v ∈ vs, v.Fits type.rep) →
        (∀ v ∈ vs, v ≠ .null → ∃ x, v = .list x) →
        ((p.aggregate (vs.map ([·]))).result m).1 =
          .ok (if call.returnType.nullable && vs.all Value.isNull then .null
            else .fusion (vs.filterMap Value.items?))) ∧
    (types = [] → ∃ p, (builtin .intersection).program settings call window = .ok p ∧
      ∀ (m : Machine) (vs : List Value), (∀ v ∈ vs, v.Fits type.rep) →
        (∀ v ∈ vs, v ≠ .null → ∃ x, v = .list x) →
        ((p.aggregate (vs.map ([·]))).result m).1 = .ok (.intersection (vs.filterMap Value.items?))) ∧
    (∃ p, (builtin .listAgg).program settings call window = .ok p ∧
      ∀ m : Machine, m.routines.get? "concat" = none →
        ∀ rows : List (List Value), (∀ row ∈ rows, AggregateProgram.Suits call row) →
          ((p.aggregate rows).result m).1 =
            .ok (.listAgg (call.separator.getD settings.separator) (rows.filter Value.isComplete))) ∧
    ∃ p, (builtin .singleValue).program settings call window = .ok p ∧
      ∀ (m : Machine) (rows : List (List Value)), (∀ row ∈ rows, AggregateProgram.Suits call row) →
        (∀ row ∈ rows, (row.getD 0 .null).Fits call.rep) →
        ((p.aggregate rows).result m).1 = Value.only call.rep.initial rows ∧
        ∀ row ∈ rows, ∃ m', (p.start >>= fun _ => p.take row).result m = (.ok (), m') ∧
          ∀ row', ((p.take row').result m').1 = .error (.cardinalityViolation "SINGLE_VALUE") := by
  replace hc : (call.complete settings).parameters = type :: types := hc
  refine ⟨fun htypes => ?_, fun htypes => ?_, fun htypes => ?_, ?_, ?_⟩
  · subst htypes
    have hcomputes := Fold.computes_adding hc (.inl ⟨rfl, rfl⟩)
    obtain ⟨p, hp, himp⟩ := exists_program_of_computes (a := .collect) rfl rfl hwindow hcomputes
    refine ⟨p, hp, fun m vs hvs => ?_⟩
    rw [hcomputes.result_aggregate_column himp hc hvs (Fold.unregistered_of_calls_eq_nil rfl m), Mutator.foldlM_add]
    rfl
  · subst htypes
    have hcomputes := Fold.computes_adding hc (.inr ⟨rfl, rfl⟩)
    obtain ⟨p, hp, himp⟩ := exists_program_of_computes (a := .fusion) rfl rfl hwindow hcomputes
    refine ⟨p, hp, fun m vs hvs hlists => ?_⟩
    rw [hcomputes.result_aggregate_column himp hc hvs (Fold.unregistered_of_calls_eq_nil rfl m),
      Mutator.foldlM_addAll (Fold.forall_mem_filter_isNull hlists), filterMap_filter_isNull rfl]
    rfl
  · subst htypes
    have hcomputes := Fold.computes_intersection hc
    obtain ⟨p, hp, himp⟩ := exists_program_of_computes (a := .intersection) rfl rfl hwindow hcomputes
    refine ⟨p, hp, fun m vs hvs hlists => ?_⟩
    rw [AggregateProgram.result_aggregate_of_null hcomputes himp (Fold.suits_singleton hc hvs)
        (Fold.unregistered_of_calls_eq_nil rfl m), Fold.foldlM_column,
      Mutator.foldlM_intersect (Fold.forall_mem_filter_isNull hlists), filterMap_filter_isNull rfl]
  · have hcomputes := Fold.computes_listAgg hc
    obtain ⟨p, hp, himp⟩ := exists_program_of_computes (a := .listAgg) rfl rfl hwindow hcomputes
    refine ⟨p, hp, fun m hm rows hrows => ?_⟩
    rw [AggregateProgram.result_aggregate_of_null hcomputes himp hrows (Fold.unregistered_singleton hm),
      Value.foldlM_append]
    rfl
  · obtain ⟨add, hadd⟩ : ∃ add, Strategy.singleAdd (call.complete settings) = .ok add := by
      obtain ⟨s, slots, hslots⟩ := Fold.exists_argumentSlots hc
      unfold Strategy.singleAdd
      rw [hslots]
      exact ⟨_, rfl⟩
    obtain ⟨p, hp, himp, -⟩ := exists_implements (strategy_of_isReusable (a := .singleValue) rfl rfl hwindow) hadd rfl
    refine ⟨p, hp, fun m rows hrows hvalues => ⟨AggregateProgram.result_single himp hc hrows hvalues m, ?_⟩⟩
    intro row hrow
    obtain ⟨m₁, hstart, hm₁⟩ := AggregateProgram.result_start_single himp m
    obtain ⟨m₂, htake, hm₂⟩ := AggregateProgram.exists_take_single himp hc (hrows row hrow) (hvalues row hrow) hm₁
    refine ⟨m₂, ?_, AggregateProgram.fst_take_single himp hc hm₂⟩
    rw [result_bind, hstart, andThen_ok, htake]

/-- LISTAGG of the texts a, empty and b, with a null between them, is a,,b; with separators in the rows, that of the
first row does not show. INTERSECTION keeps the order and the duplicates of the first multiset. A null row is a
single value. -/
theorem AggregateFunction.aggregate_collecting_mixed :
    (∃ p, (builtin .listAgg).program {} { returnType := .plain .varchar true, parameters := [.plain .varchar true] }
        false = .ok p ∧
      ((p.aggregate [[.str "a"], [.null], [.str ""], [.str "b"]]).result {}).1 = .ok (.str "a,,b")) ∧
    (∃ p, (builtin .listAgg).program {}
        { returnType := .plain .varchar true, parameters := [.plain .integer true, .plain .varchar true] }
        false = .ok p ∧
      ((p.aggregate [[.int 1, .str "-"], [.int 2, .str "+"], [.int 3, .null]]).result {}).1 = .ok (.str "1+2")) ∧
    (∃ p, (builtin .intersection).program {}
        { returnType := .plain .multiset true, parameters := [.plain .multiset true] } false = .ok p ∧
      ((p.aggregate [[.null], [.list [.int 2, .int 1, .int 2, .int 3]], [.list [.int 3, .int 2]]]).result {}).1 =
        .ok (.list [.int 2, .int 2, .int 3])) ∧
    ∃ p, (builtin .singleValue).program {} { returnType := .plain .integer true, parameters := [.plain .integer true] }
        false = .ok p ∧
      ((p.aggregate [[.null]]).result {}).1 = .ok .null ∧
      ((p.aggregate [[.null], [.int 1]]).result {}).1 = .error (.cardinalityViolation "SINGLE_VALUE") := by
  refine ⟨?_, ?_, ?_, ?_⟩
  · obtain ⟨-, -, -, ⟨p, hp, hlist⟩, -⟩ := aggregate_collecting {}
      { returnType := .plain .varchar true, parameters := [.plain .varchar true] } false (by simp) rfl
    refine ⟨p, hp, (hlist {} rfl _ ?_).trans (congrArg _ (congrArg Value.str (by decide)))⟩
    simp only [List.forall_mem_cons]
    exact ⟨.cons rfl .nil, .cons rfl .nil, .cons rfl .nil, .cons rfl .nil, by simp⟩
  · obtain ⟨-, -, -, ⟨p, hp, hlist⟩, -⟩ := aggregate_collecting {}
      { returnType := .plain .varchar true, parameters := [.plain .integer true, .plain .varchar true] } false
      (by simp) rfl
    refine ⟨p, hp, (hlist {} rfl _ ?_).trans (congrArg _ (congrArg Value.str (by decide)))⟩
    simp only [List.forall_mem_cons]
    exact ⟨.cons rfl (.cons rfl .nil), .cons rfl (.cons rfl .nil), .cons rfl (.cons rfl .nil), by simp⟩
  · obtain ⟨-, -, hintersection, -, -⟩ := aggregate_collecting {}
      { returnType := .plain .multiset true, parameters := [.plain .multiset true] } false (by simp) rfl
    obtain ⟨p, hp, hresult⟩ := hintersection rfl
    refine ⟨p, hp, (hresult {} [.null, .list [.int 2, .int 1, .int 2, .int 3], .list [.int 3, .int 2]] ?_
      (by simp)).trans rfl⟩
    simp only [List.forall_mem_cons]
    exact ⟨rfl, rfl, rfl, by simp⟩
  · obtain ⟨-, -, -, -, p, hp, hsingle⟩ := aggregate_collecting {}
      { returnType := .plain .integer true, parameters := [.plain .integer true] } false (by simp) rfl
    refine ⟨p, hp, (hsingle {} [[.null]] ?_ ?_).1, (hsingle {} [[.null], [.int 1]] ?_ ?_).1⟩
    all_goals simp only [List.forall_mem_cons]
    · exact ⟨.cons rfl .nil, by simp⟩
    · exact ⟨rfl, by simp⟩
    · exact ⟨.cons rfl .nil, .cons rfl .nil, by simp⟩
    · exact ⟨rfl, rfl, by simp⟩

end SqlCode

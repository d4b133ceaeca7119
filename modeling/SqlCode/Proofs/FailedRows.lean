import SqlCode.Proofs.GroupIndependence
import SqlCode.Proofs.NullRows

/-!
# Rows that fail

What a row leaves behind if taking it in ends in a fault. The code of a row writes the accumulator last, so a
fault finds it as it was, with three exceptions: a strict aggregate whose result may be null notes that a row
was taken in before it is folded in, SINGLE_VALUE notes that a row was seen before its value is converted, and
INTERSECTION replaces null by the empty multiset before the first multiset is added.
-/

namespace SqlCode

open Run SqlCode.Expr Stmt Strategy

variable {f : Fold} {m m' : Machine} {c : AggregateCall} {window : Bool} {v v' : Option Value} {b : Block}
  {P : Machine → Prop} {x : String} {args : List Expr} {s : Strategy}

/-! ### Where a fault leaves the machine -/

namespace Run

variable {α β : Type}

/-- If the computation faults, it leaves a state in `P`. -/
def OnFault (P : Machine → Prop) (m : Machine) (x : Run α) : Prop :=
  ∀ e m', x.result m = (.error e, m') → P m'

namespace OnFault

theorem of_ok {x : Run α} {a : α} (h : (x.result m).1 = .ok a) : OnFault P m x := by
  intro e m' hx
  rw [hx] at h
  cases h

theorem lift (r : Except Fault α) : OnFault (· = m) m (Run.lift r) := by
  intro e m' h
  cases h
  rfl

theorem bind {x : Run α} {f : α → Run β} (hx : OnFault P m x)
    (hf : ∀ a m', x.result m = (.ok a, m') → OnFault P m' (f a)) : OnFault P m (x >>= f) := by
  intro e m' h
  rw [result_bind] at h
  rcases hr : x.result m with ⟨r, n⟩
  rw [hr] at h
  cases r with
  | error e' =>
    cases h
    exact hx _ _ hr
  | ok a => exact hf a n hr e m' h

theorem bind_lift {r : Except Fault α} {f : α → Run β} (hf : ∀ a, OnFault (· = m) m (f a)) :
    OnFault (· = m) m (Run.lift r >>= f) := by
  refine .bind (.lift r) fun a n hn => ?_
  cases hn
  exact hf a

theorem stateful {name : String} {args : List Value} {run : Run Value}
    (h : stateful? name args = some run) : OnFault (· = m) m run := by
  unfold stateful? at h
  split at h <;> cases h
  case h_10 => exact .bind_lift fun _ => .of_ok rfl
  case h_11 =>
    refine .bind_lift fun name => ?_
    intro e m' h
    rw [result_bind, result_get, andThen_ok] at h
    split at h <;> cases h
    rfl
  case h_13 => exact .bind_lift fun _ => .of_ok rfl
  case h_14 => exact .bind_lift fun _ => .of_ok rfl
  case h_15 => exact .bind_lift fun _ => .bind_lift fun _ => .of_ok rfl
  all_goals exact .of_ok rfl

/-- A routine that fails changes nothing: it looks at its arguments first. -/
theorem call (name : String) (args : List Value) : OnFault (· = m) m (Run.call name args) := by
  intro e m' h
  unfold Run.call at h
  rw [result_bind, result_get, andThen_ok] at h
  split at h
  · exact lift _ e m' h
  · split at h
    · exact stateful ‹_› e m' h
    · split at h
      · exact lift _ e m' h
      · exact lift (.error _) e m' h

theorem mutate (x g : String) (vs : List Value) : OnFault (· = m) m (Run.mutate x g vs) := by
  unfold Run.mutate
  split
  · exact .lift (.error _)
  · intro e m' h
    rw [result_bind, result_get, andThen_ok] at h
    split at h
    · exact lift (.error _) e m' h
    · exact bind_lift (fun w => of_ok rfl) e m' h

end OnFault

end Run

theorem Expr.onFault_eval {e : Expr} (h : e.Steady) : OnFault (· = m) m e.eval := by
  intro e' m' he
  exact h.eq_state he

/-- A call with steady operands changes nothing if it fails, also of a routine that is not steady. -/
theorem Expr.onFault_call {f : String} {r : Rep} (h : ∀ a ∈ args, a.Steady) :
    OnFault (· = m) m (Expr.call f args r).eval := by
  refine .bind (fun _ _ => result_evalAll_of_steady h) fun vs n hn => ?_
  rw [result_evalAll_of_steady h hn]
  exact .call f vs

namespace Stmt

theorem result_execBlock_singleton (s : Stmt) (m : Machine) :
    (execBlock [s]).result m = s.exec.result m := by
  rw [result_execBlock_cons]
  rcases s.exec.result m with ⟨r, n⟩
  cases r <;> rfl

theorem onFault_assign {s : Slot} {e : Expr} (h : OnFault P m e.eval) :
    OnFault P m (execBlock [.assign s e]) :=
  .bind (.bind h fun _ _ _ => .of_ok rfl) fun _ _ _ => .of_ok rfl

theorem onFault_invoke {s : Slot} {g : String} (h : ∀ a ∈ args, a.Steady) :
    OnFault (· = m) m (execBlock [.invoke s g args]) := by
  refine .bind (.bind (fun _ _ => result_evalAll_of_steady h) fun vs n hn => ?_) fun _ _ _ => .of_ok rfl
  rw [result_evalAll_of_steady h hn]
  exact .mutate _ _ _

theorem onFault_when {t : Expr} {block : Block} (ht : t.Steady)
    (hblock : OnFault (· = m) m (execBlock block)) : OnFault (· = m) m (execBlock [.when t block]) := by
  refine .bind (.bind (onFault_eval ht) fun v n hn => ?_) fun _ _ _ => .of_ok rfl
  obtain rfl := ht.eq_state hn
  cases v.isBool true
  · exact .of_ok rfl
  · exact hblock

end Stmt

/-! ### Folds -/

theorem Mutator.addAll_ne_null {items : List Value} {vs : List Value} {w : Value}
    (h : addAll (.list items) vs = .ok w) : w ≠ .null := by
  simp only [addAll, bind, Except.bind] at h
  repeat' split at h
  all_goals cases h
  all_goals simp

theorem Mutator.retainAll_ne_null {v w : Value} {vs : List Value} (h : retainAll v vs = .ok w) : w ≠ .null := by
  simp only [retainAll, bind, Except.bind] at h
  repeat' split at h
  all_goals cases h
  simp

namespace Fold

/-- Where a fault leaves the machine: as it was, or INTERSECTION with the empty multiset in place of null. -/
def Leaves (f : Fold) (m m' : Machine) : Prop :=
  m' = m ∨ f = .intersection ∧ m.get? "acc0" = some .null ∧ m' = m.bind "acc0" (.list [])

/-- INTERSECTION puts the empty multiset in place of null and adds to it, or keeps what both multisets
contain. -/
theorem result_step_intersection (h : Fold.intersection.step c args = .ok b)
    (hargs : ∀ e ∈ args, e.Steady) : ∃ e, e.Steady ∧ ∀ m : Machine,
      (m.get? "acc0" = none → ((Stmt.execBlock b).result m) = (.error (.unboundVariable "acc0"), m)) ∧
      ∀ v, m.get? "acc0" = some v → (Stmt.execBlock b).result m =
        if v.isNull then
          (Stmt.execBlock [.invoke (intersection.slot c) "collectionAddAll" [e]]).result
            (m.bind "acc0" (.list []))
        else (Stmt.execBlock [.invoke (intersection.slot c) "collectionRetainAll" [e]]).result m := by
  obtain ⟨e, he, h⟩ := exists_mem_of_argumentAt h
  cases h
  refine ⟨e, hargs e he, fun m => ⟨fun hnone => ?_, fun v hv => ?_⟩⟩
  · have htest : (Expr.slot (intersection.slot c)).mkIsNull.eval.result m =
        (.error (.unboundVariable "acc0"), m) := by
      show (Expr.unary .isNull (.slot (intersection.slot c)) .truth).eval.result m = _
      rw [result_unary, result_slot, show (intersection.slot c).name = "acc0" from rfl, hnone]
      rfl
    rw [result_execBlock_singleton, result_ite, htest, andThen_error]
  · have htest : (Expr.slot (intersection.slot c)).mkIsNull.EvalsTo m (.bool v.isNull) :=
      evalsTo_mkIsNull (evalsTo_slot hv)
    rw [result_execBlock_singleton, result_ite, htest]
    cases v.isNull
    · rfl
    · exact result_execBlock_cons ..

/-- A fold writes its accumulator last, INTERSECTION apart. -/
theorem onFault_step (h : f.step c args = .ok b) (hargs : ∀ e ∈ args, e.Steady) :
    OnFault (f.Leaves m) m (Stmt.execBlock b) := by
  have hwhole : OnFault (· = m) m (Stmt.execBlock b) → OnFault (f.Leaves m) m (Stmt.execBlock b) :=
    fun hb e m' he => .inl (hb e m' he)
  by_cases hcalls : ∀ g ∈ f.calls, g ∉ volatile
  · have huses : Stmt.UsesAll (fun _ => True) (· ∉ volatile) b :=
      (footprint_step h (fun _ _ => trivial) hargs (fun _ _ _ => trivial) hcalls).1
    cases f with
    | count | routines rs =>
      cases h
      exact hwhole (onFault_assign (onFault_eval huses.1))
    | sum | extreme least | bits op | listAgg =>
      obtain ⟨e, he, h⟩ := exists_mem_of_argumentAt h
      cases h
      exact hwhole (onFault_assign (onFault_eval huses.1))
    | collect | fusion =>
      obtain ⟨e, he, h⟩ := exists_mem_of_argumentAt h
      cases h
      exact hwhole (onFault_invoke huses.1.2)
    | intersection =>
      obtain ⟨e, he, hresult⟩ := result_step_intersection h hargs
      intro e' m' hm
      cases hv : m.get? "acc0" with
      | none =>
        rw [(hresult m).1 hv] at hm
        cases hm
        exact .inl rfl
      | some v =>
        rw [(hresult m).2 v hv] at hm
        have hone : ∀ a ∈ [e], a.Steady := by simpa using he
        split_ifs at hm with hnull
        · rw [Value.isNull_iff.1 hnull] at hv
          exact .inr ⟨rfl, hv, onFault_invoke hone e' m' hm⟩
        · exact .inl (onFault_invoke hone e' m' hm)
    | rank | denseRank =>
      cases h
      obtain ⟨⟨houter, ⟨⟨hinner, ⟨hnext, -⟩, -⟩, -⟩, -⟩, -⟩ := huses
      exact hwhole (onFault_when houter (onFault_when hinner (onFault_assign (onFault_eval hnext))))
    | rowNumber =>
      cases h
      exact .of_ok rfl
  · -- only the routines of a user can be ones with a state of their own
    cases f with
    | routines rs =>
      cases h
      refine hwhole (onFault_assign (onFault_call fun a ha => ?_))
      rcases List.mem_cons.1 ha with rfl | ha
      · exact (uses_slot _).2 trivial
      · obtain ⟨e, he, rfl⟩ := List.mem_map.1 ha
        exact (hargs e he).box
    | extreme least => cases least <;> simp [calls, volatile] at hcalls
    | bits op => cases op <;> simp [calls, volatile, BitOp.routine] at hcalls
    | _ => simp [calls, volatile] at hcalls

/-- A fold that takes in a row writes no slot but its own. -/
theorem get?_of_step (h : f.step c args = .ok b) {o : Except Fault Unit}
    (hb : (Stmt.execBlock b).result m = (o, m'))
    (hx : (f.state? c).isSome → x ≠ "acc0") : m'.get? x = m.get? x := by
  have hfoot : Stmt.UsesAll (fun _ => True) (fun _ => True) b ∧ ∀ y ∈ Stmt.writesAll b,
      y = "acc0" ∧ (f.state? c).isSome = true :=
    footprint_step h (fun _ _ => trivial) (fun _ _ => ⟨fun _ _ => trivial, fun _ _ => trivial⟩)
      (fun _ _ _ => trivial) fun _ _ => trivial
  have hwrites := writesOnly_execBlock (fun y hy => hy : ∀ y ∈ Stmt.writesAll b, y ∈ Stmt.writesAll b) m
  rw [hb] at hwrites
  exact hwrites.slots x fun hmem => hx (hfoot.2 x hmem).2 (hfoot.2 x hmem).1

/-- After a row is taken in, INTERSECTION has a multiset. -/
theorem notNull_of_step_intersection (h : Fold.intersection.step c args = .ok b)
    (hargs : ∀ e ∈ args, e.Steady) (hb : (Stmt.execBlock b).result m = (.ok (), m')) :
    m'.get? "acc0" ≠ some .null := by
  obtain ⟨e, he, hresult⟩ := result_step_intersection h hargs
  -- either mutator makes a list
  have hinvoke : ∀ {g : String} {f : Mutator} {n : Machine}, Mutator.find? g = some f →
      (∀ v vs w, n.get? "acc0" = some v → f v vs = .ok w → w ≠ .null) →
      (Stmt.execBlock [.invoke (intersection.slot c) g [e]]).result n = (.ok (), m') →
      m'.get? "acc0" ≠ some .null := by
    intro g f n hg hlist hn
    rw [result_execBlock_singleton, result_invoke] at hn
    obtain ⟨vs, n', hvs, hn⟩ := andThen_eq_ok.1 hn
    rw [result_evalAll_of_steady (by simpa using he) hvs] at hn
    obtain ⟨f', v, w, hf, hv, hw, rfl⟩ := mutate_eq_ok.1 hn
    obtain rfl : f = f' := Option.some.inj (hg.symm.trans hf)
    rw [show (intersection.slot c).name = "acc0" from rfl, Machine.get?_bind_self]
    exact fun heq => hlist v vs w hv hw (Option.some.inj heq)
  cases hv : m.get? "acc0" with
  | none =>
    rw [(hresult m).1 hv] at hb
    cases hb
  | some v =>
    rw [(hresult m).2 v hv] at hb
    split_ifs at hb with hnull
    · refine hinvoke (f := Mutator.addAll) rfl (fun u vs w hu hw => ?_) hb
      rw [Machine.get?_bind_self] at hu
      cases hu
      exact Mutator.addAll_ne_null hw
    · exact hinvoke (f := Mutator.retainAll) rfl (fun u vs w _ hw => Mutator.retainAll_ne_null hw) hb

end Fold

/-! ### Strategies -/

namespace Strategy

/-- The state in which it is noted that a row was taken in. -/
def marked (f : Fold) (c : AggregateCall) (m : Machine) : Machine :=
  ((taken? f c).map fun t => m.bind t.name (.bool true)).getD m

theorem steady_unbox : ∀ e ∈ c.argumentSlots.map fun s => (Expr.slot s).unbox, e.Steady := by
  intro e he
  obtain ⟨s, -, rfl⟩ := List.mem_map.1 he
  exact ((uses_slot s).2 trivial).unbox

/-- What taking in a row does: the test for nulls comes first, then the note, then the fold. -/
theorem result_strictAdd (h : strictAdd f c = .ok b) (m : Machine) : ∃ body,
    f.step c (c.argumentSlots.map fun s => (Expr.slot s).unbox) = .ok body ∧
      ((∃ e, (Stmt.execBlock b).result m = (.error e, m) ∧
          ∀ v, ¬ (noNull c.argumentSlots).EvalsTo m v) ∨
        ∃ v, (noNull c.argumentSlots).EvalsTo m v ∧ (Stmt.execBlock b).result m =
          if v.isBool true then (Stmt.execBlock body).result (marked f c m) else (.ok (), m)) := by
  obtain ⟨body, hbody, rfl⟩ := strictAdd_eq_ok h
  refine ⟨body, hbody, ?_⟩
  have hblock : (Stmt.execBlock ((taken? f c).toList.map (fun s => Stmt.assign s (.bool true)) ++ body)).result m =
      (Stmt.execBlock body).result (marked f c m) := by
    unfold marked
    cases taken? f c <;> rfl
  split_ifs with hconst
  · obtain ⟨r, hr⟩ := eq_const_of_isConstBool hconst
    refine .inr ⟨.bool true, by rw [hr, EvalsTo, result_const], hblock⟩
  · have hsteady : (noNull c.argumentSlots).Steady := uses_noNull fun _ _ => trivial
    rcases ht : (noNull c.argumentSlots).eval.result m with ⟨r, n⟩
    obtain rfl := hsteady.eq_state ht
    rw [result_execBlock_singleton, Stmt.when, result_ite, ht]
    cases r with
    | error e => exact .inl ⟨e, rfl, fun v hv => by cases ht.symm.trans hv⟩
    | ok v =>
      refine .inr ⟨v, ht, ?_⟩
      rw [andThen_ok]
      split_ifs
      · exact hblock
      · rfl

/-- On bound slots the test for nulls has a value. -/
theorem evalsTo_noNull_of_bound {slots : List Slot} (h : ∀ t ∈ slots, (m.get? t.name).isSome) :
    (noNull slots).EvalsTo m
      (.bool (slots.all fun t => t.rep.isPrim || !((m.get? t.name).getD .null).isNull)) := by
  have hall : List.Forall₂ (fun e b => e.EvalsTo m (.bool b))
      (slots.map fun t => (Expr.slot t).mkIsNull.mkNot)
      (slots.map fun t => t.rep.isPrim || !((m.get? t.name).getD .null).isNull) := by
    rw [List.forall₂_map_left_iff, List.forall₂_map_right_iff, List.forall₂_same]
    intro t ht
    obtain ⟨v, hv⟩ := Option.isSome_iff_exists.1 (h t ht)
    have hslot : (Expr.slot t).EvalsTo m v := evalsTo_slot hv
    refine refines_mkNot _ _ _ (result_unary_eq_ok.2 ⟨_, evalsTo_mkIsNull hslot, ?_⟩)
    simp [hv, Value.applyUnary, Expr.rep]
  have hconj := evalsTo_conj hall
  rwa [List.all_map, Function.id_comp] at hconj

/-- The ways in which a row that fails changes a slot: what the slot held before, and what it holds then. -/
inductive Slips (s : Strategy) (c : AggregateCall) : String → Option Value → Option Value → Prop
  /-- It is noted that a row was taken in. -/
  | taken {f : Fold} {t : Slot} {v : Option Value} (hf : s.fold? c = some f)
      (ht : taken? f c = some t) : Slips s c t.name v (some (.bool true))
  /-- It is noted that a row was seen. -/
  | seen {v : Option Value} (hs : s = .singleValue) : Slips s c seenSlot.name v (some (.bool true))
  /-- The empty multiset stands in place of null. -/
  | emptied (hf : s.fold? c = some .intersection) : Slips s c "acc0" (some .null) (some (.list []))

theorem Slips.of_complete {settings : Settings}
    (h : s.Slips (c.complete settings) x v v') : s.Slips c x v v' := by
  cases h with
  | taken hf ht => exact .taken hf ht
  | seen hs => exact .seen hs
  | emptied hf => exact .emptied hf

/-- The second state differs from the first one by slips only. -/
structure Spares (s : Strategy) (c : AggregateCall) (m m' : Machine) : Prop where
  rest : m' = { m with store := m'.store }
  slots : ∀ x, m'.get? x = m.get? x ∨ s.Slips c x (m.get? x) (m'.get? x)

theorem Spares.refl (s : Strategy) (c : AggregateCall) (m : Machine) : s.Spares c m m :=
  ⟨rfl, fun _ => .inl rfl⟩

theorem get?_marked_of_ne (hx : ∀ t, taken? f c = some t → x ≠ t.name) (m : Machine) :
    (marked f c m).get? x = m.get? x := by
  unfold marked
  cases ht : taken? f c with
  | none => rfl
  | some t => exact Machine.get?_bind_of_ne m _ (hx t ht)

theorem marked_of_taken {t : Slot} (ht : taken? f c = some t) (m : Machine) :
    marked f c m = m.bind t.name (.bool true) := by rw [marked, ht]; rfl

theorem spares_marked (hf : s.fold? c = some f) (m : Machine) : s.Spares c m (marked f c m) := by
  cases ht : taken? f c with
  | none =>
    rw [marked, ht]
    exact .refl s c m
  | some t =>
    rw [marked_of_taken ht]
    refine ⟨rfl, fun x => ?_⟩
    by_cases hx : x = t.name
    · subst hx
      rw [Machine.get?_bind_self]
      exact .inr (.taken hf ht)
    · exact .inl (Machine.get?_bind_of_ne m _ hx)

theorem onFault_strictAdd (hf : s.fold? c = some f) (h : strictAdd f c = .ok b) :
    OnFault (s.Spares c m) m (Stmt.execBlock b) := by
  intro e m' hm
  obtain ⟨body, hbody, ⟨e', hresult, -⟩ | ⟨v, -, hresult⟩⟩ := result_strictAdd h m
  · rw [hresult] at hm
    cases hm
    exact .refl s c m
  · rw [hresult] at hm
    split_ifs at hm
    · obtain rfl | ⟨rfl, hnull, rfl⟩ := Fold.onFault_step hbody steady_unbox e m' hm
      · exact spares_marked hf m
      · have hslot : ∀ t, taken? .intersection c = some t → "acc0" ≠ t.name :=
          fun t ht => (name_taken_ne ht rfl).symm
        have hmarked := spares_marked hf m
        refine ⟨?_, fun x => ?_⟩
        · rw [hmarked.rest]
          rfl
        · by_cases hx : x = "acc0"
          · subst hx
            rw [get?_marked_of_ne hslot] at hnull
            rw [Machine.get?_bind_self, hnull]
            exact .inr (.emptied hf)
          · rw [Machine.get?_bind_of_ne _ _ hx]
            exact hmarked.slots x
    · cases hm

/-- SINGLE_VALUE fails on a second row, or notes the row and then assigns its value. -/
theorem result_singleAdd (h : singleAdd c = .ok b) : ∃ e, e.Steady ∧ ∀ m : Machine,
    (∃ fault, (Stmt.execBlock b).result m = (.error fault, m)) ∨
      (Stmt.execBlock b).result m = (Stmt.execBlock [.assign (singleSlot c) e]).result
        (m.bind seenSlot.name (.bool true)) := by
  obtain ⟨e, he, h⟩ := exists_mem_of_argumentAt h
  cases h
  refine ⟨e.mkConvert c.rep, ?_, fun m => ?_⟩
  · obtain ⟨t, -, rfl⟩ := List.mem_map.1 he
    exact Uses.mkConvert ((uses_slot t).2 trivial) _
  rw [result_execBlock_cons, Stmt.when, result_ite, result_slot]
  cases m.get? seenSlot.name with
  | none => exact .inl ⟨_, rfl⟩
  | some v =>
    rw [andThen_ok]
    cases v.isBool true
    · exact .inr rfl
    · exact .inl ⟨_, rfl⟩

theorem onFault_singleAdd (h : singleAdd c = .ok b) :
    OnFault (singleValue.Spares c m) m (Stmt.execBlock b) := by
  obtain ⟨e, he, hresult⟩ := result_singleAdd h
  intro e' m' hm
  rcases hresult m with ⟨fault, hfault⟩ | hassign
  · rw [hfault] at hm
    cases hm
    exact .refl _ c m
  · rw [hassign] at hm
    rw [onFault_assign (onFault_eval he) e' m' hm]
    refine ⟨rfl, fun x => ?_⟩
    by_cases hx : x = seenSlot.name
    · subst hx
      rw [Machine.get?_bind_self]
      exact .inr (.seen rfl)
    · exact .inl (Machine.get?_bind_of_ne m _ hx)

/-- A row that fails changes slots by slips only, and nothing else of the machine. -/
theorem onFault_add (h : s.add c = .ok b) : OnFault (s.Spares c m) m (Stmt.execBlock b) := by
  have hwhole : OnFault (· = m) m (Stmt.execBlock b) → OnFault (s.Spares c m) m (Stmt.execBlock b) := by
    intro hb e m' hm
    rw [hb e m' hm]
    exact .refl s c m
  have huses : (∀ g ∈ s.calls, g ∉ volatile) → Stmt.UsesAll (fun _ => True) (· ∉ volatile) b :=
    fun hcalls => (footprint_add h (fun _ _ => trivial) (fun _ _ => trivial) (fun _ _ _ => trivial) hcalls).1
  cases s with
  | strict f => exact onFault_strictAdd rfl h
  | singleValue => exact onFault_singleAdd h
  | grouping =>
    cases h
    exact .of_ok rfl
  | jsonObject clause =>
    have hsteady := huses (by simp [calls, volatile])
    obtain ⟨key, -, h⟩ := exists_mem_of_argumentAt h
    obtain ⟨value, -, h⟩ := exists_mem_of_argumentAt h
    cases h
    exact hwhole (onFault_invoke hsteady.1.2)
  | jsonArray clause =>
    have hsteady := huses (by simp [calls, volatile])
    obtain ⟨value, -, h⟩ := exists_mem_of_argumentAt h
    cases h
    exact hwhole (onFault_invoke hsteady.1.2)
  | windowCount =>
    cases hn : c.hasNullableArgument with
    | false =>
      rw [(windowCount_of_not_hasNullableArgument hn).2.2.1] at h
      cases h
      exact .of_ok rfl
    | true =>
      rw [(windowCount_of_hasNullableArgument hn).2.2.1] at h
      exact onFault_strictAdd (by simp [fold?, hn]) h

/-! ### States in which a row that fails changes nothing -/

/-- The slots hold what a slip would write. -/
def Secure (s : Strategy) (c : AggregateCall) (m : Machine) : Prop :=
  ∀ x v, s.Slips c x (m.get? x) v → v = m.get? x

/-- A slip may happen: a slot notes that a row was taken in or seen, or null stands for no row. -/
def notesRows (s : Strategy) (c : AggregateCall) : Bool :=
  match s, s.fold? c with
  | .singleValue, _ => true
  | _, some .intersection => true
  | _, some _ => c.returnType.nullable
  | _, none => false

/-- The row is taken in if it does not fail. -/
def admits (s : Strategy) (c : AggregateCall) (row : List Value) : Bool :=
  (s.fold? c).isNone || Value.isComplete row

theorem notesRows_of_slips (h : s.Slips c x v v') :
    s.notesRows c := by
  cases h with
  | @taken f t _ hf ht =>
    have hn : c.returnType.nullable := by
      unfold taken? at ht
      split_ifs at ht with hn
      exact hn
    unfold notesRows
    rw [hf]
    cases s <;> cases f <;> first | rfl | exact hn
  | seen hs =>
    subst hs
    rfl
  | emptied hf =>
    unfold notesRows
    rw [hf]
    cases s <;> rfl

theorem mark_of_slips (h : s.Slips c x v v') :
    Slot.mark x = Slot.mark "acc" := by
  cases h with
  | @taken f t _ hf ht =>
    have hmem : t.name ∈ ((strict f).accumulator c).map (·.name) :=
      mem_accumulator_strict.2 (.inr ⟨t, ht, rfl⟩)
    exact Slot.mark_numbered (by decide) hmem
  | seen | emptied => decide

theorem secure_of_not_notesRows (h : s.notesRows c = false) (m : Machine) : s.Secure c m := by
  intro x v hslip
  rw [notesRows_of_slips hslip] at h
  cases h

theorem Secure.congr (h : s.Secure c m) (hm : ∀ x, Slot.mark x = Slot.mark "acc" → m.get? x = m'.get? x) :
    s.Secure c m' := by
  intro x v hslip
  have hx := hm x (mark_of_slips hslip)
  rw [← hx] at hslip ⊢
  exact h x v hslip

theorem Spares.twins (h : s.Spares c m m') (hm : s.Secure c m) : m.Twins (fun _ => True) m' := by
  refine ⟨h.rest, fun x _ => ?_⟩
  rcases h.slots x with hx | hx
  · exact hx.symm
  · exact (hm x _ hx).symm

theorem secure_of_step {body : Block} (hf : s.fold? c = some f)
    (hbody : f.step c (c.argumentSlots.map fun s => (Expr.slot s).unbox) = .ok body)
    (h : (Stmt.execBlock body).result (marked f c m) = (.ok (), m')) : s.Secure c m' := by
  intro x v hslip
  generalize hold : m'.get? x = w at hslip
  cases hslip with
  | @taken g t _ hg ht =>
    obtain rfl : f = g := Option.some.inj (hf.symm.trans hg)
    have hkeep := Fold.get?_of_step hbody h (name_taken_ne ht)
    rw [← hold, hkeep, marked_of_taken ht, Machine.get?_bind_self]
  | seen hs =>
    subst hs
    cases hf
  | emptied hg =>
    obtain rfl : f = .intersection := Option.some.inj (hf.symm.trans hg)
    exact absurd hold (Fold.notNull_of_step_intersection hbody steady_unbox h)

theorem secure_of_singleAdd (h : singleAdd c = .ok b) (hb : (Stmt.execBlock b).result m = (.ok (), m')) :
    singleValue.Secure c m' := by
  obtain ⟨e, -, hresult⟩ := result_singleAdd h
  have hseen : m'.get? seenSlot.name = some (.bool true) := by
    rcases hresult m with ⟨fault, hfault⟩ | hassign
    · rw [hfault] at hb
      cases hb
    · have hwrites : WritesOnly ["acc1"] (Stmt.execBlock [.assign (singleSlot c) e]) :=
        writesOnly_execBlock (by simp [Stmt.writesAll, Stmt.writes, singleSlot])
      have hkeeps := hwrites (m.bind seenSlot.name (.bool true))
      rw [← hassign, hb] at hkeeps
      exact (hkeeps.slots seenSlot.name (by decide)).trans (Machine.get?_bind_self _ _ _)
  intro x v hslip
  generalize hold : m'.get? x = w at hslip
  cases hslip with
  | taken hf => cases hf
  | seen => exact hseen.symm.trans hold
  | emptied hf => cases hf

/-- A row that is taken in makes the state secure, and a row that is skipped leaves it so. -/
theorem secure_of_add (h : s.add c = .ok b) (hb : (Stmt.execBlock b).result m = (.ok (), m'))
    (hm : s.Secure c m ∨ ((s.fold? c).isSome → (noNull c.argumentSlots).EvalsTo m (.bool true))) :
    s.Secure c m' := by
  cases hf : s.fold? c with
  | some f =>
    rw [(eq_strict_of_fold? hf).2.2.1] at h
    obtain ⟨body, hbody, ⟨e, hresult, -⟩ | ⟨v, hv, hresult⟩⟩ := result_strictAdd h m
    · rw [hresult] at hb
      cases hb
    · rw [hresult] at hb
      split_ifs at hb with htrue
      · exact secure_of_step hf hbody hb
      · cases hb
        refine hm.resolve_right fun hall => ?_
        have hv' := hall (by rw [hf]; rfl)
        rw [EvalsTo, hv] at hv'
        cases hv'
        exact htrue rfl
  | none =>
    cases s with
    | singleValue => exact secure_of_singleAdd h hb
    | _ => exact secure_of_not_notesRows (by simp [notesRows, hf]) m'

/-- Where the result is read off the frame, no row fails. -/
theorem result_add_of_readsFrame (h : s.add c = .ok b) (hr : s.readsFrame c)
    (hm : ∀ t ∈ c.argumentSlots, (m.get? t.name).isSome) :
    ((Stmt.execBlock b).result m).1 = .ok () := by
  cases s with
  | strict f =>
    cases f with
    | rowNumber =>
      obtain ⟨body, hbody, ⟨e, -, hnone⟩ | ⟨v, -, hresult⟩⟩ := result_strictAdd h m
      · exact absurd (evalsTo_noNull_of_bound hm) (hnone _)
      · cases hbody
        rw [hresult]
        split_ifs <;> rfl
    | _ => cases hr
  | windowCount =>
    have hn : c.hasNullableArgument = false := by simpa [readsFrame] using hr
    rw [(windowCount_of_not_hasNullableArgument hn).2.2.1] at h
    cases h
    rfl
  | _ => cases hr

end Strategy

/-! ### Runs over rows of which some fail -/

namespace Machine

variable {slots : List Slot} {values : List Value}

theorem Twins.bindSlots_self {S : String → Prop} (h : m.Twins S m') (slots : List Slot)
    (values : List Value) : (m.bindSlots slots values).Twins S (m'.bindSlots slots values) := by
  induction slots generalizing values m m' with
  | nil => exact h
  | cons t slots ih =>
    cases values with
    | nil => exact h
    | cons v values => exact ih ((h.bind t.name v).mono fun _ hx => .inl hx) values

/-- Every slot is bound to one of the values, if there are enough. -/
theorem exists_get?_bindSlots (hl : slots.length ≤ values.length) (m : Machine) :
    ∀ t ∈ slots, ∃ v ∈ values, (m.bindSlots slots values).get? t.name = some v := by
  induction slots generalizing values m with
  | nil => simp
  | cons s slots ih =>
    cases values with
    | nil => simp at hl
    | cons v values =>
      have hrest := ih (by simpa using hl) (m.bind s.name v)
      intro t ht
      by_cases hname : t.name ∈ slots.map (·.name)
      · obtain ⟨t', ht', heq⟩ := List.mem_map.1 hname
        obtain ⟨w, hw, hget⟩ := hrest t' ht'
        rw [heq] at hget
        exact ⟨w, by simp [hw], hget⟩
      · -- the first slot is not bound again
        obtain rfl : t = s := (List.mem_cons.1 ht).resolve_right fun h => hname (List.mem_map_of_mem h)
        refine ⟨v, by simp, (get?_bindSlots_of_notMem hname values _).trans (get?_bind_self _ _ _)⟩

end Machine

namespace AggregateProgram

/-- Takes in a row at its place in the window. -/
def takeRow (p : AggregateProgram) (row : GroupRow) : Run Unit := do
  p.bindFrame row.frame
  p.take row.arguments

/-- Takes in rows in order and goes on after a row that fails; what it left in the machine stays. -/
def takeEach (p : AggregateProgram) : List GroupRow → Machine → Machine
  | [], m => m
  | row :: rows, m => p.takeEach rows ((p.takeRow row).result m).2

/-- The rows that do not fail when rows are taken in in order. -/
def succeeding (p : AggregateProgram) : List GroupRow → Machine → List GroupRow
  | [], _ => []
  | row :: rows, m =>
    let rest := p.succeeding rows ((p.takeRow row).result m).2
    if ((p.takeRow row).result m).1.isOk then row :: rest else rest

/-- The slots that a row binds. -/
def rowSlots (p : AggregateProgram) : List Slot := p.frameSlots ++ p.arguments

/-- The row has a value for every slot that it binds. -/
structure Fills (p : AggregateProgram) (row : GroupRow) : Prop where
  frame : p.frameSlots.length ≤ row.frame.length
  arguments : p.arguments.length ≤ row.arguments.length

/-- The state with a row bound. -/
def place (p : AggregateProgram) (row : GroupRow) (m : Machine) : Machine :=
  (m.bindSlots p.frameSlots row.frame).bindSlots p.arguments row.arguments

variable {p : AggregateProgram} {row : GroupRow}

theorem result_takeRow (p : AggregateProgram) (row : GroupRow) (m : Machine) :
    (p.takeRow row).result m = (Stmt.execBlock p.add).result (p.place row m) := by
  unfold takeRow
  rw [result_bind, result_bindFrame, andThen_ok]
  rfl

theorem takePlaced_cons (p : AggregateProgram) (row : GroupRow) (rows : List GroupRow) :
    p.takePlaced (row :: rows) = p.takeRow row >>= fun _ => p.takePlaced rows := by
  simp only [takePlaced, takeRow, bind_assoc]

theorem takePlaced_append (p : AggregateProgram) (rows rows' : List GroupRow) :
    p.takePlaced (rows ++ rows') = p.takePlaced rows >>= fun _ => p.takePlaced rows' := by
  induction rows with
  | nil => simp only [List.nil_append, takePlaced, pure_bind]
  | cons row rows ih => simp only [List.cons_append, takePlaced_cons, ih, bind_assoc]

theorem twins_place (p : AggregateProgram) (row : GroupRow) (m : Machine) :
    m.Twins (· ∉ p.rowSlots.map (·.name)) (p.place row m) := by
  have hframe : m.Twins (· ∉ p.frameSlots.map (·.name)) (m.bindSlots p.frameSlots row.frame) :=
    ⟨Machine.bindSlots_rest _ _ _, fun x hx => (Machine.get?_bindSlots_of_notMem hx _ _).symm⟩
  have hargs : ∀ n : Machine, n.Twins (· ∉ p.arguments.map (·.name)) (n.bindSlots p.arguments row.arguments) :=
    fun n => ⟨Machine.bindSlots_rest _ _ _, fun x hx => (Machine.get?_bindSlots_of_notMem hx _ _).symm⟩
  refine (hframe.mono fun x hx => ?_).trans ((hargs _).mono fun x hx => ?_)
  all_goals
    simp only [rowSlots, List.map_append, List.mem_append, not_or] at hx
    tauto

/-- A row that binds all of its slots makes states alike that differ in these slots. -/
theorem twins_place_of_twins (h : m.Twins (· ∉ p.rowSlots.map (·.name)) m') (hrow : p.Fills row) :
    (p.place row m).Twins (fun _ => True) (p.place row m') := by
  refine ((h.bindSlots hrow.frame).bindSlots hrow.arguments).mono fun x _ => ?_
  simp only [rowSlots, List.map_append, List.mem_append, not_or]
  tauto

/-- The states differ in the slots that a row binds only, and not at all where the result is read off the
frame. -/
abbrev Level (p : AggregateProgram) (s : Strategy) (c : AggregateCall) : Machine → Machine → Prop :=
  Machine.Twins fun x => s.readsFrame c = true ∨ x ∉ p.rowSlots.map (·.name)

theorem alike_takeRow (hrow : p.Fills row) :
    Alike (Level p s c) (Level p s c) (p.takeRow row) (p.takeRow row) := by
  intro m m' hm
  have hplaced := twins_place_of_twins (hm.mono fun x hx => .inr hx) hrow
  have hcode := alike_execBlock (Machine.indistinct_twins fun _ => True)
    (usesAll_iff.2 fun t (_ : t ∈ p.add) => t.uses_true) hplaced
  rw [result_takeRow, result_takeRow]
  exact ⟨hcode.1, fun a ha => (hcode.2 a ha).mono fun _ _ => trivial⟩

/-- A bound row has a value of its own in every argument slot. -/
theorem exists_get?_place (hp : p.Implements s c) (hrow : p.Fills row) (m : Machine) :
    ∀ t ∈ c.argumentSlots, ∃ v ∈ row.arguments, (p.place row m).get? t.name = some v := by
  rw [← hp.arguments]
  exact Machine.exists_get?_bindSlots hrow.arguments _

section Framed

variable (hp : p.Implements s c) (hf : p.frame = if window then some {} else none)
include hp hf

/-- The slots of a row are neither of the accumulator nor of the group keys. -/
theorem notMem_rowSlots (hx : Slot.mark x = Slot.mark "acc" ∨ Slot.mark x = Slot.mark "rolled_up") :
    x ∉ p.rowSlots.map (·.name) := by
  intro hmem
  rw [rowSlots, List.map_append, List.mem_append, frameSlots_of_window hf, hp.arguments] at hmem
  rcases hmem with hmem | hmem
  · have hmarks : ∀ y ∈ Fold.frameNames,
        Slot.mark y ≠ Slot.mark "acc" ∧ Slot.mark y ≠ Slot.mark "rolled_up" := by decide
    cases window with
    | false => simp at hmem
    | true => exact hx.elim (hmarks x hmem).1 (hmarks x hmem).2
  · rw [Slot.mark_numbered (by decide) hmem] at hx
    revert hx
    decide

/-- The result does not depend on the slots of the rows, unless it is read off the frame. -/
theorem alike_close (keys : List Value) :
    Alike (Level p s c) (fun _ _ => True) (p.bindKeys keys >>= fun _ => p.finish)
      (p.bindKeys keys >>= fun _ => p.finish) := by
  have hkeys : Alike (Level p s c) (Level p s c) (p.bindKeys keys) (p.bindKeys keys) :=
    .modify fun m m' hm => hm.bindSlots_self p.keys keys
  have huses : p.value.Uses (fun x => s.readsFrame c ∨ x ∉ p.rowSlots.map (·.name)) fun _ => True := by
    refine uses_value hp.value (fun x hx => .inr ?_) (fun t ht => .inr ?_)
      (fun hr x hx => .inl hr) fun _ _ => trivial
    · exact notMem_rowSlots hp hf (.inl (Slot.mark_numbered (by decide) hx))
    · exact notMem_rowSlots hp hf (.inr (Slot.mark_numbered (by decide) (List.mem_map_of_mem ht)))
  refine hkeys.bind fun _ => ?_
  rw [hp.finish_eq]
  exact (alike_eval (Machine.indistinct_twins _) huses).mono (fun _ _ h => h) fun _ _ _ => trivial

theorem secure_takeRow (hrow : p.Fills row) (hm : s.Secure c m ∨ s.admits c row.arguments)
    (h : (p.takeRow row).result m = (.ok (), m')) : s.Secure c m' := by
  rw [result_takeRow] at h
  refine secure_of_add hp.add h ?_
  rcases hm with hm | hm
  · exact .inl (hm.congr fun x hx => (twins_place p row m).slots x (notMem_rowSlots hp hf (.inl hx)))
  · refine .inr fun hsome => ?_
    have hcomplete : Value.isComplete row.arguments := by
      rw [Strategy.admits, Bool.or_eq_true, Option.isNone_iff_eq_none] at hm
      refine hm.resolve_left fun hnone => ?_
      rw [hnone] at hsome
      cases hsome
    have hbound := exists_get?_place hp hrow m
    have htest := evalsTo_noNull_of_bound (m := p.place row m) fun t ht => by
      obtain ⟨v, -, hv⟩ := hbound t ht
      rw [hv]
      rfl
    rwa [List.all_eq_true.2 fun t ht => ?_] at htest
    obtain ⟨v, hmem, hv⟩ := hbound t ht
    have hnull : v.isNull = false := by
      rw [Value.isComplete, Bool.not_eq_true', List.any_eq_false] at hcomplete
      exact Bool.eq_false_iff.2 (hcomplete v hmem)
    rw [hv, Option.getD_some, hnull, Bool.not_false, Bool.or_true]

/-- In a secure state a row that fails changes the slots that it binds only. -/
theorem level_of_fault (hrow : p.Fills row) (hm : s.Secure c m) {e : Fault}
    (h : (p.takeRow row).result m = (.error e, m')) : Level p s c m m' := by
  have hplaced := twins_place p row m
  have hsecure : s.Secure c (p.place row m) :=
    hm.congr fun x hx => hplaced.slots x (notMem_rowSlots hp hf (.inl hx))
  rw [result_takeRow] at h
  have hspared := (onFault_add hp.add e m' h).twins hsecure
  refine (hplaced.trans (hspared.mono fun _ _ => trivial)).mono fun x hx => hx.resolve_left fun hr => ?_
  -- a row fails only if the result is not read off the frame
  have hok := result_add_of_readsFrame hp.add hr (m := p.place row m) fun t ht => by
    obtain ⟨v, -, hv⟩ := exists_get?_place hp hrow m t ht
    rw [hv]
    rfl
  rw [h] at hok
  cases hok

/-- From a secure state, a run that goes on after rows that fail keeps in step with the run over the rows that
do not fail. -/
theorem result_takePlaced_succeeding {rows : List GroupRow} (hrows : ∀ row ∈ rows, p.Fills row) {n : Machine} (hmn : Level p s c m n) (hm : s.Secure c m) :
    ∃ n', (p.takePlaced (p.succeeding rows m)).result n = (.ok (), n') ∧ Level p s c (p.takeEach rows m) n' := by
  induction rows generalizing m n with
  | nil => exact ⟨n, rfl, hmn⟩
  | cons row rows ih =>
    have hrow := hrows row (by simp)
    have hrest : ∀ r ∈ rows, p.Fills r := fun r hr => hrows r (by simp [hr])
    unfold succeeding takeEach
    rcases hr : (p.takeRow row).result m with ⟨r, m₁⟩
    cases r with
    | error e =>
      have hlevel := level_of_fault hp hf hrow hm hr
      refine ih hrest (hlevel.symm.trans hmn) (hm.congr fun x hx => ?_)
      exact hlevel.slots x (.inr (notMem_rowSlots hp hf (.inl hx)))
    | ok u =>
      obtain ⟨hfst, hsnd⟩ := alike_takeRow hrow hmn
      rw [hr] at hfst hsnd
      obtain ⟨n', hn', hlevel⟩ := ih hrest (hsnd u rfl) (secure_takeRow hp hf hrow (.inl hm) hr)
      refine ⟨n', ?_, hlevel⟩
      show (p.takePlaced (row :: p.succeeding rows m₁)).result n = _
      rw [takePlaced_cons, result_bind, ← Prod.mk.eta (p := (p.takeRow row).result n), ← hfst, andThen_ok]
      exact hn'

/-- Rows that are taken in without a fault, one of which is admitted, make the state secure. -/
theorem secure_takePlaced {rows : List GroupRow} (hrows : ∀ row ∈ rows, p.Fills row)
    (hm : s.Secure c m ∨ ∃ row ∈ rows, s.admits c row.arguments)
    (h : (p.takePlaced rows).result m = (.ok (), m')) : s.Secure c m' := by
  induction rows generalizing m with
  | nil =>
    cases h
    simpa using hm
  | cons row rows ih =>
    rw [takePlaced_cons, result_bind] at h
    obtain ⟨_, m₁, hrow, h⟩ := andThen_eq_ok.1 h
    refine ih (fun r hr => hrows r (by simp [hr])) ?_ h
    rcases hm with hm | ⟨r, hr, hadmits⟩
    · exact .inl (secure_takeRow hp hf (hrows row (by simp)) (.inl hm) hrow)
    · rcases List.mem_cons.1 hr with rfl | hr
      · exact .inl (secure_takeRow hp hf (hrows r (by simp)) (.inr hadmits) hrow)
      · exact .inr ⟨r, hr, hadmits⟩

end Framed

end AggregateProgram

/-! ### The main result -/

namespace AggregateFunction

open AggregateProgram in
/-- A row that fails changes nothing of the machine but the slots that it binds and, by a slip, the accumulator.
If no slip is possible, or a row was taken in before the first row that fails, then a later result is that of
the group of the rows that did not fail. -/
theorem fault_spares_accumulator {f : AggregateFunction} {settings : Settings} {call : AggregateCall}
    {window : Bool} {p : AggregateProgram} {s : Strategy} (hp : f.program settings call window = .ok p)
    (hs : f.strategy settings window = .ok s) :
    (∀ m row e m', (p.takeRow row).result m = (.error e, m') →
      m' = { m with store := m'.store } ∧
        ∀ x, x ∈ p.accumulator.map (·.name) ∨ x ∉ p.rowSlots.map (·.name) →
          m'.get? x = m.get? x ∨ s.Slips call x (m.get? x) (m'.get? x)) ∧
    ∀ m m₀ m₁ before after keys, (∀ row ∈ before ++ after, p.Fills row) →
      p.start.result m = (.ok (), m₀) → (p.takePlaced before).result m₀ = (.ok (), m₁) →
      (s.notesRows call = true → ∃ row ∈ before, s.admits call row.arguments = true) →
      ((p.bindKeys keys >>= fun _ => p.finish).result (p.takeEach after m₁)).1 =
        ((p.group ⟨before ++ p.succeeding after m₁, keys⟩).result m).1 := by
  obtain ⟨s', hs', himp, hframe⟩ := implements_of_program hp
  obtain rfl : s = s' := Except.ok.inj (hs.symm.trans hs')
  refine ⟨fun m row e m' h => ?_, fun m m₀ m₁ before after keys hrows hstart hbefore hnotes => ?_⟩
  · have hplaced := twins_place p row m
    rw [result_takeRow] at h
    have hspared := Strategy.onFault_add himp.add e m' h
    refine ⟨?_, fun x hx => ?_⟩
    · rw [hspared.rest, hplaced.rest]
    · have hnot : x ∉ p.rowSlots.map (·.name) := by
        refine hx.elim (fun hacc => ?_) id
        rw [himp.accumulator] at hacc
        exact notMem_rowSlots himp hframe (.inl (Slot.mark_numbered (by decide) hacc))
      rw [hplaced.slots x hnot]
      exact (hspared.slots x).imp id Strategy.Slips.of_complete
  · have hsecure : s.Secure (call.complete settings) m₁ := by
      refine secure_takePlaced himp hframe (fun row hr => hrows row (by simp [hr])) ?_ hbefore
      cases hn : s.notesRows call with
      | false => exact .inl (Strategy.secure_of_not_notesRows (c := call.complete settings) hn m₀)
      | true => exact .inr (hnotes hn)
    have hafter : ∀ row ∈ after, p.Fills row := fun row hr => hrows row (by simp [hr])
    obtain ⟨n, hn, hlevel⟩ := result_takePlaced_succeeding himp hframe hafter (.refl _ m₁) hsecure
    have hgroup : (p.group ⟨before ++ p.succeeding after m₁, keys⟩).result m =
        (p.bindKeys keys >>= fun _ => p.finish).result n := by
      unfold group
      rw [result_bind, hstart, andThen_ok, takePlaced_append, bind_assoc, result_bind, hbefore, andThen_ok,
        result_bind, hn, andThen_ok]
    rw [hgroup]
    exact (alike_close himp hframe keys hlevel).1

/-- A sum that overflows in its second row goes on with the third one. -/
theorem fault_spares_accumulator_sum :
    let bigInt : SqlType := .plain .bigInt true
    let call : AggregateCall := { returnType := bigInt, parameters := [bigInt] }
    let row (n : Int64) : GroupRow := { arguments := [.int n] }
    ∃ p, (builtin .sum).program {} call false = .ok p ∧
      let m := ((p.takePlaced [row 5]).result (p.start.result {}).2).2
      p.succeeding [row Int64.maxValue, row 7] m = [row 7] ∧
        ((p.bindKeys [] >>= fun _ => p.finish).result (p.takeEach [row Int64.maxValue, row 7] m)).1 =
          ((p.group ⟨[row 5, row 7], []⟩).result {}).1 := by
  dsimp only
  refine ⟨_, rfl, rfl, ?_⟩
  have hresult := (@fault_spares_accumulator (builtin .sum) {}
    { returnType := .plain .bigInt true, parameters := [.plain .bigInt true] } false _ _ rfl rfl).2
  refine hresult {} _ _ [⟨[], [.int 5]⟩] [⟨[], [.int Int64.maxValue]⟩, ⟨[], [.int 7]⟩] [] (fun row hrow => ?_)
    (Prod.ext rfl rfl) (Prod.ext rfl rfl) fun _ => ⟨⟨[], [.int 5]⟩, by simp, rfl⟩
  simp only [List.cons_append, List.nil_append, List.mem_cons, List.not_mem_nil, or_false] at hrow
  rcases hrow with rfl | rfl | rfl <;> exact ⟨Nat.le_refl 0, Nat.le_refl 1⟩

/-- Where the first row fails, it is noted as taken in: the result is not null, although no row was folded
in. -/
theorem fault_is_noted :
    let integer (nullable : Bool) : SqlType := .plain .integer nullable
    let call : AggregateCall := { returnType := integer true, parameters := [integer false] }
    let routines : Bindings Routine := [("i", fun _ => .ok (.int 0)),
      ("a", fun _ => .error (.invalidArgument "a" "x")), ("r", fun args => .ok (args.headD .null))]
    let m : Machine := { routines := routines }
    ∃ p m₀ m₁, (user "f" (some ⟨"i", "a", "r"⟩)).program {} call false = .ok p ∧
      p.start.result m = (.ok (), m₀) ∧
      (p.takeRow { arguments := [.int 1] }).result m₀ = (.error (.invalidArgument "a" "x"), m₁) ∧
      m₀.get? "acc1" = some (.bool false) ∧ m₁.get? "acc1" = some (.bool true) ∧
      (p.finish.result m₁).1 = .ok (.int 0) ∧ ((p.group { rows := [] }).result m).1 = .ok .null := by
  exact ⟨_, _, _, rfl, rfl, rfl, rfl, rfl, rfl, rfl⟩

end AggregateFunction

end SqlCode

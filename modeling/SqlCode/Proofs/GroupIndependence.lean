import SqlCode.Proofs.AggregateCode

/-!
# Groups and frames are independent

A group is computed from its start, its rows and its keys alone: what earlier groups left in the machine,
also by a fault, does not matter. Starting a group writes every accumulator slot, a row binds the slots of
the arguments and of the frame, and the code reads no other slots.
-/

namespace SqlCode

open Run SqlCode.Expr Machine

/-- A row of a group: where it stands in its window, and its arguments. -/
structure GroupRow where
  frame : List Value := []
  arguments : List Value

/-- A group: its rows, and the values of the slots of the group keys. -/
structure Group where
  rows : List GroupRow
  keys : List Value := []

namespace AggregateProgram

/-! ### Runs over groups -/

/-- The slots of the frame, if there is one. -/
def frameSlots (p : AggregateProgram) : List Slot := (p.frame.map Frame.slots).getD []

/-- All slots of a program. -/
def slots (p : AggregateProgram) : List Slot := p.accumulator ++ p.arguments ++ p.keys ++ p.frameSlots

/-- Takes in rows in order, each at its place in the window. -/
def takePlaced (p : AggregateProgram) : List GroupRow → Run Unit
  | [] => return ()
  | row :: rows => do
    p.bindFrame row.frame
    p.take row.arguments
    p.takePlaced rows

/-- The result of a group. -/
def group (p : AggregateProgram) (g : Group) : Run Value := do
  p.start
  p.takePlaced g.rows
  p.bindKeys g.keys
  p.finish

/-- The outcomes of groups that are computed one after the other on one machine. A group starts in the state
that the group before it left, be it by a fault. -/
def outcomes (p : AggregateProgram) : List Group → Machine → List (Except Fault Value)
  | [], _ => []
  | g :: gs, m => ((p.group g).result m).1 :: p.outcomes gs ((p.group g).result m).2

/-- The group has a value for every slot that its rows and its keys bind. -/
structure Accepts (p : AggregateProgram) (g : Group) : Prop where
  frame : ∀ row ∈ g.rows, p.frameSlots.length ≤ row.frame.length
  arguments : ∀ row ∈ g.rows, p.arguments.length ≤ row.arguments.length
  keys : p.keys.length ≤ g.keys.length

theorem result_bindFrame (p : AggregateProgram) (values : List Value) (m : Machine) :
    (p.bindFrame values).result m = (.ok (), m.bindSlots p.frameSlots values) := by
  unfold bindFrame frameSlots
  cases p.frame with
  | none | some => rfl

/-! ### Two programs in step -/

variable {p q : AggregateProgram} {s : Strategy} {c : AggregateCall} {F : String → Prop}

/-- The name of an accumulator slot. -/
abbrev Owns (s : Strategy) (c : AggregateCall) (x : String) : Prop := x ∈ (s.accumulator c).map (·.name)

/-- Both programs implement the strategy. Placing a row binds the slots in `F` alike and leaves the
accumulator alone; if the code needs the frame, its slots are among those. -/
structure InStep (s : Strategy) (c : AggregateCall) (F : String → Prop) (p q : AggregateProgram) :
    Prop where
  left : p.Implements s c
  right : q.Implements s c
  steady : ∀ f ∈ s.calls, f ∉ volatile
  frame : ∀ values, p.frameSlots.length ≤ values.length →
    Alike (Machine.Agrees (Owns s c)) (Machine.Agrees fun x => Owns s c x ∨ F x)
      (p.bindFrame values) (q.bindFrame values)
  needs : s.needsWindow → ∀ x ∈ Fold.frameNames, F x

/-- Assignments of values that both states have alike add the slots that they write. -/
theorem alike_assigns {S : String → Prop} {block : Block}
    (h : ∀ t ∈ block, ∃ x e, t = .assign x e ∧ e.Uses S (· ∉ volatile)) :
    Alike (Machine.Agrees S) (Machine.Agrees fun x => S x ∨ x ∈ Stmt.writesAll block)
      (Stmt.execBlock block) (Stmt.execBlock block) := by
  induction block generalizing S with
  | nil => exact (Alike.pure ()).mono (fun _ _ hm => hm) fun _ _ hm => hm.mono (by simp [Stmt.writesAll])
  | cons t block ih =>
    obtain ⟨x, e, rfl, he⟩ := h t (by simp)
    have hassign : Alike (Machine.Agrees S) (Machine.Agrees fun y => S y ∨ y = x.name)
        (Stmt.assign x e).exec (Stmt.assign x e).exec :=
      .bind (alike_eval (indistinct_agrees S) he) fun v => .modify fun _ _ hm => hm.bind x.name v
    have hblock : ∀ t ∈ block, ∃ x' e', t = .assign x' e' ∧
        e'.Uses (fun y => S y ∨ y = x.name) (· ∉ volatile) := by
      intro t ht
      obtain ⟨x', e', rfl, he'⟩ := h t (by simp [ht])
      exact ⟨x', e', rfl, he'.mono (fun _ hy => .inl hy) fun _ hf => hf⟩
    have hrest := ih hblock
    refine (hassign.bind fun _ => hrest).mono (fun _ _ hm => hm) fun _ _ hm => hm.mono fun y hy => ?_
    simp only [Stmt.writesAll, Stmt.writes, List.singleton_append, List.mem_cons] at hy
    tauto

theorem alike_start (h : InStep s c F p q) :
    Alike (Machine.Agrees fun _ => False) (Machine.Agrees (Owns s c)) p.start q.start := by
  unfold start Block.exec
  rw [h.left.reset, h.right.reset]
  refine (alike_assigns (Strategy.uses_reset h.steady)).mono (fun _ _ hm => hm) fun _ _ hm => ?_
  exact hm.mono fun x hx => .inr (Strategy.writesAll_reset x hx)

/-- A row acts alike on accumulators that agree, and leaves the frames in agreement too. -/
theorem alike_place (h : InStep s c F p q) {row : GroupRow}
    (hframe : p.frameSlots.length ≤ row.frame.length)
    (hargs : p.arguments.length ≤ row.arguments.length) :
    Alike (Machine.Agrees (Owns s c)) (Machine.Agrees fun x => Owns s c x ∨ F x)
      (p.bindFrame row.frame >>= fun _ => p.take row.arguments)
      (q.bindFrame row.frame >>= fun _ => q.take row.arguments) := by
  refine (h.frame row.frame hframe).bind fun _ => ?_
  have hbound : Alike (Machine.Agrees fun x => Owns s c x ∨ F x)
      (Machine.Agrees fun x => (Owns s c x ∨ F x) ∨ x ∈ c.argumentSlots.map (·.name))
      (modify (Machine.bindSlots p.arguments row.arguments) : Run Unit)
      (modify (Machine.bindSlots q.arguments row.arguments)) := by
    refine .modify fun m m' hm => ?_
    rw [h.right.arguments, ← h.left.arguments]
    exact hm.bindSlots hargs
  refine hbound.bind fun _ => ?_
  have huses : Stmt.UsesAll (fun x => (Owns s c x ∨ F x) ∨ x ∈ c.argumentSlots.map (·.name))
      (· ∉ volatile) p.add :=
    (Strategy.footprint_add h.left.add (fun x hx => .inl (.inl hx))
      (fun t ht => .inr (List.mem_map_of_mem ht)) (fun hw x hx => .inl (.inr (h.needs hw x hx)))
      h.steady).1
  have hadd : q.add = p.add := Except.ok.inj (h.right.add.symm.trans h.left.add)
  unfold Block.exec
  rw [hadd]
  refine (Stmt.alike_execBlock (indistinct_agrees _) huses).mono (fun _ _ hm => hm) fun _ _ hm => ?_
  exact hm.mono fun x hx => .inl hx

/-- Taking in rows keeps accumulators in agreement, and makes frames agree if there is a row. -/
theorem alike_takePlaced (h : InStep s c F p q) {rows : List GroupRow}
    (hframe : ∀ row ∈ rows, p.frameSlots.length ≤ row.frame.length)
    (hargs : ∀ row ∈ rows, p.arguments.length ≤ row.arguments.length) :
    Alike (Machine.Agrees (Owns s c)) (Machine.Agrees fun x => Owns s c x ∨ (rows ≠ [] ∧ F x))
      (p.takePlaced rows) (q.takePlaced rows) := by
  -- once a row is placed, the frames stay in agreement
  have hafter : ∀ rows : List GroupRow, (∀ row ∈ rows, p.frameSlots.length ≤ row.frame.length) →
      (∀ row ∈ rows, p.arguments.length ≤ row.arguments.length) →
      Alike (Machine.Agrees fun x => Owns s c x ∨ F x) (Machine.Agrees fun x => Owns s c x ∨ F x)
        (p.takePlaced rows) (q.takePlaced rows) := by
    intro rows hframe hargs
    induction rows with
    | nil => exact .pure ()
    | cons row rows ih =>
      have hrow := (alike_place h (hframe row (by simp)) (hargs row (by simp))).mono
        (fun _ _ (hm : Machine.Agrees (fun x => Owns s c x ∨ F x) _ _) => hm.mono fun _ hx => .inl hx)
        fun _ _ hm => hm
      have hrest := ih (fun r hr => hframe r (by simp [hr])) fun r hr => hargs r (by simp [hr])
      have hrun := hrow.bind fun _ => hrest
      simp only [bind_assoc] at hrun
      exact hrun
  cases rows with
  | nil => exact (Alike.pure ()).mono (fun _ _ hm => hm) fun _ _ hm => hm.mono (by simp)
  | cons row rows =>
    have hrow := alike_place h (hframe row (by simp)) (hargs row (by simp))
    have hrest := hafter rows (fun r hr => hframe r (by simp [hr])) fun r hr => hargs r (by simp [hr])
    have hrun := hrow.bind fun _ => hrest
    simp only [bind_assoc] at hrun
    exact hrun.mono (fun _ _ hm => hm) fun _ _ hm => hm.mono (by simp)

/-- Two programs in step compute a group alike, whatever the variables hold before. -/
theorem alike_group (h : InStep s c F p q) {g : Group} (hg : p.Accepts g)
    (hreads : s.readsFrame c → g.rows ≠ [] ∧ ∀ x ∈ Fold.frameNames, F x) :
    Alike (Machine.Agrees fun _ => False) (fun _ _ => True) (p.group g) (q.group g) := by
  refine (alike_start h).bind fun _ => (alike_takePlaced h hg.frame hg.arguments).bind fun _ => ?_
  have hkeys : Alike (Machine.Agrees fun x => Owns s c x ∨ (g.rows ≠ [] ∧ F x))
      (Machine.Agrees fun x => (Owns s c x ∨ (g.rows ≠ [] ∧ F x)) ∨ x ∈ p.keys.map (·.name))
      (p.bindKeys g.keys) (q.bindKeys g.keys) := by
    unfold bindKeys
    rw [h.right.keys, ← h.left.keys]
    exact .modify fun _ _ hm => hm.bindSlots hg.keys
  refine hkeys.bind fun _ => ?_
  have huses : p.value.Uses
      (fun x => (Owns s c x ∨ (g.rows ≠ [] ∧ F x)) ∨ x ∈ p.keys.map (·.name)) (· ∉ volatile) := by
    refine Strategy.uses_value h.left.value (fun x hx => .inl (.inl hx)) (fun t ht => .inr ?_)
      (fun hr x hx => .inl (.inr ⟨(hreads hr).1, (hreads hr).2 x hx⟩)) h.steady
    rw [h.left.keys]
    exact List.mem_map_of_mem (List.mem_append_right _ ht)
  have hvalue : q.value = p.value := Except.ok.inj (h.right.value.symm.trans h.left.value)
  rw [h.left.finish_eq, h.right.finish_eq, hvalue]
  exact (alike_eval (indistinct_agrees _) huses).mono (fun _ _ hm => hm) fun _ _ _ => trivial

/-! ### Programs that are in step -/

theorem frameSlots_of_window {window : Bool} (hf : p.frame = if window then some {} else none) :
    p.frameSlots = if window then ({} : Frame).slots else [] := by
  unfold frameSlots
  cases window <;> rw [hf] <;> rfl

theorem InStep.self (hp : p.Implements s c) (hs : ∀ f ∈ s.calls, f ∉ volatile)
    (hn : s.needsWindow → p.frameSlots = ({} : Frame).slots) :
    InStep s c (· ∈ p.frameSlots.map (·.name)) p p where
  left := hp
  right := hp
  steady := hs
  frame := by
    intro values hl m m' hm
    rw [result_bindFrame, result_bindFrame]
    exact ⟨rfl, fun _ _ => hm.bindSlots hl⟩
  needs := by
    intro hw x hx
    rw [hn hw]
    exact hx

/-- No accumulator slot has the name of a slot of the frame. -/
theorem not_owns_of_mem_frameNames {x : String} (hx : x ∈ Fold.frameNames) : ¬ Owns s c x := by
  intro ho
  have hmark : Slot.mark x = Slot.mark "acc" := Slot.mark_numbered (by decide) ho
  have hmarks : ∀ y ∈ Fold.frameNames, Slot.mark y ≠ Slot.mark "acc" := by decide
  exact hmarks x hx hmark

/-- If the code does not need the frame, it is in step with the same code over groups. -/
theorem InStep.windowless (hp : p.Implements s c) (hq : q.Implements s c)
    (hs : ∀ f ∈ s.calls, f ∉ volatile) (hn : s.needsWindow = false)
    (hpf : ∀ t ∈ p.frameSlots, t.name ∈ Fold.frameNames)
    (hqf : ∀ t ∈ q.frameSlots, t.name ∈ Fold.frameNames) :
    InStep s c (fun _ => False) p q where
  left := hp
  right := hq
  steady := hs
  frame := by
    intro values _ m m' hm
    have hother : ∀ r : AggregateProgram, (∀ t ∈ r.frameSlots, t.name ∈ Fold.frameNames) →
        ∀ x, Owns s c x → x ∉ r.frameSlots.map (·.name) := by
      intro r hr x ho hx
      obtain ⟨t, ht, rfl⟩ := List.mem_map.1 hx
      exact not_owns_of_mem_frameNames (hr t ht) ho
    rw [result_bindFrame, result_bindFrame]
    refine ⟨rfl, fun _ _ => ⟨?_, ?_, fun x hx => ?_⟩⟩
    · rw [bindSlots_rest _ _ m, bindSlots_rest _ _ m']
      exact hm.context
    · rw [bindSlots_rest _ _ m, bindSlots_rest _ _ m']
      exact hm.routines
    · have ho : Owns s c x := hx.resolve_right id
      rw [get?_bindSlots_of_notMem (hother p hpf x ho),
        get?_bindSlots_of_notMem (hother q hqf x ho)]
      exact hm.slots x ho
  needs := by
    intro hw
    rw [hn] at hw
    cases hw

/-! ### Names of slots -/

theorem nodup_slots (hp : p.Implements s c) {window : Bool}
    (hf : p.frame = if window then some {} else none) : (p.slots.map (·.name)).Nodup := by
  have hframe : (p.frameSlots.map (·.name)).Nodup ∧ ∀ x ∈ p.frameSlots.map (·.name), x ∈ Fold.frameNames := by
    rw [frameSlots_of_window hf]
    cases window
    · simp
    · exact ⟨by decide, fun _ hx => hx⟩
  -- the families of slots are told apart by how their names begin
  have hacc : ∀ x ∈ (s.accumulator c).map (·.name), Slot.mark x = ['a', 'c'] :=
    fun x hx => Slot.mark_numbered (by decide) hx
  have harg : ∀ x ∈ c.argumentSlots.map (·.name), Slot.mark x = ['a', 'r'] :=
    fun x hx => Slot.mark_numbered (by decide) hx
  have hkey : ∀ x ∈ c.keySlots.map (·.name), Slot.mark x = ['k', 'e'] :=
    fun x hx => Slot.mark_numbered (by decide) hx
  have hrolled : ∀ x ∈ c.rolledUpSlots.map (·.name), Slot.mark x = ['r', 'o'] :=
    fun x hx => Slot.mark_numbered (by decide) hx
  have hother : ∀ x ∈ p.frameSlots.map (·.name),
      Slot.mark x ∉ [['a', 'c'], ['a', 'r'], ['k', 'e'], ['r', 'o']] := by
    have hmarks : ∀ y ∈ Fold.frameNames,
        Slot.mark y ∉ [['a', 'c'], ['a', 'r'], ['k', 'e'], ['r', 'o']] := by decide
    exact fun x hx => hmarks x (hframe.2 x hx)
  have hnodup : ∀ stem reps, ((Slot.numbered stem reps).map (·.name)).Nodup := Slot.nodup_numbered
  unfold slots
  rw [hp.accumulator, hp.arguments, hp.keys]
  simp only [List.map_append, List.nodup_append, List.mem_append]
  refine ⟨⟨⟨hnodup _ _, hnodup _ _, ?_⟩, ⟨hnodup _ _, hnodup _ _, ?_⟩, ?_⟩, hframe.1, ?_⟩
  all_goals grind

end AggregateProgram

/-- A machine with the same context and routines that has run nothing yet. -/
def Machine.fresh (m : Machine) : Machine := { context := m.context, routines := m.routines }

theorem Machine.agrees_fresh (m : Machine) : m.Agrees (fun _ => False) m.fresh :=
  ⟨rfl, rfl, fun _ h => h.elim⟩

theorem Machine.WritesOnly.bindSlots {slots : List Slot} {names : List String}
    (h : ∀ s ∈ slots, s.name ∈ names) (values : List Value) (m : Machine) :
    m.WritesOnly names (m.bindSlots slots values) := by
  rw [bindSlots_rest]
  refine ⟨rfl, rfl, fun x hx => ?_⟩
  refine (get?_bindSlots_of_notMem (fun hmem => hx ?_) values m)
  obtain ⟨s, hs, rfl⟩ := List.mem_map.1 hmem
  exact h s hs

theorem AggregateProgram.fresh_group (p : AggregateProgram) (g : Group) (m : Machine) :
    ((p.group g).result m).2.fresh = m.fresh := by
  let names := p.slots.map (·.name) ++ Stmt.writesAll (p.reset ++ p.add ++ p.result)
  have hblock : ∀ b : Block, (∀ x ∈ Stmt.writesAll b, x ∈ names) → WritesOnly names (Block.exec b) :=
    fun b hb => Stmt.writesOnly_execBlock hb
  have hbind : ∀ slots : List Slot, (∀ t ∈ slots, t ∈ p.slots) → ∀ values,
      WritesOnly names (modify (Machine.bindSlots slots values) : Run Unit) := by
    intro slots hslots values m
    refine .bindSlots (fun t ht => ?_) values m
    exact List.mem_append_left _ (List.mem_map_of_mem (hslots t ht))
  have hframe : ∀ values, WritesOnly names (p.bindFrame values) := by
    intro values m
    rw [result_bindFrame]
    exact hbind p.frameSlots (by simp +contextual [slots]) values m
  have htake : ∀ rows, WritesOnly names (p.takePlaced rows) := by
    intro rows
    induction rows with
    | nil => exact .lift (.ok ())
    | cons row rows ih =>
      refine .bind (hframe row.frame) fun _ => .bind (.bind ?_ fun _ => ?_) fun _ => ih
      · exact hbind p.arguments (by simp +contextual [slots]) row.arguments
      · exact hblock p.add (by simp +contextual [names, Stmt.writesAll_eq_flatMap])
  have hgroup : WritesOnly names (p.group g) := by
    refine .bind (hblock p.reset (by simp +contextual [names, Stmt.writesAll_eq_flatMap])) fun _ => ?_
    refine .bind (htake g.rows) fun _ => .bind ?_ fun _ => .bind ?_ fun _ => p.value.writesOnly_eval
    · exact hbind p.keys (by simp +contextual [slots]) g.keys
    · exact hblock p.result (by simp +contextual [names, Stmt.writesAll_eq_flatMap])
  unfold Machine.fresh
  rw [(hgroup m).context, (hgroup m).routines]

/-- If every group is computed as by a fresh machine, so are groups that are computed one after the other. -/
theorem AggregateProgram.outcomes_eq_map {p : AggregateProgram} {gs : List Group} {m : Machine}
    (h : ∀ g ∈ gs, ∀ n : Machine, ((p.group g).result n).1 = ((p.group g).result n.fresh).1) :
    p.outcomes gs m = gs.map fun g => ((p.group g).result m.fresh).1 := by
  induction gs generalizing m with
  | nil => rfl
  | cons g gs ih =>
    rw [outcomes, List.map_cons, h g (by simp), ih fun g' hg' => h g' (by simp [hg']), fresh_group]

/-! ### Built-in aggregates -/

/-- The result is read off the frame: ROW_NUMBER, and COUNT over a window if no argument may be null. -/
def Aggregate.readsFrame (a : Aggregate) (call : AggregateCall) (window : Bool) : Bool :=
  match a with
  | .rowNumber => true
  | .count => window && !call.hasNullableArgument
  | _ => false

namespace AggregateFunction

variable {a : Aggregate} {settings : Settings} {call : AggregateCall} {window : Bool} {s : Strategy}

/-- What is known of the strategy of a built-in aggregate. -/
theorem strategy_facts (h : (builtin a).strategy settings window = .ok s) (call : AggregateCall) :
    (∀ f ∈ s.calls, f ∉ volatile) ∧ (s.needsWindow → window) ∧
      (s.readsFrame call → a.readsFrame call window ∧ s.needsWindow) := by
  rcases strategy_builtin h with ⟨rfl, hs⟩ | ⟨-, hs⟩
  · cases a <;> cases hs <;>
      simp [Strategy.calls, Fold.calls, volatile, Strategy.readsFrame, Fold.readsFrame,
        Aggregate.readsFrame, Strategy.needsWindow, Fold.needsWindow]
  · cases a <;> cases hs <;>
      simp [Strategy.calls, Fold.calls, volatile, Strategy.readsFrame, Fold.readsFrame,
        Aggregate.readsFrame, Strategy.needsWindow, Fold.needsWindow, BitOp.routine]

/-- Unless its result is read off the frame, an aggregate has the same code over windows as over groups. -/
theorem implements_plain {p : AggregateProgram} {t : Strategy}
    (hs : (builtin a).strategy settings window = .ok s) (hp : p.Implements s (call.complete settings))
    (ht : a.plain? = some t) (hr : a.readsFrame call window = false) :
    p.Implements t (call.complete settings) := by
  rcases strategy_builtin hs with ⟨rfl, hw⟩ | ⟨-, hw⟩
  · cases a <;> cases hw <;> cases ht
    -- the one aggregate with code for both is COUNT
    have hn : call.hasNullableArgument := by simpa [Aggregate.readsFrame] using hr
    obtain ⟨hacc, hreset, hadd, hvalue⟩ :=
      Strategy.windowCount_of_hasNullableArgument (c := call.complete settings) hn
    exact ⟨hp.accumulator.trans hacc, hp.arguments, hp.keys, hp.reset.trans hreset,
      hadd.symm.trans hp.add, hp.result, hvalue.symm.trans hp.value⟩
  · obtain rfl : s = t := Option.some.inj (hw.symm.trans ht)
    exact hp

open AggregateProgram in
/-- The slots of a built-in aggregate have different names. Taking in a row writes nothing but the accumulator,
and reading the result writes nothing. Whatever the machine ran before, a group is computed as by a fresh
machine, if there is a row to place the frame where the result is read off the frame; and so are groups that
are computed one after the other. Where the result is not read off the frame, a frame has the result of the
group of its rows. -/
theorem group_independent {p : AggregateProgram} (hp : (builtin a).program settings call window = .ok p) :
    (p.slots.map (·.name)).Nodup ∧
      WritesOnly (p.accumulator.map (·.name)) (Block.exec p.add) ∧ WritesOnly [] p.finish ∧
      (∀ g m, p.Accepts g → (a.readsFrame call window = true → g.rows ≠ []) →
        ((p.group g).result m).1 = ((p.group g).result m.fresh).1) ∧
      (∀ gs m, (∀ g ∈ gs, p.Accepts g ∧ (a.readsFrame call window = true → g.rows ≠ [])) →
        p.outcomes gs m = gs.map fun g => ((p.group g).result m.fresh).1) ∧
      (a.plain?.isSome = true → a.readsFrame call window = false →
        ∃ q, (builtin a).program settings call false = .ok q ∧ ∀ g m, p.Accepts g →
          ((p.group g).result m).1 = ((q.group g).result m.fresh).1) := by
  obtain ⟨s, hs, himp, hframe⟩ := implements_of_program hp
  obtain ⟨hcalls, hneeds, hreads⟩ := strategy_facts hs (call.complete settings)
  have hslots := frameSlots_of_window hframe
  have hself : InStep s (call.complete settings) (· ∈ p.frameSlots.map (·.name)) p p := by
    refine .self himp hcalls fun hw => ?_
    rw [hslots, if_pos (hneeds hw)]
  have hgroup : ∀ g m, p.Accepts g → (a.readsFrame call window = true → g.rows ≠ []) →
      ((p.group g).result m).1 = ((p.group g).result m.fresh).1 := by
    intro g m hg hrows
    refine (alike_group hself hg (fun hr => ?_) m.agrees_fresh).1
    obtain ⟨hread, hwindow⟩ := hreads hr
    exact ⟨hrows hread, hself.needs hwindow⟩
  refine ⟨nodup_slots himp hframe, ?_, ?_, hgroup, ?_, ?_⟩
  · refine Stmt.writesOnly_execBlock fun x hx => ?_
    rw [himp.accumulator]
    exact (Strategy.footprint_add himp.add (fun _ _ => trivial) (fun _ _ => trivial)
      (fun _ _ _ => trivial) fun _ _ => trivial : Stmt.UsesAll (fun _ => True) (fun _ => True) _ ∧ _).2 x hx
  · rw [himp.finish_eq]
    exact p.value.writesOnly_eval
  · exact fun gs m hgs => outcomes_eq_map fun g hg n => hgroup g n (hgs g hg).1 (hgs g hg).2
  · intro hplain hread
    obtain ⟨t, ht⟩ := Option.isSome_iff_exists.1 hplain
    have hpt := implements_plain hs himp ht hread
    have hts : (builtin a).strategy settings false = .ok t := by
      show plain _ a = .ok t
      rw [plain, ht]
    obtain ⟨q, hq⟩ := exists_program hts hpt
    obtain ⟨t', ht', hqt, hqframe⟩ := implements_of_program hq
    obtain rfl : t = t' := Except.ok.inj (hts.symm.trans ht')
    obtain ⟨htcalls, htneeds, htreads⟩ := strategy_facts hts (call.complete settings)
    have hno : t.needsWindow = false := Bool.eq_false_iff.2 fun hw => Bool.false_ne_true (htneeds hw)
    have hpframe : ∀ x ∈ p.frameSlots, x.name ∈ Fold.frameNames := by
      rw [hslots]
      cases window
      · simp
      · exact fun x hx => List.mem_map_of_mem hx
    have hqnone : ∀ x ∈ q.frameSlots, x.name ∈ Fold.frameNames := by
      rw [frameSlots_of_window hqframe]
      simp
    have hstep := InStep.windowless hpt hqt htcalls hno hpframe hqnone
    refine ⟨q, hq, fun g m hg => (alike_group hstep hg (fun hr => ?_) m.agrees_fresh).1⟩
    rw [(htreads hr).2] at hno
    cases hno

/-- A frame with a null row: COUNT over the window, whatever the machine ran before, is COUNT of the rows. -/
theorem group_independent_count :
    let integer : SqlType := .plain .integer true
    let call : AggregateCall := { returnType := .plain .bigInt false, parameters := [integer] }
    ∃ p q, (builtin .count).program {} call true = .ok p ∧ (builtin .count).program {} call false = .ok q ∧
      ∀ m : Machine, ((p.group ⟨[⟨[.int 0, .int 0, .int 1], [.null]⟩,
          ⟨[.int 1, .int 0, .int 1], [.int 5]⟩], []⟩).result m).1 =
        ((q.group ⟨[⟨[.int 0, .int 0, .int 1], [.null]⟩,
          ⟨[.int 1, .int 0, .int 1], [.int 5]⟩], []⟩).result m.fresh).1 := by
  intro integer call
  obtain ⟨p, hp⟩ : ∃ p, (builtin .count).program {} call true = .ok p := ⟨_, rfl⟩
  obtain ⟨-, -, -, -, -, hplain⟩ := group_independent hp
  obtain ⟨q, hq, hgroups⟩ := hplain rfl rfl
  refine ⟨p, q, hp, hq, fun m => hgroups _ m ?_⟩
  cases hp
  exact ⟨by decide, by decide, by decide⟩

/-- Without a row, COUNT over a window reports the frame that an earlier group left behind. -/
theorem group_depends_on_frame :
    let call : AggregateCall :=
      { returnType := .plain .bigInt false, parameters := [.plain .integer false] }
    let three : Group := { rows := [{ frame := [.int 3, .int 1, .int 3], arguments := [.int 5] }] }
    let empty : Group := { rows := [] }
    ∃ p, (builtin .count).program {} call true = .ok p ∧
      p.Accepts three ∧ p.Accepts empty ∧
      p.outcomes [three, empty] {} = [.ok (.int 3), .ok (.int 3)] ∧
      ((p.group empty).result {}).1 = .error (.unboundVariable "end_index") := by
  intro call three empty
  refine ⟨_, rfl, ⟨?_, ?_, ?_⟩, ⟨?_, ?_, ?_⟩, rfl, rfl⟩
  all_goals decide

end AggregateFunction

end SqlCode

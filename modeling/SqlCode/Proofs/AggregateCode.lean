import SqlCode.Aggregate.Program
import SqlCode.Proofs.Observation

/-!
# The code of aggregates

What the code of an aggregate reads, calls and writes. Starting a group writes every accumulator slot and reads
no slot, taking in a row writes nothing but the accumulator, and the value reads no argument.
-/

namespace SqlCode

open Run SqlCode.Expr

variable {window : Bool} {f : Fold} {Q S : String → Prop} {b : Block} {settings : Settings} {x : String}
  {s : Strategy} {c : AggregateCall}

/-! ### Binding slots -/

namespace Machine

variable {slots : List Slot} {values : List Value}

theorem get?_bindSlots_of_notMem (h : x ∉ slots.map (·.name)) (values : List Value)
    (m : Machine) : (m.bindSlots slots values).get? x = m.get? x := by
  induction slots generalizing values m with
  | nil => rfl
  | cons s slots ih =>
    cases values with
    | nil => rfl
    | cons v values =>
      simp only [List.map_cons, List.mem_cons, not_or] at h
      exact (ih h.2 values (m.bind s.name v)).trans (get?_bind_of_ne m v h.1)

theorem get?_bindSlots_congr (hl : slots.length ≤ values.length) {m m' : Machine}
    (h : x ∉ slots.map (·.name) → m.get? x = m'.get? x) :
    (m.bindSlots slots values).get? x = (m'.bindSlots slots values).get? x := by
  induction slots generalizing values m m' with
  | nil => exact h (by simp)
  | cons s slots ih =>
    cases values with
    | nil => simp at hl
    | cons v values =>
      refine ih (by simpa using hl) fun hx => ?_
      -- the first slot is not bound again
      by_cases hs : x = s.name
      · rw [hs, get?_bind_self, get?_bind_self]
      · rw [get?_bind_of_ne m v hs, get?_bind_of_ne m' v hs]
        exact h (by simpa [hs] using hx)

/-- Slots with different names hold the values that were bound to them. -/
theorem forall₂_get?_bindSlots (hn : (slots.map (·.name)).Nodup) (hl : slots.length = values.length)
    (m : Machine) :
    List.Forall₂ (fun s v => (m.bindSlots slots values).get? s.name = some v) slots values := by
  induction slots generalizing values m with
  | nil =>
    cases values with
    | nil => exact .nil
    | cons v values => simp at hl
  | cons s slots ih =>
    cases values with
    | nil => simp at hl
    | cons v values =>
      rw [List.map_cons, List.nodup_cons] at hn
      refine .cons ?_ (ih hn.2 (by simpa using hl) (m.bind s.name v))
      exact (get?_bindSlots_of_notMem hn.1 values (m.bind s.name v)).trans
        (get?_bind_self m s.name v)

variable {m m' : Machine}

theorem Agrees.bindSlots (h : m.Agrees S m') (hl : slots.length ≤ values.length) :
    (m.bindSlots slots values).Agrees (fun x => S x ∨ x ∈ slots.map (·.name))
      (m'.bindSlots slots values) := by
  refine ⟨?_, ?_, fun x hx => get?_bindSlots_congr hl fun hmem => h.slots x (hx.resolve_right hmem)⟩
  · rw [bindSlots_rest, bindSlots_rest _ _ m']
    exact h.context
  · rw [bindSlots_rest, bindSlots_rest _ _ m']
    exact h.routines

theorem Twins.bindSlots (h : m.Twins S m') (hl : slots.length ≤ values.length) :
    (m.bindSlots slots values).Twins (fun x => S x ∨ x ∈ slots.map (·.name))
      (m'.bindSlots slots values) := by
  refine ⟨?_, fun x hx => get?_bindSlots_congr hl fun hmem => h.slots x (hx.resolve_right hmem)⟩
  rw [bindSlots_rest, bindSlots_rest _ _ m, h.rest]

end Machine

/-! ### Names of slots -/

namespace Slot

theorem names_numbered (stem : String) (reps : List Rep) : (numbered stem reps).map (·.name) =
    (List.range reps.length).map fun i : Nat => stem ++ toString i := by
  apply List.ext_getElem?
  intro i
  simp only [numbered, List.getElem?_map, List.getElem?_mapIdx]
  by_cases h : i < reps.length <;> simp [h]

theorem nodup_numbered (stem : String) (reps : List Rep) :
    ((numbered stem reps).map (·.name)).Nodup := by
  rw [names_numbered]
  exact List.nodup_range.map (Builder.numbered_injective stem)

theorem reps_numbered (stem : String) (reps : List Rep) : (numbered stem reps).map (·.rep) = reps := by
  apply List.ext_getElem?
  intro i
  simp only [numbered, List.getElem?_map, List.getElem?_mapIdx]
  cases reps[i]? <;> rfl

/-- Names are told apart by how they begin. -/
def mark (name : String) : List Char := name.toList.take 2

theorem mark_numbered {stem : String} {reps : List Rep} (hs : 2 ≤ stem.length)
    (h : x ∈ (numbered stem reps).map (·.name)) : mark x = mark stem := by
  rw [names_numbered] at h
  obtain ⟨i, -, rfl⟩ := List.mem_map.1 h
  simp only [mark, String.toList_append]
  exact List.take_append_of_le_length (by rwa [String.length_toList])

end Slot

/-! ### Folds -/

theorem Except.bind_eq_ok {ε α β : Type} {x : Except ε α} {k : α → Except ε β} {b : β} :
    x >>= k = .ok b ↔ ∃ a, x = .ok a ∧ k a = .ok b := by
  cases x <;> simp [bind, Except.bind]

theorem exists_mem_of_argumentAt {α : Type} {args : List Expr} {i : Nat}
    {k : Expr → Except CompileError α} {a : α} (h : argumentAt args i >>= k = .ok a) :
    ∃ e ∈ args, k e = .ok a := by
  unfold argumentAt at h
  split at h
  · exact ⟨_, List.mem_of_getElem? ‹_›, h⟩
  · cases h

namespace Fold

/-- The routines that a fold calls. -/
def calls : Fold → List String
  | .extreme least => [if least then "lesser" else "greater"]
  | .bits op => [op.routine]
  | .listAgg => ["concat"]
  | .routines r => [r.init, r.add, r.result]
  | .rank | .denseRank => [({} : Frame).comparator]
  | .count | .sum | .collect | .fusion | .intersection | .rowNumber => []

/-- The names of the slots of a frame. -/
def frameNames : List String := ({} : Frame).slots.map (·.name)

theorem uses_initial (hQ : ∀ g ∈ f.calls, Q g) (r : Rep) : (f.initial r).Uses S Q := by
  cases f with
  | sum | extreme => cases r <;> exact uses_const _ _
  | bits op => cases op <;> simp [initial]
  | routines rs =>
    simp only [initial, uses_call]
    exact ⟨hQ _ (by simp [calls]), by simp⟩
  | _ => simp [initial, Expr.long]

theorem uses_frame (hframe : ∀ x ∈ frameNames, S x) {s : Slot} (hs : s ∈ ({} : Frame).slots) :
    (Expr.slot s).Uses S Q :=
  (uses_slot s).2 (hframe _ (List.mem_map_of_mem hs))

theorem uses_offset (hframe : ∀ x ∈ frameNames, S x) : ({} : Frame).offset.Uses S Q :=
  (uses_frame hframe (by simp [Frame.slots])).mkBinary (uses_frame hframe (by simp [Frame.slots])) _

theorem usesAll_rankStep {acc : Slot} {next : Expr} (hnext : next.Uses S Q)
    (hframe : ∀ x ∈ frameNames, S x) (hQ : Q ({} : Frame).comparator) :
    Stmt.UsesAll S Q (rankStep acc next {}) := by
  have hindex : (Expr.slot ({} : Frame).index).Uses S Q := uses_frame hframe (by simp [Frame.slots])
  have hstart : (Expr.slot ({} : Frame).start).Uses S Q := uses_frame hframe (by simp [Frame.slots])
  have hprevious := hindex.mkBinary (uses_const (.int 1) (.prim .i64)) .subtract
  have hcompare : (({} : Frame).compareRows (.mkBinary .subtract ({} : Frame).index (.long 1))
      ({} : Frame).index).Uses S Q := by
    refine (uses_call ..).2 ⟨hQ, fun a ha => ?_⟩
    rcases List.mem_pair.1 ha with rfl | rfl
    · exact hprevious
    · exact hindex
  refine ⟨⟨hindex.mkBinary hstart _, ⟨⟨?_, ⟨hnext, trivial⟩, trivial⟩, trivial⟩, trivial⟩, trivial⟩
  exact hcompare.mkBinary (uses_const _ _) _

/-- A step reads the accumulator, the arguments, and the frame if the fold needs one; it writes the
accumulator. -/
theorem footprint_step {args : List Expr} (h : f.step c args = .ok b)
    (hacc : ∀ r, f.state? c = some r → S "acc0") (hargs : ∀ e ∈ args, e.Uses S Q)
    (hframe : f.needsWindow → ∀ x ∈ frameNames, S x) (hQ : ∀ g ∈ f.calls, Q g) :
    Stmt.UsesAll S Q b ∧ ∀ x ∈ Stmt.writesAll b, x = "acc0" ∧ (f.state? c).isSome := by
  have hlong : ∀ n, (Expr.long n).Uses S Q := fun n => uses_const _ _
  have hslot : ∀ r, f.state? c = some r → (Expr.slot (f.slot c)).Uses S Q :=
    fun r hr => (uses_slot _).2 (hacc r hr)
  -- most folds consist of one statement
  have hassign : ∀ {e : Expr} {r : Rep}, f.state? c = some r → e.Uses S Q →
      Stmt.UsesAll S Q [.assign (f.slot c) e] ∧
        ∀ x ∈ Stmt.writesAll [.assign (f.slot c) e], x = "acc0" ∧ (f.state? c).isSome := by
    intro e r hr he
    refine ⟨⟨he, trivial⟩, fun x hx => ⟨?_, by rw [hr]; rfl⟩⟩
    simpa [Stmt.writesAll, Stmt.writes, slot] using hx
  have hinvoke : ∀ {g : String} {e : Expr} {r : Rep}, f.state? c = some r → e.Uses S Q →
      Stmt.UsesAll S Q [.invoke (f.slot c) g [e]] ∧
        ∀ x ∈ Stmt.writesAll [.invoke (f.slot c) g [e]], x = "acc0" ∧ (f.state? c).isSome := by
    intro g e r hr he
    refine ⟨⟨⟨hacc r hr, by simpa using he⟩, trivial⟩, fun x hx => ⟨?_, by rw [hr]; rfl⟩⟩
    simpa [Stmt.writesAll, Stmt.writes, slot] using hx
  have hpair : ∀ {g : String} {a b : Expr} {r : Rep}, Q g → a.Uses S Q → b.Uses S Q →
      (Expr.call g [a, b] r).Uses S Q := by
    intro g a b r hg ha hb
    exact (uses_call ..).2 ⟨hg, by simpa using ⟨ha, hb⟩⟩
  cases f with
  | count =>
    cases h
    exact hassign rfl ((hslot _ rfl).mkBinary (hlong 1) _)
  | sum =>
    obtain ⟨e, he, h⟩ := exists_mem_of_argumentAt h
    cases h
    exact hassign rfl (((hslot _ rfl).mkBinary ((hargs e he).mkConvert _) _).mkConvert _)
  | extreme least | bits op =>
    obtain ⟨e, he, h⟩ := exists_mem_of_argumentAt h
    cases h
    exact hassign rfl (hpair (hQ _ (by simp [calls])) (hslot _ rfl) ((hargs e he).mkConvert _))
  | collect | fusion =>
    obtain ⟨e, he, h⟩ := exists_mem_of_argumentAt h
    cases h
    exact hinvoke rfl (hargs e he).box
  | intersection =>
    obtain ⟨e, he, h⟩ := exists_mem_of_argumentAt h
    cases h
    have hfirst : Stmt.Uses S Q (.assign (slot .intersection c) (.new .list)) := uses_new _
    obtain ⟨huses, hwrites⟩ := hinvoke (g := "collectionAddAll") rfl (hargs e he)
    obtain ⟨huses', hwrites'⟩ := hinvoke (g := "collectionRetainAll") rfl (hargs e he)
    refine ⟨⟨⟨(hslot _ rfl).mkIsNull, ⟨hfirst, huses⟩, huses'⟩, trivial⟩, ?_⟩
    simp [Stmt.writesAll, Stmt.writes, slot, state?]
  | listAgg =>
    obtain ⟨e, he, h⟩ := exists_mem_of_argumentAt h
    cases h
    have hseparator : (args[1]?.getD (Expr.string (c.separator.getD ","))).Uses S Q := by
      cases h1 : args[1]? with
      | none => exact uses_const _ _
      | some e' => exact hargs e' (List.mem_of_getElem? h1)
    have hconcat : Q "concat" := hQ _ (by simp [calls])
    have hvalue := (hargs e he).mkConvert .string
    exact hassign rfl ((hslot _ rfl).mkIsNull.mkCond hvalue
      (hpair hconcat (hslot _ rfl) (hpair hconcat hseparator hvalue)))
  | routines rs =>
    cases h
    refine hassign rfl ((uses_call ..).2 ⟨hQ _ (by simp [calls]), fun a ha => ?_⟩)
    rcases List.mem_cons.1 ha with rfl | ha
    · exact hslot _ rfl
    · obtain ⟨e, he, rfl⟩ := List.mem_map.1 ha
      exact (hargs e he).box
  | rank =>
    cases h
    exact ⟨usesAll_rankStep (uses_offset (hframe rfl)) (hframe rfl) (hQ _ (by simp [calls])),
      by simp [rankStep, Stmt.when, Stmt.writesAll, Stmt.writes, slot, state?]⟩
  | denseRank =>
    cases h
    exact ⟨usesAll_rankStep ((hslot _ rfl).mkBinary (hlong 1) _) (hframe rfl) (hQ _ (by simp [calls])),
      by simp [rankStep, Stmt.when, Stmt.writesAll, Stmt.writes, slot, state?]⟩
  | rowNumber =>
    cases h
    exact ⟨trivial, by simp [Stmt.writesAll]⟩

/-- The result of the fold is read off the frame and not off an accumulator. -/
def readsFrame : Fold → Bool
  | .rowNumber => true
  | _ => false

theorem uses_value (hacc : ∀ r, f.state? c = some r → S "acc0")
    (hframe : f.readsFrame → ∀ x ∈ frameNames, S x) (hQ : ∀ g ∈ f.calls, Q g) :
    (f.value c).Uses S Q := by
  have hlong : ∀ n, (Expr.long n).Uses S Q := fun n => uses_const _ _
  have hslot : ∀ r, f.state? c = some r → (Expr.slot (f.slot c)).Uses S Q :=
    fun r hr => (uses_slot _).2 (hacc r hr)
  cases f with
  | rank => exact (hslot _ rfl).mkBinary (hlong 1) .add
  | rowNumber => exact (uses_offset (hframe rfl)).mkBinary (hlong 1) .add
  | routines rs =>
    refine Expr.Uses.mkConvert ((uses_call ..).2 ⟨hQ _ (by simp [calls]), fun a ha => ?_⟩) _
    obtain rfl := List.mem_singleton.1 ha
    exact hslot _ rfl
  | _ => exact hslot _ rfl

end Fold

/-! ### Strict strategies -/

namespace Strategy

/-- The names of the accumulator slots of a strict strategy: the state of the fold, and whether a row was
taken in. -/
theorem mem_accumulator_strict : x ∈ ((strict f).accumulator c).map (·.name) ↔
    (x = "acc0" ∧ (f.state? c).isSome) ∨ ∃ s, taken? f c = some s ∧ x = s.name := by
  have h0 : "acc" ++ Nat.repr 0 = "acc0" := by decide
  show x ∈ (Slot.numbered "acc" (strictState f c)).map (·.name) ↔ _
  rw [Slot.names_numbered]
  cases hf : f.state? c <;> cases hn : c.returnType.nullable <;>
    simp [strictState, taken?, hf, hn, List.range_succ, h0]

theorem usesAll_strictReset (hQ : ∀ g ∈ f.calls, Q g) : ∀ s ∈ strictReset f c,
    ∃ t e, s = .assign t e ∧ e.Uses S Q := by
  intro s hs
  rcases List.mem_append.1 hs with hs | hs
  · obtain ⟨t, -, rfl⟩ := List.mem_map.1 hs
    exact ⟨t, _, rfl, uses_bool _⟩
  · obtain ⟨r, -, rfl⟩ := List.mem_map.1 hs
    exact ⟨_, _, rfl, Fold.uses_initial hQ r⟩

theorem writesAll_strictReset : ∀ x ∈ ((strict f).accumulator c).map (·.name),
    x ∈ Stmt.writesAll (strictReset f c) := by
  intro x hx
  rw [Stmt.writesAll_eq_flatMap, List.mem_flatMap]
  unfold strictReset
  rcases mem_accumulator_strict.1 hx with ⟨rfl, hs⟩ | ⟨s, hs, rfl⟩
  · obtain ⟨r, hr⟩ := Option.isSome_iff_exists.1 hs
    exact ⟨.assign (f.slot c) (f.initial r), by simp [hr], by simp [Stmt.writes, Fold.slot]⟩
  · exact ⟨.assign s (.bool false), by simp [hs], by simp [Stmt.writes]⟩

theorem uses_noNull {args : List Slot} (h : ∀ s ∈ args, S s.name) : (noNull args).Uses S Q := by
  refine uses_conj fun e he => ?_
  obtain ⟨s, hs, rfl⟩ := List.mem_map.1 he
  exact ((uses_slot s).2 (h s hs)).mkIsNull.mkNot

/-- The code that takes in a row is what runs if no argument is null, under the test for that, unless the
test is known to hold. -/
theorem strictAdd_eq_ok (h : strictAdd f c = .ok b) : ∃ body,
    f.step c (c.argumentSlots.map fun s => (Expr.slot s).unbox) = .ok body ∧
      b = if (noNull c.argumentSlots).isConstBool true then
          (taken? f c).toList.map (fun s => Stmt.assign s (.bool true)) ++ body
        else [.when (noNull c.argumentSlots)
          ((taken? f c).toList.map (fun s => Stmt.assign s (.bool true)) ++ body)] := by
  obtain ⟨body, hbody, h⟩ := Except.bind_eq_ok.1 h
  exact ⟨body, hbody, (Except.ok.inj h).symm⟩

theorem footprint_strictAdd (h : strictAdd f c = .ok b)
    (hacc : ∀ x ∈ ((strict f).accumulator c).map (·.name), S x)
    (hargs : ∀ s ∈ c.argumentSlots, S s.name)
    (hframe : f.needsWindow → ∀ x ∈ Fold.frameNames, S x) (hQ : ∀ g ∈ f.calls, Q g) :
    Stmt.UsesAll S Q b ∧ ∀ x ∈ Stmt.writesAll b, x ∈ ((strict f).accumulator c).map (·.name) := by
  obtain ⟨body, hbody, hb⟩ := strictAdd_eq_ok h
  have hstep := Fold.footprint_step hbody
    (fun r hr => hacc _ (mem_accumulator_strict.2 (.inl ⟨rfl, by rw [hr]; rfl⟩)))
    (fun e he => by
      obtain ⟨s, hs, rfl⟩ := List.mem_map.1 he
      exact ((uses_slot s).2 (hargs s hs)).unbox) hframe hQ
  -- what runs if no argument is null
  have hblock : Stmt.UsesAll S Q ((taken? f c).toList.map (fun s => Stmt.assign s (.bool true)) ++ body) ∧
      ∀ x ∈ Stmt.writesAll ((taken? f c).toList.map (fun s => Stmt.assign s (.bool true)) ++ body),
        x ∈ ((strict f).accumulator c).map (·.name) := by
    refine ⟨Stmt.usesAll_append.2 ⟨Stmt.usesAll_iff.2 fun s hs => ?_, hstep.1⟩, fun x hx => ?_⟩
    · obtain ⟨t, -, rfl⟩ := List.mem_map.1 hs
      exact uses_bool _
    · rw [Stmt.writesAll_eq_flatMap, List.flatMap_append, List.mem_append] at hx
      rcases hx with hx | hx
      · obtain ⟨s, hs, hx⟩ := List.mem_flatMap.1 hx
        obtain ⟨t, ht, rfl⟩ := List.mem_map.1 hs
        exact mem_accumulator_strict.2 (.inr ⟨t, by simpa using ht, by simpa [Stmt.writes] using hx⟩)
      · rw [← Stmt.writesAll_eq_flatMap] at hx
        exact mem_accumulator_strict.2 (.inl (hstep.2 x hx))
  subst hb
  split_ifs
  · exact hblock
  · refine ⟨⟨⟨uses_noNull hargs, hblock.1, trivial⟩, trivial⟩, fun x hx => hblock.2 x ?_⟩
    simpa [Stmt.when, Stmt.writes, Stmt.writesAll] using hx

theorem uses_strictValue (hacc : ∀ x ∈ ((strict f).accumulator c).map (·.name), S x)
    (hframe : f.readsFrame → ∀ x ∈ Fold.frameNames, S x) (hQ : ∀ g ∈ f.calls, Q g) :
    (strictValue f c).Uses S Q := by
  have hvalue : (f.value c).Uses S Q := Fold.uses_value
    (fun r hr => hacc _ (mem_accumulator_strict.2 (.inl ⟨rfl, by rw [hr]; rfl⟩))) hframe hQ
  unfold strictValue
  split
  · rename_i s hs
    have hs' : (Expr.slot s).Uses S Q :=
      (uses_slot s).2 (hacc _ (mem_accumulator_strict.2 (.inr ⟨s, hs, rfl⟩)))
    exact hs'.mkCond hvalue (uses_null _)
  · exact hvalue

/-! ### All strategies -/

/-- The routines that the code of a strategy calls. -/
def calls : Strategy → List String
  | .strict f => f.calls
  | .jsonObject _ | .jsonArray _ => ["jsonize"]
  | .singleValue | .grouping | .windowCount => []

/-- Over arguments that may be null, the rows of a frame are counted as the rows of a group are. -/
theorem windowCount_of_hasNullableArgument (h : c.hasNullableArgument) :
    windowCount.accumulator c = (strict .count).accumulator c ∧
      windowCount.reset c = strictReset .count c ∧ windowCount.add c = strictAdd .count c ∧
      windowCount.value c = .ok (strictValue .count c) := by
  simp [accumulator, state, reset, add, value, h]

/-- Over arguments that are never null, the frame says how many rows there are. -/
theorem windowCount_of_not_hasNullableArgument (h : c.hasNullableArgument = false) :
    windowCount.accumulator c = [] ∧ windowCount.reset c = [] ∧ windowCount.add c = .ok [] ∧
      windowCount.value c = .ok (({} : Frame).rowCount.mkConvert (.prim .i64)) := by
  simp [accumulator, state, reset, add, value, h, Slot.numbered]

theorem names_singleValue : (singleValue.accumulator c).map (·.name) = ["acc0", "acc1"] := rfl

theorem names_jsonObject (clause : NullClause) :
    ((jsonObject clause).accumulator c).map (·.name) = ["acc0"] := rfl

theorem names_jsonArray (clause : NullClause) :
    ((jsonArray clause).accumulator c).map (·.name) = ["acc0"] := rfl

theorem uses_reset (hQ : ∀ g ∈ s.calls, Q g) : ∀ t ∈ s.reset c, ∃ x e, t = .assign x e ∧ e.Uses S Q := by
  cases s with
  | strict f => exact usesAll_strictReset hQ
  | singleValue =>
    intro t ht
    rcases List.mem_pair.1 ht with rfl | rfl
    · exact ⟨_, _, rfl, uses_bool _⟩
    · exact ⟨_, _, rfl, uses_defaultOf _⟩
  | grouping => exact fun t ht => absurd ht (by simp [reset])
  | jsonObject clause | jsonArray clause =>
    intro t ht
    obtain rfl := List.mem_singleton.1 ht
    exact ⟨_, _, rfl, uses_new _⟩
  | windowCount =>
    cases h : c.hasNullableArgument with
    | false => simp [windowCount_of_not_hasNullableArgument h]
    | true =>
      rw [(windowCount_of_hasNullableArgument h).2.1]
      exact usesAll_strictReset (by simp [Fold.calls])

theorem writesAll_reset : ∀ x ∈ (s.accumulator c).map (·.name), x ∈ Stmt.writesAll (s.reset c) := by
  cases s with
  | strict f => exact writesAll_strictReset
  | singleValue =>
    rw [names_singleValue]
    simp [reset, Stmt.writesAll, Stmt.writes, seenSlot, singleSlot]
  | grouping => simp [accumulator, state, Slot.numbered]
  | jsonObject clause =>
    rw [names_jsonObject]
    simp [reset, Stmt.writesAll, Stmt.writes]
  | jsonArray clause =>
    rw [names_jsonArray]
    simp [reset, Stmt.writesAll, Stmt.writes]
  | windowCount =>
    cases h : c.hasNullableArgument with
    | false => simp [windowCount_of_not_hasNullableArgument h]
    | true =>
      rw [(windowCount_of_hasNullableArgument h).1, (windowCount_of_hasNullableArgument h).2.1]
      exact writesAll_strictReset

/-- Taking in a row reads the accumulator, the arguments, and the frame if the strategy needs one; it
writes the accumulator. -/
theorem footprint_add (h : s.add c = .ok b)
    (hacc : ∀ x ∈ (s.accumulator c).map (·.name), S x) (hargs : ∀ s ∈ c.argumentSlots, S s.name)
    (hframe : s.needsWindow → ∀ x ∈ Fold.frameNames, S x) (hQ : ∀ g ∈ s.calls, Q g) :
    Stmt.UsesAll S Q b ∧ ∀ x ∈ Stmt.writesAll b, x ∈ (s.accumulator c).map (·.name) := by
  have hslots : ∀ e ∈ c.argumentSlots.map Expr.slot, e.Uses S Q := by
    intro e he
    obtain ⟨t, ht, rfl⟩ := List.mem_map.1 he
    exact (uses_slot t).2 (hargs t ht)
  cases s with
  | strict f => exact footprint_strictAdd h hacc hargs hframe hQ
  | singleValue =>
    obtain ⟨e, he, h⟩ := exists_mem_of_argumentAt h
    cases h
    rw [names_singleValue] at hacc ⊢
    have hseen : (Expr.slot seenSlot).Uses S Q := (uses_slot _).2 (hacc _ (by simp [seenSlot]))
    refine ⟨⟨⟨hseen, ⟨trivial, trivial⟩, trivial⟩, uses_bool _, (hslots e he).mkConvert _, trivial⟩, ?_⟩
    simp [Stmt.when, Stmt.writesAll, Stmt.writes, seenSlot, singleSlot]
  | grouping =>
    cases h
    exact ⟨trivial, by simp [Stmt.writesAll]⟩
  | jsonObject clause =>
    obtain ⟨key, hkey, h⟩ := exists_mem_of_argumentAt h
    obtain ⟨value, hvalue, h⟩ := exists_mem_of_argumentAt h
    cases h
    rw [names_jsonObject] at hacc ⊢
    refine ⟨⟨⟨hacc _ (by simp), fun a ha => ?_⟩, trivial⟩, by simp [Stmt.writesAll, Stmt.writes]⟩
    simp only [List.mem_cons, List.not_mem_nil, or_false] at ha
    rcases ha with rfl | rfl | rfl
    · exact hslots _ hkey
    · exact (hslots _ hvalue).box
    · exact uses_const _ _
  | jsonArray clause =>
    obtain ⟨value, hvalue, h⟩ := exists_mem_of_argumentAt h
    cases h
    rw [names_jsonArray] at hacc ⊢
    refine ⟨⟨⟨hacc _ (by simp), fun a ha => ?_⟩, trivial⟩, by simp [Stmt.writesAll, Stmt.writes]⟩
    rcases List.mem_pair.1 ha with rfl | rfl
    · exact (hslots _ hvalue).box
    · exact uses_const _ _
  | windowCount =>
    cases hn : c.hasNullableArgument with
    | false =>
      rw [(windowCount_of_not_hasNullableArgument hn).2.2.1] at h
      cases h
      exact ⟨trivial, by simp [Stmt.writesAll]⟩
    | true =>
      obtain ⟨hstate, -, hadd, -⟩ := windowCount_of_hasNullableArgument hn
      rw [hadd] at h
      rw [hstate] at hacc ⊢
      exact footprint_strictAdd h hacc hargs (fun hw => absurd hw (by decide)) (by simp [Fold.calls])

theorem uses_groupingTerms (hkeys : ∀ s ∈ c.rolledUpSlots, S s.name) {arguments : List Nat}
    {bit : Int64} {es : List Expr} (h : groupingTerms c bit arguments = .ok es) :
    ∀ e ∈ es, e.Uses S Q := by
  induction arguments generalizing bit es with
  | nil =>
    cases h
    simp
  | cons a as ih =>
    obtain ⟨e, ht, h⟩ := Except.bind_eq_ok.1 h
    obtain ⟨es', hts, h⟩ := Except.bind_eq_ok.1 h
    cases h
    refine List.forall_mem_cons.2 ⟨?_, ih hts⟩
    unfold groupingTerm at ht
    split at ht
    · cases ht
    · split at ht
      · cases ht
      · rename_i t hmem
        cases ht
        have hkeyslots : c.keySlots.length = c.keys.length := by
          simp [AggregateCall.keySlots, Slot.numbered]
        rw [List.getElem?_append_right (by omega)] at hmem
        have hs : (Expr.slot t).Uses S Q := (uses_slot t).2 (hkeys t (List.mem_of_getElem? hmem))
        exact hs.mkCond (uses_const _ _) (uses_const _ _)

theorem uses_groupingValue (hkeys : ∀ s ∈ c.rolledUpSlots, S s.name) {e : Expr}
    (h : groupingValue c = .ok e) : e.Uses S Q := by
  have hzero : ((Expr.long 0).mkConvert c.rep).Uses S Q := (uses_const _ _).mkConvert _
  unfold groupingValue at h
  split_ifs at h
  · cases h
    exact hzero
  · split at h
    · cases h
    · obtain ⟨es, hts, h⟩ := Except.bind_eq_ok.1 h
      have hes := uses_groupingTerms (Q := Q) hkeys hts
      cases es with
      | nil =>
        cases h
        exact (uses_const _ _).mkConvert _
      | cons t ts =>
        cases h
        refine Expr.Uses.mkConvert (uses_foldl_mkBinary _ (hes t (by simp)) fun e' he' => ?_) _
        exact hes e' (by simp [he'])

/-- The result of the strategy is read off the frame and not off an accumulator. -/
def readsFrame (s : Strategy) (c : AggregateCall) : Bool :=
  match s with
  | .strict f => f.readsFrame
  | .windowCount => !c.hasNullableArgument
  | _ => false

/-- The result reads the accumulator or the frame, and which group keys are rolled up. It reads no
argument. -/
theorem uses_value {e : Expr} (h : s.value c = .ok e)
    (hacc : ∀ x ∈ (s.accumulator c).map (·.name), S x) (hkeys : ∀ s ∈ c.rolledUpSlots, S s.name)
    (hframe : s.readsFrame c → ∀ x ∈ Fold.frameNames, S x) (hQ : ∀ g ∈ s.calls, Q g) :
    e.Uses S Q := by
  cases s with
  | strict f =>
    cases h
    exact uses_strictValue hacc hframe hQ
  | singleValue =>
    cases h
    rw [names_singleValue] at hacc
    exact Expr.Uses.mkConvert ((uses_slot _).2 (hacc _ (by simp [singleSlot]))) _
  | grouping => exact uses_groupingValue hkeys h
  | jsonObject clause =>
    cases h
    rw [names_jsonObject] at hacc
    exact (uses_call ..).2 ⟨hQ _ (by simp [calls]), by simpa using hacc _ (by simp)⟩
  | jsonArray clause =>
    cases h
    rw [names_jsonArray] at hacc
    exact (uses_call ..).2 ⟨hQ _ (by simp [calls]), by simpa using hacc _ (by simp)⟩
  | windowCount =>
    cases hn : c.hasNullableArgument with
    | false =>
      rw [(windowCount_of_not_hasNullableArgument hn).2.2.2] at h
      cases h
      have hslot : ∀ t ∈ ({} : Frame).slots, (Expr.slot t).Uses S Q :=
        fun t ht => Fold.uses_frame (hframe (by simp [readsFrame, hn])) ht
      refine Expr.Uses.mkConvert (Expr.Uses.mkBinary ?_ (uses_const _ _) _) _
      exact (hslot _ (by simp [Frame.slots])).mkBinary (hslot _ (by simp [Frame.slots])) _
    | true =>
      obtain ⟨hstate, -, -, hvalue⟩ := windowCount_of_hasNullableArgument hn
      rw [hvalue] at h
      cases h
      rw [hstate] at hacc
      exact uses_strictValue hacc (fun hw => nomatch hw) (by simp [Fold.calls])

end Strategy

/-! ### Programs -/

/-- The call with the separator that its code uses. -/
def AggregateCall.complete (c : AggregateCall) (settings : Settings) : AggregateCall :=
  { c with separator := some (c.separator.getD settings.separator) }

/-- The parts of a program are the code that a strategy gives for a call. -/
structure AggregateProgram.Implements (p : AggregateProgram) (s : Strategy) (c : AggregateCall) :
    Prop where
  accumulator : p.accumulator = s.accumulator c
  arguments : p.arguments = c.argumentSlots
  keys : p.keys = c.keySlots ++ c.rolledUpSlots
  reset : p.reset = s.reset c
  add : s.add c = .ok p.add
  result : p.result = []
  value : s.value c = .ok p.value

namespace AggregateProgram.Implements

variable {p : AggregateProgram} (h : p.Implements s c)
include h

theorem result_take (row : List Value) (m : Machine) :
    (p.take row).result m = (Stmt.execBlock p.add).result (m.bindSlots c.argumentSlots row) := by
  rw [← h.arguments]
  rfl

theorem finish_eq : p.finish = p.value.eval := by
  unfold finish
  rw [h.result]
  exact pure_bind _ _

end AggregateProgram.Implements

/-- A call that compiles has a strategy, and its program implements the strategy. -/
theorem AggregateFunction.implements_of_program {f : AggregateFunction}
    {call : AggregateCall} {p : AggregateProgram}
    (h : f.program settings call window = .ok p) :
    ∃ s, f.strategy settings window = .ok s ∧ p.Implements s (call.complete settings) ∧
      p.frame = if window then some {} else none := by
  obtain ⟨s, hs, h⟩ := Except.bind_eq_ok.1 h
  obtain ⟨add, ha, h⟩ := Except.bind_eq_ok.1 h
  obtain ⟨value, hv, h⟩ := Except.bind_eq_ok.1 h
  cases h
  exact ⟨s, hs, ⟨rfl, rfl, rfl, rfl, ha, rfl, hv⟩, rfl⟩

/-- A call compiles over groups as over windows if it has the same strategy there. -/
theorem AggregateFunction.exists_program {f : AggregateFunction}
    {call : AggregateCall} {p : AggregateProgram}
    (hs : f.strategy settings window = .ok s) (hp : p.Implements s (call.complete settings)) :
    ∃ q, f.program settings call window = .ok q := by
  have ha := hp.add
  have hv := hp.value
  unfold AggregateCall.complete at ha hv
  unfold program
  simp only [bind, Except.bind, hs, ha, hv]
  exact ⟨_, rfl⟩

/-- The strategy of a built-in aggregate: the one for windows over a window if there is one, else the plain
one. -/
theorem AggregateFunction.strategy_builtin {a : Aggregate}
    (h : (builtin a).strategy settings window = .ok s) :
    (window ∧ a.windowed? = some s) ∨
      ((window → a.windowed? = none) ∧ a.plain? = some s) := by
  have hplain : ∀ {name}, plain name a = .ok s → a.plain? = some s := by
    intro name hp
    unfold plain at hp
    split at hp
    · cases hp
      assumption
    · cases hp
  cases window with
  | false => exact .inr ⟨fun hw => (nomatch hw), hplain h⟩
  | true =>
    simp only [strategy, if_true] at h
    cases hw : a.windowed? with
    | some s' =>
      rw [hw] at h
      cases h
      exact .inl ⟨rfl, rfl⟩
    | none =>
      rw [hw] at h
      dsimp only at h
      split_ifs at h
      exact .inr ⟨fun _ => rfl, hplain h⟩

end SqlCode

import SqlCode.Proofs.Emission

/-!
# Names handed out by nested builders

While the body of a branch is built, its builder stands on top of the builder around it, and all work is done
on the top one. A run of such work never hands out a name twice, on whatever level, because a child starts
with the names of its parent and gives all names back when it is finished.
-/

namespace SqlCode

namespace Builder

/-! ### The rule for names -/

/-- The name is the suggestion if that is free, else the suggestion followed by the least number that makes
it free. -/
def FirstFree (taken : List String) (suggestion name : String) : Prop :=
  if suggestion ∈ taken then
    ∃ k : Nat, name = suggestion ++ toString k ∧ name ∉ taken ∧
      ∀ j : Nat, j < k → suggestion ++ toString j ∈ taken
  else name = suggestion

theorem FirstFree.notMem {taken : List String} {suggestion name : String}
    (h : FirstFree taken suggestion name) : name ∉ taken := by
  unfold FirstFree at h
  split_ifs at h with hs
  · obtain ⟨k, -, hfree, -⟩ := h
    exact hfree
  · rwa [h]

/-- Which names are taken matters, and not in what order. -/
theorem FirstFree.congr {taken taken' : List String} {suggestion name : String}
    (h : FirstFree taken suggestion name) (ht : ∀ x, x ∈ taken ↔ x ∈ taken') :
    FirstFree taken' suggestion name := by
  unfold FirstFree at h ⊢
  simp only [← ht]
  exact h

theorem firstFree_freshName (b : Builder) (suggestion : String) :
    FirstFree b.names suggestion (b.freshName suggestion) := by
  unfold FirstFree
  split_ifs with hs
  · obtain ⟨name, hmem, hfree⟩ := exists_numbered_notMem b.names suggestion
    unfold freshName
    rw [if_pos (by simpa using hs), List.find?_map]
    cases hf : (List.range (b.names.length + 1)).find?
        ((fun name => !b.names.contains name) ∘ fun i : Nat => suggestion ++ toString i) with
    | none =>
      obtain ⟨i, hi, rfl⟩ := List.mem_map.1 hmem
      have hi' := List.find?_eq_none.1 hf i hi
      simp only [Function.comp_apply, Bool.not_eq_true', List.contains_eq_mem, decide_eq_false_iff_not,
        not_not] at hi'
      exact absurd hi' hfree
    | some k =>
      obtain ⟨hk, -, hleast⟩ := List.find?_range_eq_some.1 hf
      refine ⟨k, rfl, by simpa using hk, fun j hj => ?_⟩
      simpa using hleast j hj
  · unfold freshName
    rw [if_neg (by simpa using hs)]

/-! ### Work on nested builders -/

/-- The builder of the innermost branch, and the builders around it from the inside out. -/
structure Stack where
  top : Builder
  parents : List Builder

/-- What can be done with the top builder. -/
inductive Action
  | newName (suggestion : String)
  | newSlot (suggestion : String) (rep : Rep)
  | declare (suggestion : String) (init : Expr)
  | append (suggestion : String) (init : Expr)
  | assign (target : Slot) (value : Expr)
  | add (s : Stmt)
  | nest
  | exit

/-- A name that was handed out, and the suggestion for it. -/
structure Grant where
  suggestion : String
  name : String
deriving DecidableEq

/-- The suggestion for a name, if the action hands one out: constants and variables are appended without. -/
def Action.suggestion? : Action → Option String
  | .newName suggestion | .newSlot suggestion _ | .declare suggestion _ => some suggestion
  | .append suggestion init => if init.isAtom then none else some suggestion
  | .assign .. | .add _ | .nest | .exit => none

/-- The name of a variable. -/
def slotName? : Expr → Option String
  | .slot s => some s.name
  | _ => none

namespace Stack

/-- The action on the top builder, with the name that it hands out. The outermost builder has no parent that
could take over its names. -/
def serve (s : Stack) : Action → Option Grant × Stack
  | .newName suggestion =>
    let (name, b) := s.top.newName suggestion
    (some ⟨suggestion, name⟩, { s with top := b })
  | .newSlot suggestion rep =>
    let (slot, b) := s.top.newSlot suggestion rep
    (some ⟨suggestion, slot.name⟩, { s with top := b })
  | .declare suggestion init =>
    let (e, b) := s.top.declare suggestion init
    ((slotName? e).map (⟨suggestion, ·⟩), { s with top := b })
  | .append suggestion init =>
    let (e, b) := s.top.append suggestion init
    (if init.isAtom then none else (slotName? e).map (⟨suggestion, ·⟩), { s with top := b })
  | .assign target value => (none, { s with top := s.top.assign target value })
  | .add stmt => (none, { s with top := s.top.add stmt })
  | .nest => (none, ⟨s.top.nest, s.top :: s.parents⟩)
  | .exit =>
    match s.parents with
    | [] => (none, s)
    | parent :: rest => (none, ⟨(parent.exit s.top).2, rest⟩)

/-- The names that the actions hand out, in their order, and the stack after them. -/
def run : Stack → List Action → List Grant × Stack
  | s, [] => ([], s)
  | s, a :: rest =>
    let (granted, s') := s.serve a
    let (more, s'') := s'.run rest
    (granted.toList ++ more, s'')

theorem run_cons (s : Stack) (a : Action) (rest : List Action) : s.run (a :: rest) =
    ((s.serve a).1.toList ++ ((s.serve a).2.run rest).1, ((s.serve a).2.run rest).2) := rfl

/-! ### What the builders know -/

/-- The top builder knows exactly the taken names, and the builders around it know no others. -/
structure Knows (taken : List String) (s : Stack) : Prop where
  top : ∀ x, x ∈ s.top.names ↔ x ∈ taken
  parents : ∀ p ∈ s.parents, ∀ x ∈ p.names, x ∈ taken

variable {taken : List String} {s : Stack}

theorem Knows.cons {b : Builder} {name : String} (h : s.Knows taken) (hb : b.names = name :: s.top.names) :
    Knows (taken ++ [name]) { s with top := b } := by
  refine ⟨fun x => ?_, fun p hp x hx => List.mem_append_left _ (h.parents p hp x hx)⟩
  rw [hb, List.mem_cons, h.top, List.mem_append, List.mem_singleton, or_comm]

theorem Knows.of_names_eq {b : Builder} (h : s.Knows taken) (hb : b.names = s.top.names) :
    Knows taken { s with top := b } :=
  ⟨fun x => by rw [hb, h.top], h.parents⟩

theorem Knows.nest (h : s.Knows taken) : Knows taken ⟨s.top.nest, s.top :: s.parents⟩ :=
  ⟨h.top, List.forall_mem_cons.2 ⟨fun x hx => (h.top x).1 hx, h.parents⟩⟩

/-- The parent knew nothing that its child does not know, and learns the rest from it. -/
theorem Knows.exit {parent : Builder} {rest : List Builder} (h : s.Knows taken)
    (hp : s.parents = parent :: rest) : Knows taken ⟨(parent.exit s.top).2, rest⟩ := by
  have hparents := h.parents
  rw [hp] at hparents
  obtain ⟨hparent, hrest⟩ := List.forall_mem_cons.1 hparents
  refine ⟨fun x => ?_, hrest⟩
  show x ∈ s.top.names ++ parent.names ↔ x ∈ taken
  rw [List.mem_append, h.top]
  exact or_iff_left_of_imp (hparent x)

/-- What the builders know is up to date after an action, and a name that it hands out follows the rule. -/
theorem Knows.serve (h : s.Knows taken) (a : Action) :
    (s.serve a).2.Knows (taken ++ (s.serve a).1.toList.map (·.name)) ∧
      ∀ g ∈ (s.serve a).1, FirstFree taken g.suggestion g.name := by
  have hfree : ∀ suggestion, FirstFree taken suggestion (s.top.freshName suggestion) :=
    fun suggestion => (s.top.firstFree_freshName suggestion).congr h.top
  have hnone : ∀ {s' : Stack}, s'.Knows taken → s'.Knows (taken ++ []) ∧
      ∀ g ∈ (none : Option Grant), FirstFree taken g.suggestion g.name := by
    intro s' hs'
    exact ⟨by rwa [List.append_nil], by simp⟩
  cases a with
  | newName suggestion | newSlot suggestion rep | declare suggestion init =>
    refine ⟨h.cons rfl, ?_⟩
    rintro g ⟨rfl⟩
    exact hfree suggestion
  | append suggestion init =>
    cases hatom : init.isAtom with
    | true =>
      simp only [Stack.serve, append_of_isAtom hatom, hatom]
      exact hnone h
    | false =>
      simp only [Stack.serve, append_of_not_isAtom hatom, hatom]
      refine ⟨h.cons rfl, ?_⟩
      rintro g ⟨rfl⟩
      exact hfree suggestion
  | assign | add => exact hnone (h.of_names_eq rfl)
  | nest => exact hnone h.nest
  | exit =>
    simp only [Stack.serve]
    split
    · exact hnone h
    · rename_i parent rest hp
      exact hnone (h.exit hp)

theorem suggestion_serve (s : Stack) (a : Action) :
    (s.serve a).1.map (·.suggestion) = a.suggestion? := by
  cases a with
  | append suggestion init =>
    cases hatom : init.isAtom with
    | true => simp [Stack.serve, Action.suggestion?, hatom]
    | false =>
      simp only [Stack.serve, Action.suggestion?, append_of_not_isAtom hatom, hatom]
      rfl
  | exit =>
    simp only [Stack.serve]
    split <;> rfl
  | _ => rfl

/-! ### Runs -/

theorem suggestions_run (s : Stack) (actions : List Action) :
    (s.run actions).1.map (·.suggestion) = actions.filterMap Action.suggestion? := by
  induction actions generalizing s with
  | nil => rfl
  | cons a rest ih =>
    rw [run_cons, List.map_append, ih, List.filterMap_cons, ← suggestion_serve s a]
    cases (s.serve a).1 <;> rfl

/-- Every name that a run hands out follows the rule, where the names before it are taken. -/
theorem Knows.run (h : s.Knows taken) {actions : List Action} {before after : List Grant} {g : Grant}
    (hrun : (s.run actions).1 = before ++ g :: after) :
    FirstFree (taken ++ before.map (·.name)) g.suggestion g.name := by
  induction actions generalizing s taken before with
  | nil => simp [Stack.run] at hrun
  | cons a rest ih =>
    obtain ⟨hknows, hfree⟩ := h.serve a
    rw [run_cons] at hrun
    cases hgrant : (s.serve a).1 with
    | none =>
      rw [hgrant] at hknows hrun
      rw [Option.toList_none, List.map_nil, List.append_nil] at hknows
      exact ih hknows hrun
    | some g' =>
      rw [hgrant] at hknows hfree hrun
      cases before with
      | nil =>
        obtain ⟨rfl, -⟩ := List.cons.inj hrun
        rw [List.map_nil, List.append_nil]
        exact hfree g' rfl
      | cons g'' before =>
        -- the name of this action is among the taken ones for the rest of the run
        obtain ⟨rfl, hrest⟩ := List.cons.inj hrun
        rw [List.map_cons, List.append_cons]
        exact ih hknows hrest

/-- Names that follow the rule one after the other are distinct. -/
theorem nodup_of_firstFree {grants : List Grant}
    (h : ∀ before g after, grants = before ++ g :: after →
      FirstFree (taken ++ before.map (·.name)) g.suggestion g.name) :
    (grants.map (·.name)).Nodup ∧ ∀ g ∈ grants, g.name ∉ taken := by
  refine ⟨List.nodup_iff_pairwise_ne.2 (List.pairwise_map.2 (List.pairwise_iff_getElem.2 ?_)), ?_⟩
  · intro i j hi hj hij heq
    have hfree := (h (grants.take j) grants[j] (grants.drop (j + 1)) ?_).notMem
    · refine hfree (List.mem_append_right _ (List.mem_map.2 ⟨grants[i], ?_, heq⟩))
      exact List.mem_take_iff_getElem.2 ⟨i, by omega, rfl⟩
    · rw [List.cons_getElem_drop_succ, List.take_append_drop]
  · intro g hg hmem
    obtain ⟨before, after, rfl⟩ := List.append_of_mem hg
    exact (h before g after rfl).notMem (List.mem_append_left _ hmem)

/-- Fresh names never repeat. Over a run of actions, each on the innermost of nested builders, every action
that asks for a name gets one: its suggestion if that is not taken, and otherwise the suggestion with the
least number that is not. Taken are the names that the outermost builder had at the start, and all names
that were handed out before, on whatever level. So no name is handed out twice. -/
theorem run_names (b : Builder) (actions : List Action) :
    let grants := (Stack.run ⟨b, []⟩ actions).1
    grants.map (·.suggestion) = actions.filterMap Action.suggestion? ∧
      (∀ before g after, grants = before ++ g :: after →
        FirstFree (b.names ++ before.map (·.name)) g.suggestion g.name) ∧
      (grants.map (·.name)).Nodup ∧ ∀ g ∈ grants, g.name ∉ b.names := by
  intro grants
  have hstart : Knows b.names ⟨b, []⟩ := ⟨fun x => .rfl, by simp⟩
  have hrule : ∀ before g after, grants = before ++ g :: after →
      FirstFree (b.names ++ before.map (·.name)) g.suggestion g.name :=
    fun before g after hrun => hstart.run hrun
  exact ⟨suggestions_run _ actions, hrule, nodup_of_firstFree hrule⟩

/-- A name that is suggested on three levels, before and after the inner ones are finished: the last one
avoids the names of both children. -/
theorem run_names_nested :
    let actions : List Action :=
      [.newName "x", .nest, .declare "x" (.int 1), .nest, .append "x" (.call "f" [] .object),
        .append "x" (.int 2), .exit, .newSlot "x0" .object, .exit, .newName "x"]
    let grants := (Stack.run ⟨{ names := ["root"] }, []⟩ actions).1
    grants.map (·.name) = ["x", "x0", "x1", "x00", "x2"] ∧ (grants.map (·.name)).Nodup ∧
      FirstFree ["root", "x", "x0", "x1", "x00"] "x" "x2" := by
  intro actions grants
  have hgrants : grants = [⟨"x", "x"⟩, ⟨"x", "x0"⟩, ⟨"x", "x1"⟩, ⟨"x0", "x00"⟩, ⟨"x", "x2"⟩] := by
    subst grants actions
    decide +kernel
  obtain ⟨-, hrule, hnodup, -⟩ := run_names { names := ["root"] } actions
  refine ⟨by rw [hgrants]; rfl, hnodup, ?_⟩
  exact hrule [⟨"x", "x"⟩, ⟨"x", "x0"⟩, ⟨"x", "x1"⟩, ⟨"x0", "x00"⟩] ⟨"x", "x2"⟩ [] hgrants

end Stack

end Builder

end SqlCode

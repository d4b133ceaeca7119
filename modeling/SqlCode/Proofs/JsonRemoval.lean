import Mathlib.Data.List.Forall2
import SqlCode.Routine.Documents

/-!
# Removing from documents

Selection follows a path level by level, removal descends into one document. Both reach the same documents:
`Json.reach_modifyAt` says that a change at the end of a path is a change of what the path selects. Paths that part from
the removed one see no change.
-/

namespace SqlCode

namespace Json

variable {f : Json → Json} {step s t : Step} {steps ps qs : List Step}

/-! ### Lax selection -/

/-- What steps find, where documents in which a step finds nothing are dropped. -/
def reach (steps : List Step) (js : List Json) : List Json :=
  steps.foldl (fun js step => js.flatMap step.found) js

theorem Step.foundAll_lax (js : List Json) : step.foundAll false js = .ok (js.flatMap step.found) := by
  induction js with
  | nil => rfl
  | cons j js ih =>
    rw [foundAll, Bool.and_false, Bool.false_and, if_neg Bool.false_ne_true, ih]
    rfl

theorem followAll_lax (js : List Json) : followAll false steps js = .ok (reach steps js) := by
  induction steps generalizing js with
  | nil => rfl
  | cons step steps ih =>
    rw [followAll, Step.foundAll_lax]
    exact ih _

theorem reach_append (js : List Json) : reach (ps ++ qs) js = reach qs (reach ps js) := List.foldl_append

/-! ### One step -/

/-- What the other step selects, this one selects as well. -/
def Step.covers : Step → Step → Bool
  | .anyMember, .member _ => true
  | .anyIndex, .index _ => true
  | s, t => s = t

/-- Removing an element moves those behind it. -/
def Step.moves : Step → Step → Bool
  | .index i, .index k => i < k
  | _, _ => false

theorem member?_map {g : String × Json → String × Json} (hg : ∀ m, (g m).1 = m.1) (members : List (String × Json))
    (name : String) : member? (members.map g) name = (members.find? (·.1 = name)).map fun m => (g m).2 := by
  rw [member?, List.find?_map, Option.map_map]
  simp only [Function.comp_def, hg]

theorem member?_modify (members : List (String × Json)) (name changed : String) :
    member? (members.map fun m => if m.1 = changed then (m.1, f m.2) else m) name =
      (member? members name).map (if name = changed then f else id) := by
  rw [member?_map (by intro m; split <;> rfl), member?, Option.map_map]
  cases hfind : members.find? (·.1 = name) with
  | none => rfl
  | some m =>
    have hname : m.1 = name := by simpa using List.find?_some hfind
    simp only [Option.map_some, Function.comp_apply, hname]
    split <;> rfl

theorem member?_modifyAll (members : List (String × Json)) (name : String) :
    member? (members.map fun m => (m.1, f m.2)) name = (member? members name).map f := by
  rw [member?_map (by intro m; rfl), member?, Option.map_map]
  rfl

theorem member?_erase (members : List (String × Json)) (name gone : String) :
    member? (members.filter fun m => m.1 ≠ gone) name = if name = gone then none else member? members name := by
  rw [member?, List.find?_filter]
  split
  · rename_i hname
    rw [Option.map_eq_none_iff, List.find?_eq_none]
    intro m _
    simp [hname]
  · rename_i hname
    rw [member?]
    congr 2
    funext m
    by_cases hm : m.1 = name <;> simp [hm, hname]

theorem Step.covers_member (changed name : String) :
    (member changed).covers (.member name) = decide (name = changed) := by
  simp [covers, eq_comm]

theorem Step.covers_index (i k : ℕ) : (index i).covers (.index k) = decide (k = i) := by
  simp [covers, eq_comm]

/-- Where a step without wildcard leads, there is the changed document if the change covers the step, and the former one
otherwise. -/
theorem Step.found_modify_eq (f : Json → Json) (s : Step) (ht : t.isWildcard = false) (j : Json) :
    t.found (s.modify f j) = (t.found j).map (if s.covers t then f else id) := by
  cases t with
  | anyMember | anyIndex => cases ht
  | member name =>
    cases j with
    | obj members =>
      cases s with
      | member changed =>
        simp only [found, modify, covers_member, member?_modify, Option.toList_map, decide_eq_true_eq]
      | anyMember =>
        simp only [found, modify, covers, member?_modifyAll, Option.toList_map, if_true]
      | index | anyIndex => exact (List.map_id _).symm
    | _ => cases s <;> rfl
  | index k =>
    cases j with
    | arr items =>
      cases s with
      | member | anyMember => exact (List.map_id _).symm
      | index i =>
        simp only [found, modify, covers_index, List.getElem?_modify, decide_eq_true_eq, ← Option.toList_map]
        rcases eq_or_ne i k with rfl | hne
        · simp only [if_true]
          rfl
        · simp only [hne, hne.symm, if_false, Option.map_id]
          simp
      | anyIndex =>
        simp only [found, modify, covers, List.getElem?_map, Option.toList_map, if_true]
    | _ => cases s <;> rfl

theorem Step.found_modify (f : Json → Json) (step : Step) (j : Json) :
    step.found (step.modify f j) = (step.found j).map f := by
  cases step with
  | member name => simpa [covers] using found_modify_eq f (.member name) (t := .member name) rfl j
  | index i => simpa [covers] using found_modify_eq f (.index i) (t := .index i) rfl j
  | anyMember =>
    cases j with
    | obj members => simp [found, modify]
    | _ => rfl
  | anyIndex =>
    cases j with
    | arr items => rfl
    | _ => rfl

/-! ### Changes at the end of a path -/

/-- The document with `f` applied to what steps select. -/
def modifyAt (f : Json → Json) : List Step → Json → Json
  | [], j => f j
  | step :: steps, j => step.modify (modifyAt f steps) j

theorem removeAt_cons (h : steps ≠ []) (j : Json) : removeAt (step :: steps) j = step.modify (removeAt steps) j := by
  cases steps with
  | nil => exact absurd rfl h
  | cons next steps => rfl

theorem removeAt_concat (last : Step) (init : List Step) : removeAt (init ++ [last]) = modifyAt last.erase init := by
  induction init with
  | nil => rfl
  | cons step init ih =>
    funext j
    rw [List.cons_append, removeAt_cons (by simp), ih]
    rfl

theorem reach_modifyAt (f : Json → Json) (steps : List Step) (js : List Json) :
    reach steps (js.map (modifyAt f steps)) = (reach steps js).map f := by
  induction steps generalizing js with
  | nil => rfl
  | cons step steps ih =>
    have hfound : (js.map (modifyAt f (step :: steps))).flatMap step.found =
        (js.flatMap step.found).map (modifyAt f steps) := by
      rw [List.flatMap_map, List.map_flatMap]
      exact List.flatMap_congr fun j _ => Step.found_modify _ step j
    calc reach (step :: steps) (js.map (modifyAt f (step :: steps)))
      _ = reach steps ((js.flatMap step.found).map (modifyAt f steps)) := congrArg (reach steps) hfound
      _ = (reach steps (js.flatMap step.found)).map f := ih _

/-- Removing a member, all members or all elements leaves nothing to be found. -/
theorem Step.found_erase (h : ∀ i, step ≠ .index i) (j : Json) : step.found (step.erase j) = [] := by
  cases step with
  | index i => exact absurd rfl (h i)
  | member name =>
    cases j with
    | obj members => simp only [found, erase, member?_erase, if_true, Option.toList_none]
    | _ => rfl
  | anyMember | anyIndex => cases j <;> rfl

/-- What a step finds that the removal neither covers nor moves. -/
theorem Step.found_erase_eq (ht : t.isWildcard = false) (hcovers : s.covers t = false) (hmoves : s.moves t = false)
    (j : Json) : t.found (s.erase j) = t.found j := by
  cases t with
  | anyMember | anyIndex => cases ht
  | member name =>
    cases j with
    | obj members =>
      cases s with
      | member gone =>
        rw [covers_member, decide_eq_false_iff_not] at hcovers
        simp only [found, erase, member?_erase, if_neg hcovers]
      | anyMember => cases hcovers
      | index | anyIndex => rfl
    | _ => cases s <;> rfl
  | index k =>
    cases j with
    | arr items =>
      cases s with
      | member | anyMember => rfl
      | index i =>
        rw [covers_index, decide_eq_false_iff_not] at hcovers
        have hle : ¬ i < k := of_decide_eq_false hmoves
        simp only [found, erase, List.getElem?_eraseIdx_of_lt (show k < i by omega)]
      | anyIndex => cases hcovers
    | _ => cases s <;> rfl

/-- An array with more than `i` elements loses the one at `i`, and nothing else changes. -/
inductive LosesItem (i : ℕ) : Json → Json → Prop
  | item {front back : List Json} {x : Json} (h : front.length = i) :
    LosesItem i (.arr (front ++ x :: back)) (.arr (front ++ back))
  | short {items : List Json} (h : items.length ≤ i) : LosesItem i (.arr items) (.arr items)
  | other {j : Json} (h : ∀ items, j ≠ .arr items) : LosesItem i j j

theorem losesItem_erase (i : ℕ) (j : Json) : LosesItem i j ((Step.index i).erase j) := by
  cases j with
  | arr items =>
    rcases Nat.lt_or_ge i items.length with hlt | hge
    · have hsplit : items = items.take i ++ items[i] :: items.drop (i + 1) := by simp
      have herase : (Step.index i).erase (.arr items) = .arr (items.take i ++ items.drop (i + 1)) :=
        congrArg arr (List.eraseIdx_eq_take_drop_succ ..)
      rw [herase]
      conv => arg 2; rw [hsplit]
      exact .item (List.length_take_of_le (Nat.le_of_lt hlt))
    · have herase : (Step.index i).erase (.arr items) = .arr items := congrArg arr (List.eraseIdx_of_length_le hge)
      rw [herase]
      exact .short hge
  | _ => exact .other (by simp)

/-! ### Paths that part -/

/-- At some step the second path goes where the first does not. If this is the last step of the first path, the element
that it removes does not stand in front of the one that the second path goes to. -/
inductive Parts : List Step → List Step → Prop
  | here {s t : Step} {ps qs : List Step} (hcovers : s.covers t = false) (hmoves : ps = [] → s.moves t = false) :
    Parts (s :: ps) (t :: qs)
  | later {s t : Step} {ps qs : List Step} (h : Parts ps qs) : Parts (s :: ps) (t :: qs)

theorem followAll_singleton (strict : Bool) (t : Step) (qs : List Step) (j : Json) : followAll strict (t :: qs) [j] =
    if (t.found j).isEmpty && strict && !t.isWildcard then .error t else followAll strict qs (t.found j) := by
  rw [followAll, Step.foundAll, Step.foundAll]
  split
  · rfl
  · simp only [Except.map, List.append_nil]
    rfl

theorem Step.found_of_isWildcard (ht : t.isWildcard = false) (j : Json) : t.found j = [] ∨ ∃ x, t.found j = [x] := by
  have hoption : ∀ o : Option Json, o.toList = [] ∨ ∃ x, o.toList = [x] := by
    intro o
    cases o with
    | none => exact .inl rfl
    | some x => exact .inr ⟨x, rfl⟩
  cases t with
  | anyMember | anyIndex => cases ht
  | member name =>
    cases j with
    | obj members => exact hoption _
    | _ => exact .inl rfl
  | index i =>
    cases j with
    | arr items => exact hoption _
    | _ => exact .inl rfl

/-- A path without wildcards that parts from the removed one selects what it selected before. -/
theorem followAll_removeAt (strict : Bool) (hq : ∀ t ∈ qs, t.isWildcard = false) (h : Parts ps qs) (j : Json) :
    followAll strict qs [removeAt ps j] = followAll strict qs [j] := by
  induction h generalizing j with
  | @here s t ps qs hcovers hmoves =>
    have ht := hq t List.mem_cons_self
    have hfound : t.found (removeAt (s :: ps) j) = t.found j := by
      rcases eq_or_ne ps [] with rfl | hne
      · exact Step.found_erase_eq ht hcovers (hmoves rfl) j
      · rw [removeAt_cons hne, Step.found_modify_eq _ s ht, hcovers]
        exact List.map_id _
    rw [followAll_singleton, hfound, ← followAll_singleton]
  | @later s t ps qs h ih =>
    obtain ⟨ht, hqs⟩ := List.forall_mem_cons.1 hq
    have hne : ps ≠ [] := by
      cases h <;> simp
    rw [followAll_singleton, followAll_singleton, removeAt_cons hne, Step.found_modify_eq _ s ht]
    rcases Step.found_of_isWildcard ht j with hnone | ⟨x, hx⟩
    · rw [hnone]
      rfl
    · rw [hx]
      cases s.covers t with
      | true => simp only [if_true, List.map_cons, List.map_nil, List.isEmpty_cons, Bool.false_and, ih hqs x]
      | false => rfl

end Json

/-! ### JSON_REMOVE -/

namespace Routine

open Json

theorem path_eq_ok {args : List Value} {i : ℕ} {text : String} {p : Path} (harg : args[i]? = some (.str text))
    (hp : Path.parse? text = some p) : Document.path "jsonRemove" args i = .ok p := by
  simp only [Document.path, Args.str, Args.value, harg, hp, bind, Except.bind]

theorem removePaths_append {texts : List String} {paths : List Path}
    (h : List.Forall₂ (fun text p => Path.parse? text = some p ∧ p.steps ≠ []) texts paths) (args : List Value) (j : Json) :
    removePaths (args ++ texts.map .str) (List.range' args.length texts.length) j =
      .ok (paths.foldl (fun j p => p.remove j) j) := by
  induction h generalizing args j with
  | nil => rfl
  | @cons text p texts paths hp h ih =>
    have harg : (args ++ (text :: texts).map Value.str)[args.length]? = some (.str text) := by simp
    rw [List.length_cons, List.range'_succ, removePaths, path_eq_ok harg hp.1]
    have hmore := ih (args ++ [.str text]) (p.remove j)
    rw [List.append_assoc, List.length_append] at hmore
    show (if p.steps.isEmpty then _ else _) = _
    rw [if_neg (by simp [hp.2])]
    exact hmore

theorem jsonRemove_paths {v : Value} {j : Json} (hv : Document.parse "jsonRemove" v = .ok j) {texts : List String}
    {paths : List Path} (h : List.Forall₂ (fun text p => Path.parse? text = some p ∧ p.steps ≠ []) texts paths)
    (hne : texts ≠ []) :
    jsonRemove (v :: texts.map .str) = .ok (.str (paths.foldl (fun j p => p.remove j) j).text) := by
  have harg : Document.arg "jsonRemove" (v :: texts.map .str) = .ok j := hv
  have hlength : ¬ (v :: texts.map Value.str).length < 2 := by
    have hpos := List.length_pos_iff.2 hne
    rw [List.length_cons, List.length_map]
    omega
  have hremove := removePaths_append h [v] j
  rw [jsonRemove, harg]
  show (if _ then _ else _) = _
  rw [if_neg hlength, List.length_cons, List.length_map, Nat.add_sub_cancel]
  exact congrArg (· >>= fun j => Except.ok (Value.str j.text)) hremove

end Routine

/-- What a path removes, for paths with at least one step.

* If the last step is no index, the path selects nothing afterwards;
* if it is an index, the documents that the other steps select are those of before, where the arrays with such an
  element have lost it;
* a path without wildcards that parts from the removed one selects what it selected before, whatever its mode;
* JSON_REMOVE returns the text of the remaining document. -/
theorem Json.Path.remove_exact (p : Path) (hp : p.steps ≠ []) (j : Json) :
    ((∀ i, p.steps.getLast hp ≠ .index i) → (Path.mk false p.steps).select (p.remove j) = .ok []) ∧
    (∀ i, p.steps.getLast hp = .index i → ∃ before after,
      (Path.mk false p.steps.dropLast).select j = .ok before ∧
      (Path.mk false p.steps.dropLast).select (p.remove j) = .ok after ∧ List.Forall₂ (LosesItem i) before after) ∧
    (∀ q : Path, (∀ t ∈ q.steps, t.isWildcard = false) → Parts p.steps q.steps →
      q.select (p.remove j) = q.select j) ∧
    ∀ (v : Value) (text : String), Document.parse "jsonRemove" v = .ok j → Path.parse? text = some p →
      Routine.jsonRemove [v, .str text] = .ok (.str (p.remove j).text) := by
  obtain ⟨strict, steps⟩ := p
  generalize hlast : steps.getLast hp = last
  generalize hinit : steps.dropLast = init
  have hsteps : steps = init ++ [last] := by
    rw [← hinit, ← hlast, List.dropLast_append_getLast]
  subst hsteps
  -- before its last step the path selects the same documents, now without what that step selects
  have hreach : reach init [Path.remove ⟨strict, init ++ [last]⟩ j] = (reach init [j]).map last.erase := by
    rw [Path.remove, removeAt_concat]
    exact reach_modifyAt last.erase init [j]
  refine ⟨fun hindex => ?_, fun i hindex => ?_, fun q hq hparts => ?_, fun v text hv htext => ?_⟩
  · have hgone : ((reach init [j]).map last.erase).flatMap last.found = [] := by
      rw [List.flatMap_map, List.flatMap_eq_nil_iff]
      exact fun k _ => Step.found_erase hindex k
    rw [Path.select, followAll_lax, reach_append, hreach]
    exact congrArg Except.ok hgone
  · refine ⟨reach init [j], _, followAll_lax _, followAll_lax _, ?_⟩
    rw [hreach, List.forall₂_map_right_iff, hindex, List.forall₂_same]
    exact fun k _ => losesItem_erase i k
  · exact followAll_removeAt q.strict hq hparts j
  · exact Routine.jsonRemove_paths hv (.cons ⟨htext, hp⟩ .nil) (by simp)

theorem Json.Path.remove_exact_element :
    let p : Path := ⟨false, [.member "a", .index 1]⟩
    let j : Json := .obj [("a", .arr [.bool true, .null]), ("b", .str "x")]
    (∃ before after, (Path.mk false [.member "a"]).select j = .ok before ∧
      (Path.mk false [.member "a"]).select (p.remove j) = .ok after ∧ List.Forall₂ (LosesItem 1) before after) ∧
    (Path.mk true [.member "b"]).select (p.remove j) = .ok [.str "x"] ∧
    Routine.jsonRemove [.map [(.str "a", .list [.bool true, .null]), (.str "b", .str "x")], .str "LAX $.a [01]"] =
      .ok (.str (p.remove j).text) := by
  intro p j
  obtain ⟨-, hindex, hparts, hroutine⟩ := remove_exact p (by simp [p]) j
  exact ⟨hindex 1 rfl, hparts ⟨true, [.member "b"]⟩ (by simp [Step.isWildcard]) (.here rfl (by simp)),
    hroutine _ _ rfl (by decide)⟩

end SqlCode

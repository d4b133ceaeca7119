import SqlCode.Proofs.SharedOnce

/-!
# NEXT VALUE takes effect once per call

The value of a call of NEXT VALUE is stored in a variable where the call stands, and everything else refers to
the variable. So a run of the code draws once for each call, in the order of the code, whether or not the values
are needed.
-/

namespace SqlCode

open Run SqlCode.Expr Code

variable {f : Flagged} {defs : List Term} {name x : String} {c : Compilation} {e : Expr} {code : Block}
  {b b' : Builder} {m m' : Machine} {t : Term}

/-! ### The draws of a term -/

/-- A call of NEXT VALUE: the sequence that it names, and the representation of its value. -/
structure Draw where
  name : String
  rep : Rep

/-- The draw of a call, if it is one of NEXT VALUE for a text. -/
def Draw.ofCall? (op : Operator) (type : SqlType) (operands : List Term) : Option Draw :=
  match op, operands with
  | .builtin .nextValue, [.literal (.str name) _] => some ⟨name, type.rep⟩
  | _, _ => none

/-- How many of the draws are from a sequence. -/
def Draw.count (name : String) (draws : List Draw) : Nat := draws.countP (·.name == name)

namespace Term

mutual

/-- The draws of a term itself, without those of the definitions that it refers to. -/
def ownDraws : Term → List Draw
  | .literal .. | .input .. | .shared .. => []
  | .call op type operands => ownDrawsAll operands ++ (Draw.ofCall? op type operands).toList
termination_by structural t => t

/-- The draws of terms themselves. -/
def ownDrawsAll : List Term → List Draw
  | [] => []
  | t :: ts => ownDraws t ++ ownDrawsAll ts
termination_by structural ts => ts

end

/-- The draws of a definition itself. -/
def drawsAt (defs : List Term) (i : Nat) : List Draw := (defs[i]?.map ownDraws).getD []

/-- Walks on from the definitions that have been seen: the draws on the way, and the definitions seen then. -/
abbrev Walk := List Nat → List Draw × List Nat

/-- Comes upon the draws, and sees no definition. -/
def Walk.make (ds : List Draw) : Walk := fun seen => (ds, seen)

/-- One walk after another. -/
def Walk.andThen (v w : Walk) : Walk := fun seen =>
  let first := v seen
  let rest := w first.2
  (first.1 ++ rest.1, rest.2)

mutual

/-- The walk through a term, operands first, given the walks through the definitions. -/
def walkWith (shared : Nat → Walk) : Term → Walk
  | .literal .. | .input .. => .make []
  | .shared i _ => shared i
  | .call op type operands =>
    (walkAllWith shared operands).andThen (.make (Draw.ofCall? op type operands).toList)
termination_by structural t => t

/-- The walk through terms, from left to right. -/
def walkAllWith (shared : Nat → Walk) : List Term → Walk
  | [] => .make []
  | t :: ts => (walkWith shared t).andThen (walkAllWith shared ts)
termination_by structural ts => ts

end

/-- The walk through a definition, unless it has been seen, through at most `depth` nested definitions. -/
def walkShared (defs : List Term) : Nat → Nat → Walk
  | 0, _ => .make []
  | depth + 1, i => fun seen =>
    if i ∈ seen then ([], seen)
    else
      match defs[i]? with
      | none => ([], seen)
      | some t =>
        let walked := t.walkWith (walkShared defs depth) seen
        (walked.1, i :: walked.2)

/-- The draws of a term and of the definitions that it reaches, in the order in which the walk comes upon
them. -/
def draws (defs : List Term) (t : Term) : List Draw :=
  (t.walkWith (walkShared defs (defs.length + 1)) []).1

/-- The walk comes upon the given draws and those of the definitions that it sees for the first time. -/
def Collects (defs : List Term) (own : List Draw) (walk : Walk) : Prop :=
  ∀ seen, ∃ new, (walk seen).2 = new ++ seen ∧ (walk seen).1.Perm (own ++ new.flatMap (drawsAt defs))

section Collects

theorem collects_make (ds : List Draw) : Collects defs ds (.make ds) :=
  fun _ => ⟨[], rfl, by simp [Walk.make]⟩

theorem Collects.andThen {own own' : List Draw} {v w : Walk} (hv : Collects defs own v)
    (hw : Collects defs own' w) : Collects defs (own ++ own') (v.andThen w) := by
  intro seen
  obtain ⟨new, hseen, hperm⟩ := hv seen
  obtain ⟨new', hseen', hperm'⟩ := hw (v seen).2
  refine ⟨new' ++ new, ?_, ?_⟩
  · rw [List.append_assoc, ← hseen]
    exact hseen'
  · -- the definitions that the first walk sees move behind the draws of the second one
    refine (hperm.append hperm').trans ?_
    rw [List.flatMap_append, List.append_assoc, List.append_assoc]
    exact List.Perm.append_left _ (List.perm_append_comm.trans (by rw [List.append_assoc]))

theorem collects_walkAllWith {shared : Nat → Walk} {ts : List Term}
    (h : ∀ t ∈ ts, Collects defs t.ownDraws (t.walkWith shared)) :
    Collects defs (ownDrawsAll ts) (walkAllWith shared ts) := by
  induction ts with
  | nil => exact collects_make []
  | cons t ts ih => exact (h t (by simp)).andThen (ih fun u hu => h u (by simp [hu]))

theorem collects_walkWith {shared : Nat → Walk} (hs : ∀ i, Collects defs [] (shared i)) (t : Term) :
    Collects defs t.ownDraws (t.walkWith shared) := by
  induction t using inductionOn with
  | literal | input => exact collects_make []
  | shared i type => exact hs i
  | call op type operands ih => exact (collects_walkAllWith ih).andThen (collects_make _)

theorem collects_walkShared (depth i : Nat) : Collects defs [] (walkShared defs depth i) := by
  induction depth generalizing i with
  | zero => exact collects_make []
  | succ depth ih =>
    intro seen
    unfold walkShared
    split_ifs
    · exact collects_make [] seen
    · cases hdef : defs[i]? with
      | none => exact collects_make [] seen
      | some t =>
        obtain ⟨new, hseen, hperm⟩ := collects_walkWith ih t seen
        refine ⟨i :: new, congrArg (i :: ·) hseen, ?_⟩
        simpa [drawsAt, hdef] using hperm

end Collects

end Term

/-! ### Counters -/

theorem Word.wrap_toInt (n : Int64) : wrap n.toInt = n := Int64.ofInt_toInt n

/-- Wrapping in between does not matter. -/
theorem Word.wrap_toInt_wrap_add (a b : Int) : wrap ((wrap a).toInt + b) = wrap (a + b) := by
  unfold wrap
  rw [Int64.ofInt_add, Int64.ofInt_toInt, ← Int64.ofInt_add]

namespace Machine

/-- The value that a sequence gave last, zero before the first one. -/
def counter (m : Machine) (name : String) : Int64 := (m.sequences.get? name).getD 0

/-- The state after a draw. -/
def advance (m : Machine) (name : String) : Machine :=
  { m with sequences := m.sequences.set name (Word.wrap ((m.counter name).toInt + 1)) }

theorem counter_advance_self (m : Machine) (name : String) :
    (m.advance name).counter name = Word.wrap ((m.counter name).toInt + 1) := by
  unfold counter advance
  rw [Bindings.get?_set_self]
  rfl

theorem counter_advance_of_ne (m : Machine) {other : String} (h : other ≠ name) :
    (m.advance name).counter other = m.counter other := by
  unfold counter advance
  rw [Bindings.get?_set_of_ne _ _ h]

theorem wrap_counter_advance (m : Machine) (d : Draw) (name : String) (ds : List Draw) :
    Word.wrap (((m.advance d.name).counter name).toInt + Draw.count name ds) =
      Word.wrap ((m.counter name).toInt + Draw.count name (d :: ds)) := by
  by_cases h : d.name = name
  · subst h
    rw [counter_advance_self, Word.wrap_toInt_wrap_add, Draw.count, Draw.count,
      List.countP_cons_of_pos (by simp)]
    push_cast
    rw [add_assoc, add_comm 1]
  · rw [counter_advance_of_ne m (Ne.symm h), Draw.count, Draw.count, List.countP_cons_of_neg (by simpa using h)]

end Machine

/-- Without a routine of its own name, NEXT VALUE advances the counter of the sequence. -/
theorem Run.result_call_nextValue {args : List Value} {v : Value}
    (hm : m.routines.get? "sequenceNextValue" = none)
    (h : (call "sequenceNextValue" args).result m = (.ok v, m')) :
    ∃ name, args[1]? = some (.str name) ∧ v = .int ((m.advance name).counter name) ∧ m' = m.advance name := by
  have hcall : (call "sequenceNextValue" args).result m = (nextValue "sequenceNextValue" args).result m := by
    unfold call
    rw [result_bind, result_get, andThen_ok, hm]
    rfl
  rw [hcall] at h
  unfold nextValue at h
  rw [result_bind, result_lift] at h
  obtain ⟨name, m₁, hname, h⟩ := andThen_eq_ok.1 h
  obtain ⟨hname, rfl⟩ := Prod.mk.inj hname
  cases h
  refine ⟨name, ?_, by rw [Machine.counter_advance_self]; rfl, rfl⟩
  unfold sequenceName at hname
  split at hname
  · cases hname
    assumption
  · cases hname

/-! ### Code that draws -/

/-- The slot of a variable that is declared with a draw. -/
def Stmt.drawn? : Stmt → Option Slot
  | .declare s e => if "sequenceNextValue" ∈ e.calls then some s else none
  | _ => none

theorem Stmt.drawn?_of_uses {s : Stmt} (h : s.Uses (fun _ => True) (· ∉ volatile)) : s.drawn? = none := by
  cases s with
  | declare s e => exact if_neg fun hmem => h.2 _ hmem (by simp [volatile])
  | _ => rfl

theorem Stmt.drawn?_declare (h : "sequenceNextValue" ∈ e.calls) (slot : Slot) :
    (Stmt.declare slot e).drawn? = some slot := if_pos h

theorem Stmt.writesAll_append (ss ts : Block) : writesAll (ss ++ ts) = writesAll ss ++ writesAll ts := by
  simp only [writesAll_eq_flatMap, List.flatMap_append]

/-- A statement without branches and without routines that have a state of their own changes variables only. -/
theorem Stmt.exists_store_of_exec {s : Stmt} (hsimple : s.isSimple)
    (h : s.Uses (fun _ => True) (· ∉ volatile)) (hrun : s.exec.result m = (.ok (), m')) :
    ∃ store, m' = { m with store := store } := by
  cases s with
  | declare s e | assign s e =>
    obtain ⟨v, m₁, hv, hrun⟩ := andThen_eq_ok.1 ((result_bind _ _ _).symm.trans hrun)
    cases hrun
    obtain rfl := Expr.Steady.eq_state h hv
    exact ⟨_, rfl⟩
  | invoke s f args =>
    rw [result_invoke] at hrun
    obtain ⟨vs, m₁, hvs, hmut⟩ := andThen_eq_ok.1 hrun
    obtain rfl := result_evalAll_of_steady h.2 hvs
    obtain ⟨-, -, w, -, -, -, rfl⟩ := mutate_eq_ok.1 hmut
    exact ⟨_, rfl⟩
  | ite t a b => cases hsimple
  | throw f => cases hrun

/-- The expression makes the draw, and nothing else: where it has a value, the sequence has advanced, and the
value is what the sequence gave, in the representation of the draw. -/
structure Draw.IsMadeBy (d : Draw) (e : Expr) : Prop where
  calls : "sequenceNextValue" ∈ e.calls
  rep : e.rep = d.rep
  value : ∀ {m m' : Machine} {v : Value}, m.routines.get? "sequenceNextValue" = none →
    e.eval.result m = (.ok v, m') →
      m' = m.advance d.name ∧ (Value.int ((m.advance d.name).counter d.name)).convert d.rep = .ok v

theorem Draw.IsMadeBy.isAtom_eq_false {d : Draw} (h : d.IsMadeBy e) : e.isAtom = false := by
  refine Bool.eq_false_of_not_eq_true fun hatom => ?_
  exact (steady_of_isAtom hatom).2 _ h.calls (by simp [volatile])

namespace Code

/-- The code makes the draws in order. Each is stored in a variable that is not written again; the other
statements have no branches and call no routine with a state of its own. -/
inductive Draws : Block → List Draw → Prop
  | nil : Draws [] []
  | plain {s : Stmt} {code : Block} {ds : List Draw} : s.isSimple →
      s.Uses (fun _ => True) (· ∉ volatile) → Draws code ds → Draws (s :: code) ds
  | draw {slot : Slot} {e : Expr} {code : Block} {d : Draw} {ds : List Draw} : d.IsMadeBy e →
      slot.rep = d.rep → slot.name ∉ Stmt.writesAll code → Draws code ds →
        Draws (.declare slot e :: code) (d :: ds)

namespace Draws

variable {code' : Block} {ds ds' : List Draw}

theorem append (h : Draws code ds) (h' : Draws code' ds')
    (hw : ∀ x ∈ Block.declared code, x ∉ Stmt.writesAll code') : Draws (code ++ code') (ds ++ ds') := by
  induction h with
  | nil => exact h'
  | @plain s code ds hsimple hs _ ih =>
    refine .plain hsimple hs (ih fun x hx => hw x ?_)
    rw [Block.declared, List.filterMap_cons]
    split
    · exact hx
    · exact List.mem_cons_of_mem _ hx
  | @draw slot e code d ds he hrep hslot _ ih =>
    refine .draw he hrep ?_ (ih fun x hx => hw x (List.mem_cons_of_mem _ hx))
    intro hmem
    rcases List.mem_append.1 (Stmt.writesAll_append code code' ▸ hmem) with hmem | hmem
    · exact hslot hmem
    · exact hw slot.name List.mem_cons_self hmem

theorem reps (h : Draws code ds) : (code.filterMap Stmt.drawn?).map (·.rep) = ds.map (·.rep) := by
  induction h with
  | nil => rfl
  | plain _ hs _ ih => rwa [List.filterMap_cons_none (Stmt.drawn?_of_uses hs)]
  | draw he hrep _ _ ih =>
    rw [List.filterMap_cons_some (Stmt.drawn?_declare he.calls _), List.map_cons, List.map_cons, hrep, ih]

/-- A run advances the counters by the draws, and the variables hold consecutive values. -/
theorem run (h : Draws code ds) (hm : m.routines.get? "sequenceNextValue" = none)
    (hrun : (Stmt.execBlock code).result m = (.ok (), m')) :
    (∀ name, m'.counter name = Word.wrap ((m.counter name).toInt + Draw.count name ds)) ∧
      ∀ (k : Nat) (d : Draw) (slot : Slot), ds[k]? = some d → (code.filterMap Stmt.drawn?)[k]? = some slot →
        ∃ v, m'.get? slot.name = some v ∧
          (Value.int (Word.wrap ((m.counter d.name).toInt + Draw.count d.name (ds.take (k + 1))))).convert
            d.rep = .ok v := by
  induction h generalizing m with
  | nil =>
    cases hrun
    refine ⟨fun name => ?_, by simp⟩
    rw [Draw.count, List.countP_nil, Nat.cast_zero, add_zero, Word.wrap_toInt]
  | @plain s code ds hsimple hs _ ih =>
    rw [Stmt.result_execBlock_cons] at hrun
    obtain ⟨_, m₁, hs₁, hrun⟩ := andThen_eq_ok.1 hrun
    obtain ⟨store, rfl⟩ := Stmt.exists_store_of_exec hsimple hs hs₁
    rw [List.filterMap_cons_none (Stmt.drawn?_of_uses hs)]
    exact ih (m := { m with store := store }) hm hrun
  | @draw slot e code d ds he hrep hslot _ ih =>
    rw [Stmt.result_execBlock_cons, Stmt.result_declare] at hrun
    obtain ⟨_, m₁, hs₁, hrun⟩ := andThen_eq_ok.1 hrun
    obtain ⟨v, m₂, hv, hbind⟩ := andThen_eq_ok.1 hs₁
    cases hbind
    obtain ⟨rfl, hvalue⟩ := he.value hm hv
    obtain ⟨hcounter, hslots⟩ := ih (m := (m.advance d.name).bind slot.name v) hm hrun
    have hbound : ∀ name, ((m.advance d.name).bind slot.name v).counter name = (m.advance d.name).counter name :=
      fun _ => rfl
    simp only [hbound, Machine.wrap_counter_advance] at hcounter hslots
    refine ⟨hcounter, fun k d' slot' hd hslot' => ?_⟩
    rw [List.filterMap_cons_some (Stmt.drawn?_declare he.calls _)] at hslot'
    cases k with
    | zero =>
      cases hd
      cases hslot'
      refine ⟨v, ?_, ?_⟩
      · -- the rest of the code does not write the variable
        have hwrites : WritesOnly (Stmt.writesAll code) (Stmt.execBlock code) :=
          Stmt.writesOnly_execBlock fun _ hx => hx
        have hkeeps := hwrites ((m.advance d.name).bind slot.name v)
        rw [hrun] at hkeeps
        exact (hkeeps.slots slot.name hslot).trans (Machine.get?_bind_self _ _ _)
      · have hone : Draw.count d.name [d] = 1 := by simp [Draw.count]
        rw [List.take_succ_cons, List.take_zero, hone, ← hvalue, Machine.counter_advance_self]
        rfl
    | succ k => exact hslots k d' slot' hd hslot'

end Draws

end Code

/-! ### The code of NEXT VALUE -/

theorem Value.eq_of_convert_str {s : String} {r : Rep} (h : (Value.str s).convert r = .ok (.str x)) : x = s := by
  cases r with
  | prim p | boxed p => cases p <;> cases h
  | string =>
    cases h
    rfl
  | decimal | bytes => cases h
  | _ =>
    cases h
    rfl

theorem Value.convert_prim_ne_str (v : Value) (p : Prim) (x : String) : v.convert (.prim p) ≠ .ok (.str x) := by
  have hprim : v.toPrim p ≠ .ok (.str x) := by
    unfold toPrim
    repeat' split
    all_goals simp
  cases v with
  | null => simp [convert]
  | _ => exact hprim

/-- A name that was given as a text literal of any type. -/
theorem Expr.eq_of_result_unbox_literalExpr {s : String} {type : SqlType}
    (h : ((Value.str s).literalExpr type).unbox.eval.result m = (.ok (.str x), m')) : x = s := by
  obtain ⟨w, hw, hconst⟩ : ∃ w, (w = .str s ∨ (Value.str s).convert type.rep = .ok w) ∧
      (Value.str s).literalExpr type = .const w type.rep := by
    cases hc : (Value.str s).convert type.rep with
    | ok w => exact ⟨w, .inr rfl, by simp [Value.literalExpr, Value.isNull, hc]⟩
    | error f => exact ⟨_, .inl rfl, by simp [Value.literalExpr, Value.isNull, hc]⟩
  rw [hconst] at h
  unfold unbox at h
  split at h
  · -- no conversion to a machine kind gives a text
    rename_i p _
    unfold mkConvert at h
    split_ifs at h with hrep
    · simp_all
    dsimp only at h
    split at h
    · cases h
      exact absurd ‹_› (w.convert_prim_ne_str p x)
    · obtain ⟨u, -, hu⟩ := result_convert_eq_ok.1 h
      exact absurd hu (u.convert_prim_ne_str p x)
  · cases h
    rcases hw with hw | hw
    · cases hw
      rfl
    · exact Value.eq_of_convert_str hw

namespace CallSite

variable {site : CallSite}

/-- The call of the routine, in the representation of the call site. -/
theorem isMadeBy_conform (hop : site.op = .builtin .nextValue) (he : e.Steady)
    (hname : ∀ (m m' : Machine) (x : String), e.eval.result m = (.ok (.str x), m') → x = name) :
    Draw.IsMadeBy ⟨name, site.rep⟩ (site.conform (.call "sequenceNextValue" [.root, e] (.prim .i64))) := by
  rw [conform_of_builtin hop]
  have hcall : ∀ {m m' : Machine} {v : Value}, m.routines.get? "sequenceNextValue" = none →
      (Expr.call "sequenceNextValue" [.root, e] (.prim .i64)).eval.result m = (.ok v, m') →
        m' = m.advance name ∧ v = .int ((m.advance name).counter name) := by
    intro m m' v hm h
    rw [result_call] at h
    obtain ⟨vs, m₁, hvs, hrun⟩ := andThen_eq_ok.1 h
    rw [result_evalAll_cons] at hvs
    obtain ⟨u, m₂, hu, hvs⟩ := andThen_eq_ok.1 hvs
    rw [result_bind, result_evalAll_cons] at hvs
    obtain ⟨ws, m₃, hws, hvs⟩ := andThen_eq_ok.1 hvs
    obtain ⟨w, m₄, hw, hws⟩ := andThen_eq_ok.1 hws
    cases hws
    cases hvs
    -- the operands change nothing, so the call is made in the first state
    obtain rfl := (steady_of_isAtom (e := .root) rfl).eq_state hu
    obtain rfl := he.eq_state hw
    obtain ⟨x, hx, rfl, rfl⟩ := result_call_nextValue hm hrun
    obtain rfl : w = .str x := by simpa using hx
    obtain rfl := hname _ _ _ hw
    exact ⟨rfl, rfl⟩
  unfold mkConvert
  split_ifs with hrep
  · refine ⟨by simp, hrep, fun hm h => ?_⟩
    obtain ⟨hm', rfl⟩ := hcall hm h
    dsimp only
    rw [← hrep]
    exact ⟨hm', rfl⟩
  · refine ⟨by simp [reconvert], rfl, fun hm h => ?_⟩
    obtain ⟨u, hu, hv⟩ := result_convert_eq_ok.1 h
    obtain ⟨hm', rfl⟩ := hcall hm hu
    exact ⟨hm', hv⟩

end CallSite

/-! ### Steps that emit draws -/

namespace Code.Scoped

variable {Q Q' : String → Prop} {outer own : Set String}

theorem mono (h : Scoped Q outer own code) (hQ : ∀ f, Q f → Q' f) : Scoped Q' outer own code := by
  induction h with
  | nil => exact .nil
  | declare ho hn he _ ih => exact .declare ho hn (he.mono (fun _ hx => hx) hQ) ih
  | invoke hs ha _ ih => exact .invoke hs (fun a haa => (ha a haa).mono (fun _ hx => hx) hQ) ih

/-- Scoped code without routines that have a state of their own makes no draws. -/
theorem draws_nil (h : Scoped (· ∉ volatile) outer own code) : Code.Draws code [] := by
  induction h with
  | nil => exact .nil
  | declare _ _ he _ ih => exact .plain rfl (he.mono (fun _ _ => trivial)) ih
  | invoke _ ha _ ih =>
    exact .plain rfl ⟨trivial, fun a haa => (ha a haa).mono (fun _ _ => trivial)⟩ ih

end Code.Scoped

namespace Builder

variable {b'' : Builder} {ds ds' : List Draw}

/-- The second builder is the first one after emitting scoped code that makes the draws. -/
def Draws (b b' : Builder) (ds : List Draw) : Prop :=
  ∃ code, b.Emits (fun _ => True) b' code ∧ Code.Draws code ds

theorem Draws.mem_names (h : b.Draws b' ds) (hx : x ∈ b.names) : x ∈ b'.names := by
  obtain ⟨code, he, -⟩ := h
  exact he.mem_names hx

theorem Emits.draws (h : b.Emits (· ∉ volatile) b' code) : b.Draws b' [] :=
  ⟨code, ⟨h.statements, h.names, h.isScoped.mono fun _ _ => trivial⟩, h.isScoped.draws_nil⟩

theorem Draws.refl (b : Builder) : b.Draws b [] := (Emits.refl _ b).draws

theorem Draws.trans (h : b.Draws b' ds) (h' : b'.Draws b'' ds') : b.Draws b'' (ds ++ ds') := by
  obtain ⟨code, he, hd⟩ := h
  obtain ⟨code', he', hd'⟩ := h'
  refine ⟨code ++ code', he.trans he', hd.append hd' fun x hx hw => ?_⟩
  exact he'.isScoped.writesAll_notMem (by simp) x hw (he.mem_of_declared hx)

theorem draws_declare (b : Builder) (suggestion : String) {init : Expr} {d : Draw}
    (h : init.Uses (· ∈ b.names) fun _ => True) (hd : d.IsMadeBy init) :
    b.Draws (b.declare suggestion init).2 [d] :=
  ⟨_, b.emits_declare suggestion h, .draw hd hd.rep (by simp [Stmt.writesAll]) .nil⟩

end Builder

/-- A draw and its null test: the draw is stored in a variable, and the variable is what is given. -/
theorem Emit.draws_result {init : Expr} {d : Draw} (stem : String)
    (hinit : init.Uses (· ∈ b.names) fun _ => True) (hd : d.IsMadeBy init)
    (h : (Emit.result stem init).run b = .ok (f, b')) :
    b.Draws b' [d] ∧ f.Uses (· ∈ b'.names) (· ∉ volatile) := by
  have happend : b.append (stem ++ "_value") init =
      (.slot ⟨b.freshName (stem ++ "_value"), init.rep⟩, (b.declare (stem ++ "_value") init).2) :=
    Builder.append_of_not_isAtom hd.isAtom_eq_false b (stem ++ "_value")
  have hslot : (Expr.slot ⟨b.freshName (stem ++ "_value"), init.rep⟩).Uses
      (· ∈ (b.declare (stem ++ "_value") init).2.names) (· ∉ volatile) :=
    (uses_slot _).2 List.mem_cons_self
  have hdraws := b.draws_declare (stem ++ "_value") hinit hd
  rw [Emit.run_result, happend] at h
  generalize (b.declare (stem ++ "_value") init).2 = b₁ at h hdraws hslot
  cases h
  obtain ⟨code, he⟩ := b₁.exists_emits_append (stem ++ "_isNull") hslot.mkIsNull
  exact ⟨hdraws.trans he.draws, Builder.uses_append _ fun _ => hslot.mkIsNull,
    hslot.mono (fun _ hx => he.mem_names hx)⟩

theorem Lowering.draws_emit_nextValue {site : CallSite} {type : SqlType}
    (hop : site.op = .builtin .nextValue) (hroot : "root" ∈ b.names)
    (h : (Builtin.nextValue.lowering.emit site [(Value.str name).literal type]).run b = .ok (f, b')) :
    b.Draws b' [⟨name, site.rep⟩] ∧ f.Uses (· ∈ b'.names) (· ∉ volatile) := by
  have hoperand : ((Value.str name).literalExpr type).unbox.Uses (· ∈ b.names) (· ∉ volatile) :=
    (uses_literalExpr _ _).unbox
  -- a literal is known not to be null, so the frame of the call has no condition
  have hrun : (Builtin.nextValue.lowering.emit site [(Value.str name).literal type]).run b =
      (Emit.result "sequence" (site.conform (.call "sequenceNextValue"
        [.root, ((Value.str name).literalExpr type).unbox] (.prim .i64)))).run b := rfl
  rw [hrun] at h
  refine Emit.draws_result _ (site.uses_conform (.call trivial ?_ _)) ?_ h
  · simpa using ⟨hroot, hoperand.mono (fun _ hx => hx) fun _ _ => trivial⟩
  · exact CallSite.isMadeBy_conform hop (hoperand.mono (fun _ _ => trivial))
      fun _ _ _ => eq_of_result_unbox_literalExpr

/-! ### Compiling terms that draw -/

namespace Compilation

/-- Nothing that later code can refer to makes a draw: the inputs and the results of definitions use taken
names, and no routine that has a state of its own. -/
structure Drawless (defs : List Term) (c : Compilation) : Prop where
  definitions : c.definitions = defs
  root : "root" ∈ c.builder.names
  inputs : ∀ f ∈ c.inputs, f.Uses (· ∈ c.builder.names) (· ∉ volatile)
  done : ∀ p ∈ c.done, p.2.Uses (· ∈ c.builder.names) (· ∉ volatile)

/-- The second compilation has emitted code for the draws of the walk, and recorded what the walk has seen. -/
structure Follows (defs : List Term) (walk : Term.Walk) (c c' : Compilation) : Prop where
  draws : c.builder.Draws c'.builder (walk c.recorded).1
  recorded : c'.recorded = (walk c.recorded).2
  drawless : c'.Drawless defs

variable {c' c'' : Compilation} {v w : Term.Walk}

theorem Drawless.follows (h : c.Drawless defs) : c.Follows defs (.make []) c :=
  ⟨.refl _, rfl, h⟩

theorem Follows.andThen (h : c.Follows defs v c') (h' : c'.Follows defs w c'') :
    c.Follows defs (v.andThen w) c'' := by
  obtain ⟨hdraws, hrecorded, hclean⟩ := h'
  rw [h.recorded] at hdraws hrecorded
  exact ⟨h.draws.trans hdraws, hrecorded, hclean⟩

/-- Code for draws leaves alone what was there before. -/
theorem Drawless.follows_of_draws (h : c.Drawless defs) {ds : List Draw}
    (hb : c.builder.Draws b ds) : c.Follows defs (.make ds) { c with builder := b } := by
  have hmono : ∀ {f : Flagged}, f.Uses (· ∈ c.builder.names) (· ∉ volatile) →
      f.Uses (· ∈ b.names) (· ∉ volatile) := fun hf => hf.mono (fun _ hx => hb.mem_names hx)
  exact ⟨hb, rfl, h.definitions, hb.mem_names h.root, fun f hf => hmono (h.inputs f hf),
    fun p hp => hmono (h.done p hp)⟩

end Compilation

namespace Compile

open Compilation

variable {α β : Type} {v w : Term.Walk}

/-- Where the step succeeds, it has followed the walk, and what it gives satisfies `P` with the names taken
then. -/
def Draws (defs : List Term) (walk : Term.Walk) (c : Compilation) (x : Compile α)
    (P : α → Builder → Prop) : Prop :=
  ∀ a c', x.run.run c = (.ok a, c') → c.Follows defs walk c' ∧ P a c'.builder

end Compile

/-- The other built-in operators name no routine that has a state of its own. -/
theorem Builtin.notMem_volatile {b : Builtin} (h : b ∉ [.currentValue, .nextValue, .rand, .randInteger]) :
    ∀ f ∈ b.lowering.routines, f ∉ volatile := by
  revert h
  cases b <;> decide

/-- A built-in operator that neither reads a sequence nor draws a random number. If it is NEXT VALUE, the
operands are names that are given as literals. -/
def Operator.DrawsFrom (op : Operator) (operands : List Term) : Prop :=
  ∃ b, op = .builtin b ∧ b ∉ [.currentValue, .rand, .randInteger] ∧
    (b = .nextValue → ∀ a ∈ operands, ∃ name type, a = .literal (.str name) type)

namespace Term

open Compilation Compile

/-- Every call in the term and in the definitions that it refers to may draw by name only. -/
def DrawsByName (defs : List Term) (t : Term) : Prop :=
  ∀ op type operands, Occurs defs (.call op type operands) t → op.DrawsFrom operands

/-- What compiling the term gives uses taken names and draws nothing; a literal is a constant. -/
structure Compiled (t : Term) (f : Flagged) (b : Builder) : Prop where
  uses : f.Uses (· ∈ b.names) (· ∉ volatile)
  literal : ∀ v type, t = .literal v type → f = v.literal type

theorem draws_compileAllWith {shared : Nat → Compile Flagged} {walk : Nat → Walk} {ts : List Term}
    (h : ∀ t ∈ ts, ∀ c : Compilation, c.Drawless defs →
      Draws defs (t.walkWith walk) c (t.compileWith shared) t.Compiled)
    (hc : c.Drawless defs) :
    Draws defs (walkAllWith walk ts) c (compileAllWith shared ts) fun fs b =>
      List.Forall₂ (fun t f => t.Compiled f b) ts fs := by
  induction ts generalizing c with
  | nil =>
    rintro _ _ ⟨⟩
    exact ⟨hc.follows, .nil⟩
  | cons t ts ih =>
    intro _ c' hrun
    obtain ⟨f, c₁, hf, fs, hfs, rfl⟩ := run_compileAllWith_cons.1 hrun
    obtain ⟨hfollows, hf⟩ := h t (by simp) c hc f c₁ hf
    obtain ⟨hfollows₂, hfs⟩ := ih (fun u hu => h u (by simp [hu])) hfollows.drawless fs c' hfs
    have hf₂ : t.Compiled f c'.builder :=
      ⟨hf.uses.mono (fun _ hx => hfollows₂.draws.mem_names hx), hf.literal⟩
    exact ⟨hfollows.andThen hfollows₂, .cons hf₂ hfs⟩

theorem draws_emit_call {op : Operator} {type : SqlType} {operands : List Term} {l : Lowering}
    {args : List Flagged}
    (hop : op.DrawsFrom operands) (hl : op.lowering = .ok l) (hroot : "root" ∈ c.builder.names)
    (hargs : List.Forall₂ (fun t f => t.Compiled f c.builder) operands args)
    (h : (l.emit (c.site op type operands) args).run c.builder = .ok (f, b)) :
    c.builder.Draws b (Draw.ofCall? op type operands).toList ∧ f.Uses (· ∈ b.names) (· ∉ volatile) := by
  obtain ⟨o, rfl, ho, hname⟩ := hop
  obtain rfl := Except.ok.inj hl
  by_cases hnext : o = .nextValue
  · subst hnext
    cases hargs with
    | nil => cases h
    | @cons a g as gs hg hgs =>
      obtain ⟨name, nameType, rfl⟩ := hname rfl a (by simp)
      obtain rfl := hg.literal _ _ rfl
      cases hgs with
      | nil => exact Lowering.draws_emit_nextValue rfl hroot h
      | cons => cases h
  · have hnone : Draw.ofCall? (.builtin o) type operands = none := by
      unfold Draw.ofCall?
      split
      · simp_all
      · rfl
    have hvolatile : ∀ f ∈ o.lowering.routines, f ∉ volatile :=
      Builtin.notMem_volatile (by simp_all)
    obtain ⟨code, he, hf⟩ := Lowering.scoped_emit hroot (fun _ hq => hq) hvolatile
      (forall_mem_of_forall₂ hargs fun _ _ ha => ha.uses) f b h
    rw [hnone]
    exact ⟨he.draws, hf⟩

theorem draws_compileWith {shared : Nat → Compile Flagged} {walk : Nat → Walk}
    (hs : ∀ i type c, (Term.shared i type).DrawsByName defs → c.Drawless defs →
      Draws defs (walk i) c (shared i) fun f b => f.Uses (· ∈ b.names) (· ∉ volatile))
    (ht : t.DrawsByName defs) (hc : c.Drawless defs) :
    Draws defs (t.walkWith walk) c (t.compileWith shared) t.Compiled := by
  induction t using inductionOn generalizing c with
  | literal v type =>
    rintro _ _ ⟨⟩
    refine ⟨hc.follows, ⟨uses_bool _, uses_literalExpr _ _⟩, ?_⟩
    rintro _ _ ⟨rfl⟩
    rfl
  | input i type =>
    intro f c' hrun
    rw [run_compileWith_input] at hrun
    split at hrun <;> cases hrun
    rename_i hf
    exact ⟨hc.follows, hc.inputs f (List.mem_of_getElem? hf), by simp⟩
  | shared i type =>
    intro f c' hrun
    obtain ⟨hfollows, hf⟩ := hs i type c ht hc f c' hrun
    exact ⟨hfollows, hf, by simp⟩
  | call op type operands ih =>
    intro f c' hrun
    obtain ⟨args, c₁, hargs, l, hl, b, hemit, rfl⟩ := run_compileWith_call.1 hrun
    obtain ⟨hop, hoperands⟩ := forall_calls_call.1 ht
    obtain ⟨hfollows, hargs⟩ :=
      draws_compileAllWith (fun t htm c' hc' => ih t htm (hoperands t htm) hc') hc args c₁ hargs
    obtain ⟨hdraws, hf⟩ := draws_emit_call hop hl hfollows.drawless.root hargs hemit
    exact ⟨hfollows.andThen (hfollows.drawless.follows_of_draws hdraws), hf, by simp⟩

theorem draws_compileShared (depth i : Nat) (type : SqlType) (c : Compilation)
    (ht : (Term.shared i type).DrawsByName defs) (hc : c.Drawless defs) :
    Draws defs (walkShared defs depth i) c (compileShared depth i) fun f b =>
      f.Uses (· ∈ b.names) (· ∉ volatile) := by
  induction depth generalizing i type c with
  | zero => exact fun _ _ h => by cases (Prod.mk.inj h).1
  | succ depth ih =>
    intro f c' hrun
    obtain ⟨hlookup, rfl⟩ | ⟨_, t, c₁, ⟨⟩, hlookup, hdef, hp, rfl⟩ := cases_of_compileShared hrun
    · -- a definition that is there already draws nothing
      have hwalk : walkShared defs (depth + 1) i c'.recorded = ([], c'.recorded) :=
        if_pos (mem_recorded_iff.2 ⟨f, hlookup⟩)
      exact ⟨⟨hwalk ▸ .refl _, by rw [hwalk], hc⟩, hc.done (i, f) (mem_done_of_lookup hlookup)⟩
    · rw [hc.definitions] at hdef
      have hnotMem : i ∉ c.recorded := by simp [mem_recorded_iff, hlookup]
      have hwalk : walkShared defs (depth + 1) i c.recorded =
          ((t.walkWith (walkShared defs depth) c.recorded).1,
            i :: (t.walkWith (walkShared defs depth) c.recorded).2) := by
        simp [walkShared, hnotMem, hdef]
      obtain ⟨⟨hdraws, hrecorded, hdrawless⟩, hf⟩ :=
        draws_compileWith ih (forall_calls_shared.1 ht t hdef) hc f c₁ hp
      refine ⟨⟨hwalk ▸ hdraws, ?_, hdrawless.definitions, hdrawless.root, hdrawless.inputs,
        List.forall_mem_cons.2 ⟨hf.uses, hdrawless.done⟩⟩, hf.uses⟩
      rw [hwalk]
      exact congrArg (i :: ·) hrecorded

/-- Compiling a term emits code for its draws, in their order. -/
theorem draws_compile (ht : t.DrawsByName defs) (hc : c.Drawless defs) :
    Draws defs (t.walkWith (walkShared defs (defs.length + 1))) c t.compile t.Compiled := by
  obtain rfl := hc.definitions
  exact draws_compileWith (draws_compileShared _) ht hc

/-- A walk that ends with the record of a compilation has come upon the draws of the term and of the definitions
that the term reaches, once each. -/
theorem exists_reached {c' : Compilation} (hacyclic : Acyclic defs)
    (hd : c.definitions = defs) (hempty : c.recorded = []) (h : t.compile.run.run c = (.ok f, c'))
    (hrecorded : c'.recorded = (t.walkWith (walkShared defs (defs.length + 1)) []).2) :
    ∃ reached : List Nat, reached.Nodup ∧ (∀ i, i ∈ reached ↔ t.Reaches defs i) ∧
      (t.draws defs).Perm (t.ownDraws ++ reached.flatMap (drawsAt defs)) := by
  have hclosed : c.Closed := fun i hi => absurd (hempty ▸ hi) List.not_mem_nil
  obtain ⟨⟨hrecords, -⟩, hall⟩ := keeps_compile hacyclic hd hclosed t
  rw [h] at hrecords hall
  obtain ⟨new, hseen, hperm⟩ := collects_walkWith (collects_walkShared (defs.length + 1)) t []
  rw [← hrecorded, List.append_nil] at hseen
  refine ⟨c'.recorded, hrecords.nodup (by simp [hempty]), fun i => ⟨fun hi => ?_, hall f rfl i⟩, hseen ▸ hperm⟩
  by_contra hreaches
  obtain ⟨⟨-, hold⟩, -⟩ := (invariant_unrecorded defs i).compile hd hreaches
  rw [h] at hold
  exact absurd (hold hi) (by simp [hempty])

/-- Running the program of a term draws once for every call of NEXT VALUE in the term and in the definitions
that it reaches, each of which counts once. Every call has its value in a variable, and the values of a
sequence follow one another in the order of the calls: from left to right, operands first, a definition where
it is first referred to. This is so as long as no routine is registered under the name of NEXT VALUE. -/
theorem program_run_draws (settings : Settings) {defs : List Term} {fields : List (String × SqlType)}
    {t : Term} {p : Program} {row : List Value} {m m' : Machine} {v : Value}
    (hp : t.program settings defs fields = .ok p) (hacyclic : Acyclic defs)
    (ht : t.DrawsByName defs) (hm : m.routines.get? "sequenceNextValue" = none)
    (hrun : (p.run row).result m = (.ok v, m')) :
    (∃ reached : List Nat, reached.Nodup ∧ (∀ i, i ∈ reached ↔ t.Reaches defs i) ∧
      (t.draws defs).Perm (t.ownDraws ++ reached.flatMap (drawsAt defs))) ∧
    (∀ name, m'.counter name = Word.wrap ((m.counter name).toInt + Draw.count name (t.draws defs))) ∧
    (p.block.filterMap Stmt.drawn?).map (·.rep) = (t.draws defs).map (·.rep) ∧
    ∀ (k : Nat) (d : Draw) (slot : Slot), (t.draws defs)[k]? = some d →
      (p.block.filterMap Stmt.drawn?)[k]? = some slot →
        ∃ w, m'.get? slot.name = some w ∧ (Value.int (Word.wrap ((m.counter d.name).toInt +
          Draw.count d.name ((t.draws defs).take (k + 1))))).convert d.rep = .ok w := by
  have htidy := tidy_ofFields settings defs fields fun _ h => h
  obtain ⟨hd, hdone, hcode⟩ := ofFields_frame settings defs fields
  have hempty : (ofFields settings defs fields).2.recorded = [] := by
    rw [recorded, hdone]
    rfl
  rw [program_eq] at hp
  rcases hadd : (ofFields settings defs fields).2.add t with ⟨_ | f, c⟩ <;> rw [hadd] at hp <;> cases hp
  -- the block makes the draws of the term
  obtain ⟨⟨⟨code, hemits, hdraws⟩, hrecorded, -⟩, hf⟩ :=
    draws_compile ht ⟨hd, htidy.root_mem, htidy.inputs, htidy.done⟩ f c hadd
  rw [hempty] at hdraws hrecorded
  have hblock : Code.Draws c.builder.statements (t.draws defs) := by
    rw [hemits.statements, hcode]
    exact hdraws
  rw [result_run] at hrun
  obtain ⟨_, m₁, hexec, heval⟩ := andThen_eq_ok.1 ((result_bind _ _ _).symm.trans hrun)
  -- the result is read from variables
  have hresult : f.Uses (fun _ => True) (· ∉ volatile) := hf.uses.mono (fun _ _ => trivial)
  obtain ⟨o, ho, -⟩ := hresult.coincide_eval (Machine.Agrees.refl _ m₁)
  rw [ho] at heval
  cases heval
  rw [Machine.bindSlots_rest] at hexec
  obtain ⟨hcounter, hslots⟩ := hblock.run (m := { m with store := (m.bindSlots _ row).store }) hm hexec
  exact ⟨exists_reached hacyclic hd hempty hadd hrecorded, hcounter, hblock.reps, hslots⟩

theorem drawsByName_nextValue (defs : List Term) (type nameType : SqlType) (name : String) :
    (Term.call (.builtin .nextValue) type [.literal (.str name) nameType]).DrawsByName defs := by
  refine forall_calls_call.2 ⟨⟨.nextValue, rfl, by simp, ?_⟩, ?_⟩
  · exact fun _ a ha => ⟨name, nameType, List.mem_singleton.1 ha⟩
  · intro t ht
    obtain rfl := List.mem_singleton.1 ht
    rintro _ _ _ ⟨⟩

/-- A shared draw that is referred to twice, and one whose value is not needed: COALESCE takes the first
value, and the sequence advances by two. -/
theorem program_run_draws_coalesce :
    let bigInt : SqlType := .plain .bigInt false
    let next : Term := .call (.builtin .nextValue) bigInt [.literal (.str "s") (.plain .varchar false)]
    let t : Term := .call (.builtin .coalesce) bigInt [.shared 0 bigInt, next, .shared 0 bigInt]
    ∃ p m', t.program {} [next] [] = .ok p ∧ (p.run []).result {} = (.ok (.int 1), m') ∧
      m'.counter "s" = 2 ∧ m'.get? "sequence_value" = some (.int 1) ∧
        m'.get? "sequence_value0" = some (.int 2) := by
  intro bigInt next t
  let draw (x : String) : Stmt := .declare ⟨x, .prim .i64⟩
    (.call "sequenceNextValue" [.root, .const (.str "s") .string] (.prim .i64))
  let p : Program := ⟨[], [draw "sequence_value", draw "sequence_value0"],
    ⟨.bool false, .slot ⟨"sequence_value", .prim .i64⟩⟩⟩
  have hp : t.program {} [next] [] = .ok p := by rfl
  have hrun : (p.run []).result {} = (.ok (.int 1), ((p.run []).result {}).2) := Prod.ext rfl rfl
  have hnext : next.DrawsByName [next] := drawsByName_nextValue _ _ _ _
  have hshared : (Term.shared 0 bigInt).DrawsByName [next] :=
    forall_calls_shared.2 fun u hu => Option.some.inj hu ▸ hnext
  have ht : t.DrawsByName [next] :=
    forall_calls_call.2 ⟨⟨.coalesce, rfl, by simp, by simp⟩, by simpa using ⟨hshared, hnext, hshared⟩⟩
  have hacyclic : Acyclic [next] := by
    refine acyclic_of_refers_lt fun i j hij => ?_
    obtain ⟨u, hu, hmentions⟩ := hij
    obtain rfl : u = next := by simpa using List.mem_of_getElem? hu
    obtain - | ⟨hmem, hmentions⟩ : Mentions j (.call (.builtin .nextValue) bigInt
      [.literal (.str "s") (.plain .varchar false)]) := hmentions
    obtain rfl := List.mem_singleton.1 hmem
    cases hmentions
  obtain ⟨-, hcounter, -, hvalues⟩ := program_run_draws {} hp hacyclic ht rfl hrun
  obtain ⟨v, hv, hw⟩ := hvalues 0 _ _ rfl rfl
  obtain ⟨v', hv', hw'⟩ := hvalues 1 _ _ rfl rfl
  cases hw
  cases hw'
  exact ⟨p, _, hp, hrun, hcounter "s", hv, hv'⟩

/-- A routine that is registered under the name of NEXT VALUE takes its place, and the sequence stays where it
is. -/
theorem counter_of_registered_nextValue :
    let next : Term := .call (.builtin .nextValue) (.plain .bigInt false)
      [.literal (.str "s") (.plain .varchar false)]
    let m : Machine := { routines := [("sequenceNextValue", fun _ => .ok (.int 100))] }
    next.DrawsByName [] ∧ Draw.count "s" (next.draws []) = 1 ∧ ∃ p m', next.program {} [] [] = .ok p ∧
      (p.run []).result m = (.ok (.int 100), m') ∧ m.counter "s" = 0 ∧ m'.counter "s" = 0 := by
  dsimp only
  exact ⟨drawsByName_nextValue _ _ _ _, rfl, _, _, rfl, rfl, rfl, rfl⟩

end Term

end SqlCode

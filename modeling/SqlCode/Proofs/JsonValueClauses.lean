import SqlCode.Proofs.RoutineTests

/-!
# Clauses of JSON_VALUE

A call of JSON_VALUE has a document, a path and a flat list of operands: a flag, the value that goes with DEFAULT, and the
word for the event that the clause is for. The compiler finds the clauses again by looking back from the words for events,
and hands the last one for each event to the routine, which takes them by their positions.
-/

namespace SqlCode

open Run SqlCode.Expr

variable {row : List Value} {before : List Expr} {m : Machine}

/-! ### Arguments -/

/-- A column of the row or a constant. -/
inductive Argument
  | column (i : ℕ) (type : SqlType)
  | constant (v : Value) (type : SqlType)

namespace Argument

def term : Argument → Term
  | .column i type => .input i type
  | .constant v type => .literal v type

/-- The value of the argument in a row. -/
def value (row : List Value) : Argument → Value
  | .column i _ => row.getD i .null
  | .constant v _ => v

/-- The column is a field of its type, and the constant a value of its type. -/
def Valid (fields : List (String × SqlType)) : Argument → Prop
  | .column i type => ∃ name, fields[i]? = some (name, type)
  | .constant v type => v.Fits type.rep

/-- A flag. -/
def symbol (s : Symbol) : Argument := .constant (.symbol s) (.plain .symbol false)

theorem valid_symbol (fields : List (String × SqlType)) (s : Symbol) : (symbol s).Valid fields := rfl

theorem Valid.gives {fields : List (String × SqlType)} {o : Argument} (h : o.Valid fields) {routines : List String}
    {good : List Value → Prop} : o.term.Gives fields routines good fun row => o.value row := by
  cases o with
  | column i type =>
    obtain ⟨name, hi⟩ := h
    exact Term.gives_input hi
  | constant v type => exact Term.gives_literal h

end Argument

/-! ### Clauses -/

/-- What to do on an event. -/
inductive EventAction (α : Type)
  | null
  | error
  | default (a : α)

namespace EventAction

variable {α β : Type}

def behavior : EventAction α → ValueBehavior
  | .null => .null
  | .error => .error
  | .default _ => .default

/-- The value that goes with DEFAULT. -/
def value? : EventAction α → Option α
  | .default a => some a
  | _ => none

/-- The actions are the same up to their values, which are related. -/
inductive Rel (R : α → β → Prop) : EventAction α → EventAction β → Prop
  | null : Rel R .null .null
  | error : Rel R .error .error
  | default {a : α} {b : β} (h : R a b) : Rel R (.default a) (.default b)

def map (f : α → β) : EventAction α → EventAction β
  | .null => .null
  | .error => .error
  | .default a => .default (f a)

theorem eq_map_of_rel {f : α → β} {a : Option (EventAction α)} {b : Option (EventAction β)}
    (h : Option.Rel (Rel fun a b => b = f a) a b) : b = a.map (map f) := by
  cases h with
  | none => rfl
  | some h =>
    cases h with
    | default h =>
      subst h
      rfl
    | _ => rfl

/-- The outcome of an event that is a fault. -/
def outcome (fault : Fault) : EventAction Value → Except Fault Value
  | .null => .ok .null
  | .error => .error fault
  | .default v => .ok v

end EventAction

/-- A clause of JSON_VALUE. -/
structure OnEvent (α : Type) where
  action : EventAction α
  event : OnClause

namespace OnEvent

variable {α β : Type}

/-- The operands of a clause. -/
def operands (symbol : Symbol → α) (c : OnEvent α) : List α :=
  symbol (.jsonValueBehavior c.action.behavior) :: (c.action.value?.toList ++ [symbol (.jsonEmptyOrError c.event)])

/-- What the last clause for an event says. -/
def action? (event : OnClause) : List (OnEvent α) → Option (EventAction α)
  | [] => none
  | c :: cs => (action? event cs).or (if c.event = event then some c.action else none)

/-- Clauses with other operands in place of their own. -/
def refill : List (OnEvent α) → List β → List (OnEvent β)
  | ⟨.null, e⟩ :: cs, _ :: _ :: bs => ⟨.null, e⟩ :: refill cs bs
  | ⟨.error, e⟩ :: cs, _ :: _ :: bs => ⟨.error, e⟩ :: refill cs bs
  | ⟨.default _, e⟩ :: cs, _ :: b :: _ :: bs => ⟨.default b, e⟩ :: refill cs bs
  | _, _ => []

/-- The clauses are for the same event and their actions are related. -/
def Rel (R : α → β → Prop) (c : OnEvent α) (d : OnEvent β) : Prop := c.action.Rel R d.action ∧ c.event = d.event

theorem refill_rel {R : α → β → Prop} {f : Symbol → α} {g : Symbol → β} (hsymbol : ∀ s b, R (f s) b → b = g s)
    {cs : List (OnEvent α)} {bs : List β} (h : List.Forall₂ R (cs.flatMap (operands f)) bs) :
    bs = (refill cs bs).flatMap (operands g) ∧ List.Forall₂ (Rel R) cs (refill cs bs) := by
  induction cs generalizing bs with
  | nil =>
    cases h
    exact ⟨rfl, .nil⟩
  | cons c cs ih =>
    obtain ⟨action, e⟩ := c
    cases action with
    | null | error =>
      obtain - | ⟨hb, - | ⟨he, h⟩⟩ := h
      obtain ⟨hbs, hrel⟩ := ih h
      rw [hsymbol _ _ hb, hsymbol _ _ he]
      exact ⟨by rw [refill, List.flatMap_cons, ← hbs]; rfl, .cons ⟨by constructor, rfl⟩ hrel⟩
    | default a =>
      obtain - | ⟨hb, - | ⟨ha, - | ⟨he, h⟩⟩⟩ := h
      obtain ⟨hbs, hrel⟩ := ih h
      rw [hsymbol _ _ hb, hsymbol _ _ he]
      exact ⟨by rw [refill, List.flatMap_cons, ← hbs]; rfl, .cons ⟨.default ha, rfl⟩ hrel⟩

theorem action?_rel {R : α → β → Prop} {cs : List (OnEvent α)} {ds : List (OnEvent β)} (h : List.Forall₂ (Rel R) cs ds)
    (event : OnClause) : Option.Rel (EventAction.Rel R) (action? event cs) (action? event ds) := by
  induction h with
  | nil => exact .none
  | @cons c d cs ds hcd _ ih =>
    rw [action?, action?, ← hcd.2]
    generalize action? event cs = a, action? event ds = b at ih
    cases ih with
    | none =>
      split_ifs
      · exact .some hcd.1
      · exact .none
    | some hr => exact .some hr

theorem forall_value_of_rel {R : α → β → Prop} {P : α → Prop} {Q : β → Prop} (hR : ∀ a b, R a b → P a → Q b)
    {cs : List (OnEvent α)} {ds : List (OnEvent β)} (h : List.Forall₂ (Rel R) cs ds)
    (hP : ∀ c ∈ cs, ∀ a ∈ c.action.value?, P a) : ∀ d ∈ ds, ∀ b ∈ d.action.value?, Q b := by
  induction h with
  | nil => simp
  | @cons c d cs ds hcd _ ih =>
    rw [List.forall_mem_cons] at hP ⊢
    refine ⟨?_, ih hP.2⟩
    obtain ⟨action, event⟩ := c
    obtain ⟨action', event'⟩ := d
    intro b hb
    obtain ⟨h | h | h, -⟩ := hcd
    · cases hb
    · cases hb
    · cases hb
      exact hR _ _ h (hP.1 _ rfl)

end OnEvent

/-! ### Compilation -/

namespace EventClauses

open OnEvent

/-- The code of a flag. -/
def flag (s : Symbol) : Expr := .const (.symbol s) (SqlType.plain .symbol false).rep

/-- The expression is not the word for an event. -/
def NoEvent (e : Expr) : Prop := ∀ event, e.symbol? ≠ some (.jsonEmptyOrError event)

/-- The code of an action. -/
def ofAction (a : EventAction Expr) : EventClause :=
  ⟨flag (.jsonValueBehavior a.behavior), (a.value?.map Expr.box).getD (.null .object)⟩

def get (cs : EventClauses) : OnClause → EventClause
  | .empty => cs.onEmpty
  | .error => cs.onError

theorem get_set (cs : EventClauses) (event event' : OnClause) (c : EventClause) :
    (cs.set event c).get event' = if event = event' then c else cs.get event' := by
  cases event <;> cases event' <;> rfl

theorem read_of_noEvent {e : Expr} (h : NoEvent e) (cs : EventClauses) (before rest : List Expr) :
    read cs before (e :: rest) = read cs (e :: before) rest := by
  rw [read]
  split
  · rename_i event hevent
    exact absurd hevent (h event)
  · rfl

theorem noEvent_behavior (b : ValueBehavior) : NoEvent (flag (.jsonValueBehavior b)) := by
  simp [NoEvent, flag, symbol?]

/-- A clause is read as its action, if the operand before it is not DEFAULT. -/
theorem read_operands (c : OnEvent Expr) (hc : ∀ e ∈ c.action.value?, NoEvent e) (cs : EventClauses)
    (hbefore : ∀ e ∈ before.head?, isDefault e = false) (rest : List Expr) :
    ∃ before', (∀ e ∈ before'.head?, isDefault e = false) ∧
      read cs before (c.operands flag ++ rest) = read (cs.set c.event (ofAction c.action)) before' rest := by
  obtain ⟨action, event⟩ := c
  refine ⟨((OnEvent.mk action event).operands flag).reverse ++ before, ?_, ?_⟩
  · cases action <;> simp [operands, EventAction.value?, isDefault, flag, symbol?]
  · cases action with
    | default a =>
      show read cs before (flag _ :: a :: flag _ :: rest) = _
      rw [read_of_noEvent (noEvent_behavior _), read_of_noEvent (hc a rfl)]
      rfl
    | _ =>
      show read cs before (flag _ :: flag _ :: rest) = _
      rw [read_of_noEvent (noEvent_behavior _)]
      cases before with
      | nil => rfl
      | cons e before =>
        have he := hbefore e rfl
        rw [read]
        simp only [flag, symbol?, clause?, he]
        rfl

theorem exists_read (es : List Expr) (cs : EventClauses) (h : before ≠ []) :
    ∃ cs', read cs before es = .ok cs' := by
  induction es generalizing cs before with
  | nil => exact ⟨cs, rfl⟩
  | cons e es ih =>
    rw [read]
    split
    · split
      · exact ih _ (List.cons_ne_nil _ _)
      · rename_i hnone
        obtain ⟨previous, before, rfl⟩ := List.exists_cons_of_ne_nil h
        cases before with
        | nil => cases hnone
        | cons second before =>
          rw [clause?] at hnone
          split_ifs at hnone
    · exact ih _ (List.cons_ne_nil _ _)

/-- Clauses are read one after the other, and the last one for an event counts. -/
theorem read_flatMap_operands {ds : List (OnEvent Expr)} (hds : ∀ d ∈ ds, ∀ e ∈ d.action.value?, NoEvent e)
    (cs : EventClauses) (hbefore : ∀ e ∈ before.head?, isDefault e = false) :
    ∃ cs', read cs before (ds.flatMap (operands flag)) = .ok cs' ∧
      ∀ event, cs'.get event = ((action? event ds).map ofAction).getD (cs.get event) := by
  induction ds generalizing cs before with
  | nil => exact ⟨cs, rfl, fun _ => rfl⟩
  | cons d ds ih =>
    rw [List.forall_mem_cons] at hds
    obtain ⟨before', hbefore', hread⟩ := read_operands d hds.1 cs hbefore (ds.flatMap (operands flag))
    obtain ⟨cs', hcs', hget⟩ := ih hds.2 (cs.set d.event (ofAction d.action)) hbefore'
    refine ⟨cs', hread.trans hcs', fun event => ?_⟩
    rw [hget, get_set, action?]
    cases action? event ds with
    | none => split_ifs <;> rfl
    | some a => rfl

end EventClauses

/-! ### Evaluation -/

namespace EventAction

variable {α : Type}

/-- An action as arguments of the routine; without a clause they are null. -/
def args (a : Option (EventAction Value)) : List Value :=
  match a with
  | none => [.null, .null]
  | some a => [.symbol (.jsonValueBehavior a.behavior), a.value?.getD .null]

theorem forall₂_args {R : α → Expr → Prop} {f : α → Value} (hR : ∀ a e, R a e → e.Carries m (f a))
    {a : Option (EventAction α)} {b : Option (EventAction Expr)} (h : Option.Rel (Rel R) a b) :
    let c := (b.map EventClauses.ofAction).getD {}
    List.Forall₂ (fun e v => e.EvalsTo m v) [c.behavior, c.default] (args (a.map (map f))) := by
  cases h with
  | none => exact .cons rfl (.cons rfl .nil)
  | some h =>
    cases h with
    | default h => exact .cons rfl (.cons (Builtin.carries_box (hR _ _ h)).evalsTo .nil)
    | _ => exact .cons rfl (.cons rfl .nil)

end EventAction

namespace Routine

/-- The arguments of the routine from the document, the path and what to do on an empty and on a failed selection. -/
def jsonValueArgs (d p : Value) (onEmpty onError : Option (EventAction Value)) : List Value :=
  d :: p :: (EventAction.args onEmpty ++ EventAction.args onError)

theorem onValueEvent_jsonValueArgs (d p : Value) (onEmpty onError : Option (EventAction Value)) (fault : Fault) :
    onValueEvent (jsonValueArgs d p onEmpty onError) 2 fault = (onEmpty.getD .null).outcome fault ∧
      onValueEvent (jsonValueArgs d p onEmpty onError) 4 fault = (onError.getD .null).outcome fault := by
  constructor
  · rcases onEmpty with _ | _ | _ | v <;> rfl
  · rcases onEmpty with _ | _ | _ | v <;> rcases onError with _ | _ | _ | w <;> rfl

theorem sound_selection (routine : String) (args : List Value) : Fault.Sound (Document.selection routine args) := by
  have hparse : ∀ v, Fault.Sound (Document.parse routine v) := by
    intro v
    unfold Document.parse
    split
    · split <;> simp [Fault.Sound]
    · exact Fault.sound_ok _
  refine ((Fault.sound_value _ _ _).bind hparse).bind fun j => ((Fault.sound_str _ _ _).bind fun text => ?_).bind fun p => ?_
  · split <;> simp [Fault.Sound]
  · unfold Document.query Document.orNoResults
    split <;> simp [Fault.Sound]

theorem selection_str (d : Value) (text : String) : Document.selection "jsonValue" [d, .str text] =
    Document.parse "jsonValue" d >>= fun j =>
      match Json.Path.parse? text with
      | some p => Document.query p j
      | none => .error (.jsonPath ("illegal jsonpath: " ++ text)) := by
  refine congrArg (Document.parse "jsonValue" d >>= ·) (funext fun j => ?_)
  show (match Json.Path.parse? text with
    | some p => Except.ok p
    | none => .error (Fault.jsonPath ("illegal jsonpath: " ++ text))) >>= _ = _
  cases Json.Path.parse? text <;> rfl

/-- JSON_VALUE by cases of the selection. -/
theorem jsonValue_jsonValueArgs (d p : Value) (onEmpty onError : Option (EventAction Value)) :
    let failed fault := (onError.getD .null).outcome fault
    jsonValue (jsonValueArgs d p onEmpty onError) =
      match Document.selection "jsonValue" [d, p] with
      | .error fault => failed fault
      | .ok none | .ok (some .null) =>
        (onEmpty.getD .null).outcome (.jsonPath "empty result of JSON_VALUE is not allowed")
      | .ok (some item) =>
        if item.isScalar then .ok (Value.ofJson item)
        else failed (.jsonPath ("JSON_VALUE requires a scalar value, got " ++ item.text)) := by
  intro failed
  have hselection : Document.selection "jsonValue" (jsonValueArgs d p onEmpty onError) =
      Document.selection "jsonValue" [d, p] := rfl
  have hevent := onValueEvent_jsonValueArgs d p onEmpty onError
  unfold jsonValue
  rw [hselection]
  simp only [(hevent _).1, (hevent _).2]
  rfl

theorem sound_jsonValue (d p : Value) (onEmpty onError : Option (EventAction Value)) :
    Fault.Sound (jsonValue (jsonValueArgs d p onEmpty onError)) := by
  have houtcome : ∀ (a : Option (EventAction Value)) fault, (∀ x, fault ≠ .unboundVariable x) →
      Fault.Sound ((a.getD .null).outcome fault) := by
    rintro (_ | _ | _ | v) fault h <;> simp [Fault.Sound, EventAction.outcome, h]
  rw [jsonValue_jsonValueArgs]
  split
  · rename_i fault hfault
    exact houtcome _ _ fun x hx => sound_selection "jsonValue" [d, p] x (hx ▸ hfault)
  · exact houtcome _ _ (by simp)
  · exact houtcome _ _ (by simp)
  · split_ifs
    · exact Fault.sound_ok _
    · exact houtcome _ _ (by simp)

end Routine

/-! ### Calls -/

namespace Builtin

open Emit OnEvent EventClauses

variable (document path : Argument) (clauses : List (OnEvent Argument))

/-- The arguments of a call of JSON_VALUE. -/
def jsonValueCall : List Argument := document :: path :: clauses.flatMap (operands Argument.symbol)

/-- The values are those of the arguments in a row where no default is the word for an event. -/
def JsonValueGood (vs : List Value) : Prop :=
  ∃ row, vs = (jsonValueCall document path clauses).map (·.value row) ∧
    ∀ c ∈ clauses, ∀ o ∈ c.action.value?, ∀ event, o.value row ≠ .symbol (.jsonEmptyOrError event)

/-- The outcome of a call of JSON_VALUE from the values of its operands. -/
def jsonValueOutcome : List Value → Except Fault Value
  | d :: p :: vs =>
    bif d.isNull then .ok .null
    else Routine.jsonValue (Routine.jsonValueArgs d p (action? .empty (refill clauses vs)) (action? .error (refill clauses vs)))
  | _ => .ok .null

variable {document path clauses}

/-- What is known of the code of an argument. -/
structure Argument.CodedBy (row : List Value) (m : Machine) (o : Argument) (e : Expr) : Prop where
  carries : e.Carries m (o.value row)
  flag : ∀ s, o = .symbol s → e = flag s

theorem Argument.CodedBy.noEvent {o : Argument} {e : Expr} (h : CodedBy row m o e)
    (ho : ∀ event, o.value row ≠ .symbol (.jsonEmptyOrError event)) : NoEvent e := by
  intro event hevent
  have hvalue := h.carries.evalsTo
  unfold Expr.symbol? at hevent
  split at hevent
  · cases hevent
    exact ho event (Except.ok.inj (Prod.mk.inj hvalue).1).symm
  · cases hevent

theorem literal_symbol (s : Symbol) :
    (Value.symbol s).literal (.plain .symbol false) = ⟨.bool false, flag s⟩ := Builtin.literal_of_fits rfl

theorem forall₂_codedBy {os : List Argument} {as : List Flagged}
    (hatom : ∀ a ∈ as, a.value.isAtom) (h : List.Forall₂ (fun o a => a.Represents m (o.value row)) os as)
    (hliterals : Term.Literals (os.map Argument.term) as) :
    List.Forall₂ (Argument.CodedBy row m) os (as.map (·.value)) := by
  induction h with
  | nil => exact .nil
  | @cons o a os as ha _ ih =>
    rw [List.forall_mem_cons] at hatom
    refine .cons ⟨ha.carries hatom.1, fun s hs => ?_⟩ (ih hatom.2 fun {i v type} hi => hliterals (i := i + 1) hi)
    subst hs
    have hget := hliterals (i := 0) rfl
    rw [literal_symbol] at hget
    cases hget
    rfl

theorem exists_read_clauses {rest : List Flagged} (hrest : clauses = [] → rest = [])
    (hliterals : Term.Literals ((clauses.flatMap (operands Argument.symbol)).map Argument.term) rest) :
    ∃ cs, read {} [] (rest.map (·.value)) = .ok cs := by
  cases clauses with
  | nil =>
    rw [hrest rfl]
    exact ⟨_, rfl⟩
  | cons c clauses =>
    have hget := hliterals (i := 0) rfl
    rw [literal_symbol] at hget
    obtain ⟨a, rest, rfl⟩ : ∃ a as, rest = a :: as := by
      cases rest with
      | nil => cases hget
      | cons a rest => exact ⟨a, rest, rfl⟩
    obtain rfl : a = _ := Option.some.inj hget
    rw [List.map_cons, read_of_noEvent (noEvent_behavior _)]
    exact exists_read _ _ (List.cons_ne_nil _ _)

theorem sound_jsonValueOutcome (clauses : List (OnEvent Argument)) (vs : List Value) :
    Fault.Sound (jsonValueOutcome clauses vs) := by
  unfold jsonValueOutcome
  split
  · cases Value.isNull _
    · exact Routine.sound_jsonValue _ _ _ _
    · exact Fault.sound_ok _
  · exact Fault.sound_ok _

theorem jsonValueOutcome_null (clauses : List (OnEvent Argument)) (vs : List Value) :
    jsonValueOutcome clauses (.null :: vs) = .ok .null := by
  cases vs <;> rfl

theorem jsonValueOutcome_values (hd : document.value row ≠ .null) :
    jsonValueOutcome clauses ((jsonValueCall document path clauses).map (·.value row)) =
      let action event := (action? event clauses).map (EventAction.map (·.value row))
      Routine.jsonValue (Routine.jsonValueArgs (document.value row) (path.value row) (action .empty) (action .error)) := by
  have hvalues : List.Forall₂ (fun o v => v = o.value row) (clauses.flatMap (operands Argument.symbol))
      ((clauses.flatMap (operands Argument.symbol)).map (·.value row)) :=
    List.forall₂_map_right_iff.2 (List.forall₂_same.2 fun _ _ => rfl)
  have hrel := (refill_rel (g := Value.symbol) (fun _ _ h => h) hvalues).2
  have haction := fun event => EventAction.eq_map_of_rel (action?_rel hrel event)
  have hnull : (document.value row).isNull = false := by
    rw [← Bool.not_eq_true, Value.isNull_iff]
    exact hd
  show (bif (document.value row).isNull then _ else _) = _
  rw [hnull, cond_false, haction, haction]

theorem yields_jsonValue : Builtin.jsonValue.Yields ((jsonValueCall document path clauses).map Argument.term)
    (.plain .any true) ["jsonValue"] (JsonValueGood document path clauses) (jsonValueOutcome clauses) := by
  have hframed : Builtin.jsonValue.Framed .arg0 := ⟨rfl, rfl, by decide⟩
  refine yieldsIn_framed hframed (plain_const rfl _) (fun _ => rfl) ?_
    (fun _ => sound_jsonValueOutcome clauses _) ?_ ?_
  · intro _ vs v _ _ _
    cases v <;> rfl
  · intro _ vs _ hnull
    cases vs with
    | nil => cases hnull
    | cons d vs =>
      obtain rfl : d = .null := by simpa [NullPolicy.deciding, eq_comm] using hnull
      exact jsonValueOutcome_null clauses vs
  · intro site args hcalls hliterals
    have hatom := forall_mem_of_forall₂ hcalls.args fun _ _ ha => ha.isAtom
    have hargs := hcalls.args
    obtain - | ⟨-, - | ⟨-, hrest⟩⟩ := hargs
    rename_i d p rest
    have hliterals' : Term.Literals ((clauses.flatMap (operands Argument.symbol)).map Argument.term) rest :=
      fun {i v type} hi => hliterals (i := i + 2) hi
    obtain ⟨cs, hcs⟩ := exists_read_clauses (fun h => by rw [h] at hrest; cases hrest; rfl) hliterals'
    refine ⟨(Expr.call "jsonValue" [d.value.unbox, p.value, cs.onEmpty.behavior, cs.onEmpty.default,
      cs.onError.behavior, cs.onError.default] .object).mkConvert site.rep, ?_, fun {m vs} hm hvs hgood hnot => ?_⟩
    · show Emit.lift (site.jsonValue (d.value.unbox :: p.value :: rest.map (·.value))) = _
      unfold CallSite.jsonValue
      simp only [hcs]
      rfl
    · obtain ⟨row, rfl, hevent⟩ := hgood
      obtain - | ⟨hd, - | ⟨hp, hvs⟩⟩ := hvs
      have hne : document.value row ≠ .null := fun h => hnot (by simp [NullPolicy.deciding, jsonValueCall, h])
      rw [List.forall_mem_cons, List.forall_mem_cons] at hatom
      have hcoded := forall₂_codedBy hatom.2.2 (List.forall₂_map_right_iff.1 hvs).flip hliterals'
      obtain ⟨hes, hcodes⟩ := refill_rel (fun s e h => h.flag s rfl) hcoded
      obtain ⟨cs', hcs', hget⟩ := @read_flatMap_operands [] _
        (forall_value_of_rel (fun o e h => h.noEvent) hcodes hevent) {} (by simp)
      rw [← hes, hcs] at hcs'
      obtain rfl := Except.ok.inj hcs'
      have hactions := fun event => EventAction.forall₂_args (fun o e h => h.carries) (action?_rel hcodes event)
      have hempty := hactions .empty
      have herror := hactions .error
      rw [show (Option.map _ _).getD {} = cs.onEmpty from (hget .empty).symm] at hempty
      rw [show (Option.map _ _).getD {} = cs.onError from (hget .error).symm] at herror
      have hcall : List.Forall₂ (fun e v => e.EvalsTo m v) [d.value.unbox, p.value, cs.onEmpty.behavior,
          cs.onEmpty.default, cs.onError.behavior, cs.onError.default] (Routine.jsonValueArgs (document.value row)
            (path.value row) ((action? .empty clauses).map (EventAction.map (·.value row)))
            ((action? .error clauses).map (EventAction.map (·.value row)))) :=
        .cons ((hd.carries hatom.1).unbox hne).evalsTo (.cons hp.value (List.rel_append hempty herror))
      rw [CallSite.rep, hcalls.type, jsonValueOutcome_values hne]
      show (Expr.call "jsonValue" _ .object).eval.result m = _
      rw [result_call, result_evalAll hcall, andThen_ok,
        Run.result_call_library (hm _ (by simp)) rfl rfl]

end Builtin

open Builtin OnEvent

/-- JSON_VALUE is null on null. Otherwise it gives the only scalar that the path selects. Where the selection is empty or
null it does what the last clause for ON EMPTY says, and where there is none or it is no scalar, what the last clause for
ON ERROR says. -/
theorem Term.program_run_jsonValue (settings : Settings) (defs : List Term) {fields : List (String × SqlType)}
    {document path : Argument} {clauses : List (OnEvent Argument)}
    (hvalid : ∀ o ∈ jsonValueCall document path clauses, o.Valid fields) :
    ∃ q, (Term.call (.builtin .jsonValue) (.plain .any true) ((jsonValueCall document path clauses).map
        Argument.term)).program settings defs fields = .ok q ∧
      ∀ {row m}, IsRow fields row → m.Unregistered ["jsonValue"] →
        (∀ c ∈ clauses, ∀ o ∈ c.action.value?, ∀ event, o.value row ≠ .symbol (.jsonEmptyOrError event)) →
        let result := ((q.run row).result m).1
        let on event fault := (((action? event clauses).getD .null).map (·.value row)).outcome fault
        (document.value row = .null → result = .ok .null) ∧
        ∀ {text}, document.value row ≠ .null → path.value row = .str text →
          (∀ {fault}, Document.parse "jsonValue" (document.value row) = .error fault → result = on .error fault) ∧
          ∀ {j}, Document.parse "jsonValue" (document.value row) = .ok j →
            (Json.Path.parse? text = none → result = on .error (.jsonPath ("illegal jsonpath: " ++ text))) ∧
            ∀ {p}, Json.Path.parse? text = some p →
              (∀ {step}, p.select j = .error step →
                result = on .error (.jsonPath ("no results for path step " ++ step.text))) ∧
              (p.select j = .ok [] ∨ p.select j = .ok [.null] →
                result = on .empty (.jsonPath "empty result of JSON_VALUE is not allowed")) ∧
              (∀ {item}, p.select j = .ok [item] → item.isScalar = true → item ≠ .null →
                result = .ok (Value.ofJson item)) ∧
              (∀ {item}, p.select j = .ok [item] → item.isScalar = false →
                result = on .error (.jsonPath ("JSON_VALUE requires a scalar value, got " ++ item.text))) ∧
              ∀ {i i' items}, p.select j = .ok (i :: i' :: items) → result = on .error
                (.jsonPath ("JSON_VALUE requires a scalar value, got " ++ (Json.arr (i :: i' :: items)).text)) := by
  have hts : List.Forall₂ (fun t value => t.Gives fields ["jsonValue"] (IsRow fields) value)
      ((jsonValueCall document path clauses).map Argument.term)
      ((jsonValueCall document path clauses).map fun o row => o.value row) :=
    List.forall₂_map_left_iff.2 (List.forall₂_map_right_iff.2 (List.forall₂_same.2 fun o ho => (hvalid o ho).gives))
  obtain ⟨q, hq, hrun⟩ := yields_jsonValue.program_run hts settings defs
  simp only [List.map_map, Function.comp_def] at hrun
  refine ⟨q, hq, fun {row m} hrow hm hevent => ?_⟩
  have hresult := hrun hrow ⟨row, rfl, hevent⟩ hm
  refine ⟨fun hnull => ?_, fun {text} hne htext => ?_⟩
  · rw [hresult, ← jsonValueOutcome_null clauses, ← hnull]
    rfl
  · have hmap : ∀ a : Option (EventAction Argument), (a.map (EventAction.map (·.value row))).getD .null =
        (a.getD .null).map (·.value row) := by
      rintro (_ | a) <;> rfl
    rw [jsonValueOutcome_values hne, htext] at hresult
    simp only [Routine.jsonValue_jsonValueArgs, hmap] at hresult
    have hselection := Routine.selection_str (document.value row) text
    refine ⟨fun {fault} hfault => ?_, fun {j} hj => ⟨fun hp => ?_, fun {p} hp => ?_⟩⟩
    · rw [hselection, hfault] at hresult
      exact hresult
    · rw [hselection, hj, hp] at hresult
      exact hresult
    · rw [hj, hp] at hselection
      have hquery : Document.selection "jsonValue" [document.value row, .str text] =
        Document.orNoResults (p.query j) := hselection
      rw [hquery, Json.Path.query] at hresult
      refine ⟨fun hselect => ?_, fun hselect => ?_, fun {item} hselect hscalar hne => ?_,
        fun {item} hselect hscalar => ?_, fun hselect => ?_⟩
      · rw [hselect] at hresult
        exact hresult
      · rcases hselect with hselect | hselect <;> rw [hselect] at hresult <;> exact hresult
      · rw [hselect] at hresult
        cases item with
        | null => exact absurd rfl hne
        | arr items => cases hscalar
        | obj members => cases hscalar
        | _ => exact hresult
      · rw [hselect] at hresult
        cases item with
        | arr items => exact hresult
        | obj members => exact hresult
        | _ => cases hscalar
      · rw [hselect] at hresult
        exact hresult

/-- Of two clauses for ON EMPTY the last one counts, and the one for ON ERROR does not matter. -/
theorem Term.program_run_jsonValue_last_default :
    let text : SqlType := .plain .varchar true
    let clauses : List (OnEvent Argument) :=
      [⟨.null, .empty⟩, ⟨.default (.column 1 text), .empty⟩, ⟨.error, .error⟩]
    ∃ q, (Term.call (.builtin .jsonValue) (.plain .any true) ((jsonValueCall (.column 0 text)
        (.constant (.str "lax $.a") (.plain .varchar false)) clauses).map Argument.term)).program {} []
        [("document", text), ("otherwise", text)] = .ok q ∧
      ((q.run [.str "\x7b\x7d", .str "none"]).result {}).1 = .ok (.str "none") := by
  intro text clauses
  have hvalid : ∀ o ∈ jsonValueCall (.column 0 text) (.constant (.str "lax $.a") (.plain .varchar false)) clauses,
      o.Valid [("document", text), ("otherwise", text)] := by
    simp only [jsonValueCall, clauses, operands, EventAction.value?, List.flatMap_cons, List.flatMap_nil,
      List.cons_append, List.nil_append, Option.toList, List.forall_mem_cons, Argument.valid_symbol, true_and]
    exact ⟨⟨_, rfl⟩, rfl, ⟨_, rfl⟩, by simp⟩
  have hrow : IsRow [("document", text), ("otherwise", text)] [.str "\x7b\x7d", .str "none"] :=
    .cons ⟨rfl, by simp⟩ (.cons ⟨rfl, by simp⟩ .nil)
  obtain ⟨q, hq, hrun⟩ := program_run_jsonValue {} [] hvalid
  obtain ⟨-, hresult⟩ := hrun hrow (fun _ _ => rfl : ({} : Machine).Unregistered ["jsonValue"])
    (by simp [clauses, EventAction.value?, Argument.value])
  exact ⟨q, hq, ((((@hresult "lax $.a" (by simp [Argument.value]) rfl).2 (j := .obj []) rfl).2
    (p := ⟨false, [.member "a"]⟩) rfl).2.1 (.inl rfl))⟩

end SqlCode

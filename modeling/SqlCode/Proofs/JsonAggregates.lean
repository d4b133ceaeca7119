import SqlCode.Proofs.Collecting

/-!
# JSON aggregates

JSON_OBJECTAGG and JSON_ARRAYAGG gather values row by row in a map and in a list, and turn the container into a
document at the end. The constructors JSON_OBJECT and JSON_ARRAY make the document of each argument at once. Both
leave out the same nulls and refuse the same null keys, and both bind a repeated key in its first place.
-/

namespace SqlCode

open Run SqlCode.Expr

variable {es rows : List (Value × Value)} {clause : NullClause}

/-! ### Members -/

namespace Json

/-- The document of the last member with the name. -/
def lastOf (ms : List (String × Json)) (name : String) : Json :=
  ((ms.filter (·.1 = name)).getLast?.map (·.2)).getD .null

/-- Every name once, in the order in which the names first occur, with its last document. -/
def merged (ms : List (String × Json)) : List (String × Json) :=
  (ms.map (·.1)).eraseDups.map fun name => (name, lastOf ms name)

theorem lastOf_concat (ms : List (String × Json)) (m : String × Json) (name : String) :
    lastOf (ms ++ [m]) name = if m.1 = name then m.2 else lastOf ms name := by
  unfold lastOf
  rw [List.filter_append]
  by_cases h : m.1 = name <;> simp [h]

theorem eraseDups_concat (names : List String) (name : String) :
    (names ++ [name]).eraseDups = if name ∈ names then names.eraseDups else names.eraseDups ++ [name] := by
  rw [List.eraseDups_append]
  by_cases h : name ∈ names <;> simp [List.removeAll, h, List.eraseDups_cons]

theorem nodup_eraseDups (names : List String) : names.eraseDups.Nodup := by
  induction names using List.reverseRecOn with
  | nil => simp
  | append_singleton names name ih =>
    rw [eraseDups_concat]
    split_ifs with h
    · exact ih
    · have hnew : name ∉ names.eraseDups := by rwa [List.mem_eraseDups]
      exact List.nodup_append.2 ⟨ih, List.nodup_singleton name, by simpa using fun a ha => ne_of_mem_of_not_mem ha hnew⟩

theorem names_merged (ms : List (String × Json)) : (merged ms).map (·.1) = (ms.map (·.1)).eraseDups := by
  simp [merged, Function.comp_def]

theorem insert_of_notMem {ms : List (String × Json)} {name : String} (h : name ∉ ms.map (·.1)) (j : Json) :
    insert ms name j = ms ++ [(name, j)] := by
  induction ms with
  | nil => rfl
  | cons m ms ih =>
    rw [List.map_cons, List.mem_cons, not_or] at h
    rw [insert, if_neg (Ne.symm h.1), ih h.2, List.cons_append]

/-- A name that is present keeps its place. -/
theorem insert_map_of_mem {names : List String} (hnodup : names.Nodup) {name : String} (h : name ∈ names)
    (f : String → Json) (j : Json) : insert (names.map fun x => (x, f x)) name j =
      names.map fun x => (x, if name = x then j else f x) := by
  induction names with
  | nil => cases h
  | cons x xs ih =>
    obtain ⟨hx, hxs⟩ := List.nodup_cons.1 hnodup
    rw [List.map_cons, List.map_cons, insert]
    by_cases hname : x = name
    · subst hname
      have hrest : xs.map (fun y => (y, f y)) = xs.map fun y => (y, if x = y then j else f y) :=
        List.map_congr_left fun y hy => by rw [if_neg (ne_of_mem_of_not_mem hy hx).symm]
      rw [if_pos rfl, if_pos rfl, hrest]
    · have hmem : name ∈ xs := (List.mem_cons.1 h).resolve_left (Ne.symm hname)
      rw [if_neg hname, if_neg (Ne.symm hname), ih hxs hmem]

/-- Binding one member after the other gives every name once. -/
theorem insertAll_nil (ms : List (String × Json)) : insertAll [] ms = merged ms := by
  induction ms using List.reverseRecOn with
  | nil => rfl
  | append_singleton ms m ih =>
    have hstep : insertAll [] (ms ++ [m]) = insert (merged ms) m.1 m.2 := by
      rw [← ih, insertAll, List.foldl_append]
      rfl
    rw [hstep]
    unfold merged
    rw [List.map_append, List.map_singleton, eraseDups_concat]
    simp only [lastOf_concat]
    by_cases h : m.1 ∈ ms.map (·.1)
    · rw [if_pos h, insert_map_of_mem (nodup_eraseDups _) (List.mem_eraseDups.2 h)]
    · have hnames : m.1 ∉ (merged ms).map (·.1) := by rwa [names_merged, List.mem_eraseDups]
      have hkeep : (ms.map (·.1)).eraseDups.map (fun x => (x, if m.1 = x then m.2 else lastOf ms x)) =
          merged ms :=
        List.map_congr_left fun x hx => by rw [if_neg (ne_of_mem_of_not_mem (List.mem_eraseDups.1 hx) h).symm]
      rw [if_neg h, List.map_append, hkeep, List.map_singleton, if_pos rfl]
      exact insert_of_notMem hnames m.2

theorem insertAll_of_nodup {ms : List (String × Json)} (h : (ms.map (·.1)).Nodup) : insertAll [] ms = ms := by
  induction ms using List.reverseRecOn with
  | nil => rfl
  | append_singleton ms m ih =>
    rw [List.map_append, List.nodup_append] at h
    have hm : m.1 ∉ ms.map (·.1) := fun hmem => h.2.2 _ hmem m.1 (by simp) rfl
    rw [insertAll, List.foldl_append]
    show insert (insertAll [] ms) m.1 m.2 = _
    rw [ih h.1, insert_of_notMem hm]

end Json

namespace Value

theorem toJsonItems_eq_map (vs : List Value) : toJsonItems vs = vs.map toJson := by
  induction vs with
  | nil => rfl
  | cons v vs ih => rw [toJsonItems, ih, List.map_cons]

/-- Binding a text in a map binds a name in the document. -/
theorem toJsonMembers_insert (hes : ∀ e ∈ es, ∃ s, e.1 = .str s) (s : String)
    (v : Value) : toJsonMembers (insert es (.str s) v) = Json.insert (toJsonMembers es) s v.toJson := by
  induction es with
  | nil => rfl
  | cons e es ih =>
    obtain ⟨k, u⟩ := e
    obtain ⟨t, rfl⟩ : ∃ t, k = .str t := hes (k, u) (by simp)
    have hname : toJsonMember (.str t, u) = (t, u.toJson) := rfl
    have hsame : same (.str t) (.str s) = (t == s) := rfl
    rw [insert, toJsonMembers, Json.insert, hname, hsame]
    by_cases h : t = s
    · rw [if_pos h, if_pos (beq_iff_eq.2 h)]
      rfl
    · rw [if_neg h, if_neg (by simpa using h), ← ih fun e he => hes e (by simp [he])]
      rfl

theorem exists_str_of_mem_insert (hes : ∀ e ∈ es, ∃ s, e.1 = .str s) (s : String)
    (v : Value) : ∀ e ∈ insert es (.str s) v, ∃ s, e.1 = .str s := by
  induction es with
  | nil => simp [insert]
  | cons e es ih =>
    rw [List.forall_mem_cons] at hes
    rw [insert]
    split_ifs
    · exact List.forall_mem_cons.2 ⟨hes.1, hes.2⟩
    · exact List.forall_mem_cons.2 ⟨hes.1, ih hes.2⟩

end Value

/-! ### Rows of keys and values -/

namespace Document

/-- The rows whose values are not left out. -/
def kept (clause : NullClause) (rows : List (Value × Value)) : List (Value × Value) :=
  rows.filter fun r => !isAbsent clause r.2

/-- The member of a row. -/
def member (r : Value × Value) : String × Json := (r.1.text, r.2.toJson)

/-- A row that is kept has a null key. -/
def hasNullKey (clause : NullClause) (rows : List (Value × Value)) : Bool := (kept clause rows).any (·.1.isNull)

theorem hasNullKey_iff : hasNullKey clause rows ↔
    ∃ r ∈ rows, r.1 = .null ∧ (clause = .absentOnNull → r.2 ≠ .null) := by
  simp only [hasNullKey, kept, List.any_eq_true, List.mem_filter, isAbsent, Value.isNull_iff]
  grind [Value.isNull_iff]

theorem kept_cons_of_isAbsent {r : Value × Value} (h : isAbsent clause r.2) (rows : List (Value × Value)) :
    kept clause (r :: rows) = kept clause rows := by
  simp [kept, h]

theorem kept_cons_of_not_isAbsent {r : Value × Value} (h : isAbsent clause r.2 = false)
    (rows : List (Value × Value)) : kept clause (r :: rows) = r :: kept clause rows := by
  simp [kept, h]

/-- The document of a map with texts as keys. -/
theorem toJsonMembers_foldl_insert (hrows : ∀ r ∈ rows, ∃ s, r.1 = .str s)
    (hes : ∀ e ∈ es, ∃ s, e.1 = .str s) :
    Value.toJsonMembers (rows.foldl (fun es r => Value.insert es r.1 r.2) es) =
      Json.insertAll (Value.toJsonMembers es) (rows.map member) := by
  induction rows generalizing es with
  | nil => rfl
  | cons r rows ih =>
    obtain ⟨k, v⟩ := r
    obtain ⟨s, rfl⟩ : ∃ s, k = .str s := hrows (k, v) (by simp)
    rw [List.foldl_cons, ih (fun r hr => hrows r (by simp [hr])) (Value.exists_str_of_mem_insert hes s v),
      Value.toJsonMembers_insert hes]
    rfl

end Document

open Document

/-- The constructor binds the members of the rows that are kept. -/
theorem Routine.objectMembers_rows (clause : NullClause) (rows : List (Value × Value))
    (members : List (String × Json)) :
    objectMembers clause (rows.flatMap fun r => [r.1, r.2]) members =
      if hasNullKey clause rows then .error (.invalidArgument "jsonObject" "null key")
      else .ok (Json.insertAll members ((kept clause rows).map member)) := by
  induction rows generalizing members with
  | nil => rfl
  | cons r rows ih =>
    rw [List.flatMap_cons]
    show objectMembers clause (r.1 :: r.2 :: rows.flatMap fun r => [r.1, r.2]) members = _
    rw [objectMembers, hasNullKey]
    cases habsent : isAbsent clause r.2 with
    | true =>
      rw [if_pos rfl, ih, kept_cons_of_isAbsent habsent]
      rfl
    | false =>
      rw [if_neg (by simp), kept_cons_of_not_isAbsent habsent, List.any_cons]
      cases hkey : r.1.isNull with
      | true => rfl
      | false =>
        rw [if_neg (by simp), ih, Bool.false_or]
        rfl

namespace Mutator

/-- What a row makes of an object. -/
def member (clause : NullClause) (a : Value) (r : Value × Value) : Except Fault Value :=
  addMember a [r.1, r.2, .symbol (.jsonNullClause clause)]

/-- What a row makes of an array. -/
def element (clause : NullClause) (a v : Value) : Except Fault Value :=
  addElement a [v, .symbol (.jsonNullClause clause)]

theorem member_map (clause : NullClause) (es : List (Value × Value)) (r : Value × Value) :
    member clause (.map es) r =
      if isAbsent clause r.2 then .ok (.map es)
      else if r.1.isNull then .error (.invalidArgument "jsonObjectAggAdd" "null key")
      else .ok (.map (Value.insert es r.1 r.2)) := rfl

/-- The aggregate binds the keys of the rows that are kept. -/
theorem foldlM_addMember (clause : NullClause) (rows es : List (Value × Value)) :
    rows.foldlM (member clause) (.map es) =
      if hasNullKey clause rows then .error (.invalidArgument "jsonObjectAggAdd" "null key")
      else .ok (.map ((kept clause rows).foldl (fun es r => Value.insert es r.1 r.2) es)) := by
  induction rows generalizing es with
  | nil => rfl
  | cons r rows ih =>
    rw [List.foldlM_cons, member_map, hasNullKey]
    cases habsent : isAbsent clause r.2 with
    | true =>
      rw [if_pos rfl, kept_cons_of_isAbsent habsent]
      exact ih es
    | false =>
      rw [if_neg (by simp), kept_cons_of_not_isAbsent habsent, List.any_cons]
      cases hkey : r.1.isNull with
      | true => rfl
      | false =>
        rw [if_neg (by simp), Bool.false_or]
        exact ih _

theorem foldlM_addElement (clause : NullClause) (vs items : List Value) :
    vs.foldlM (element clause) (.list items) = .ok (.list (items ++ vs.filter fun v => !isAbsent clause v)) := by
  induction vs generalizing items with
  | nil => simp [pure, Except.pure]
  | cons v vs ih =>
    have hstep : element clause (.list items) v =
        if isAbsent clause v then .ok (.list items) else .ok (.list (items ++ [v])) := rfl
    rw [List.foldlM_cons, hstep]
    cases habsent : isAbsent clause v with
    | true =>
      rw [List.filter_cons_of_neg (by simp [habsent])]
      exact ih items
    | false =>
      rw [List.filter_cons_of_pos (by simp [habsent])]
      exact (ih (items ++ [v])).trans (by rw [List.append_assoc, List.singleton_append])

end Mutator

/-! ### Containers -/

/-- A new container. -/
def Container.empty : Container → Value
  | .list => .list []
  | .map => .map []

namespace AggregateProgram

variable {p : AggregateProgram} {s : Strategy} {c : AggregateCall} {container : Container} {mutator : Mutator}
  {args : List Value → List Value} {m : Machine} {a : Value}

/-- The code starts with an empty container, calls a mutator of it for every row, and gives its text. In a row, the
operands of the mutator have the values `args row`. -/
structure Gathers (s : Strategy) (c : AggregateCall) (container : Container) (mutator : Mutator)
    (args : List Value → List Value) : Prop where
  reset : s.reset c = [.assign ⟨"acc0", container.rep⟩ (.new container)]
  add : ∃ g es, s.add c = .ok [.invoke ⟨"acc0", container.rep⟩ g es] ∧ Mutator.find? g = some mutator ∧
    ∀ {row : List Value} {m : Machine}, Suits c row →
      List.Forall₂ (fun e v => e.EvalsTo (m.bindSlots c.argumentSlots row) v) es (args row)
  value : s.value c = .ok (Strategy.jsonText ⟨"acc0", container.rep⟩)

/-- From the state, the computation ends with the value in the accumulator and with the same routines, or in the
fault. -/
def Leaves (x : Run Unit) (m : Machine) : Except Fault Value → Prop
  | .ok a => ∃ m', x.result m = (.ok (), m') ∧ m'.get? "acc0" = some a ∧ m'.routines = m.routines
  | .error e => (x.result m).1 = .error e

theorem Leaves.bind {x y : Run Unit} {o : Except Fault Value} {next : Value → Except Fault Value}
    (hx : Leaves x m o)
    (hy : ∀ {a m'}, m'.get? "acc0" = some a → Leaves y m' (next a)) : Leaves (x >>= fun _ => y) m (o >>= next) := by
  cases o with
  | error e => exact fst_result_bind_of_error hx
  | ok a =>
    obtain ⟨m₁, hx, hacc, hroutines⟩ := hx
    have hresult : (x >>= fun _ => y).result m = y.result m₁ := by rw [result_bind, hx, andThen_ok]
    show Leaves _ _ (next a)
    have hrest := hy hacc
    cases hnext : next a with
    | error e =>
      rw [hnext] at hrest
      exact (congrArg Prod.fst hresult).trans hrest
    | ok b =>
      rw [hnext] at hrest
      obtain ⟨m₂, hy, hacc', hroutines'⟩ := hrest
      exact ⟨m₂, hresult.trans hy, hacc', hroutines'.trans hroutines⟩

namespace Gathers

variable (h : Gathers s c container mutator args) (hp : p.Implements s c)
include h hp

theorem leaves_start (m : Machine) : Leaves p.start m (.ok container.empty) := by
  refine ⟨m.bind "acc0" container.empty, ?_, Machine.get?_bind_self .., rfl⟩
  unfold start Block.exec
  rw [hp.reset, h.reset, Stmt.result_execBlock_singleton, Stmt.result_assign]
  cases container <;> rfl

theorem leaves_take {row : List Value} (hrow : Suits c row) (hacc : m.get? "acc0" = some a) :
    Leaves (p.take row) m (mutator a (args row)) := by
  obtain ⟨g, es, hadd, hg, hes⟩ := h.add
  have hcode : p.add = [.invoke ⟨"acc0", container.rep⟩ g es] := Except.ok.inj (hp.add.symm.trans hadd)
  have hbound : (m.bindSlots c.argumentSlots row).get? "acc0" = some a := by
    rw [Machine.get?_bindSlots_of_notMem (notMem_argumentSlots (by decide)), hacc]
  have hstores := Fold.stores_mutate (s := ⟨"acc0", container.rep⟩) rfl hg hbound (hes hrow)
  have hresult := hp.result_take row m
  rw [hcode] at hresult
  cases ho : mutator a (args row) with
  | error e =>
    rw [ho] at hstores
    exact (congrArg Prod.fst hresult).trans hstores
  | ok b =>
    rw [ho] at hstores
    have hroutines : (m.bindSlots c.argumentSlots row).routines = m.routines := by rw [Machine.bindSlots_rest]
    exact ⟨_, hresult.trans hstores, Machine.get?_bind_self .., hroutines⟩

theorem leaves_takeAll {rows : List (List Value)} (hrows : ∀ row ∈ rows, Suits c row)
    (hacc : m.get? "acc0" = some a) :
    Leaves (p.takeAll rows) m (rows.foldlM (fun a row => mutator a (args row)) a) := by
  induction rows generalizing m a with
  | nil => exact ⟨m, rfl, hacc, rfl⟩
  | cons row rows ih =>
    rw [List.foldlM_cons]
    exact (h.leaves_take hp (hrows row (by simp)) hacc).bind fun hacc' =>
      ih (fun row' hrow' => hrows row' (by simp [hrow'])) hacc'

theorem result_aggregate {rows : List (List Value)} (hrows : ∀ row ∈ rows, Suits c row)
    (hm : m.routines.get? "jsonize" = none) :
    ((p.aggregate rows).result m).1 =
      (rows.foldlM (fun a row => mutator a (args row)) container.empty).map fun a => .str a.toJson.text := by
  have hvalue : p.value = Strategy.jsonText ⟨"acc0", container.rep⟩ := Except.ok.inj (hp.value.symm.trans h.value)
  have hrun : Leaves (p.start >>= fun _ => p.takeAll rows) m _ :=
    (h.leaves_start hp m).bind fun hacc => h.leaves_takeAll hp hrows hacc
  have hsplit : p.aggregate rows = (p.start >>= fun _ => p.takeAll rows) >>= fun _ => p.finish := by
    unfold aggregate
    rw [bind_assoc]
  rw [hsplit]
  change Leaves _ _ (rows.foldlM _ _) at hrun
  cases ho : rows.foldlM (fun a row => mutator a (args row)) container.empty with
  | error e =>
    rw [ho] at hrun
    exact fst_result_bind_of_error hrun
  | ok a =>
    rw [ho] at hrun
    obtain ⟨m', hresult, hacc, hroutines⟩ := hrun
    have htext : p.value.EvalsTo m' (.str a.toJson.text) := by
      rw [hvalue]
      refine evalsTo_call .string (.cons (evalsTo_slot hacc) .nil) ?_
      exact Run.result_call_library (hroutines ▸ hm) rfl rfl
    rw [result_bind, hresult, andThen_ok]
    rw [hp.finish_eq, htext]
    rfl

end Gathers

/-- The operands of a row are its values and the null clause. -/
theorem gathers_object {key value : SqlType} (hc : c.parameters = [key, value]) (clause : NullClause) :
    Gathers (.jsonObject clause) c .map Mutator.addMember
      fun row => [row.getD 0 .null, row.getD 1 .null, .symbol (.jsonNullClause clause)] := by
  have hslots : c.argumentSlots = [⟨"arg0", key.rep⟩, ⟨"arg1", value.rep⟩] := by
    rw [AggregateCall.argumentSlots, hc]
    simp [Slot.numbered, List.mapIdx_cons]
    decide
  refine ⟨rfl, ⟨"jsonObjectAggAdd", [.slot ⟨"arg0", key.rep⟩, (Expr.slot ⟨"arg1", value.rep⟩).box,
    Strategy.clauseExpr clause], ?_, rfl, fun {row m} hrow => ?_⟩, rfl⟩
  · show Strategy.objectAdd clause c = _
    rw [Strategy.objectAdd, hslots]
    rfl
  · have hargs := forall₂_argumentSlots hrow m
    generalize m.bindSlots c.argumentSlots row = m₁ at hargs ⊢
    rw [hslots] at hargs
    obtain - | ⟨⟨hkey, -⟩, - | ⟨⟨hvalue, hfits⟩, -⟩⟩ := hargs
    exact .cons (evalsTo_slot hkey)
      (.cons (Builtin.carries_box (carries_slot hvalue hfits)).evalsTo (.cons rfl .nil))

theorem gathers_array {type : SqlType} (hc : c.parameters = [type]) (clause : NullClause) :
    Gathers (.jsonArray clause) c .list Mutator.addElement
      fun row => [row.getD 0 .null, .symbol (.jsonNullClause clause)] := by
  have hslots : c.argumentSlots = [⟨"arg0", type.rep⟩] := by
    rw [AggregateCall.argumentSlots, hc]
    rfl
  refine ⟨rfl, ⟨"jsonArrayAggAdd", [(Expr.slot ⟨"arg0", type.rep⟩).box, Strategy.clauseExpr clause], ?_, rfl,
    fun {row m} hrow => ?_⟩, rfl⟩
  · show Strategy.arrayAdd clause c = _
    rw [Strategy.arrayAdd, hslots]
    rfl
  · obtain ⟨hget, hfits⟩ := get?_first hslots hrow m
    exact .cons (Builtin.carries_box (carries_slot hget hfits)).evalsTo (.cons rfl .nil)

theorem result_jsonObject (hp : p.Implements (.jsonObject clause) c) {key value : SqlType}
    (hc : c.parameters = [key, value]) (hrows : ∀ r ∈ rows, Suits c [r.1, r.2])
    (hkeys : ∀ r ∈ rows, r.1 = .null ∨ ∃ s, r.1 = .str s) (hm : m.routines.get? "jsonize" = none) :
    ((p.aggregate (rows.map fun r => [r.1, r.2])).result m).1 =
      if hasNullKey clause rows then .error (.invalidArgument "jsonObjectAggAdd" "null key")
      else .ok (.str (Json.obj (Json.merged ((kept clause rows).map member))).text) := by
  have hfold := Mutator.foldlM_addMember clause rows []
  have hsuits : ∀ row ∈ rows.map fun r => [r.1, r.2], Suits c row := by
    intro row hrow
    obtain ⟨r, hr, rfl⟩ := List.mem_map.1 hrow
    exact hrows r hr
  rw [(gathers_object hc clause).result_aggregate hp hsuits hm, List.foldlM_map]
  show (rows.foldlM (Mutator.member clause) (.map [])).map _ = _
  rw [hfold]
  cases hnull : hasNullKey clause rows with
  | true => rfl
  | false =>
    have hstrs : ∀ r ∈ kept clause rows, ∃ s, r.1 = .str s := by
      intro r hr
      refine (hkeys r (List.mem_of_mem_filter hr)).resolve_left fun hr' => ?_
      rw [hasNullKey, List.any_eq_false] at hnull
      exact hnull r hr (by rw [hr']; rfl)
    have hmembers : Value.toJsonMembers ((kept clause rows).foldl (fun es r => Value.insert es r.1 r.2) []) =
        Json.merged ((kept clause rows).map member) := by
      rw [toJsonMembers_foldl_insert hstrs (by simp), ← Json.insertAll_nil]
      rfl
    have hdistinct : Json.insertAll [] (Json.merged ((kept clause rows).map member)) =
        Json.merged ((kept clause rows).map member) :=
      Json.insertAll_of_nodup (by rw [Json.names_merged]; exact Json.nodup_eraseDups _)
    show Except.ok (Value.str (Json.obj (Json.insertAll [] _)).text) = _
    rw [hmembers, hdistinct]
    rfl

theorem result_jsonArray (hp : p.Implements (.jsonArray clause) c) {type : SqlType}
    (hc : c.parameters = [type]) {vs : List Value} (hvs : ∀ v ∈ vs, v.Fits type.rep)
    (hm : m.routines.get? "jsonize" = none) :
    ((p.aggregate (vs.map ([·]))).result m).1 =
      .ok (.str (Json.arr ((vs.filter fun v => !isAbsent clause v).map Value.toJson)).text) := by
  rw [(gathers_array hc clause).result_aggregate hp (Fold.suits_singleton hc hvs) hm, List.foldlM_map]
  show (vs.foldlM (Mutator.element clause) (.list [])).map _ = _
  rw [Mutator.foldlM_addElement, ← Value.toJsonItems_eq_map]
  rfl

end AggregateProgram

/-- The constructor gives the text of the object with the members of the rows that are kept. -/
theorem Routine.jsonObject_rows (clause : NullClause) (rows : List (Value × Value)) :
    jsonObject (.symbol (.jsonNullClause clause) :: rows.flatMap fun r => [r.1, r.2]) =
      if hasNullKey clause rows then .error (.invalidArgument "jsonObject" "null key")
      else .ok (.str (Json.obj (Json.merged ((kept clause rows).map member))).text) := by
  have heven : (rows.flatMap fun r => [r.1, r.2]).length % 2 = 0 := by
    simp [List.length_flatMap]
  have hmembers := objectMembers_rows clause rows []
  rw [Json.insertAll_nil] at hmembers
  unfold jsonObject
  simp only [List.drop_succ_cons, List.drop_zero, heven, ne_eq, not_true_eq_false, if_false, List.head?_cons,
    nullClause, hmembers]
  cases hasNullKey clause rows <;> rfl

/-- The JSON aggregates over rows of their types give what the constructors give for the same keys and values. An
object aggregate with keys that are texts or null fails exactly where the constructor fails, which is where a row that
is kept has a null key. Otherwise both give the text of the object that has every key once, in its first place and with
the last value that is kept. The array aggregate and the array constructor give the text of the array of the values
that are kept. -/
theorem AggregateFunction.aggregate_json (settings : Settings) (clause : NullClause) (call : AggregateCall) :
    (∀ {key value : SqlType}, call.parameters = [key, value] →
      ∃ p, (builtin (.jsonObjectAgg clause)).program settings call false = .ok p ∧
        ∀ (m : Machine) (rows : List (Value × Value)), m.routines.get? "jsonize" = none →
          (∀ r ∈ rows, r.1.Fits key.rep ∧ r.2.Fits value.rep) →
          (∀ r ∈ rows, r.1 = .null ∨ ∃ s, r.1 = .str s) →
          let aggregated := ((p.aggregate (rows.map fun r => [r.1, r.2])).result m).1
          let constructed :=
            Routine.jsonObject (.symbol (.jsonNullClause clause) :: rows.flatMap fun r => [r.1, r.2])
          let fails := ∃ r ∈ rows, r.1 = .null ∧ (clause = .absentOnNull → r.2 ≠ .null)
          ((∃ e, aggregated = .error e) ↔ ∃ e, constructed = .error e) ∧
          ((∃ e, constructed = .error e) ↔ fails) ∧
          (¬fails → aggregated = constructed ∧
            constructed = .ok (.str (Json.obj (Json.merged ((kept clause rows).map member))).text))) ∧
    ∀ {type : SqlType}, call.parameters = [type] →
      ∃ p, (builtin (.jsonArrayAgg clause)).program settings call false = .ok p ∧
        ∀ (m : Machine) (vs : List Value), m.routines.get? "jsonize" = none → (∀ v ∈ vs, v.Fits type.rep) →
          let aggregated := ((p.aggregate (vs.map ([·]))).result m).1
          aggregated = Routine.jsonArray (.symbol (.jsonNullClause clause) :: vs) ∧
          aggregated = .ok (.str (Json.arr ((vs.filter fun v => !isAbsent clause v).map Value.toJson)).text) := by
  refine ⟨fun {key value} hc => ?_, fun {type} hc => ?_⟩
  · obtain ⟨g, es, hadd, -⟩ := (AggregateProgram.gathers_object (c := call.complete settings) hc clause).add
    have hstrategy : (builtin (.jsonObjectAgg clause)).strategy settings false = .ok (.jsonObject clause) := rfl
    obtain ⟨p, hp, himp, -⟩ := exists_implements hstrategy hadd rfl
    refine ⟨p, hp, fun m rows hm hrows hkeys => ?_⟩
    have hsuits : ∀ r ∈ rows, AggregateProgram.Suits (call.complete settings) [r.1, r.2] := by
      intro r hr
      rw [AggregateProgram.Suits, show (call.complete settings).parameters = [key, value] from hc]
      exact .cons (hrows r hr).1 (.cons (hrows r hr).2 .nil)
    intro aggregated constructed fails
    have haggregated : aggregated = _ := AggregateProgram.result_jsonObject himp hc hsuits hkeys hm
    have hconstructed : constructed = _ := Routine.jsonObject_rows clause rows
    have hfails : fails ↔ hasNullKey clause rows = true := hasNullKey_iff.symm
    rw [haggregated, hconstructed, hfails]
    cases hasNullKey clause rows <;> simp
  · obtain ⟨g, es, hadd, -⟩ := (AggregateProgram.gathers_array (c := call.complete settings) hc clause).add
    have hstrategy : (builtin (.jsonArrayAgg clause)).strategy settings false = .ok (.jsonArray clause) := rfl
    obtain ⟨p, hp, himp, -⟩ := exists_implements hstrategy hadd rfl
    refine ⟨p, hp, fun m vs hm hvs => ?_⟩
    have haggregated := AggregateProgram.result_jsonArray himp hc hvs hm
    exact ⟨haggregated, haggregated⟩

/-- Without nulls, the key a has its second value in its first place, the null leaves the key b as it is, and a null
key with a null is no fault. A null key with a value is. -/
theorem AggregateFunction.aggregate_json_repeated_keys :
    let call : AggregateCall :=
      { returnType := .plain .varchar false, parameters := [.plain .varchar true, .plain .integer true] }
    ∃ p, (builtin (.jsonObjectAgg .absentOnNull)).program {} call false = .ok p ∧
      ((p.aggregate [[.str "a", .int 1], [.str "b", .int 3], [.str "a", .int 2], [.str "b", .null],
        [.null, .null]]).result {}).1 = .ok (.str "\x7b\"a\":2,\"b\":3\x7d") ∧
      ∃ e, ((p.aggregate [[.str "a", .int 1], [.null, .int 2]]).result {}).1 = .error e := by
  intro call
  obtain ⟨p, hp, hrows⟩ := (aggregate_json {} .absentOnNull call).1 rfl
  have hfits : ∀ r ∈ [(Value.str "a", Value.int 1), (.str "b", .int 3), (.str "a", .int 2), (.str "b", .null),
      (.null, .null)], r.1.Fits (SqlType.plain .varchar true).rep ∧ r.2.Fits (SqlType.plain .integer true).rep := by
    simp only [List.forall_mem_cons]
    exact ⟨⟨rfl, rfl⟩, ⟨rfl, rfl⟩, ⟨rfl, rfl⟩, ⟨rfl, rfl⟩, ⟨rfl, rfl⟩, by simp⟩
  have hfits' : ∀ r ∈ [(Value.str "a", Value.int 1), (.null, .int 2)],
      r.1.Fits (SqlType.plain .varchar true).rep ∧ r.2.Fits (SqlType.plain .integer true).rep := by
    simp only [List.forall_mem_cons]
    exact ⟨⟨rfl, rfl⟩, ⟨rfl, rfl⟩, by simp⟩
  obtain ⟨-, -, hkept⟩ := hrows {} _ rfl hfits (by simp)
  obtain ⟨hsame, hnull, -⟩ := hrows {} _ rfl hfits' (by simp)
  obtain ⟨heq, htext⟩ := hkept (by simp)
  refine ⟨p, hp, (heq.trans htext).trans (congrArg _ (congrArg Value.str (by decide))), ?_⟩
  exact hsame.2 (hnull.2 (by simp))

end SqlCode

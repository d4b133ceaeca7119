import SqlCode.Proofs.JsonAggregates

/-!
# Values and documents

Values without doubles, decimals, bytes and symbols, whose maps have texts as keys, and documents whose numbers are words
are two writings of the same thing: each conversion undoes the other one, with the order of entries and members kept.
-/

namespace SqlCode

/-- A value of nulls, truth values, integers, texts, lists of such values, and maps of different texts to such values. -/
inductive Value.Documentary : Value → Prop
  | null : Documentary .null
  | bool (b : Bool) : Documentary (.bool b)
  | int (n : Int64) : Documentary (.int n)
  | str (s : String) : Documentary (.str s)
  | list {items : List Value} : (∀ v ∈ items, Documentary v) → Documentary (.list items)
  | map {entries : List (String × Value)} : (entries.map (·.1)).Nodup → (∀ e ∈ entries, Documentary e.2) →
      Documentary (.map (entries.map fun e => (.str e.1, e.2)))

/-- A document whose numbers are integers that fit a word, and whose objects have no name twice. -/
inductive Json.Whole : Json → Prop
  | null : Whole .null
  | bool (b : Bool) : Whole (.bool b)
  | int {n : Int} : Word.Fits n → Whole (.int n)
  | str (s : String) : Whole (.str s)
  | arr {items : List Json} : (∀ j ∈ items, Whole j) → Whole (.arr items)
  | obj {members : List (String × Json)} : (members.map (·.1)).Nodup → (∀ m ∈ members, Whole m.2) →
      Whole (.obj members)

namespace Value

theorem ofJsonItems_eq_map (js : List Json) : ofJsonItems js = js.map ofJson := by
  induction js with
  | nil => rfl
  | cons j js ih => rw [ofJsonItems, ih, List.map_cons]

theorem ofJsonMembers_eq_map (ms : List (String × Json)) :
    ofJsonMembers ms = ms.map fun m => (.str m.1, ofJson m.2) := by
  induction ms with
  | nil => rfl
  | cons m ms ih => rw [ofJsonMembers, ih, List.map_cons, ofJsonMember]

theorem insert_of_forall_same {es : List (Value × Value)} {k : Value} (h : ∀ e ∈ es, e.1.same k = false)
    (v : Value) : insert es k v = es ++ [(k, v)] := by
  induction es with
  | nil => rfl
  | cons e es ih =>
    rw [List.forall_mem_cons] at h
    rw [insert, h.1, if_neg (by simp), ih h.2, List.cons_append]

theorem mapOf_of_nodup {entries : List (String × Value)} (h : (entries.map (·.1)).Nodup) :
    mapOf (entries.map fun e => (.str e.1, e.2)) = .map (entries.map fun e => (.str e.1, e.2)) := by
  refine congrArg Value.map ?_
  induction entries using List.reverseRecOn with
  | nil => rfl
  | append_singleton entries e ih =>
    rw [List.map_append, List.nodup_append] at h
    obtain ⟨hentries, -, hnew⟩ := h
    have hsame : ∀ f ∈ entries.map fun f => (Value.str f.1, f.2), f.1.same (.str e.1) = false := by
      rw [List.forall_mem_map]
      intro f hf
      have hne : f.1 ≠ e.1 := hnew _ (List.mem_map_of_mem hf) _ (List.mem_singleton_self _)
      simpa [same] using hne
    rw [List.map_append, List.foldl_append, ih hentries]
    exact insert_of_forall_same hsame e.2

/-- A map of different texts becomes an object with these names in the same order. -/
theorem toJson_map_of_nodup {entries : List (String × Value)} (h : (entries.map (·.1)).Nodup) :
    toJson (.map (entries.map fun e => (.str e.1, e.2))) = .obj (entries.map fun e => (e.1, e.2.toJson)) := by
  have hmembers : toJsonMembers (entries.map fun e => (.str e.1, e.2)) = entries.map fun e => (e.1, e.2.toJson) := by
    clear h
    induction entries with
    | nil => rfl
    | cons e entries ih =>
      rw [List.map_cons, List.map_cons, toJsonMembers, ih]
      rfl
  rw [toJson, hmembers, Json.insertAll_of_nodup]
  simpa [Function.comp_def] using h

theorem toJson_documentary {v : Value} (h : v.Documentary) : v.toJson.Whole ∧ ofJson v.toJson = v := by
  induction h with
  | null => exact ⟨.null, rfl⟩
  | bool b => exact ⟨.bool b, rfl⟩
  | int n =>
    refine ⟨.int (Word.fits_toInt n), ?_⟩
    rw [toJson, ofJson, Word.ofInt?_toInt]
  | str s => exact ⟨.str s, rfl⟩
  | @list items _ ih =>
    rw [toJson, toJsonItems_eq_map, ofJson, ofJsonItems_eq_map]
    refine ⟨.arr (List.forall_mem_map.2 fun v hv => (ih v hv).1), congrArg Value.list ?_⟩
    rw [List.map_map]
    exact (List.map_congr_left fun v hv => (ih v hv).2).trans (List.map_id _)
  | @map entries hnodup _ ih =>
    have hback : ofJsonMembers (entries.map fun e => (e.1, e.2.toJson)) =
        entries.map fun e => (.str e.1, e.2) := by
      rw [ofJsonMembers_eq_map, List.map_map]
      exact List.map_congr_left fun e he => congrArg (Prod.mk (Value.str e.1)) (ih e he).2
    rw [toJson_map_of_nodup hnodup, ofJson, hback, mapOf_of_nodup hnodup]
    exact ⟨.obj (by simpa [Function.comp_def] using hnodup) (List.forall_mem_map.2 fun e he => (ih e he).1), rfl⟩

theorem ofJson_whole {j : Json} (h : j.Whole) : (ofJson j).Documentary ∧ (ofJson j).toJson = j := by
  induction h with
  | null => exact ⟨.null, rfl⟩
  | bool b => exact ⟨.bool b, rfl⟩
  | @int n hn =>
    obtain ⟨w, rfl⟩ : ∃ w : Int64, n = w.toInt := ⟨Int64.ofInt n, (Word.toInt_ofInt hn).symm⟩
    rw [ofJson, Word.ofInt?_toInt]
    exact ⟨.int w, rfl⟩
  | str s => exact ⟨.str s, rfl⟩
  | @arr items _ ih =>
    rw [ofJson, ofJsonItems_eq_map, toJson, toJsonItems_eq_map]
    refine ⟨.list (List.forall_mem_map.2 fun j hj => (ih j hj).1), congrArg Json.arr ?_⟩
    rw [List.map_map]
    exact (List.map_congr_left fun j hj => (ih j hj).2).trans (List.map_id _)
  | @obj members hnodup _ ih =>
    have hnames : ((members.map fun m => (m.1, ofJson m.2)).map (·.1)).Nodup := by
      simpa [Function.comp_def] using hnodup
    have hentries : ofJson (.obj members) =
        .map ((members.map fun m => (m.1, ofJson m.2)).map fun e => (.str e.1, e.2)) := by
      rw [← mapOf_of_nodup hnames, ofJson, ofJsonMembers_eq_map, List.map_map]
      rfl
    rw [hentries, toJson_map_of_nodup hnames]
    refine ⟨.map hnames (List.forall_mem_map.2 fun m hm => (ih m hm).1), congrArg Json.obj ?_⟩
    rw [List.map_map]
    exact (List.map_congr_left fun m hm => congrArg (Prod.mk m.1) (ih m hm).2).trans (List.map_id _)

/-- A documentary value becomes a whole document and comes back from it, and a whole document becomes a documentary value
and comes back from it. Equality here is that of the lists of entries and members, so that their order counts. -/
theorem json_round_trip {v : Value} {j : Json} (hv : v.Documentary) (hj : j.Whole) :
    (v.toJson.Whole ∧ ofJson v.toJson = v) ∧ (ofJson j).Documentary ∧ (ofJson j).toJson = j :=
  ⟨toJson_documentary hv, ofJson_whole hj⟩

theorem json_round_trip_unsorted :
    let v : Value := .map [(.str "b", .list [.int 1, .null]), (.str "a", .str "x")]
    let j : Json := .obj [("b", .int (-9223372036854775808)), ("a", .arr [.bool true])]
    ofJson v.toJson = v ∧ (ofJson j).toJson = j := by
  intro v j
  have hitems : ∀ u ∈ [Value.int 1, .null], u.Documentary :=
    List.forall_mem_cons.2 ⟨.int 1, List.forall_mem_singleton.2 .null⟩
  have hv : v.Documentary := @Documentary.map [("b", .list [.int 1, .null]), ("a", .str "x")] (by decide)
    (List.forall_mem_cons.2 ⟨.list hitems, List.forall_mem_singleton.2 (.str "x")⟩)
  have hj : j.Whole := .obj (by decide) (List.forall_mem_cons.2 ⟨.int (by decide),
    List.forall_mem_singleton.2 (.arr (List.forall_mem_singleton.2 (.bool true)))⟩)
  obtain ⟨⟨-, hback⟩, -, hforth⟩ := json_round_trip hv hj
  exact ⟨hback, hforth⟩

end Value

end SqlCode

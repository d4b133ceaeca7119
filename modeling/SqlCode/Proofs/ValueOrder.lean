import SqlCode.Proofs.ExactNumbers

/-!
# The order of exact values

Values that hold no double are partially ordered. Those that are not lists are ordered by a key, which is a number, a
truth value, a text or a binary; keys of different kinds are not comparable. Lists are ordered by their first
difference, so that what comes behind it need not be comparable.
-/

namespace SqlCode

namespace Value

/-- The value holds no double, at any depth. -/
inductive FloatFree : Value → Prop
  | null : FloatFree .null
  | bool (b : Bool) : FloatFree (.bool b)
  | int (n : Int64) : FloatFree (.int n)
  | decimal (d : Decimal) : FloatFree (.decimal d)
  | str (s : String) : FloatFree (.str s)
  | bytes (bs : List UInt8) : FloatFree (.bytes bs)
  | symbol (s : Symbol) : FloatFree (.symbol s)
  | list {items : List Value} : (∀ v ∈ items, FloatFree v) → FloatFree (.list items)
  | map {entries : List (Value × Value)} : (∀ e ∈ entries, FloatFree e.1) → (∀ e ∈ entries, FloatFree e.2) →
      FloatFree (.map entries)

/-! ### Keys -/

/-- What a value that is not a list is ordered by. -/
inductive Key
  | number (x : ℚ)
  | truth (b : Bool)
  | text (s : String)
  | binary (bytes : List ℕ)

/-- The key of a value; nulls, lists, maps and symbols have none. -/
def key? : Value → Option Key
  | .int n => some (.number n.toInt)
  | .decimal d => some (.number d.toRat)
  | .bool b => some (.truth b)
  | .str s => some (.text s)
  | .bytes bs => some (.binary (bs.map UInt8.toNat))
  | _ => none

namespace Key

/-- The order of two keys, if they are of one kind. -/
def compare? : Key → Key → Option Ordering
  | .number x, .number y => some (compare x y)
  | .truth a, .truth b => some (compare a b)
  | .text s, .text t => some (compare s t)
  | .binary as, .binary bs => some (compare as bs)
  | _, _ => none

theorem compare?_swap (x y : Key) : y.compare? x = (x.compare? y).map Ordering.swap := by
  cases x <;> cases y <;> first | rfl | exact congrArg some Std.OrientedCmp.eq_swap

/-- In a total order, two steps up compose. -/
theorem compare_then {α : Type} [Ord α] [Std.TransOrd α] {x y z : α} (hxy : (compare x y).isLE)
    (hyz : (compare y z).isLE) : compare x z = (compare x y).then (compare y z) := by
  cases h : compare x y with
  | lt => exact Std.TransCmp.lt_of_lt_of_isLE h hyz
  | eq => exact Std.TransCmp.congr_left h
  | gt => rw [h] at hxy; cases hxy

theorem compare?_then {x y z : Key} {o o' : Ordering} (hxy : x.compare? y = some o) (hyz : y.compare? z = some o')
    (ho : o.isLE) (ho' : o'.isLE) : x.compare? z = some (o.then o') := by
  cases x <;> cases y <;> cases hxy <;> cases z <;> cases hyz <;> exact congrArg some (compare_then ho ho')

end Key

/-- Values without doubles that are not both lists are ordered as their keys. -/
theorem compare?_eq_keys {a b : Value} (ha : a.FloatFree) (hb : b.FloatFree)
    (h : (∀ as, a ≠ .list as) ∨ ∀ bs, b ≠ .list bs) : a.compare? b = a.key?.bind fun x => b.key?.bind x.compare? := by
  have hnumber : ∀ {u v : Value} {x y : ℚ}, u.number? = some x → v.number? = some y →
      u.compare? v = (Key.number x).compare? (.number y) := compare?_of_number?
  cases ha <;> cases hb <;> first | rfl | exact hnumber rfl rfl | simp at h

/-! ### Items -/

theorem compareItems?_cons_eq_some_iff {a b : Value} {as bs : List Value} {o : Ordering} :
    compareItems? (a :: as) (b :: bs) = some o ↔
      (a.compare? b = some .eq ∧ compareItems? as bs = some o) ∨ (a.compare? b = some o ∧ o ≠ .eq) := by
  rcases h : a.compare? b with _ | (_ | _ | _) <;> simp only [compareItems?, h] <;> cases o <;> simp

variable {as bs cs : List Value}

theorem compareItems?_swap (has : ∀ a ∈ as, ∀ {b : Value}, b.FloatFree → b.compare? a = (a.compare? b).map .swap)
    (hbs : ∀ b ∈ bs, b.FloatFree) : compareItems? bs as = (compareItems? as bs).map .swap := by
  induction as generalizing bs with
  | nil => cases bs <;> rfl
  | cons a as ih =>
    cases bs with
    | nil => rfl
    | cons b bs =>
      obtain ⟨ha, has⟩ := List.forall_mem_cons.1 has
      obtain ⟨hb, hbs⟩ := List.forall_mem_cons.1 hbs
      have hhead := ha hb
      rcases h : a.compare? b with _ | (_ | _ | _) <;> rw [h] at hhead <;>
        simp [compareItems?, h, hhead, ih has hbs]

/-- Two steps up between lists compose, whichever of them is decided first. -/
theorem compareItems?_then {o o' : Ordering}
    (has : ∀ a ∈ as, ∀ {b c : Value} {o o' : Ordering}, b.FloatFree → c.FloatFree → a.compare? b = some o →
      b.compare? c = some o' → o.isLE → o'.isLE → a.compare? c = some (o.then o'))
    (hbs : ∀ b ∈ bs, b.FloatFree) (hcs : ∀ c ∈ cs, c.FloatFree) (hab : compareItems? as bs = some o)
    (hbc : compareItems? bs cs = some o') (ho : o.isLE) (ho' : o'.isLE) :
    compareItems? as cs = some (o.then o') := by
  have hlt : ∀ {p : Ordering}, p.isLE → p ≠ .eq → p = .lt := fun hp =>
    (Ordering.isLE_iff_eq_lt_or_eq_eq.1 hp).resolve_right
  induction as generalizing bs cs o o' with
  | nil =>
    cases bs with
    | nil =>
      cases hab
      exact hbc
    | cons b bs =>
      cases hab
      cases cs with
      | nil =>
        cases hbc
        cases ho'
      | cons c cs => rfl
  | cons a as ih =>
    cases bs with
    | nil =>
      cases hab
      cases ho
    | cons b bs =>
      cases cs with
      | nil =>
        cases hbc
        cases ho'
      | cons c cs =>
        obtain ⟨ha, has⟩ := List.forall_mem_cons.1 has
        obtain ⟨hb, hbs⟩ := List.forall_mem_cons.1 hbs
        obtain ⟨hc, hcs⟩ := List.forall_mem_cons.1 hcs
        rw [compareItems?_cons_eq_some_iff] at hab hbc ⊢
        rcases hab with ⟨hab, htail⟩ | ⟨hab, hne⟩ <;> rcases hbc with ⟨hbc, htail'⟩ | ⟨hbc, hne'⟩
        · exact .inl ⟨ha hb hc hab hbc rfl rfl, ih has hbs hcs htail htail' ho ho'⟩
        · -- the second step is decided at the head, so that the tails of the first one do not matter
          cases hlt ho' hne'
          have hthen : o.then .lt = .lt := by cases o <;> first | rfl | cases ho
          rw [hthen]
          exact .inr ⟨ha hb hc hab hbc rfl rfl, by simp⟩
        · cases hlt ho hne
          exact .inr ⟨(ha hb hc hab hbc rfl rfl).trans rfl, by simp⟩
        · cases hlt ho hne
          exact .inr ⟨ha hb hc hab hbc rfl ho', by simp⟩

/-! ### Values -/

namespace FloatFree

variable {a b c : Value} {o o' : Ordering}

theorem compare?_swap_of_keys (ha : a.FloatFree) (hb : b.FloatFree)
    (h : (∀ as, a ≠ .list as) ∨ ∀ bs, b ≠ .list bs) : b.compare? a = (a.compare? b).map .swap := by
  rw [compare?_eq_keys ha hb h, compare?_eq_keys hb ha h.symm]
  rcases a.key? with _ | x <;> rcases b.key? with _ | y
  · rfl
  · rfl
  · rfl
  · exact x.compare?_swap y

theorem compare?_swap (ha : a.FloatFree) (hb : b.FloatFree) : b.compare? a = (a.compare? b).map .swap := by
  induction ha generalizing b with
  | @list as has ih =>
    cases hb with
    | list hbs => exact compareItems?_swap (fun a ha _ hb => ih a ha hb) hbs
    | _ => exact (FloatFree.list has).compare?_swap_of_keys (by constructor <;> assumption) (.inr (by simp))
  | _ => exact compare?_swap_of_keys (by constructor <;> assumption) hb (.inl (by simp))

theorem ne_list_of_key? {x : Key} (h : a.key? = some x) (as : List Value) : a ≠ .list as := by
  rintro rfl
  cases h

theorem compare?_then_of_key (ha : a.FloatFree) (hb : b.FloatFree) (hc : c.FloatFree) (hne : ∀ as, a ≠ .list as)
    (hab : a.compare? b = some o) (hbc : b.compare? c = some o') (ho : o.isLE) (ho' : o'.isLE) :
    a.compare? c = some (o.then o') := by
  rw [compare?_eq_keys ha hb (.inl hne)] at hab
  obtain ⟨x, hx, hab⟩ := Option.bind_eq_some_iff.1 hab
  obtain ⟨y, hy, hab⟩ := Option.bind_eq_some_iff.1 hab
  rw [compare?_eq_keys hb hc (.inl (ne_list_of_key? hy)), hy, Option.bind_some] at hbc
  obtain ⟨z, hz, hbc⟩ := Option.bind_eq_some_iff.1 hbc
  rw [compare?_eq_keys ha hc (.inl hne), hx, hz]
  exact Key.compare?_then hab hbc ho ho'

/-- Two steps up compose: what they lead to is comparable, and one step that is strict makes the way strict. -/
theorem compare?_then (ha : a.FloatFree) (hb : b.FloatFree) (hc : c.FloatFree) (hab : a.compare? b = some o)
    (hbc : b.compare? c = some o') (ho : o.isLE) (ho' : o'.isLE) :
    a.compare? c = some (o.then o') := by
  induction ha generalizing b c o o' with
  | @list as _ ih =>
    cases hb with
    | list hbs =>
      cases hc with
      | list hcs =>
        exact compareItems?_then (fun a ha _ _ _ _ hb hc => ih a ha hb hc) hbs hcs hab hbc ho ho'
      | _ => cases hbc
    | _ => cases hab
  | _ => exact compare?_then_of_key (by constructor <;> assumption) hb hc (by simp) hab hbc ho ho'

/-- What compares equal can be put in the place of each other. -/
theorem compare?_of_eq (ha : a.FloatFree) (hb : b.FloatFree) (hc : c.FloatFree) (hab : a.compare? b = some .eq)
    (hbc : b.compare? c = some o) : a.compare? c = some o := by
  cases hle : o.isLE with
  | true => exact ha.compare?_then hb hc hab hbc rfl hle
  | false =>
    -- a step down is a step up the other way round
    have hba : b.compare? a = some .eq := by rw [ha.compare?_swap hb, hab]; rfl
    have hcb : c.compare? b = some o.swap := by rw [hb.compare?_swap hc, hbc]; rfl
    cases o with
    | gt => rw [hc.compare?_swap ha, hc.compare?_then hb ha hcb hba rfl rfl]; rfl
    | _ => cases hle

end FloatFree

/-- Comparison orders the values without doubles. It is reversed the other way round, and defined one way if it is
defined the other way; two steps up lead up, and strictly so if one of them is strict; and values that compare equal
compare alike with every value. -/
theorem compare?_laws {a b c : Value} (ha : a.FloatFree) (hb : b.FloatFree) (hc : c.FloatFree) :
    b.compare? a = (a.compare? b).map Ordering.swap ∧
    (b.compare? a = none ↔ a.compare? b = none) ∧
    (∀ o o', a.compare? b = some o → b.compare? c = some o' → o.isLE = true → o'.isLE = true →
      ∃ o'', a.compare? c = some o'' ∧ o''.isLE = true ∧ (o = .lt ∨ o' = .lt → o'' = .lt)) ∧
    (a.compare? b = some .eq → a.compare? c = b.compare? c ∧ c.compare? a = c.compare? b) := by
  refine ⟨ha.compare?_swap hb, ?_, fun o o' hab hbc ho ho' => ?_, fun hab => ?_⟩
  · rw [ha.compare?_swap hb, Option.map_eq_none_iff]
  · refine ⟨_, ha.compare?_then hb hc hab hbc ho ho', ?_⟩
    cases o <;> cases o' <;> simp_all
  · have hba : b.compare? a = some .eq := by rw [ha.compare?_swap hb, hab]; rfl
    have hleft : a.compare? c = b.compare? c :=
      Option.ext fun o => ⟨hb.compare?_of_eq ha hc hba, ha.compare?_of_eq hb hc hab⟩
    exact ⟨hleft, by rw [ha.compare?_swap hc, hb.compare?_swap hc, hleft]⟩

/-- The list of 1 and x is below that of 1.0, y and null, and that one is below the list of 2 and null. The nulls stand
behind the difference that decides; where they are reached, the lists are not comparable. -/
theorem compare?_laws_null_behind :
    let a := Value.list [.int 1, .str "x"]
    let b := Value.list [.decimal ⟨10, 1⟩, .str "y", .null]
    let c := Value.list [.int 2, .null]
    b.compare? a = some .gt ∧ a.compare? c = some .lt ∧ b.compare? b = none := by
  intro a b c
  have ha : a.FloatFree := .list (by simp [FloatFree.int, FloatFree.str])
  have hb : b.FloatFree := .list (by simp [FloatFree.decimal, FloatFree.str, FloatFree.null])
  have hc : c.FloatFree := .list (by simp [FloatFree.int, FloatFree.null])
  have hab : a.compare? b = some .lt := by decide
  have hbc : b.compare? c = some .lt := by decide
  obtain ⟨hswap, -, htrans, -⟩ := compare?_laws ha hb hc
  obtain ⟨o, ho, -, hlt⟩ := htrans _ _ hab hbc rfl rfl
  rw [hab] at hswap
  exact ⟨hswap, hlt (.inl rfl) ▸ ho, by decide⟩

end Value

end SqlCode

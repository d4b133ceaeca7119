import Mathlib.Order.Basic
import Mathlib.Tactic.FinCases
import SqlCode.SqlType.CommonType

/-!
# Common types are joins

Names of types are ordered by widening, with NULL below and ANY above all others, and types are ordered by their names and by
whether they admit null. The common type of a list is the least type above its members, where ANY counts only if it is
a member itself. What the common type depends on and how it is found in parts follows from that.
-/

namespace SqlCode

namespace TypeName

variable {a b c m n w : TypeName} {names : List TypeName}

/-- The widest name of the family that the name belongs to. -/
def widest? : TypeName → Option TypeName
  | .tinyInt | .smallInt | .integer | .bigInt | .decimal | .real | .float | .double => some .double
  | .char | .varchar => some .varchar
  | .binary | .varBinary => some .varBinary
  | .intervalYear | .intervalYearMonth | .intervalMonth => some .intervalYearMonth
  | .intervalDay | .intervalDayHour | .intervalDayMinute | .intervalDaySecond | .intervalHour | .intervalHourMinute
  | .intervalHourSecond | .intervalMinute | .intervalMinuteSecond | .intervalSecond => some .intervalDaySecond
  | .date | .timestamp => some .timestamp
  | _ => none

/-- Values of the first name become values of the second one. Numbers widen step by step, and the other names of a family
to its widest name only. -/
def Widens (a b : TypeName) : Prop :=
  a = .null ∨ b = .any ∨ a = b ∨
    ∃ w, a.widest? = some w ∧ b.widest? = some w ∧ if w = .double then a.numericRank ≤ b.numericRank else b = w

theorem Widens.refl (a : TypeName) : Widens a a := .inr (.inr (.inl rfl))

/-- The tests for families, in terms of their widest names. -/
theorem families : isNumeric = (·.widest? == some .double) ∧ isCharacter = (·.widest? == some .varchar) ∧
    isBinary = (·.widest? == some .varBinary) ∧ isYearMonthInterval = (·.widest? == some .intervalYearMonth) ∧
    isDayTimeInterval = (·.widest? == some .intervalDaySecond) ∧
    (fun n => n == date || n == timestamp) = (·.widest? == some .timestamp) := by
  refine ⟨?_, ?_, ?_, ?_, ?_, ?_⟩ <;> funext n <;> cases n <;> rfl

theorem widest?_of_widest? (h : n.widest? = some w) : w.widest? = some w := by
  cases n <;> cases h <;> rfl

theorem not_mem_structures (h : n.widest? = some w) : n ∉ [TypeName.array, .multiset, .map, .row] := by
  cases n <;> cases h <;> decide

theorem eq_of_numericRank (ha : a.widest? = some .double) (hb : b.widest? = some .double)
    (h : a.numericRank = b.numericRank) : a = b := by
  have hinverse : ∀ {n : TypeName}, n.widest? = some .double → some n =
      [tinyInt, .smallInt, .integer, .bigInt, .decimal, .real, .float, .double][n.numericRank]? := by
    intro n hn
    cases n <;> cases hn <;> rfl
  exact Option.some.inj ((hinverse ha).trans ((congrArg _ h).trans (hinverse hb).symm))

theorem Widens.antisymm (h : Widens a b) (h' : Widens b a) : a = b := by
  have hnull : widest? .null = none := rfl
  have hany : widest? .any = none := rfl
  unfold Widens at h h'
  grind [eq_of_numericRank]

theorem Widens.trans (h : Widens a b) (h' : Widens b c) : Widens a c := by
  have hnull : widest? .null = none := rfl
  have hany : widest? .any = none := rfl
  unfold Widens at h h' ⊢
  grind

/-- A family that a name widens inside of has both names. -/
theorem Widens.widest? (h : Widens a b) (ha : a ≠ .null) (hb : b ≠ .any) : a.widest? = b.widest? := by
  obtain rfl | rfl | rfl | ⟨w, ha', hb', -⟩ := h
  · exact absurd rfl ha
  · exact absurd rfl hb
  · rfl
  · rw [ha', hb']

/-! ### Families -/

theorem foldl_wider (first : TypeName) (rest : List TypeName) : rest.foldl wider first ∈ first :: rest ∧
    ∀ m ∈ first :: rest, m.numericRank ≤ (rest.foldl wider first).numericRank := by
  induction rest generalizing first with
  | nil => simp
  | cons b rest ih =>
    have hwider : (first.wider b = first ∨ first.wider b = b) ∧ first.numericRank ≤ (first.wider b).numericRank ∧
        b.numericRank ≤ (first.wider b).numericRank := by
      unfold wider
      split_ifs with h
      · exact ⟨.inr rfl, h, le_rfl⟩
      · exact ⟨.inl rfl, le_rfl, by omega⟩
    obtain ⟨hmem, hle⟩ := ih (first.wider b)
    simp only [List.foldl_cons, List.mem_cons] at hmem hle ⊢
    grind

theorem commonOf?_of_family (hne : names ≠ []) (h : ∀ m ∈ names, m.widest? = some w) :
    commonOf? names = some (if w = .double then names.tail.foldl wider (names.head hne)
      else if names.all (· == .char) then .char else w) := by
  have hall : ∀ w', (names.all fun m => m.widest? == some w') = decide (w = w') := by
    intro w'
    rw [Bool.eq_iff_iff, List.all_eq_true, decide_eq_true_iff]
    constructor
    · intro h'
      exact Option.some.inj ((h _ (List.head_mem hne)).symm.trans (beq_iff_eq.1 (h' _ (List.head_mem hne))))
    · rintro rfl m hm
      rw [h m hm, beq_self_eq_true]
  have hw : w ∈ [double, .varchar, .varBinary, .intervalYearMonth, .intervalDaySecond, .timestamp] := by
    have := h _ (List.head_mem hne)
    revert this
    cases names.head hne <;> rintro ⟨⟩ <;> decide
  cases names with
  | nil => exact absurd rfl hne
  | cons first rest =>
    obtain ⟨hnumeric, hcharacter, hbinary, hmonths, hmillis, hdatetime⟩ := families
    simp only [commonOf?, hnumeric, hcharacter, hbinary, hmonths, hmillis, hdatetime, hall]
    have hchar : (first :: rest).all (· == .char) → w = .varchar := fun hc =>
      Option.some.inj ((h first (by simp)).symm.trans (by rw [beq_iff_eq.1 (List.all_eq_true.1 hc first (by simp))]; rfl))
    fin_cases hw <;> grind

/-- Names with a family type are of one family. -/
theorem exists_family_of_commonOf? (h : commonOf? names = some n) : ∃ w, ∀ m ∈ names, m.widest? = some w := by
  obtain ⟨hnumeric, hcharacter, hbinary, hmonths, hmillis, hdatetime⟩ := families
  cases names with
  | nil => cases h
  | cons first rest =>
    simp only [commonOf?, hnumeric, hcharacter, hbinary, hmonths, hmillis, hdatetime] at h
    have hall : ∀ w, ((first :: rest).all fun m => m.widest? == some w) →
        ∀ m ∈ first :: rest, m.widest? = some w := fun w hw m hm => beq_iff_eq.1 (List.all_eq_true.1 hw m hm)
    split_ifs at h
    all_goals exact ⟨_, hall _ ‹_›⟩

/-- The family type of different names is the least name that they widen to. -/
theorem widens_commonOf? (h : commonOf? names = some n) (hdiff : ∀ a, ∃ m ∈ names, m ≠ a) :
    (∀ m ∈ names, m.widest? = n.widest? ∧ Widens m n) ∧ ∀ u, (∀ m ∈ names, Widens m u) → Widens n u := by
  obtain ⟨w, hw⟩ := exists_family_of_commonOf? h
  have hne : names ≠ [] := by
    rintro rfl
    cases h
  rw [commonOf?_of_family hne hw, Option.some.injEq] at h
  split_ifs at h with hdouble hchar
  · obtain ⟨hmem, hle⟩ := foldl_wider (names.head hne) names.tail
    rw [List.cons_head_tail, h] at hmem hle
    refine ⟨fun m hm => ⟨(hw m hm).trans (hw n hmem).symm, .inr (.inr (.inr ⟨w, hw m hm, hw n hmem, ?_⟩))⟩,
      fun u hu => hu n hmem⟩
    rw [if_pos hdouble]
    exact hle m hm
  · obtain ⟨m, hm, hne'⟩ := hdiff .char
    exact absurd (beq_iff_eq.1 (List.all_eq_true.1 hchar m hm)) hne'
  · subst h
    have hself := widest?_of_widest? (hw _ (List.head_mem hne))
    refine ⟨fun m hm => ⟨(hw m hm).trans hself.symm, .inr (.inr (.inr ⟨w, hw m hm, hself, if_neg hdouble ▸ rfl⟩))⟩,
      fun u hu => ?_⟩
    obtain ⟨m, hm, hne'⟩ := hdiff u
    obtain hnull | hany | heq | ⟨w', hm', hu', hu''⟩ := hu m hm
    · cases hnull ▸ hw m hm
    · exact .inr (.inl hany)
    · exact absurd heq hne'
    · obtain rfl := Option.some.inj ((hw m hm).symm.trans hm')
      rw [if_neg hdouble] at hu''
      exact hu'' ▸ .refl _

end TypeName

/-! ### Types -/

namespace SqlType

variable {t u v x : SqlType} {xs ys : List SqlType}

/-- The types that can be written: names with or without null, and structures of such types. -/
inductive Written : SqlType → Prop
  | plain (name : TypeName) (nullable : Bool) : Written (plain name nullable)
  | array {t : SqlType} : Written t → Written (array t)
  | multiset {t : SqlType} : Written t → Written (multiset t)
  | map {t u : SqlType} : Written t → Written u → Written (map t u)
  | row {ts : List SqlType} : (∀ t ∈ ts, Written t) → Written (row ts)
  | withNullable {t : SqlType} (nullable : Bool) : Written t → Written (t.withNullable nullable)

/-- Only structures have components. -/
theorem Written.eq_plain (h : t.Written) (hname : t.name ∉ [TypeName.array, .multiset, .map, .row]) :
    t = SqlType.plain t.name t.nullable := by
  induction h with
  | plain => rfl
  | withNullable n _ ih =>
    rw [ih hname]
    rfl
  | _ => simp [SqlType.array, SqlType.multiset, SqlType.map, SqlType.row] at hname

/-- Null is a value of the type. -/
def AdmitsNull (t : SqlType) : Prop := t.nullable ∨ t.name = .null

/-- The values of the first type other than null become values of the second one. -/
def Converts (t u : SqlType) : Prop := t.name.Widens u.name ∧ (t.name = u.name → t.withNullable u.nullable = u)

/-- All values of the first type become values of the second one. -/
structure Below (t u : SqlType) : Prop where
  null : t.AdmitsNull → u.nullable
  converts : t.Converts u

theorem Written.converts (ht : t.Written) (hu : u.Written) (h : t.name.Widens u.name)
    (hname : t.name ∉ [TypeName.array, .multiset, .map, .row]) : t.Converts u := by
  refine ⟨h, fun heq => ?_⟩
  rw [ht.eq_plain hname, hu.eq_plain (heq ▸ hname), heq]
  rfl

theorem Written.converts_any (ht : t.Written) (hu : u.Written) (h : u.name = .any) : t.Converts u :=
  ⟨.inr (.inl h), fun heq => (ht.converts hu (.inr (.inl h)) (by simp [heq, h])).2 heq⟩

theorem sameUpToNull_iff : t.sameUpToNull u ↔ t.withNullable u.nullable = u := by
  obtain ⟨n, b, c, k, fs⟩ := t
  obtain ⟨n', b', c', k', fs'⟩ := u
  simp only [sameUpToNull, withNullable, Bool.and_eq_true, beq_iff_eq, mk.injEq, true_and]
  constructor
  · rintro ⟨⟨⟨rfl, hc⟩, hk⟩, hf⟩
    exact ⟨rfl, eq_of_sameOption hc, eq_of_sameOption hk, eq_of_sameFields hf⟩
  · rintro ⟨rfl, rfl, rfl, rfl⟩
    exact ⟨⟨⟨rfl, sameOption_refl c⟩, sameOption_refl k⟩, sameFields_refl fs⟩

theorem withNullable_self (t : SqlType) : t.withNullable t.nullable = t := by
  cases t
  rfl

theorem Below.antisymm (h : t.Below u) (h' : u.Below t) : t = u := by
  have hnull : t.nullable = u.nullable :=
    Bool.eq_iff_iff.2 ⟨fun ht => h.null (.inl ht), fun hu => h'.null (.inl hu)⟩
  rw [← h.converts.2 (h.converts.1.antisymm h'.converts.1), ← hnull, withNullable_self]

theorem Below.trans (h : t.Below u) (h' : u.Below v) : t.Below v := by
  refine ⟨fun ht => h'.null (.inl (h.null ht)), h.converts.1.trans h'.converts.1, fun heq => ?_⟩
  have htu : t.name = u.name := h.converts.1.antisymm (heq ▸ h'.converts.1)
  rw [← h'.converts.2 (htu ▸ heq), ← h.converts.2 htu]
  rfl

/-! ### Bounds -/

/-- The type is above the members of the list, and ANY is so only where it is a member. -/
def Bounds (xs : List SqlType) (u : SqlType) : Prop :=
  (u.name = .any → ∃ t ∈ xs, t.name = .any) ∧ ∀ t ∈ xs, t.Below u

/-- The least bound. -/
def IsJoin (xs : List SqlType) (t : SqlType) : Prop :=
  t.Written ∧ Bounds xs t ∧ ∀ u, u.Written → Bounds xs u → t.Below u

theorem anyNullable_iff : anyNullable xs ↔ ∃ t ∈ xs, t.AdmitsNull := by
  simp [anyNullable, AdmitsNull]

/-- Null aside, a least bound is one to which the members convert and that converts to the bounds. -/
theorem isJoin_of_converts (hxs : ∀ x ∈ xs, x.Written) (ht : t.Written) (hnull : t.nullable = anyNullable xs)
    (hname : t.name = .null → t.nullable) (hany : t.name = .any → ∃ x ∈ xs, x.name = .any)
    (habove : ∀ x ∈ xs, x.name ≠ .null → x.Converts t) (hleast : ∀ u, u.Written → Bounds xs u → t.Converts u) :
    IsJoin xs t := by
  refine ⟨ht, ⟨hany, fun x hx => ⟨fun hadmits => ?_, ?_⟩⟩, fun u hu hbounds => ⟨fun hadmits => ?_, hleast u hu hbounds⟩⟩
  · exact hnull.trans (anyNullable_iff.2 ⟨x, hx, hadmits⟩)
  · by_cases hx' : x.name = .null
    · exact (hxs x hx).converts ht (.inl hx') (by simp [hx'])
    · exact habove x hx hx'
  · obtain ⟨x, hx, hadmits⟩ := anyNullable_iff.1 (hnull ▸ hadmits.elim id hname)
    exact (hbounds.2 x hx).null hadmits

/-- Types in one family that are different have different names. -/
theorem exists_name_ne (hxs : ∀ x ∈ xs, x.Written) {w : TypeName} (hw : ∀ x ∈ xs, x.name.widest? = some w)
    (ht : t ∈ xs) (h : ¬ ∀ x ∈ xs, x.withNullable t.nullable = t) (a : TypeName) : ∃ n ∈ xs.map (·.name), n ≠ a := by
  by_contra hall
  have hname : ∀ x ∈ xs, x.name = a := by simpa using hall
  refine h fun x hx => ?_
  have hsame : x.name = t.name := (hname x hx).trans (hname t ht).symm
  exact ((hxs x hx).converts (hxs t ht) (hsame ▸ .refl _) (TypeName.not_mem_structures (hw x hx))).2 hsame

theorem isJoin_common? (hne : xs ≠ []) (hxs : ∀ x ∈ xs, x.Written) (h : common? xs = some t) :
    IsJoin xs t ∧ t.nullable = anyNullable xs := by
  simp only [common?] at h
  split at h
  · rename_i hfilter
    have hnull : ∀ x ∈ xs, x.name = .null := by simpa using hfilter
    obtain ⟨x, xs, rfl⟩ := List.exists_cons_of_ne_nil hne
    obtain rfl : x.withNullable true = t := by simpa using h
    have hx := hnull x (by simp)
    have hall : true = anyNullable (x :: xs) := (anyNullable_iff.2 ⟨x, by simp, .inr hx⟩).symm
    have hw := (hxs x (by simp)).withNullable true
    refine ⟨isJoin_of_converts hxs hw hall (fun _ => rfl) (fun hany => ?_) (fun y hy hne => absurd (hnull y hy) hne)
      fun u hu _ => hw.converts hu (.inl hx) ?_, hall⟩
    · cases hx.symm.trans hany
    · show x.name ∉ _
      simp [hx]
  · rename_i first rest hfilter
    have hmem : ∀ x, x ∈ first :: rest ↔ x ∈ xs ∧ x.name ≠ .null := by simp [← hfilter]
    obtain ⟨hfirst, hfirst'⟩ := (hmem first).1 (by simp)
    have hwritten : ∀ x ∈ first :: rest, x.Written := fun x hx => hxs x ((hmem x).1 hx).1
    split_ifs at h with hany hsame
    · obtain rfl := Option.some.inj h
      obtain ⟨x, hx, hx'⟩ : ∃ x ∈ xs, x.name = .any := by
        obtain ⟨x, hx, hx'⟩ := List.any_eq_true.1 hany
        exact ⟨x, ((hmem x).1 hx).1, beq_iff_eq.1 hx'⟩
      have hw := Written.plain .any (anyNullable xs)
      refine ⟨isJoin_of_converts hxs hw rfl (fun h => by cases h) (fun _ => ⟨x, hx, hx'⟩)
        (fun y hy _ => (hxs y hy).converts_any hw rfl) fun u hu hbounds => hw.converts hu ?_ (by simp [plain]), rfl⟩
      exact hx' ▸ (hbounds.2 x hx).converts.1
    · obtain rfl := Option.some.inj h
      have hsame' : ∀ x ∈ xs, x.name ≠ .null → x.withNullable first.nullable = first := fun x hx hx' =>
        sameUpToNull_iff.1 (List.all_eq_true.1 hsame x ((hmem x).2 ⟨hx, hx'⟩))
      refine ⟨isJoin_of_converts hxs ((hxs first hfirst).withNullable _) rfl (fun h => absurd h hfirst')
        (fun hname => ⟨first, hfirst, hname⟩) (fun x hx hx' => ?_) fun u _ hbounds => (hbounds.2 first hfirst).converts,
        rfl⟩
      rw [← hsame' x hx hx']
      exact ⟨.refl _, fun _ => rfl⟩
    · obtain ⟨n, hn, rfl⟩ := Option.map_eq_some_iff.1 h
      obtain ⟨w, hw⟩ := TypeName.exists_family_of_commonOf? hn
      have hdiff := exists_name_ne hwritten (fun x hx => hw _ (List.mem_map_of_mem hx)) (by simp : first ∈ first :: rest)
        fun hall => hsame (List.all_eq_true.2 fun x hx => sameUpToNull_iff.2 (hall x hx))
      obtain ⟨hwidens, hleast⟩ := TypeName.widens_commonOf? hn hdiff
      have hfamily : n.widest? = some w :=
        (hwidens _ (List.mem_map_of_mem (by simp))).1.symm.trans (hw first.name (by simp))
      have hplain := Written.plain n (anyNullable xs)
      refine ⟨isJoin_of_converts hxs hplain rfl (fun h => ?_) (fun h => ?_) (fun x hx hx' => ?_)
        fun u hu hbounds => ?_, rfl⟩
      · cases (show n = _ from h) ▸ hfamily
      · cases (show n = _ from h) ▸ hfamily
      · have hx'' := List.mem_map_of_mem (f := (·.name)) ((hmem x).2 ⟨hx, hx'⟩)
        exact (hxs x hx).converts hplain (hwidens _ hx'').2 (TypeName.not_mem_structures (hw _ hx''))
      · refine hplain.converts hu (hleast _ fun m hm => ?_) (TypeName.not_mem_structures hfamily)
        obtain ⟨x, hx, rfl⟩ := List.mem_map.1 hm
        exact (hbounds.2 x ((hmem x).1 hx).1).converts.1

theorem common?_ne_none (hne : xs ≠ []) (hbounds : Bounds xs u) : common? xs ≠ none := by
  intro h
  simp only [common?] at h
  split at h
  · exact hne (by simpa using h)
  · rename_i first rest hfilter
    have hmem : ∀ x, x ∈ first :: rest ↔ x ∈ xs ∧ x.name ≠ .null := by simp [← hfilter]
    split_ifs at h with hany hsame
    have hu : u.name ≠ .any := by
      intro hu
      obtain ⟨x, hx, hx'⟩ := hbounds.1 hu
      exact hany (List.any_eq_true.2 ⟨x, (hmem x).2 ⟨hx, by simp [hx']⟩, by simp [hx']⟩)
    have hconverts : ∀ x ∈ first :: rest, x.Converts u ∧ x.name.widest? = u.name.widest? := by
      intro x hx
      obtain ⟨hx, hx'⟩ := (hmem x).1 hx
      exact ⟨(hbounds.2 x hx).converts, (hbounds.2 x hx).converts.1.widest? hx' hu⟩
    cases hw : u.name.widest? with
    | none =>
      have hwith : ∀ x ∈ first :: rest, x.withNullable u.nullable = u := by
        intro x hx
        obtain ⟨⟨hwidens, hx'⟩, hx''⟩ := hconverts x hx
        obtain hnull | hany | heq | ⟨w, hw', -⟩ := hwidens
        · exact absurd hnull ((hmem x).1 hx).2
        · exact absurd hany hu
        · exact hx' heq
        · cases hw'.symm.trans (hx''.trans hw)
      refine hsame (List.all_eq_true.2 fun x hx => sameUpToNull_iff.2 ?_)
      calc x.withNullable first.nullable = (x.withNullable u.nullable).withNullable first.nullable := rfl
        _ = (first.withNullable u.nullable).withNullable first.nullable := by
          rw [hwith x hx, hwith first (by simp)]
        _ = first := withNullable_self first
    | some w =>
      rw [Option.map_eq_none_iff, TypeName.commonOf?_of_family (w := w) (by simp)] at h
      · cases h
      · intro m hm
        obtain ⟨x, hx, rfl⟩ := List.mem_map.1 hm
        exact (hconverts x hx).2.trans hw

theorem common?_eq_some_iff (hne : xs ≠ []) (hxs : ∀ x ∈ xs, x.Written) : common? xs = some t ↔ IsJoin xs t := by
  refine ⟨fun h => (isJoin_common? hne hxs h).1, fun ⟨hw, hbounds, hleast⟩ => ?_⟩
  obtain ⟨t', ht'⟩ := Option.ne_none_iff_exists'.1 (common?_ne_none hne hbounds)
  obtain ⟨⟨hw', hbounds', hleast'⟩, -⟩ := isJoin_common? hne hxs ht'
  rw [ht', (hleast' t hw hbounds).antisymm (hleast t' hw' hbounds')]

/-- A least bound of some members stands for them. -/
theorem bounds_cons_iff (h : IsJoin xs t) (hu : u.Written) : Bounds (t :: ys) u ↔ Bounds (xs ++ ys) u := by
  obtain ⟨ht, ⟨hany, habove⟩, hleast⟩ := h
  constructor
  · rintro ⟨hany', habove'⟩
    rw [List.forall_mem_cons] at habove'
    refine ⟨fun hname => ?_, List.forall_mem_append.2 ⟨fun x hx => (habove x hx).trans habove'.1, habove'.2⟩⟩
    obtain ⟨x, hx, hx'⟩ := hany' hname
    obtain rfl | hx := List.mem_cons.1 hx
    · obtain ⟨y, hy, hy'⟩ := hany hx'
      exact ⟨y, List.mem_append_left _ hy, hy'⟩
    · exact ⟨x, List.mem_append_right _ hx, hx'⟩
  · rintro ⟨hany', habove'⟩
    rw [List.forall_mem_append] at habove'
    refine ⟨fun hname => ?_, List.forall_mem_cons.2 ⟨?_, habove'.2⟩⟩
    · obtain ⟨x, hx, hx'⟩ := hany' hname
      obtain hx | hx := List.mem_append.1 hx
      · refine ⟨t, by simp, ?_⟩
        exact ((habove x hx).converts.1.antisymm (hx' ▸ .inr (.inl rfl))).symm.trans hx'
      · exact ⟨x, by simp [hx], hx'⟩
    · by_cases hname : u.name = .any
      · -- ANY need not bound the first members, but the least bound with the null of ANY does
        refine ⟨(hleast _ (ht.withNullable u.nullable) ⟨hany, fun x hx => ⟨(habove'.1 x hx).null, ?_⟩⟩).null,
          ht.converts_any hu hname⟩
        refine ⟨(habove x hx).converts.1, fun heq => ?_⟩
        rw [← (habove x hx).converts.2 heq]
        rfl
      · exact hleast u hu ⟨fun h => absurd h hname, habove'.1⟩

/-- Common types do not depend on the order or repetition of the members. Members may be replaced by their common type, copies
of a type have that type, and the common type admits null if and only if a member does. -/
theorem common?_join (hne : xs ≠ []) (hxs : ∀ x ∈ xs, x.Written) :
    (∀ ys, (∀ x, x ∈ ys ↔ x ∈ xs) → common? ys = common? xs) ∧
    (∀ t, common? xs = some t → ∀ ys, (∀ y ∈ ys, y.Written) → common? (t :: ys) = common? (xs ++ ys)) ∧
    (∀ t : SqlType, t.Written → t.name ≠ .null → ∀ n, common? (List.replicate (n + 1) t) = some t) ∧
    ∀ t, common? xs = some t → (t.nullable = true ↔ ∃ x ∈ xs, x.nullable = true ∨ x.name = .null) := by
  refine ⟨fun ys hys => ?_, fun t ht ys hys => ?_, fun t ht hname n => ?_, fun t ht => ?_⟩
  · have hne' : ys ≠ [] := by
      obtain ⟨x, hx⟩ := List.exists_mem_of_ne_nil xs hne
      exact List.ne_nil_of_mem ((hys x).2 hx)
    ext t
    rw [common?_eq_some_iff hne' fun x hx => hxs x ((hys x).1 hx), common?_eq_some_iff hne hxs]
    simp only [IsJoin, Bounds, hys]
  · have hjoin := (isJoin_common? hne hxs ht).1
    ext u
    rw [common?_eq_some_iff (by simp) (List.forall_mem_cons.2 ⟨hjoin.1, hys⟩),
      common?_eq_some_iff (by simp [hne]) (List.forall_mem_append.2 ⟨hxs, hys⟩)]
    refine and_congr_right fun hu => and_congr (bounds_cons_iff hjoin hu) (forall_congr' fun v => ?_)
    exact imp_congr_right fun hv => imp_congr_left (bounds_cons_iff hjoin hv)
  · have hmem : t ∈ List.replicate (n + 1) t := by simp
    have hself : t.Below t := ⟨fun h => h.resolve_right hname, .refl _, fun _ => withNullable_self t⟩
    rw [common?_eq_some_iff (by simp) (by simpa using ht)]
    exact ⟨ht, ⟨fun hany => ⟨t, hmem, hany⟩, by simpa using hself⟩, fun u _ hbounds => hbounds.2 t hmem⟩
  · rw [(isJoin_common? hne hxs ht).2]
    exact anyNullable_iff

/-- INTEGER, NULL and BIGINT have the common type BIGINT with null, which stands for them beside DOUBLE. -/
theorem common?_join_numbers :
    let xs : List SqlType := [plain .integer false, plain .null false, plain .bigInt false]
    common? xs = some (plain .bigInt true) ∧
      common? [plain .bigInt true, plain .double false] = common? (xs ++ [plain .double false]) := by
  intro xs
  have hxs : ∀ x ∈ xs, x.Written := by simpa [xs] using ⟨.plain _ _, .plain _ _, .plain _ _⟩
  obtain ⟨-, hreplace, -, -⟩ := common?_join (List.cons_ne_nil _ _) hxs
  exact ⟨rfl, hreplace _ rfl [plain .double false] (by simpa using .plain _ _)⟩

end SqlType

end SqlCode

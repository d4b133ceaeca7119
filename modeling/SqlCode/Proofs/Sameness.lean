import SqlCode.Proofs.DoubleOrder
import SqlCode.Proofs.ExactNumbers

/-!
# Sameness of values

A value that is neither a list nor a map is the same as the values with its content, where doubles count by their place
in the order and decimals by the number they denote. Lists are the same item by item. Maps are the same if they have as
many entries and each entry of one is found in the other: that goes both ways as long as no map binds a key twice.
-/

namespace SqlCode

theorem Decimal.same_iff_toRat (a b : Decimal) : a.same b ↔ a.toRat = b.toRat := by
  rw [same, beq_iff_eq, compare_eq_compare_toRat, compare_eq_iff_eq]

namespace Value

/-! ### Values without parts -/

/-- What a value without parts is told apart by. -/
inductive Atom
  | null
  | truth (b : Bool)
  | word (n : Int64)
  | double (place : Option (ℤ ×ₗ (ℤ ×ₗ ℤ)))
  | decimal (x : ℚ)
  | text (s : String)
  | binary (bytes : List UInt8)
  | symbol (s : Symbol)

/-- The content of a value that is neither a list nor a map. -/
def atom? : Value → Option Atom
  | .null => some .null
  | .bool b => some (.truth b)
  | .int n => some (.word n)
  | .float x => some (.double (Double.key? x))
  | .decimal d => some (.decimal d.toRat)
  | .str s => some (.text s)
  | .bytes bs => some (.binary bs)
  | .symbol s => some (.symbol s)
  | .list _ | .map _ => none

/-- A value without parts is the same as the values with its content. -/
theorem same_iff_atom? {a b : Value} {x : Atom} (h : a.atom? = some x) : a.same b ↔ b.atom? = some x := by
  have hcontent : a.same b ↔ a.atom? = b.atom? := by
    cases a <;> cases h <;> cases b <;> first
      | exact iff_of_false Bool.false_ne_true (by rintro ⟨⟩)
      | simp [same, atom?, Double.same_iff_key?, Decimal.same_iff_toRat]
  rw [hcontent, h, eq_comm]

/-! ### Lists and maps -/

theorem sameItems_iff {as bs : List Value} :
    sameItems as bs ↔ List.Forall₂ (fun a b => a.same b) as bs := by
  induction as generalizing bs with
  | nil => cases bs <;> simp [sameItems]
  | cons a as ih => cases bs <;> simp [sameItems, ih]

theorem sameEntries_iff {es fs : List (Value × Value)} :
    sameEntries es fs ↔ ∀ e ∈ es, ∃ f ∈ fs, e.1.same f.1 ∧ e.2.same f.2 := by
  have hentry : ∀ e f : Value × Value, sameEntry e f ↔ e.1.same f.1 ∧ e.2.same f.2 := by
    rintro ⟨k, v⟩ f
    rw [sameEntry, Bool.and_eq_true]
  induction es with
  | nil => simp [sameEntries]
  | cons e es ih =>
    simp only [sameEntries, Bool.and_eq_true, List.any_eq_true, hentry, ih, List.forall_mem_cons]

theorem same_list_iff {as : List Value} {b : Value} :
    (Value.list as).same b ↔ ∃ bs, b = .list bs ∧ List.Forall₂ (fun a b => a.same b) as bs := by
  cases b with
  | list bs =>
    show sameItems as bs = true ↔ _
    simp [sameItems_iff]
  | _ => exact iff_of_false Bool.false_ne_true (by rintro ⟨_, ⟨⟩, _⟩)

/-- Maps are the same if they have as many entries and those of the first are found in the second. -/
theorem same_map_iff {es : List (Value × Value)} {b : Value} :
    (Value.map es).same b ↔ ∃ fs, b = .map fs ∧ es.length = fs.length ∧
      ∀ e ∈ es, ∃ f ∈ fs, e.1.same f.1 ∧ e.2.same f.2 := by
  cases b with
  | map fs =>
    show (es.length == fs.length && sameEntries es fs) = true ↔ _
    simp [sameEntries_iff]
  | _ => exact iff_of_false Bool.false_ne_true (by rintro ⟨_, ⟨⟩, _⟩)

/-- If as many things have each a partner, and no two of them share one, then all partners are taken. -/
theorem exists_of_partners {α β : Type} {R : α → β → Prop} {as : List α} {bs : List β}
    (hlength : as.length = bs.length) (hpartner : ∀ a ∈ as, ∃ b ∈ bs, R a b)
    (happart : as.Pairwise fun a a' => ∀ b, R a b → ¬R a' b) : ∀ b ∈ bs, ∃ a ∈ as, R a b := by
  induction as generalizing bs with
  | nil =>
    intro b hb
    rw [List.eq_nil_of_length_eq_zero hlength.symm] at hb
    cases hb
  | cons a as ih =>
    obtain ⟨⟨b, hb, hab⟩, hpartner⟩ := List.forall_mem_cons.1 hpartner
    obtain ⟨hhead, htail⟩ := List.pairwise_cons.1 happart
    obtain ⟨front, back, rfl⟩ := List.append_of_mem hb
    -- the others have their partners elsewhere
    have hothers : ∀ a' ∈ as, ∃ b' ∈ front ++ back, R a' b' := by
      intro a' ha'
      obtain ⟨b', hb', hab'⟩ := hpartner a' ha'
      refine ⟨b', ?_, hab'⟩
      have hne : b' ≠ b := fun heq => hhead a' ha' b hab (heq ▸ hab')
      simpa [hne] using hb'
    have hrest := ih (by simp at hlength ⊢; omega) hothers htail
    intro b' hb'
    by_cases heq : b' = b
    · exact ⟨a, List.mem_cons_self, heq ▸ hab⟩
    · obtain ⟨a', ha', hab'⟩ := hrest b' (by simpa [heq] using hb')
      exact ⟨a', List.mem_cons_of_mem _ ha', hab'⟩

/-! ### Maps that bind no key twice -/

/-- No map in the value, at any depth, binds a key twice. -/
inductive WellKeyed : Value → Prop
  | atom {v : Value} {x : Atom} : v.atom? = some x → WellKeyed v
  | list {items : List Value} : (∀ v ∈ items, WellKeyed v) → WellKeyed (.list items)
  | map {entries : List (Value × Value)} : (∀ e ∈ entries, WellKeyed e.1) → (∀ e ∈ entries, WellKeyed e.2) →
      entries.Pairwise (fun e f => e.1.same f.1 = false) → WellKeyed (.map entries)

namespace WellKeyed

variable {a b c : Value}

theorem same_refl (ha : a.WellKeyed) : a.same a := by
  induction ha with
  | atom h => exact (same_iff_atom? h).2 h
  | list _ ih => exact same_list_iff.2 ⟨_, rfl, List.forall₂_same.2 ih⟩
  | map _ _ _ ihk ihv => exact same_map_iff.2 ⟨_, rfl, rfl, fun e he => ⟨e, he, ihk e he, ihv e he⟩⟩

theorem same_trans (ha : a.WellKeyed) (hab : a.same b) (hbc : b.same c) : a.same c := by
  induction ha generalizing b c with
  | atom h => exact (same_iff_atom? h).2 ((same_iff_atom? ((same_iff_atom? h).1 hab)).1 hbc)
  | @list as hwell ih =>
    obtain ⟨bs, rfl, has⟩ := same_list_iff.1 hab
    obtain ⟨cs, rfl, hbs⟩ := same_list_iff.1 hbc
    refine same_list_iff.2 ⟨cs, rfl, ?_⟩
    clear hwell hab hbc
    induction has generalizing cs with
    | nil =>
      cases hbs
      exact .nil
    | cons hhead _ ihtail =>
      cases hbs with
      | cons hhead' htail' =>
        obtain ⟨ihhead, ih⟩ := List.forall_mem_cons.1 ih
        exact .cons (ihhead hhead hhead') (ihtail ih _ htail')
  | map _ _ _ ihk ihv =>
    obtain ⟨fs, rfl, hlength, hes⟩ := same_map_iff.1 hab
    obtain ⟨gs, rfl, hlength', hfs⟩ := same_map_iff.1 hbc
    refine same_map_iff.2 ⟨gs, rfl, hlength.trans hlength', fun e he => ?_⟩
    obtain ⟨f, hf, hk, hv⟩ := hes e he
    obtain ⟨g, hg, hk', hv'⟩ := hfs f hf
    exact ⟨g, hg, ihk e he hk hk', ihv e he hv hv'⟩

/-- The entries of the second map are all found in the first, since no two entries of the first are found at one place. -/
theorem same_symm (ha : a.WellKeyed) (hab : a.same b) : b.same a := by
  induction ha generalizing b with
  | atom h => exact (same_iff_atom? ((same_iff_atom? h).1 hab)).2 h
  | @list as hwell ih =>
    obtain ⟨bs, rfl, has⟩ := same_list_iff.1 hab
    refine same_list_iff.2 ⟨as, rfl, ?_⟩
    clear hwell hab
    induction has with
    | nil => exact .nil
    | cons hhead _ ihtail =>
      obtain ⟨ihhead, ih⟩ := List.forall_mem_cons.1 ih
      exact .cons (ihhead hhead) (ihtail ih)
  | @map es hkeys _ happart ihk ihv =>
    obtain ⟨fs, rfl, hlength, hes⟩ := same_map_iff.1 hab
    have hshared : es.Pairwise fun e e' => ∀ f : Value × Value, e.1.same f.1 ∧ e.2.same f.2 →
        ¬(e'.1.same f.1 ∧ e'.2.same f.2) := by
      refine happart.imp_of_mem fun {e e'} he he' hne f hf hf' => ?_
      rw [(hkeys e he).same_trans hf.1 (ihk e' he' hf'.1)] at hne
      cases hne
    refine same_map_iff.2 ⟨es, rfl, hlength.symm, fun f hf => ?_⟩
    obtain ⟨e, he, hk, hv⟩ := exists_of_partners hlength hes hshared f hf
    exact ⟨e, he, ihk e he hk, ihv e he hv⟩

theorem same_congr_left (ha : a.WellKeyed) (hb : b.WellKeyed) (hab : a.same b) (c : Value) :
    a.same c = b.same c :=
  Bool.eq_iff_iff.2 ⟨hb.same_trans (ha.same_symm hab), ha.same_trans hab⟩

end WellKeyed

/-! ### Binding keys -/

variable {entries : List (Value × Value)} {k v : Value}

/-- An entry after a binding has the key and the value of entries before, or the new ones. -/
theorem mem_insert {e : Value × Value} (h : e ∈ insert entries k v) :
    (e.1 = k ∨ ∃ f ∈ entries, f.1 = e.1) ∧ (e.2 = v ∨ ∃ f ∈ entries, f.2 = e.2) := by
  induction entries with
  | nil =>
    rw [List.mem_singleton.1 h]
    exact ⟨.inl rfl, .inl rfl⟩
  | cons f es ih =>
    rw [insert] at h
    split at h
    · rcases List.mem_cons.1 h with rfl | h
      · exact ⟨.inr ⟨f, List.mem_cons_self, rfl⟩, .inl rfl⟩
      · exact ⟨.inr ⟨e, List.mem_cons_of_mem _ h, rfl⟩, .inr ⟨e, List.mem_cons_of_mem _ h, rfl⟩⟩
    · rcases List.mem_cons.1 h with rfl | h
      · exact ⟨.inr ⟨e, List.mem_cons_self, rfl⟩, .inr ⟨e, List.mem_cons_self, rfl⟩⟩
      · obtain ⟨hkey, hvalue⟩ := ih h
        exact ⟨hkey.imp_right (Exists.imp fun _ => And.imp_left (List.mem_cons_of_mem _)),
          hvalue.imp_right (Exists.imp fun _ => And.imp_left (List.mem_cons_of_mem _))⟩

theorem pairwise_insert (h : entries.Pairwise fun e f => e.1.same f.1 = false) :
    (insert entries k v).Pairwise fun e f => e.1.same f.1 = false := by
  induction entries with
  | nil => exact List.pairwise_singleton _ _
  | cons e es ih =>
    obtain ⟨hhead, htail⟩ := List.pairwise_cons.1 h
    rw [insert]
    split_ifs with hkey
    · exact List.pairwise_cons.2 ⟨hhead, htail⟩
    · refine List.pairwise_cons.2 ⟨fun f hf => ?_, ih htail⟩
      rcases (mem_insert hf).1 with heq | ⟨g, hg, heq⟩
      · rw [heq, Bool.eq_false_iff]
        exact hkey
      · rw [← heq]
        exact hhead g hg

theorem WellKeyed.insert (h : (Value.map entries).WellKeyed) (hk : k.WellKeyed) (hv : v.WellKeyed) :
    (Value.map (Value.insert entries k v)).WellKeyed := by
  cases h with
  | atom h => cases h
  | map hkeys hvalues happart =>
    refine .map (fun e he => ?_) (fun e he => ?_) (pairwise_insert happart)
    · rcases (mem_insert he).1 with heq | ⟨f, hf, heq⟩
      · exact heq ▸ hk
      · exact heq ▸ hkeys f hf
    · rcases (mem_insert he).2 with heq | ⟨f, hf, heq⟩
      · exact heq ▸ hv
      · exact heq ▸ hvalues f hf

/-- A map that is built by binding keys binds no key twice. -/
theorem WellKeyed.mapOf (h : ∀ e ∈ entries, e.1.WellKeyed ∧ e.2.WellKeyed) : (Value.mapOf entries).WellKeyed := by
  have hfold : ∀ start, (Value.map start).WellKeyed →
      (Value.map (entries.foldl (fun es e => Value.insert es e.1 e.2) start)).WellKeyed := by
    induction entries with
    | nil => exact fun _ => id
    | cons e es ih =>
      obtain ⟨hhead, htail⟩ := List.forall_mem_cons.1 h
      exact fun start hstart => ih htail _ (hstart.insert hhead.1 hhead.2)
  exact hfold [] (.map (by simp) (by simp) .nil)

end Value

end SqlCode

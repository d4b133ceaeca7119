import Mathlib.Order.Basic
import SqlCode.Regex.Search

/-!
# What a search finds

A search marks the places it has tried, where a place is an instruction and a position in the text.
Whatever goes on from a marked place is marked too or still to be tried, so that a search that ends
without an arrival has marked every place that can be reached from its starts, and none of them
arrives.
-/

namespace SqlCode

namespace Regex

/-- The instruction and the position of a thread. -/
def Thread.place (t : Thread) : ℕ × ℕ := (t.inst, t.pos)

namespace Matcher

variable {m : Matcher} {text : Array Char} {tried : Array Bool} {t : Thread} {ts : List Thread}
  {x y : ℕ × ℕ} {xs : List (ℕ × ℕ)}

/-- The places that an instruction goes on to; none at the end of the program. -/
def next? (m : Matcher) (text : Array Char) (x : ℕ × ℕ) : Option (List (ℕ × ℕ)) :=
  match m.program[x.1]? with
  | none => some []
  | some .done => none
  | some (.set s next) => some (if text[x.2]?.any s.contains then [(next, x.2 + 1)] else [])
  | some (.look l next) => some (if l.holds text x.2 then [(next, x.2)] else [])
  | some (.save _ next) => some [(next, x.2)]
  | some (.split choices) => some (choices.map (·, x.2))

/-- The program has a way from the place to its end. -/
inductive Arrives (m : Matcher) (text : Array Char) : ℕ × ℕ → Prop
  | done {x : ℕ × ℕ} : m.next? text x = none → Arrives m text x
  | step {x y : ℕ × ℕ} {ys : List (ℕ × ℕ)} : m.next? text x = some ys → y ∈ ys → Arrives m text y →
      Arrives m text x

/-- A thread goes on as its place does, whatever positions it saved. -/
theorem map_advance (m : Matcher) (text : Array Char) (t : Thread) :
    (m.advance text t).map (·.map Thread.place) = m.next? text t.place := by
  unfold next? advance Thread.place
  cases m.program[t.inst]? with
  | none => rfl
  | some i =>
    cases i with
    | set s next =>
      cases text[t.pos]? with
      | none => rfl
      | some c => cases hc : s.contains c <;> simp [hc]
    | look l next => cases hl : l.holds text t.pos <;> simp [hl]
    | save place next => rfl
    | split choices => simp
    | done => rfl

theorem arrives_iff_of_next? {ys : List (ℕ × ℕ)} (h : m.next? text x = some ys) :
    m.Arrives text x ↔ ∃ y ∈ ys, m.Arrives text y := by
  constructor
  · rintro (hdone | ⟨hstep, hy, harrives⟩)
    · cases hdone.symm.trans h
    · cases hstep.symm.trans h
      exact ⟨_, hy, harrives⟩
  · rintro ⟨y, hy, harrives⟩
    exact .step h hy harrives

theorem arrives_iff_of_next?_ite {c : Prop} [Decidable c]
    (h : m.next? text x = some (if c then [y] else [])) :
    m.Arrives text x ↔ c ∧ m.Arrives text y := by
  rw [arrives_iff_of_next? h]
  by_cases hc : c
  · simp only [hc, if_true, List.mem_singleton, exists_eq_left, true_and]
  · simp only [hc, if_false, List.not_mem_nil, false_and, exists_false]

section Instructions

variable {i pos next : ℕ}

theorem arrives_done (hi : m.program[i]? = some .done) : m.Arrives text (i, pos) :=
  .done (by rw [next?, hi])

theorem arrives_set {s : CharSet} (hi : m.program[i]? = some (.set s next)) :
    m.Arrives text (i, pos) ↔ text[pos]?.any s.contains ∧ m.Arrives text (next, pos + 1) :=
  arrives_iff_of_next?_ite (by rw [next?, hi])

theorem arrives_look {l : Look} (hi : m.program[i]? = some (.look l next)) :
    m.Arrives text (i, pos) ↔ l.holds text pos ∧ m.Arrives text (next, pos) :=
  arrives_iff_of_next?_ite (by rw [next?, hi])

theorem arrives_split {choices : List ℕ} (hi : m.program[i]? = some (.split choices)) :
    m.Arrives text (i, pos) ↔ ∃ c ∈ choices, m.Arrives text (c, pos) := by
  have hnext : m.next? text (i, pos) = some (choices.map (·, pos)) := by rw [next?, hi]
  simp only [arrives_iff_of_next? hnext, List.mem_map, exists_exists_and_eq_and]

end Instructions

/-! ### Marks -/

/-- The place was tried, or is no place of the program. -/
def Marked (text : Array Char) (tried : Array Bool) (x : ℕ × ℕ) : Prop :=
  tried.getD (x.1 * (text.size + 1) + x.2) true = true

/-- What goes on from a marked place is marked or among the places still to be tried. -/
def Closed (m : Matcher) (text : Array Char) (tried : Array Bool) (xs : List (ℕ × ℕ)) : Prop :=
  ∀ x, x.2 ≤ text.size → Marked text tried x →
    ∃ ys, m.next? text x = some ys ∧ ∀ y ∈ ys, Marked text tried y ∨ y ∈ xs

theorem le_size_of_mem_next? {ys : List (ℕ × ℕ)} (hnext : m.next? text x = some ys) (hx : x.2 ≤ text.size)
    (hy : y ∈ ys) : y.2 ≤ text.size := by
  unfold next? at hnext
  split at hnext <;> cases hnext
  · cases hy
  · split_ifs at hy with hc
    · obtain rfl := List.mem_singleton.1 hy
      obtain ⟨c, hc, -⟩ := (Option.any_eq_true _ _).1 hc
      exact (Array.getElem?_eq_some_iff.1 hc).1
    · cases hy
  · split_ifs at hy
    · obtain rfl := List.mem_singleton.1 hy
      exact hx
    · cases hy
  · obtain rfl := List.mem_singleton.1 hy
    exact hx
  · obtain ⟨c, -, rfl⟩ := List.mem_map.1 hy
    exact hx

theorem Closed.not_arrives (h : m.Closed text tried []) (hx : x.2 ≤ text.size)
    (hmarked : Marked text tried x) : ¬ m.Arrives text x := by
  intro harrives
  induction harrives with
  | done hdone =>
    obtain ⟨ys, hys, -⟩ := h _ hx hmarked
    simp [hdone] at hys
  | step hnext hy _ ih =>
    obtain ⟨ys, hys, hall⟩ := h _ hx hmarked
    cases hnext.symm.trans hys
    exact ih (le_size_of_mem_next? hnext hx hy) ((hall _ hy).resolve_right List.not_mem_nil)

theorem eq_of_mark_eq (hx : x.2 ≤ text.size) (hy : y.2 ≤ text.size)
    (h : x.1 * (text.size + 1) + x.2 = y.1 * (text.size + 1) + y.2) : x = y := by
  have hdiv := congrArg (· / (text.size + 1)) h
  have hmod := congrArg (· % (text.size + 1)) h
  simp only [Nat.mul_comm _ (text.size + 1), Nat.mul_add_div (Nat.succ_pos _), Nat.mul_add_mod,
    Nat.div_eq_of_lt (Nat.lt_succ_of_le hx), Nat.div_eq_of_lt (Nat.lt_succ_of_le hy),
    Nat.mod_eq_of_lt (Nat.lt_succ_of_le hx), Nat.mod_eq_of_lt (Nat.lt_succ_of_le hy)] at hdiv hmod
  exact Prod.ext hdiv hmod

theorem marked_setIfInBounds {i : ℕ} : Marked text (tried.setIfInBounds i true) x ↔
    Marked text tried x ∨ x.1 * (text.size + 1) + x.2 = i := by
  unfold Marked
  simp only [Array.getD_eq_getD_getElem?, Array.getElem?_setIfInBounds]
  split_ifs with heq hlt
  · simp [heq]
  · simp [heq]
  · simp [Ne.symm heq]

/-- A place is marked when what goes on from it is among the places to be tried. -/
theorem Closed.mark {ys : List (ℕ × ℕ)} (h : m.Closed text tried (x :: xs)) (hx : x.2 ≤ text.size)
    (hnext : m.next? text x = some ys) :
    m.Closed text (tried.setIfInBounds (x.1 * (text.size + 1) + x.2) true) (ys ++ xs) := by
  intro z hz hmarked
  rcases marked_setIfInBounds.1 hmarked with hold | hnew
  · obtain ⟨zs, hzs, hall⟩ := h z hz hold
    refine ⟨zs, hzs, fun y hy => ?_⟩
    rw [marked_setIfInBounds]
    rcases hall y hy with hmarked | hmem
    · exact .inl (.inl hmarked)
    · rcases List.mem_cons.1 hmem with rfl | hmem
      · exact .inl (.inr rfl)
      · exact .inr (List.mem_append_right ys hmem)
  · obtain rfl := eq_of_mark_eq hz hx hnew
    exact ⟨ys, hnext, fun y hy => .inr (List.mem_append_left xs hy)⟩

theorem Closed.drop (h : m.Closed text tried (x :: xs)) (hx : Marked text tried x) :
    m.Closed text tried xs := by
  intro z hz hmarked
  obtain ⟨zs, hzs, hall⟩ := h z hz hmarked
  refine ⟨zs, hzs, fun y hy => (hall y hy).elim .inl fun hmem => ?_⟩
  rcases List.mem_cons.1 hmem with rfl | hmem
  · exact .inl hx
  · exact .inr hmem

/-! ### The search -/

/-- Either one of the threads arrives, or all of them are marked and the marks are closed. -/
theorem follow_spec (hclosed : m.Closed text tried (ts.map Thread.place)) (hts : ∀ t ∈ ts, t.pos ≤ text.size) :
    match m.follow text tried ts with
    | (some _, _) => ∃ t ∈ ts, m.Arrives text t.place
    | (none, tried') => m.Closed text tried' [] ∧ (∀ x, Marked text tried x → Marked text tried' x) ∧
        ∀ t ∈ ts, Marked text tried' t.place := by
  fun_induction follow m text tried ts with
  | case1 tried => exact ⟨hclosed, fun _ h => h, by simp⟩
  | case2 tried t ts hmarked ih =>
    rw [List.forall_mem_cons] at hts
    have hspec := ih (hclosed.drop hmarked) hts.2
    revert hspec
    split
    · rintro ⟨u, hu, h⟩
      exact ⟨u, List.mem_cons_of_mem t hu, h⟩
    · rintro ⟨hclosed, hmono, hall⟩
      exact ⟨hclosed, hmono, List.forall_mem_cons.2 ⟨hmono _ hmarked, hall⟩⟩
  | case3 tried t ts hnot hdone =>
    refine ⟨t, List.mem_cons_self, .done ?_⟩
    rw [← map_advance, hdone]
    rfl
  | case4 tried t ts hnot next hnext ih =>
    rw [List.forall_mem_cons] at hts
    have hplaces : m.next? text t.place = some (next.map Thread.place) := by
      rw [← map_advance, hnext]
      rfl
    have hbound : ∀ u ∈ next ++ ts, u.pos ≤ text.size := by
      intro u hu
      rcases List.mem_append.1 hu with hu | hu
      · exact le_size_of_mem_next? (y := u.place) hplaces hts.1 (List.mem_map_of_mem hu)
      · exact hts.2 u hu
    have hspec := ih (by rw [List.map_append]; exact hclosed.mark hts.1 hplaces) hbound
    revert hspec
    split
    · rintro ⟨u, hu, h⟩
      rcases List.mem_append.1 hu with hu | hu
      · exact ⟨t, List.mem_cons_self, .step hplaces (List.mem_map_of_mem hu) h⟩
      · exact ⟨u, List.mem_cons_of_mem t hu, h⟩
    · rintro ⟨hclosed, hmono, hall⟩
      refine ⟨hclosed, fun x hx => hmono x (marked_setIfInBounds.2 (.inl hx)), List.forall_mem_cons.2 ⟨?_, ?_⟩⟩
      · exact hmono _ (marked_setIfInBounds.2 (.inr rfl))
      · exact fun u hu => hall u (List.mem_append_right next hu)

theorem isSome_searchFrom_iff {starts : List ℕ} (hclosed : m.Closed text tried [])
    (hstarts : ∀ i ∈ starts, i ≤ text.size) :
    (m.searchFrom text starts tried).isSome ↔ ∃ i ∈ starts, m.Arrives text (m.start, i) := by
  induction starts generalizing tried with
  | nil => simp [searchFrom]
  | cons i starts ih =>
    rw [List.forall_mem_cons] at hstarts
    have hone : m.Closed text tried ([⟨m.start, i, []⟩].map Thread.place) := by
      intro x hx hmarked
      obtain ⟨ys, hys, hall⟩ := hclosed x hx hmarked
      exact ⟨ys, hys, fun y hy => .inl ((hall y hy).resolve_right List.not_mem_nil)⟩
    have hspec := follow_spec hone (List.forall_mem_singleton.2 hstarts.1)
    rw [searchFrom]
    cases hfollow : m.follow text tried [⟨m.start, i, []⟩] with
    | mk found tried' =>
      rw [hfollow] at hspec
      cases found with
      | some t =>
        obtain ⟨u, hu, h⟩ := hspec
        rw [List.mem_singleton] at hu
        subst hu
        exact iff_of_true rfl ⟨i, List.mem_cons_self, h⟩
      | none =>
        obtain ⟨hclosed', -, hmarked⟩ := hspec
        have hnot : ¬ m.Arrives text (m.start, i) :=
          hclosed'.not_arrives hstarts.1 (hmarked _ (List.mem_singleton_self _))
        simp only [List.mem_cons, exists_eq_or_imp]
        rw [or_iff_right hnot]
        exact ih hclosed' hstarts.2

/-- Before a search nothing is marked but what is no place of the program. -/
theorem closed_replicate (m : Matcher) (text : Array Char) :
    m.Closed text (Array.replicate (m.program.size * (text.size + 1)) false) [] := by
  intro x hx hmarked
  have hout : m.program.size ≤ x.1 := by
    by_contra hlt
    have hle : (x.1 + 1) * (text.size + 1) ≤ m.program.size * (text.size + 1) :=
      Nat.mul_le_mul_right _ (by omega)
    have hmark : x.1 * (text.size + 1) + x.2 < m.program.size * (text.size + 1) := by
      rw [Nat.add_mul] at hle
      omega
    rw [Marked, Array.getD_eq_getD_getElem?, Array.getElem?_replicate, if_pos hmark] at hmarked
    cases hmarked
  have hnone : m.program[x.1]? = none := Array.getElem?_eq_none hout
  exact ⟨[], by rw [next?, hnone], by simp⟩

theorem isMatch_iff {s : String} :
    m.isMatch s ↔ ∃ start ≤ s.length, m.Arrives s.toList.toArray (m.start, start) := by
  have hstarts : ∀ i ∈ List.range' 0 (s.toList.toArray.size + 1 - 0), i ≤ s.toList.toArray.size := by
    simp only [List.mem_range'_1]
    omega
  unfold isMatch find?
  rw [isSome_searchFrom_iff (closed_replicate m _) hstarts]
  simp only [List.mem_range'_1, Nat.zero_le, true_and, Nat.zero_add, Nat.sub_zero, Nat.lt_succ_iff,
    List.size_toArray, String.length_toList]

end Matcher

/-! ### Instructions of nodes -/

theorem CharSet.contains_char {c d : Char} : (char d).contains c ↔ c = d := by
  simp only [contains, char, range, CodePoints.contains, List.any_cons, List.any_nil, Bool.or_false,
    Bool.and_eq_true, decide_eq_true_eq, ← Char.toNat_inj]
  omega

theorem CharSet.contains_any (c : Char) : CharSet.any.contains c = true := by
  have hc : c.toNat < 1114112 := by
    rcases c.valid with h | h
    · exact Nat.lt_trans h (by decide)
    · exact h.2
  simp [CharSet.contains, CharSet.any, CodePoints.contains, CodePoints.last]
  omega

/-- The second program has the instructions of the first one in their places. -/
def Program.Extends (p q : Program) : Prop :=
  ∀ (i : ℕ) (inst : Inst), p[i]? = some inst → q[i]? = some inst

theorem Program.extends_push (p : Program) (inst : Inst) : p.Extends (p.push inst) := by
  intro i inst' hi
  obtain ⟨hlt, -⟩ := Array.getElem?_eq_some_iff.1 hi
  rw [Array.getElem?_push_lt hlt, ← Array.getElem?_eq_getElem hlt, hi]

theorem Program.Extends.trans {p q r : Program} (h : p.Extends q) (h' : q.Extends r) : p.Extends r :=
  fun i inst hi => h' i inst (h i inst hi)

namespace Node

variable {cs : List Char} {R S : List Char → List Char → Prop} {n : Node} {ns : List Node}

/-- The instructions of the node come after the program, and lead from a position of the text to
those where what is left is related to what was left before. -/
structure Reads (cs : List Char) (R : List Char → List Char → Prop) (n : Node) : Prop where
  extends_compile : ∀ (next : ℕ) (p : Program), p.Extends (n.compile next p).2
  arrives_iff : ∀ {next p} {m : Matcher}, (n.compile next p).2.Extends m.program →
    ∀ {pos}, pos ≤ cs.length → (m.Arrives cs.toArray ((n.compile next p).1, pos) ↔
      ∃ pos' ≤ cs.length, R (cs.drop pos) (cs.drop pos') ∧ m.Arrives cs.toArray (next, pos'))

theorem reads_set (s : CharSet) :
    (Node.set s).Reads cs fun u t => ∃ c, u = c :: t ∧ s.contains c := by
  refine ⟨fun next p => p.extends_push _, fun {next p m} hm {pos} hpos => ?_⟩
  have hi : m.program[p.size]? = some (.set s next) := hm _ _ (by simp [compile, Program.emit])
  refine (Matcher.arrives_set hi).trans ⟨?_, ?_⟩
  · rintro ⟨hc, harrives⟩
    obtain ⟨c, hc, hs⟩ := (Option.any_eq_true _ _).1 hc
    obtain ⟨hlt, rfl⟩ := List.getElem?_eq_some_iff.1 (List.getElem?_toArray.symm.trans hc)
    exact ⟨pos + 1, hlt, ⟨_, List.drop_eq_getElem_cons hlt, hs⟩, harrives⟩
  · rintro ⟨pos', hpos', ⟨c, hdrop, hs⟩, harrives⟩
    have hlen := congrArg List.length hdrop
    simp only [List.length_drop, List.length_cons] at hlen
    obtain rfl : pos' = pos + 1 := by omega
    have hc : cs.toArray[pos]? = some c := by
      have hhead := congrArg List.head? hdrop
      rw [List.head?_drop] at hhead
      exact List.getElem?_toArray.trans hhead
    exact ⟨by rw [hc]; exact hs, harrives⟩

/-- A way that can be lengthened by one up to an end, or left. -/
theorem iff_exists_le_of_step {P Q : ℕ → Prop} {n : ℕ}
    (h : ∀ i ≤ n, P i ↔ (i < n ∧ P (i + 1)) ∨ Q i) {i : ℕ} (hi : i ≤ n) :
    P i ↔ ∃ j ≤ n, i ≤ j ∧ Q j := by
  induction hk : n - i generalizing i with
  | zero =>
    obtain rfl : i = n := by omega
    rw [h i hi, or_iff_right (by simp)]
    refine ⟨fun hq => ⟨i, hi, Nat.le_refl i, hq⟩, ?_⟩
    rintro ⟨j, hj, hij, hq⟩
    rwa [Nat.le_antisymm hij hj]
  | succ k ih =>
    rw [h i hi, ih (i := i + 1) (by omega) (by omega)]
    constructor
    · rintro (⟨-, j, hj, hij, hq⟩ | hq)
      · exact ⟨j, hj, by omega, hq⟩
      · exact ⟨i, hi, Nat.le_refl i, hq⟩
    · rintro ⟨j, hj, hij, hq⟩
      rcases Nat.eq_or_lt_of_le hij with rfl | hlt
      · exact .inr hq
      · exact .inl ⟨by omega, j, hj, hlt, hq⟩

theorem exists_drop_eq_append_iff {i j : ℕ} (hi : i ≤ cs.length) (hj : j ≤ cs.length) :
    (∃ part, cs.drop i = part ++ cs.drop j) ↔ i ≤ j := by
  constructor
  · rintro ⟨part, h⟩
    have hlen := congrArg List.length h
    simp only [List.length_drop, List.length_append] at hlen
    omega
  · intro hij
    refine ⟨(cs.drop i).take (j - i), ?_⟩
    have hdrop : cs.drop j = (cs.drop i).drop (j - i) := by rw [List.drop_drop, Nat.add_sub_cancel' hij]
    rw [hdrop, List.take_append_drop]

/-- The loop of any run of characters: a choice between a character and going on. -/
theorem getElem?_compile_anyRun (next : ℕ) (p : Program) (i : ℕ) :
    ((Node.rep 0 none true (.set .any)).compile next p).2[i]? =
      if p.size = i then some (.split [p.size + 1, next])
      else if i = p.size + 1 then some (.set .any p.size)
      else p[i]? := by
  have hconsumes : consumes (.set .any) = true := by decide
  have hlt : p.size < p.size + 1 + 1 := by omega
  simp only [compile, Program.anyTimes, hconsumes, if_true, Program.emit, Program.loopChoices,
    Array.size_push, Array.getElem?_setIfInBounds, if_pos hlt, Array.getElem?_push]
  split_ifs <;> first | rfl | omega

theorem reads_anyRun :
    (Node.rep 0 none true (.set .any)).Reads cs fun u t => ∃ part, u = part ++ t := by
  refine ⟨fun next p i inst hi => ?_, fun {next p m} hm {pos} hpos => ?_⟩
  · obtain ⟨hlt, -⟩ := Array.getElem?_eq_some_iff.1 hi
    rw [getElem?_compile_anyRun, if_neg (by omega), if_neg (by omega), hi]
  · have hchoice : m.program[p.size]? = some (.split [p.size + 1, next]) :=
      hm _ _ (by rw [getElem?_compile_anyRun, if_pos rfl])
    have hentry : m.program[p.size + 1]? = some (.set .any p.size) :=
      hm _ _ (by rw [getElem?_compile_anyRun, if_neg (by omega), if_pos rfl])
    have hstep : ∀ i ≤ cs.length, m.Arrives cs.toArray (p.size, i) ↔
        (i < cs.length ∧ m.Arrives cs.toArray (p.size, i + 1)) ∨ m.Arrives cs.toArray (next, i) := by
      intro i _
      have hany : cs.toArray[i]?.any CharSet.any.contains = true ↔ i < cs.length := by
        rw [Option.any_eq_true, List.getElem?_toArray]
        simp only [CharSet.contains_any, and_true]
        exact ⟨fun ⟨c, hc⟩ => (List.getElem?_eq_some_iff.1 hc).1, fun hlt => ⟨_, List.getElem?_eq_getElem hlt⟩⟩
      rw [Matcher.arrives_split hchoice, ← hany, ← Matcher.arrives_set hentry]
      simp only [List.mem_cons, List.not_mem_nil, or_false, exists_eq_or_imp, exists_eq_left]
    have hentry_eq : ((Node.rep 0 none true (.set .any)).compile next p).1 = p.size := by
      have hconsumes : consumes (.set .any) = true := by decide
      simp only [compile, Program.anyTimes, hconsumes, if_true, Program.emit]
    rw [hentry_eq]
    refine (iff_exists_le_of_step hstep hpos).trans ?_
    exact exists_congr fun j => and_congr_right fun hj =>
      and_congr_left' (exists_drop_eq_append_iff hpos hj).symm

theorem reads_nil : (Node.seq []).Reads cs fun u t => u = t := by
  refine ⟨fun next p i inst hi => hi, fun {next p m} hm {pos} hpos => ⟨fun h => ⟨pos, hpos, rfl, h⟩, ?_⟩⟩
  rintro ⟨pos', hpos', heq, h⟩
  have hlen := congrArg List.length heq
  simp only [List.length_drop] at hlen
  obtain rfl : pos = pos' := by omega
  exact h

/-- One node after the other, where what is left of the text is an end of it. -/
theorem Reads.cons (hR : n.Reads cs R) (hS : (Node.seq ns).Reads cs S) (hsuffix : ∀ {u t}, R u t → t <:+ u) :
    (Node.seq (n :: ns)).Reads cs fun u t => ∃ v, R u v ∧ S v t := by
  refine ⟨fun next p => (hS.extends_compile next p).trans (hR.extends_compile _ _), fun {next p m} hm {pos} hpos => ?_⟩
  have hm' : ((Node.seq ns).compile next p).2.Extends m.program := (hR.extends_compile _ _).trans hm
  refine (hR.arrives_iff hm hpos).trans ⟨?_, ?_⟩
  · rintro ⟨pos', hpos', hr, h⟩
    obtain ⟨pos'', hpos'', hs, h⟩ := (hS.arrives_iff hm' hpos').1 h
    exact ⟨pos'', hpos'', ⟨_, hr, hs⟩, h⟩
  · rintro ⟨pos'', hpos'', ⟨v, hr, hs⟩, h⟩
    have hv := List.suffix_iff_eq_drop.1 ((hsuffix hr).trans (List.drop_suffix pos cs))
    rw [hv] at hr hs
    have hle : cs.length - v.length ≤ cs.length := Nat.sub_le _ _
    exact ⟨_, hle, hr, (hS.arrives_iff hm' hle).2 ⟨pos'', hpos'', hs, h⟩⟩

theorem compileSeq_append (ns ns' : List Node) (next : ℕ) (p : Program) : compileSeq (ns ++ ns') next p =
    compileSeq ns (compileSeq ns' next p).1 (compileSeq ns' next p).2 := by
  induction ns with
  | nil => rfl
  | cons n ns ih => rw [List.cons_append, compileSeq, ih, compileSeq]

theorem compileSeq_prepend (n : Node) (ns : List Node) (next : ℕ) (p : Program) :
    compileSeq (prepend n ns) next p = compileSeq (n :: ns) next p := by
  unfold prepend
  split
  · simp only [compileSeq, compile, Program.text, List.foldr_append]
  · rfl

/-- Bringing a sequence into its simple form does not change its instructions. -/
theorem compile_seqOf (ns : List Node) (next : ℕ) (p : Program) :
    (seqOf ns).compile next p = compileSeq ns next p := by
  have hitems : ∀ n : Node, compileSeq n.items = n.compile := by
    intro n
    cases n <;> rfl
  have hfold : ∀ ns : List Node, ∀ next p, compileSeq (ns.foldr prepend []) next p = compileSeq ns next p := by
    intro ns next p
    induction ns with
    | nil => rfl
    | cons n ns ih => rw [List.foldr_cons, compileSeq_prepend, compileSeq, ih, compileSeq]
  have hflat : compileSeq (ns.flatMap items) next p = compileSeq ns next p := by
    induction ns with
    | nil => rfl
    | cons n ns ih => rw [List.flatMap_cons, compileSeq_append, ih, hitems, compileSeq]
  rw [← hflat, ← hfold]
  unfold seqOf
  rcases (ns.flatMap items).foldr prepend [] with _ | ⟨n, _ | ⟨n', ns'⟩⟩ <;> rfl

/-- The search for a sequence that is bound to both ends of the text. -/
theorem Reads.isMatch_iff {s : String} {m : Matcher} (h : (Node.seq ns).Reads s.toList R)
    (hm : (seqOf (.look .textStart :: (ns ++ [.look .textEnd]))).compile 0 #[.done] =
      (m.start, m.program)) : m.isMatch s ↔ R s.toList [] := by
  -- the expression stands between the test for the start and the test for the end
  have hbetween := h.extends_compile 1 #[.done, .look .textEnd 0]
  have hR := @h.arrives_iff 1 #[.done, .look .textEnd 0] m
  rw [compile_seqOf, compileSeq, compileSeq_append] at hm
  change Program.emit ((Node.seq ns).compile 1 #[.done, .look .textEnd 0]).2 (.look .textStart
    ((Node.seq ns).compile 1 #[.done, .look .textEnd 0]).1) = _ at hm
  generalize (Node.seq ns).compile 1 #[.done, .look .textEnd 0] = r at hbetween hR hm
  obtain ⟨hstart, hprogram⟩ := Prod.mk.inj hm
  have hall : r.2.Extends m.program := hprogram ▸ r.2.extends_push _
  have hfirst : m.program[m.start]? = some (.look .textStart r.1) := by
    rw [← hstart, ← hprogram]
    exact Array.getElem?_push_size
  have hlast : m.program[1]? = some (.look .textEnd 0) := (hbetween.trans hall) 1 _ rfl
  have hdone : m.program[0]? = some .done := (hbetween.trans hall) 0 _ rfl
  have hend : ∀ {pos}, m.Arrives s.toList.toArray (1, pos) ↔ pos = s.toList.length := by
    intro pos
    rw [Matcher.arrives_look hlast, and_iff_left (Matcher.arrives_done hdone)]
    exact beq_iff_eq
  have hbegin : ∀ {pos}, m.Arrives s.toList.toArray (m.start, pos) ↔
      pos = 0 ∧ m.Arrives s.toList.toArray (r.1, pos) := by
    intro pos
    rw [Matcher.arrives_look hfirst]
    exact and_congr_left' beq_iff_eq
  rw [Matcher.isMatch_iff]
  constructor
  · rintro ⟨pos, -, harrives⟩
    obtain ⟨rfl, harrives⟩ := hbegin.1 harrives
    obtain ⟨pos', -, hr, hpos'⟩ := (hR hall (Nat.zero_le _)).1 harrives
    rwa [hend.1 hpos', List.drop_length] at hr
  · intro hr
    refine ⟨0, Nat.zero_le _, hbegin.2 ⟨rfl, (hR hall (Nat.zero_le _)).2 ⟨_, Nat.le_refl _, ?_, hend.2 rfl⟩⟩⟩
    rwa [List.drop_length]

end Node

end Regex

end SqlCode

import SqlCode.Proofs.Sums

/-!
# Ranks and counts over windows

ROW_NUMBER, RANK, DENSE_RANK and COUNT over windows. The rows of a partition come in the order of a comparator that
may tie them. The code of a rank only compares a row with the one before it; since the rows are sorted, that tells
how many rows sort strictly before the row, and how many keys there are up to it.
-/

namespace SqlCode

open Run SqlCode.Expr Machine Strategy IntegerType

variable {k n : ℕ} {r : Routine} {m : Machine}

/-! ### Sorted rows -/

section Sorted

variable {ρ : Type} (cmp : ρ → ρ → Ordering) (row : ℕ → ρ)

/-- The number of rows that sort strictly before a row. -/
def rowsBefore (n k : ℕ) : ℕ := ((Finset.range n).filter fun j => cmp (row j) (row k) = .lt).card

/-- The number of keys up to a row: of the rows that are not tied with an earlier one. -/
def distinctKeys (k : ℕ) : ℕ :=
  ((Finset.range (k + 1)).filter fun j => ∀ i < j, cmp (row i) (row j) ≠ .eq).card

/-- The first rows are sorted. -/
def SortedRows (n : ℕ) : Prop := ∀ i j, i ≤ j → j < n → (cmp (row i) (row j)).isLE

variable {cmp row} {i j : ℕ}

theorem distinctKeys_le : distinctKeys cmp row k ≤ k + 1 :=
  (Finset.card_filter_le _ _).trans_eq (Finset.card_range (k + 1))

theorem distinctKeys_zero : distinctKeys cmp row 0 = 1 := by
  simp [distinctKeys, Finset.filter_singleton]

theorem distinctKeys_succ : distinctKeys cmp row (k + 1) =
    distinctKeys cmp row k + if ∀ i < k + 1, cmp (row i) (row (k + 1)) ≠ .eq then 1 else 0 := by
  unfold distinctKeys
  rw [Finset.range_add_one, Finset.filter_insert]
  split_ifs
  · rw [Finset.card_insert_of_notMem (by simp)]
  · rfl

theorem distinctKeys_succ_of_eq (heq : cmp (row k) (row (k + 1)) = .eq) :
    distinctKeys cmp row (k + 1) = distinctKeys cmp row k := by
  rw [distinctKeys_succ, if_neg fun hfirst => hfirst k k.lt_succ_self heq, Nat.add_zero]

/-- A row is tied with the row before it, or it sorts after it. -/
theorem SortedRows.lt_or_eq (h : SortedRows cmp row n) (hk : k + 1 < n) :
    cmp (row k) (row (k + 1)) = .lt ∨ cmp (row k) (row (k + 1)) = .eq := by
  have hle := h k (k + 1) (by omega) hk
  cases ho : cmp (row k) (row (k + 1)) with
  | lt => exact .inl rfl
  | eq => exact .inr rfl
  | gt =>
    rw [ho] at hle
    cases hle

variable [Std.TransCmp cmp]

theorem rowsBefore_lt (hk : k < n) : rowsBefore cmp row n k < n := by
  have hself : cmp (row k) (row k) ≠ .lt := fun hlt => Std.OrientedCmp.not_lt_of_lt hlt hlt
  calc rowsBefore cmp row n k < (Finset.range n).card :=
        Finset.card_lt_card (Finset.filter_ssubset.2 ⟨k, Finset.mem_range.2 hk, hself⟩)
    _ = n := Finset.card_range n

theorem rowsBefore_zero (h : SortedRows cmp row n) : rowsBefore cmp row n 0 = 0 := by
  refine Finset.card_eq_zero.2 (Finset.filter_eq_empty_iff.2 fun j hj => ?_)
  exact Std.OrientedCmp.not_lt_of_isLE (h 0 j j.zero_le (Finset.mem_range.1 hj))

/-- Where the key changes, exactly the earlier rows sort before. -/
theorem rowsBefore_succ_of_lt (h : SortedRows cmp row n) (hk : k + 1 < n)
    (hlt : cmp (row k) (row (k + 1)) = .lt) : rowsBefore cmp row n (k + 1) = k + 1 := by
  have hfilter : ((Finset.range n).filter fun j => cmp (row j) (row (k + 1)) = .lt) = Finset.range (k + 1) := by
    ext j
    simp only [Finset.mem_filter, Finset.mem_range]
    constructor
    · rintro ⟨hj, hbefore⟩
      by_contra hno
      exact Std.OrientedCmp.not_lt_of_isLE (h (k + 1) j (by omega) hj) hbefore
    · intro hj
      exact ⟨by omega, Std.TransCmp.lt_of_isLE_of_lt (h j k (by omega) (by omega)) hlt⟩
  rw [rowsBefore, hfilter, Finset.card_range]

/-- Tied rows have the same rows before them. -/
theorem rowsBefore_congr (h : cmp (row i) (row j) = .eq) : rowsBefore cmp row n i = rowsBefore cmp row n j := by
  simp only [rowsBefore, Std.TransCmp.congr_right h]

/-- Where the key changes, there is one key more. -/
theorem distinctKeys_succ_of_lt (h : SortedRows cmp row n) (hk : k + 1 < n)
    (hlt : cmp (row k) (row (k + 1)) = .lt) : distinctKeys cmp row (k + 1) = distinctKeys cmp row k + 1 := by
  have hfirst : ∀ i < k + 1, cmp (row i) (row (k + 1)) ≠ .eq := by
    intro i hi heq
    cases heq.symm.trans (Std.TransCmp.lt_of_isLE_of_lt (h i k (by omega) (by omega)) hlt)
  rw [distinctKeys_succ, if_pos hfirst]

/-- Rows between tied rows are tied with them, so that no key is added. -/
theorem distinctKeys_congr_of_le (h : SortedRows cmp row n) (hij : i ≤ j) (hj : j < n)
    (heq : cmp (row i) (row j) = .eq) : distinctKeys cmp row i = distinctKeys cmp row j := by
  induction j, hij using Nat.le_induction with
  | base => rfl
  | succ j hij ih =>
    have hback : (cmp (row (j + 1)) (row j)).isLE := by
      have hle : (cmp (row (j + 1)) (row i)).isLE := by rw [Std.OrientedCmp.eq_symm heq]; rfl
      exact Std.TransCmp.isLE_trans hle (h i j hij (by omega))
    have hlast : cmp (row j) (row (j + 1)) = .eq :=
      Std.OrientedCmp.isLE_antisymm (h j (j + 1) (by omega) hj) hback
    rw [ih (by omega) (Std.TransCmp.eq_trans heq (Std.OrientedCmp.eq_symm hlast)), distinctKeys_succ_of_eq hlast]

theorem distinctKeys_congr (h : SortedRows cmp row n) (hi : i < n) (hj : j < n)
    (heq : cmp (row i) (row j) = .eq) : distinctKeys cmp row i = distinctKeys cmp row j := by
  rcases le_total i j with hij | hij
  · exact distinctKeys_congr_of_le h hij hj heq
  · exact (distinctKeys_congr_of_le h hij hi (Std.OrientedCmp.eq_symm heq)).symm

theorem rowsBefore_eq (h : SortedRows cmp row n) (hk : k < n) : rowsBefore cmp row n k =
    if 0 < k ∧ cmp (row (k - 1)) (row k) = .lt then k else rowsBefore cmp row n (k - 1) := by
  cases k with
  | zero => simp
  | succ k =>
    rw [Nat.add_sub_cancel]
    rcases h.lt_or_eq hk with hlt | heq
    · rw [if_pos ⟨k.succ_pos, hlt⟩, rowsBefore_succ_of_lt h hk hlt]
    · rw [if_neg (by simp [heq]), rowsBefore_congr heq]

theorem distinctKeys_eq (h : SortedRows cmp row n) (hk : k < n) : distinctKeys cmp row k =
    if 0 < k ∧ cmp (row (k - 1)) (row k) = .lt then distinctKeys cmp row (k - 1) + 1
    else distinctKeys cmp row (k - 1) := by
  cases k with
  | zero => simp
  | succ k =>
    rw [Nat.add_sub_cancel]
    rcases h.lt_or_eq hk with hlt | heq
    · rw [if_pos ⟨k.succ_pos, hlt⟩, distinctKeys_succ_of_lt h hk hlt]
    · rw [if_neg (by simp [heq]), distinctKeys_succ_of_eq heq]

end Sorted

/-! ### Words -/

/-- The value of an integer that is a word. -/
def Value.word (n : ℤ) : Value := .int (Int64.ofInt n)

theorem Word.fits_of_le {a b : ℤ} (ha : -1 ≤ a) (hab : a ≤ b) (hb : Word.Fits b) : Word.Fits a := by
  rw [Word.fits_iff] at hb ⊢
  omega

theorem Arithmetic.outcome_word {o : Arithmetic} {x y z : ℤ} (hz : o.ideal? x y = some z) (hx : Word.Fits x)
    (hy : Word.Fits y) (hfits : Word.Fits z) : o.outcome .big (.word x) (.word y) = .ok (.word z) := by
  rw [Value.word, Value.word, outcome, Word.toInt_ofInt hx, Word.toInt_ofInt hy, hz]
  show store o .big z = _
  rw [store, if_pos hfits]
  rfl

namespace Expr

variable {e e' : Expr} {x y z : ℤ}

theorem result_arithmetic_word (o : Arithmetic) {x y : Int64} (hrep : e.rep = .prim .i64)
    (hrep' : e'.rep = .prim .i64) (he : e.EvalsTo m (.int x)) (he' : e'.EvalsTo m (.int y)) :
    (mkBinary o.op e e').eval.result m = (o.outcome .big (.int x) (.int y), m) := by
  have hlogical : o.op.isLogical = false := by cases o <;> rfl
  have hsame : (mkBinary o.op e e').rep = .prim .i64 := by
    rw [mkBinary_of_not_isLogical hlogical, hrep, hrep']
    cases o <;> rfl
  have hnode := Arithmetic.result_mkConvert_mkBinary (o := o) (w := .big) (r := .prim .i64) rfl hrep hrep'
    (fits_big x) (fits_big y) he he'
  rwa [mkConvert_of_rep_eq hsame] at hnode

theorem evalsTo_arithmetic_word {o : Arithmetic} (hz : o.ideal? x y = some z) (hx : Word.Fits x)
    (hy : Word.Fits y) (hfits : Word.Fits z) (hrep : e.rep = .prim .i64) (hrep' : e'.rep = .prim .i64)
    (he : e.EvalsTo m (.word x)) (he' : e'.EvalsTo m (.word y)) : (mkBinary o.op e e').EvalsTo m (.word z) := by
  rw [EvalsTo, result_arithmetic_word o hrep hrep' he he']
  exact congrArg (·, m) (Arithmetic.outcome_word hz hx hy hfits)

theorem evalsTo_comparison_word (op : BinaryOp) (hop : op.isComparison) {x y : Int64}
    (he : e.EvalsTo m (.int x)) (he' : e'.EvalsTo m (.int y)) :
    (mkBinary op e e').EvalsTo m (.bool (op.accepts (compare x.toInt y.toInt))) := by
  have hlogical : op.isLogical = false := by cases op <;> first | rfl | cases hop
  rw [mkBinary_of_not_isLogical hlogical, if_pos hop]
  refine evalsTo_binary hlogical he he' ?_
  rw [Value.applyBinary, if_pos hop, Value.compareBy_int hop]
  rfl

theorem evalsTo_call_registered {f : String} {es : List Expr} {vs : List Value} {v : Value} (rep : Rep)
    (hr : m.routines.get? f = some r) (h : List.Forall₂ (fun e v => e.EvalsTo m v) es vs) (hv : r vs = .ok v) :
    (Expr.call f es rep).EvalsTo m v := by
  refine evalsTo_call rep h ?_
  show ((get : Run Machine) >>= _).result m = _
  rw [result_bind, result_get, andThen_ok]
  simp only [hr, result_lift, hv]

end Expr

theorem Stmt.result_execBlock_when {t : Expr} {b : Bool} (ht : t.EvalsTo m (.bool b)) (block : Block) :
    (Stmt.execBlock [.when t block]).result m = if b then (Stmt.execBlock block).result m else (.ok (), m) := by
  rw [Stmt.result_execBlock_singleton, Stmt.when, Stmt.result_ite, ht]
  cases b <;> rfl

/-! ### The code of a row -/

namespace Fold

variable {s : ℤ} {ρ : Type} {cmp : ρ → ρ → Ordering} {row : ℕ → ρ}

/-- The indexes of a partition and their distances from its start are words. -/
structure Indexed (s : ℤ) (n : ℕ) : Prop where
  index : ∀ k < n, Word.Fits (s + k)
  size : Word.Fits n

/-- In the state, the frame places the current row. -/
structure At (s : ℤ) (k : ℕ) (m : Machine) : Prop where
  index : m.get? "index" = some (.word (s + k))
  start : m.get? "start_index" = some (.word s)

/-- The routine compares the rows of a partition by their indexes. -/
def Compares (cmp : ρ → ρ → Ordering) (row : ℕ → ρ) (s : ℤ) (n : ℕ) (r : Routine) : Prop :=
  ∀ i < n, ∀ j < n, ∃ d : Int64, r [.word (s + i), .word (s + j)] = .ok (.int d) ∧
    compare d.toInt 0 = cmp (row i) (row j)

theorem Indexed.fits_start (h : Indexed s n) (hk : k < n) : Word.Fits s := by
  simpa using h.index 0 (by omega)

theorem Indexed.fits_offset (h : Indexed s n) (hk : k ≤ n) : Word.Fits k :=
  Word.fits_of_le (by omega) (by omega) h.size

theorem At.evalsTo_index (h : At s k m) : (Expr.slot ({} : Frame).index).EvalsTo m (.word (s + k)) :=
  evalsTo_slot h.index

theorem At.evalsTo_start (h : At s k m) : (Expr.slot ({} : Frame).start).EvalsTo m (.word s) :=
  evalsTo_slot h.start

theorem At.evalsTo_offset (h : At s k m) (hn : Indexed s n) (hk : k < n) :
    ({} : Frame).offset.EvalsTo m (.word k) :=
  evalsTo_arithmetic_word (o := .minus) (by simp [Arithmetic.ideal?]) (hn.index k hk) (hn.fits_start hk)
    (hn.fits_offset hk.le) rfl rfl h.evalsTo_index h.evalsTo_start

/-- A rank moves where the row sorts after the row before it. -/
theorem result_rankStep {acc : Slot} {next : Expr} {b : ℕ} (h : At s k m) (hn : Indexed s n) (hk : k < n)
    (hr : m.routines.get? "compareRows" = some r) (hcompares : Compares cmp row s n r)
    (hnext : next.EvalsTo m (.word b)) : (Stmt.execBlock (rankStep acc next {})).result m =
      (.ok (), if 0 < k ∧ cmp (row (k - 1)) (row k) = .lt then m.bind acc.name (.word b) else m) := by
  have hmoved := evalsTo_comparison_word .greaterThan rfl h.evalsTo_index h.evalsTo_start
  rw [Word.toInt_ofInt (hn.index k hk), Word.toInt_ofInt (hn.fits_start hk)] at hmoved
  unfold rankStep
  rw [Stmt.result_execBlock_when hmoved]
  cases k with
  | zero => simp [BinaryOp.accepts]
  | succ k =>
    have hafter : BinaryOp.greaterThan.accepts (compare (s + (k + 1 : ℕ)) s) := by
      rw [compare_gt_iff_gt.2 (by omega)]
      rfl
    have hprevious : (mkBinary .subtract ({} : Frame).index (.long 1)).EvalsTo m (.word (s + k)) :=
      evalsTo_arithmetic_word (o := .minus) (y := 1) (by simp [Arithmetic.ideal?]; omega) (hn.index _ hk) (by decide)
        (hn.index k (by omega)) rfl rfl h.evalsTo_index rfl
    obtain ⟨d, hd, hsign⟩ := hcompares k (by omega) (k + 1) hk
    have hcompare : (({} : Frame).compareRows (mkBinary .subtract ({} : Frame).index (.long 1))
        ({} : Frame).index).EvalsTo m (.int d) :=
      evalsTo_call_registered _ hr (.cons hprevious (.cons h.evalsTo_index .nil)) hd
    have hchanged := evalsTo_comparison_word .lessThan rfl hcompare (rfl : (Expr.int 0).EvalsTo m (.int 0))
    rw [hafter, if_pos rfl, Stmt.result_execBlock_when hchanged, show (0 : Int64).toInt = 0 from rfl, hsign,
      Nat.add_sub_cancel]
    by_cases hlt : cmp (row k) (row (k + 1)) = .lt
    · rw [hlt, if_pos (show BinaryOp.lessThan.accepts .lt = true from rfl), if_pos ⟨k.succ_pos, rfl⟩,
        Stmt.result_execBlock_singleton, Stmt.result_assign, hnext]
      rfl
    · rw [if_neg (by simpa [BinaryOp.accepts] using hlt), if_neg fun h => hlt h.2]

theorem computes_count {c : AggregateCall} : count.Computes c (·.Fits (.prim IntegerType.big.prim)) (.word 0)
    fun a _ => Arithmetic.plus.outcome .big a (.int 1) := by
  refine ⟨⟨_, rfl, fun m => rfl⟩, fits_big _, ⟨_, rfl, ?_⟩, ?_, rfl⟩
  · intro m a row _ hacc ha _ _
    obtain ⟨k, rfl, -⟩ := fits_prim_iff.1 ha
    have hnext : (mkBinary .add (.slot (count.slot c)) (.long 1)).eval.result m =
        (Arithmetic.plus.outcome .big (.int k) (.int 1), m) :=
      result_arithmetic_word .plus rfl rfl (evalsTo_slot hacc) rfl
    refine stores_of_result ?_
    rw [Stmt.result_execBlock_singleton, Stmt.result_assign, hnext, result_bind, result_lift]
    rfl
  · intro a row a' ha _ _ hok
    exact Arithmetic.fits_of_outcome ha (fits_big 1) hok

theorem foldlM_count {rows : List (List Value)} (hfits : Word.Fits (k + rows.length : ℕ)) :
    rows.foldlM (fun a _ => Arithmetic.plus.outcome .big a (.int 1)) (.word k) =
      .ok (.word (k + rows.length : ℕ)) := by
  induction rows generalizing k with
  | nil => rfl
  | cons row rows ih =>
    have hlength : k + (row :: rows).length = k + 1 + rows.length := by
      rw [List.length_cons]
      omega
    rw [hlength] at hfits ⊢
    have hk : Word.Fits (k + 1 : ℕ) := Word.fits_of_le (by omega) (by omega) hfits
    have hnext : Arithmetic.plus.outcome .big (.word k) (.int 1) = .ok (.word (k + 1 : ℕ)) :=
      Arithmetic.outcome_word (y := 1) rfl (Word.fits_of_le (by omega) (by omega) hk) (by decide) hk
    rw [List.foldlM_cons, hnext]
    exact ih hfits

end Fold

namespace AggregateProgram

/-! ### Runs over windows -/

/-- The results after each row, the rows being taken in in order. -/
def results (p : AggregateProgram) : List GroupRow → Run (List Value)
  | [] => return []
  | row :: rows => do
    p.takeRow row
    let v ← p.finish
    return v :: (← p.results rows)

/-- The results over a partition. -/
def overPartition (p : AggregateProgram) (rows : List GroupRow) : Run (List Value) := do
  p.start
  p.results rows

/-- The result over one frame. -/
def overFrame (p : AggregateProgram) (frame : List Value) (rows : List (List Value)) : Run Value := do
  p.start
  p.bindFrame frame
  p.takeAll rows
  p.finish

/-- The row of a partition at a distance from its start; its frame goes from there to the row. -/
def placed (s : ℤ) (args : ℕ → List Value) (k : ℕ) : GroupRow := ⟨[.word (s + k), .word s, .word (s + k)], args k⟩

variable {p : AggregateProgram} {f : Fold} {c : AggregateCall} {s : ℤ} {args : ℕ → List Value}

/-- Row by row: if each row keeps what is known before it and gives its result, so do all. -/
theorem result_results {P : ℕ → Machine → Prop} {rows : ℕ → GroupRow} {out : ℕ → Value}
    (hstep : ∀ k < n, ∀ m, P k m → ∃ m', (p.takeRow (rows k)).result m = (.ok (), m') ∧
      p.finish.result m' = (.ok (out k), m') ∧ P (k + 1) m') (hm : P 0 m) :
    ((p.results ((List.range n).map rows)).result m).1 = .ok ((List.range n).map out) := by
  have hfrom : ∀ count k m, k + count = n → P k m →
      ((p.results ((List.range' k count).map rows)).result m).1 = .ok ((List.range' k count).map out) := by
    intro count
    induction count with
    | zero => exact fun _ _ _ _ => rfl
    | succ count ih =>
      intro k m hk hm
      obtain ⟨m', htake, hfinish, hm'⟩ := hstep k (by omega) m hm
      have hrest := ih (k + 1) m' (by omega) hm'
      simp only [List.range'_succ, List.map_cons, results]
      rw [result_bind, htake, andThen_ok, result_bind, hfinish, andThen_ok, result_bind]
      rcases hr : (p.results ((List.range' (k + 1) count).map rows)).result m' with ⟨o, m''⟩
      rw [hr] at hrest
      cases hrest
      rfl
  rw [List.range_eq_range']
  exact hfrom n 0 m (by omega) hm

theorem frameSlots_eq (hframe : p.frame = some {}) : p.frameSlots = ({} : Frame).slots := by
  rw [frameSlots, hframe]
  rfl

theorem get?_bindSlots_frame (index first last : Value) (m : Machine) :
    (m.bindSlots ({} : Frame).slots [index, first, last]).get? "index" = some index ∧
      (m.bindSlots ({} : Frame).slots [index, first, last]).get? "start_index" = some first ∧
      (m.bindSlots ({} : Frame).slots [index, first, last]).get? "end_index" = some last := by
  have hslots : List.Forall₂ (fun s v => (m.bindSlots ({} : Frame).slots [index, first, last]).get? s.name = some v)
      ({} : Frame).slots [index, first, last] := forall₂_get?_bindSlots (by decide) rfl m
  obtain - | ⟨hindex, - | ⟨hfirst, - | ⟨hlast, -⟩⟩⟩ := hslots
  exact ⟨hindex, hfirst, hlast⟩

/-- The state in which the code of a row of a window runs. -/
def windowState (f : Fold) (c : AggregateCall) (row : GroupRow) (m : Machine) : Machine :=
  Strategy.marked f c ((m.bindSlots ({} : Frame).slots row.frame).bindSlots c.argumentSlots row.arguments)

theorem takeRow_of_isComplete (hp : p.Implements (.strict f) c) (hframe : p.frame = some {}) {row : GroupRow}
    (hrow : Suits c row.arguments) (hc : Value.isComplete row.arguments) {body : Block}
    (hbody : f.step c (c.argumentSlots.map fun s => (Expr.slot s).unbox) = .ok body) (m : Machine) :
    (p.takeRow row).result m = (Stmt.execBlock body).result (windowState f c row m) := by
  unfold takeRow
  rw [result_bind, result_bindFrame, andThen_ok, take_of_isComplete hp hrow hc hbody, frameSlots_eq hframe]
  rfl

section WindowState

variable {row : GroupRow}

/-- The note says that a row was taken in. -/
theorem get?_windowState_note {t : Slot} (ht : Strategy.taken? f c = some t) :
    (windowState f c row m).get? t.name = some (.bool true) := by
  rw [windowState, marked_of_taken ht, get?_bind_self]

theorem routines_windowState : (windowState f c row m).routines = m.routines := by
  have hmarked : ∀ m : Machine, (Strategy.marked f c m).routines = m.routines := by
    intro m
    unfold Strategy.marked
    cases Strategy.taken? f c <;> rfl
  rw [windowState, hmarked, bindSlots_rest, bindSlots_rest]

/-- The slots of the frame are neither of the arguments nor of the accumulator. -/
theorem get?_windowState_frame {x : String} (hx : x ∈ Fold.frameNames) :
    (windowState f c row m).get? x = (m.bindSlots ({} : Frame).slots row.frame).get? x := by
  have hmarks : ∀ y ∈ Fold.frameNames, Slot.mark y ≠ Slot.mark "arg" := by decide
  rw [windowState, get?_marked_of_ne fun t ht heq => ?_,
    get?_bindSlots_of_notMem (notMem_argumentSlots (hmarks x hx))]
  exact not_owns_of_mem_frameNames (s := .strict f) (c := c) hx (mem_accumulator_strict.2 (.inr ⟨t, ht, heq⟩))

theorem get?_windowState_accumulator (hf : (f.state? c).isSome) :
    (windowState f c row m).get? "acc0" = m.get? "acc0" := by
  rw [windowState, get?_marked_of_ne fun t ht => (name_taken_ne ht hf).symm,
    get?_bindSlots_of_notMem (notMem_argumentSlots (by decide)),
    get?_bindSlots_of_notMem (by decide)]

theorem at_windowState : Fold.At s k (windowState f c (placed s args k) m) := by
  obtain ⟨hindex, hstart, -⟩ := get?_bindSlots_frame (.word (s + k)) (.word s) (.word (s + k)) m
  exact ⟨(get?_windowState_frame (by decide)).trans hindex, (get?_windowState_frame (by decide)).trans hstart⟩

end WindowState

section Ranks

variable {ρ : Type} {cmp : ρ → ρ → Ordering} {row : ℕ → ρ}

/-- Between rows, the accumulator holds the number, and rows are compared by the routine. -/
structure Ranked (r : Routine) (number : ℕ) (m : Machine) : Prop where
  accumulator : m.get? "acc0" = some (.word number)
  comparator : m.routines.get? "compareRows" = some r

/-- One row of a rank: where it sorts after the row before it, the accumulator gets the next number, and else it
stays. -/
theorem exists_takeRow_rank (hp : p.Implements (.strict f) c) (hframe : p.frame = some {})
    (hf : f.state? c = some (.prim .i64)) {next : Expr}
    (hbody : ∀ es, f.step c es = .ok (Fold.rankStep (f.slot c) next {})) (hn : Fold.Indexed s n) (hk : k < n)
    (hargs : Suits c (args k) ∧ Value.isComplete (args k)) {a b : ℕ} (hm : Ranked r a m)
    (hcompares : Fold.Compares cmp row s n r)
    (hnext : ∀ m : Machine, Fold.At s k m → m.get? "acc0" = some (.word a) → next.EvalsTo m (.word b)) :
    ∃ m', (p.takeRow (placed s args k)).result m = (.ok (), m') ∧
      Ranked r (if 0 < k ∧ cmp (row (k - 1)) (row k) = .lt then b else a) m' ∧
      ∀ t, Strategy.taken? f c = some t → m'.get? t.name = some (.bool true) := by
  have hsome : (f.state? c).isSome := by rw [hf]; rfl
  have hstate : Fold.At s k (windowState f c (placed s args k) m) := at_windowState
  have hacc : (windowState f c (placed s args k) m).get? "acc0" = some (.word a) :=
    (get?_windowState_accumulator hsome).trans hm.accumulator
  have hr : (windowState f c (placed s args k) m).routines.get? "compareRows" = some r := by
    rw [routines_windowState, hm.comparator]
  refine ⟨_, (takeRow_of_isComplete hp hframe hargs.1 hargs.2 (hbody _) m).trans
    (Fold.result_rankStep hstate hn hk hr hcompares (hnext _ hstate hacc)), ?_, fun t ht => ?_⟩
  · split_ifs
    · exact ⟨get?_bind_self .., hr⟩
    · exact ⟨hacc, hr⟩
  · split_ifs
    · exact (get?_bind_of_ne _ _ (name_taken_ne ht hsome)).trans (get?_windowState_note ht)
    · exact get?_windowState_note ht

/-- What is known about a partition: its indexes are words, the rows are sorted by the comparator, the registered
routine compares them by it, and each has its arguments. -/
structure Partition (cmp : ρ → ρ → Ordering) (row : ℕ → ρ) (s : ℤ) (n : ℕ) (c : AggregateCall)
    (args : ℕ → List Value) (m : Machine) : Prop where
  indexed : Fold.Indexed s n
  sorted : SortedRows cmp row n
  comparator : ∃ r, m.routines.get? "compareRows" = some r ∧ Fold.Compares cmp row s n r
  arguments : ∀ k < n, Suits c (args k) ∧ Value.isComplete (args k)

theorem finish_of_noted (hp : p.Implements (.strict f) c)
    (hnote : ∀ t, Strategy.taken? f c = some t → m.get? t.name = some (.bool true)) {v : Value}
    (hvalue : (f.value c).EvalsTo m v) : p.finish.result m = (.ok v, m) := by
  rw [finish_strict hp hnote hvalue, Bool.not_true, Bool.and_false]
  rfl

variable [Std.TransCmp cmp]

theorem result_rank (hp : p.Implements (.strict .rank) c) (hframe : p.frame = some {})
    (h : Partition cmp row s n c args m) :
    ((p.overPartition ((List.range n).map (placed s args))).result m).1 =
      .ok ((List.range n).map fun k => .word (rowsBefore cmp row n k + 1)) := by
  obtain ⟨r, hr, hcompares⟩ := h.comparator
  obtain ⟨m₁, hstart, hacc, -, hroutines⟩ := start_strict (v := .word 0) hp rfl (fun m => rfl) m
  unfold overPartition
  rw [result_bind, hstart, andThen_ok]
  -- before a row, the accumulator says how many rows sort before the row that precedes it
  refine result_results (P := fun k => Ranked r (rowsBefore cmp row n (k - 1))) (fun k hk m hm => ?_) ?_
  · obtain ⟨m', htake, hm', hnote⟩ := exists_takeRow_rank (b := k) hp hframe rfl (fun _ => rfl) h.indexed hk
      (h.arguments k hk) hm hcompares fun m hat _ => hat.evalsTo_offset h.indexed hk
    rw [← rowsBefore_eq h.sorted hk] at hm'
    have hlt : rowsBefore cmp row n k < n := rowsBefore_lt hk
    refine ⟨m', htake, finish_of_noted hp hnote ?_, hm'⟩
    exact evalsTo_arithmetic_word (o := .plus) rfl (h.indexed.fits_offset hlt.le) (by decide)
      (h.indexed.fits_offset hlt) rfl rfl (evalsTo_slot hm'.accumulator) rfl
  · rw [rowsBefore_zero h.sorted]
    exact ⟨hacc, by rw [hroutines, hr]⟩

theorem result_denseRank (hp : p.Implements (.strict .denseRank) c) (hframe : p.frame = some {})
    (h : Partition cmp row s n c args m) :
    ((p.overPartition ((List.range n).map (placed s args))).result m).1 =
      .ok ((List.range n).map fun k => .word (distinctKeys cmp row k)) := by
  obtain ⟨r, hr, hcompares⟩ := h.comparator
  obtain ⟨m₁, hstart, hacc, -, hroutines⟩ := start_strict (v := .word 1) hp rfl (fun m => rfl) m
  unfold overPartition
  rw [result_bind, hstart, andThen_ok]
  -- before a row, the accumulator counts the keys up to the row that precedes it
  refine result_results (P := fun k => Ranked r (distinctKeys cmp row (k - 1))) (fun k hk m hm => ?_) ?_
  · have hle : distinctKeys cmp row (k - 1) ≤ k - 1 + 1 := distinctKeys_le
    -- for the first row this number is not used, and it may exceed the number of rows
    have hfits : Word.Fits (distinctKeys cmp row (k - 1) + 1 : ℕ) := by
      have hsize := h.indexed.size
      rw [Word.fits_iff] at hsize ⊢
      omega
    obtain ⟨m', htake, hm', hnote⟩ := exists_takeRow_rank (b := distinctKeys cmp row (k - 1) + 1) hp hframe rfl
      (fun _ => rfl) h.indexed hk (h.arguments k hk) hm hcompares fun m _ hacc =>
        evalsTo_arithmetic_word (o := .plus) (y := 1) rfl (h.indexed.fits_offset (by omega)) (by decide) hfits rfl rfl
          (evalsTo_slot hacc) rfl
    rw [← distinctKeys_eq h.sorted hk] at hm'
    exact ⟨m', htake, finish_of_noted hp hnote (evalsTo_slot hm'.accumulator), hm'⟩
  · rw [Nat.zero_sub, distinctKeys_zero]
    exact ⟨hacc, by rw [hroutines, hr]⟩

end Ranks

theorem result_rowNumber (hp : p.Implements (.strict .rowNumber) c) (hframe : p.frame = some {})
    (hn : Fold.Indexed s n) (hargs : ∀ k < n, Suits c (args k) ∧ Value.isComplete (args k)) :
    ((p.overPartition ((List.range n).map (placed s args))).result m).1 =
      .ok ((List.range n).map fun k : ℕ => .word (k + 1)) := by
  obtain ⟨m₁, hstart⟩ : ∃ m₁, p.start.result m = (.ok (), m₁) := by
    unfold start Block.exec
    rw [hp.reset, Strategy.reset, Strategy.strictReset]
    cases Strategy.taken? .rowNumber c with
    | none | some => exact ⟨_, rfl⟩
  unfold overPartition
  rw [result_bind, hstart, andThen_ok]
  refine result_results (P := fun _ _ => True) (fun k hk m _ => ?_) trivial
  obtain ⟨hrow, hcomplete⟩ := hargs k hk
  have hbody : Fold.rowNumber.step c (c.argumentSlots.map fun s => (Expr.slot s).unbox) = .ok [] := rfl
  refine ⟨_, takeRow_of_isComplete hp hframe hrow hcomplete hbody m, ?_, trivial⟩
  refine finish_of_noted hp (fun t ht => get?_windowState_note ht) ?_
  exact evalsTo_arithmetic_word (o := .plus) rfl (hn.fits_offset hk.le) (by decide) (hn.fits_offset hk) rfl rfl
    (at_windowState.evalsTo_offset hn hk) rfl

/-! ### Counts -/

/-- Over arguments that are never null, taking in rows does nothing. -/
theorem exists_takeAll_windowCount (hp : p.Implements .windowCount c) (hnull : c.hasNullableArgument = false)
    (rows : List (List Value)) (m : Machine) : ∃ m', (p.takeAll rows).result m = (.ok (), m') ∧
      ∀ x ∈ Fold.frameNames, m'.get? x = m.get? x := by
  have hadd : p.add = [] :=
    (Except.ok.inj ((windowCount_of_not_hasNullableArgument hnull).2.2.1.symm.trans hp.add)).symm
  have hmarks : ∀ y ∈ Fold.frameNames, Slot.mark y ≠ Slot.mark "arg" := by decide
  induction rows generalizing m with
  | nil => exact ⟨m, rfl, fun _ _ => rfl⟩
  | cons row rows ih =>
    have htake : (p.take row).result m = (.ok (), m.bindSlots c.argumentSlots row) := by
      rw [hp.result_take, hadd]
      rfl
    obtain ⟨m', hrest, hframe⟩ := ih (m.bindSlots c.argumentSlots row)
    refine ⟨m', ?_, fun x hx => ?_⟩
    · rw [takeAll, result_bind, htake, andThen_ok, hrest]
    · rw [hframe x hx, get?_bindSlots_of_notMem (notMem_argumentSlots (hmarks x hx))]

theorem result_windowCount (hp : p.Implements .windowCount c) (hframe : p.frame = some {})
    (hnull : c.hasNullableArgument = false) {first last : ℤ} (hfirst : Word.Fits first) (hlast : Word.Fits last)
    (hle : first - 1 ≤ last) (hfits : Word.Fits (last - first + 1)) (index : Value) (rows : List (List Value)) :
    ((p.overFrame [index, .word first, .word last] rows).result m).1 = .ok (.word (last - first + 1)) := by
  obtain ⟨-, hreset, -, hvalue⟩ := windowCount_of_not_hasNullableArgument hnull
  have hcode : p.value = ({} : Frame).rowCount :=
    (Except.ok.inj (hvalue.symm.trans hp.value)).symm.trans (mkConvert_of_rep_eq rfl)
  obtain ⟨m', hall, hkeep⟩ := exists_takeAll_windowCount hp hnull rows
    (m.bindSlots ({} : Frame).slots [index, .word first, .word last])
  obtain ⟨-, hfirst', hlast'⟩ := get?_bindSlots_frame index (.word first) (.word last) m
  have hstart : (Expr.slot ({} : Frame).start).EvalsTo m' (.word first) :=
    evalsTo_slot ((hkeep _ (by decide)).trans hfirst')
  have hstop : (Expr.slot ({} : Frame).stop).EvalsTo m' (.word last) :=
    evalsTo_slot ((hkeep _ (by decide)).trans hlast')
  have hsize : Word.Fits (last - first) := Word.fits_of_le (by omega) (by omega) hfits
  have hdifference : (mkBinary .subtract ({} : Frame).stop ({} : Frame).start).EvalsTo m' (.word (last - first)) :=
    evalsTo_arithmetic_word (o := .minus) rfl hlast hfirst hsize rfl rfl hstop hstart
  have hcount : ({} : Frame).rowCount.EvalsTo m' (.word (last - first + 1)) :=
    evalsTo_arithmetic_word (o := .plus) rfl hsize (by decide) hfits rfl rfl hdifference rfl
  unfold overFrame start Block.exec
  rw [hp.reset, hreset, hp.finish_eq, hcode, result_bind, Stmt.result_execBlock_nil, andThen_ok, result_bind,
    result_bindFrame, andThen_ok, frameSlots_eq hframe, result_bind, hall, andThen_ok, hcount]

theorem isComplete_of_isOf (hnull : c.hasNullableArgument = false) {row : List Value}
    (hrow : List.Forall₂ (fun v t => v.IsOf t) row c.parameters) : Value.isComplete row := by
  have hne : ∀ v ∈ row, v ≠ .null := by
    intro v hv hv'
    obtain ⟨i, hi⟩ := List.mem_iff_getElem?.1 hv
    obtain ⟨type, htype, hof⟩ := forall₂_getElem? hrow hi
    have hnullable : c.hasNullableArgument = true :=
      List.any_eq_true.2 ⟨type, List.mem_of_getElem? htype, hof.nullable hv'⟩
    cases hnull.symm.trans hnullable
  rw [Value.isComplete, Bool.not_eq_true', List.any_eq_false]
  exact fun v hv hv' => hne v hv (Value.isNull_iff.1 hv')

theorem result_count (hp : p.Implements (.strict .count) c) (hreturn : c.returnType.nullable = false)
    (hnull : c.hasNullableArgument = false) {rows : List (List Value)}
    (hrows : ∀ row ∈ rows, List.Forall₂ (fun v t => v.IsOf t) row c.parameters) (hfits : Word.Fits rows.length)
    (m : Machine) : ((p.aggregate rows).result m).1 = .ok (.word rows.length) := by
  have hall : rows.filter Value.isComplete = rows :=
    List.filter_eq_self.2 fun row hrow => isComplete_of_isOf hnull (hrows row hrow)
  have hcount : rows.foldlM (fun a _ => Arithmetic.plus.outcome .big a (.int 1)) (.word 0) =
      .ok (.word rows.length) := by
    simpa using Fold.foldlM_count (k := 0) (by simpa using hfits)
  have hsuits : ∀ row ∈ rows, Suits c row := fun row hrow => (hrows row hrow).imp fun _ _ h => h.fits
  rw [Fold.computes_count.result_aggregate hp hsuits (Fold.unregistered_of_calls_eq_nil rfl m), hall, hreturn, hcount]
  rfl

end AggregateProgram

namespace AggregateFunction

/-- Over a sorted partition, ROW_NUMBER gives the position of each row, RANK one more than the number of rows that
sort strictly before it, and DENSE_RANK the number of keys up to it; tied rows share both ranks. COUNT of arguments
that are never null gives the number of rows of a frame, which is also what it gives for a group of these rows; the
last index of an empty frame is one less than its first. -/
theorem window_functions (settings : Settings) (call : AggregateCall) :
    (∃ number rank dense, (builtin .rowNumber).program settings call true = .ok number ∧
      (builtin .rank).program settings call true = .ok rank ∧
      (builtin .denseRank).program settings call true = .ok dense ∧
      ∀ (ρ : Type) (cmp : ρ → ρ → Ordering) (row : ℕ → ρ) (s : ℤ) (n : ℕ) (args : ℕ → List Value) (m : Machine),
        Std.TransCmp cmp → AggregateProgram.Partition cmp row s n call args m →
        let rows := (List.range n).map (AggregateProgram.placed s args)
        ((number.overPartition rows).result m).1 = .ok ((List.range n).map fun k : ℕ => .word (k + 1)) ∧
        ((rank.overPartition rows).result m).1 =
          .ok ((List.range n).map fun k => .word (rowsBefore cmp row n k + 1)) ∧
        ((dense.overPartition rows).result m).1 =
          .ok ((List.range n).map fun k => .word (distinctKeys cmp row k)) ∧
        ∀ i < n, ∀ j < n, cmp (row i) (row j) = .eq →
          rowsBefore cmp row n i = rowsBefore cmp row n j ∧ distinctKeys cmp row i = distinctKeys cmp row j) ∧
    (call.returnType.nullable = false → call.hasNullableArgument = false →
      ∃ windowed plain, (builtin .count).program settings call true = .ok windowed ∧
        (builtin .count).program settings call false = .ok plain ∧
        ∀ (index : Value) (first last : ℤ) (rows : List (List Value)) (m : Machine), Word.Fits first →
          Word.Fits last → last - first + 1 = rows.length → Word.Fits rows.length →
          (∀ row ∈ rows, List.Forall₂ (fun v t => v.IsOf t) row call.parameters) →
          ((windowed.overFrame [index, .word first, .word last] rows).result m).1 = .ok (.word rows.length) ∧
          ((plain.aggregate rows).result m).1 = .ok (.word rows.length)) := by
  refine ⟨?_, fun hreturn hnull => ?_⟩
  · obtain ⟨number, hnumber, himp, hframe⟩ : ∃ p, (builtin .rowNumber).program settings call true = .ok p ∧
        p.Implements (.strict .rowNumber) (call.complete settings) ∧ p.frame = some {} :=
      exists_implements rfl rfl rfl
    obtain ⟨rank, hrank, himp', hframe'⟩ : ∃ p, (builtin .rank).program settings call true = .ok p ∧
        p.Implements (.strict .rank) (call.complete settings) ∧ p.frame = some {} := exists_implements rfl rfl rfl
    obtain ⟨dense, hdense, himp'', hframe''⟩ : ∃ p, (builtin .denseRank).program settings call true = .ok p ∧
        p.Implements (.strict .denseRank) (call.complete settings) ∧ p.frame = some {} :=
      exists_implements rfl rfl rfl
    refine ⟨number, rank, dense, hnumber, hrank, hdense, fun ρ cmp row s n args m hcmp h => ?_⟩
    have h' : AggregateProgram.Partition cmp row s n (call.complete settings) args m :=
      ⟨h.indexed, h.sorted, h.comparator, h.arguments⟩
    refine ⟨AggregateProgram.result_rowNumber himp hframe h'.indexed h'.arguments,
      AggregateProgram.result_rank himp' hframe' h', AggregateProgram.result_denseRank himp'' hframe'' h', ?_⟩
    intro i hi j hj heq
    exact ⟨rowsBefore_congr heq, distinctKeys_congr h.sorted hi hj heq⟩
  · obtain ⟨-, -, hadd, hvalue⟩ :=
      Strategy.windowCount_of_not_hasNullableArgument (c := call.complete settings) hnull
    obtain ⟨windowed, hwindowed, himp, hframe⟩ : ∃ p, (builtin .count).program settings call true = .ok p ∧
        p.Implements .windowCount (call.complete settings) ∧ p.frame = some {} := exists_implements rfl hadd hvalue
    obtain ⟨plain, hplain, himp', -⟩ : ∃ p, (builtin .count).program settings call false = .ok p ∧
        p.Implements (.strict .count) (call.complete settings) ∧ p.frame = none := exists_implements rfl rfl rfl
    refine ⟨windowed, plain, hwindowed, hplain, fun index first last rows m hfirst hlast hlength hfits hrows => ?_⟩
    refine ⟨?_, AggregateProgram.result_count himp' hreturn hnull hrows hfits m⟩
    have hle : first - 1 ≤ last := by omega
    rw [← hlength] at hfits ⊢
    exact AggregateProgram.result_windowCount himp hframe hnull hfirst hlast hle hfits index rows

/-- The comparator of rows with integer keys. -/
def byKeys (keys : List ℤ) (s : ℤ) : Routine
  | [.int i, .int j] =>
    let key := keys.getD (i.toInt - s).toNat 0
    let key' := keys.getD (j.toInt - s).toNat 0
    .ok (.int (if key < key' then -1 else if key = key' then 0 else 1))
  | _ => .error (.invalidArgument "compareRows" "row out of range")

/-- Of rows with the keys 10, 10 and 20, the first two are tied. A frame of three rows and an empty one. -/
theorem window_functions_of_tied_rows :
    (∃ number rank dense, (builtin .rowNumber).program {} { returnType := .plain .bigInt false, parameters := [] }
        true = .ok number ∧
      (builtin .rank).program {} { returnType := .plain .bigInt false, parameters := [] } true = .ok rank ∧
      (builtin .denseRank).program {} { returnType := .plain .bigInt false, parameters := [] } true = .ok dense ∧
      let m : Machine := { routines := [("compareRows", byKeys [10, 10, 20] 5)] }
      let rows := (List.range 3).map (AggregateProgram.placed 5 fun _ => [])
      ((number.overPartition rows).result m).1 = .ok [.int 1, .int 2, .int 3] ∧
      ((rank.overPartition rows).result m).1 = .ok [.int 1, .int 1, .int 3] ∧
      ((dense.overPartition rows).result m).1 = .ok [.int 1, .int 1, .int 2]) ∧
    ∃ windowed plain, (builtin .count).program {}
        { returnType := .plain .bigInt false, parameters := [.plain .integer false] } true = .ok windowed ∧
      (builtin .count).program {}
        { returnType := .plain .bigInt false, parameters := [.plain .integer false] } false = .ok plain ∧
      ((windowed.overFrame [.int 4, .int 4, .int 6] [[.int 7], [.int 7], [.int 8]]).result {}).1 = .ok (.int 3) ∧
      ((plain.aggregate [[.int 7], [.int 7], [.int 8]]).result {}).1 = .ok (.int 3) ∧
      ((windowed.overFrame [.int 4, .int 4, .int 3] []).result {}).1 = .ok (.int 0) := by
  refine ⟨?_, ?_⟩
  · obtain ⟨⟨number, rank, dense, hnumber, hrank, hdense, hresults⟩, -⟩ :=
      window_functions {} { returnType := .plain .bigInt false, parameters := [] }
    have hpartition : AggregateProgram.Partition compare (fun k => [(10 : ℤ), 10, 20].getD k 0) 5 3
        { returnType := .plain .bigInt false, parameters := [] } (fun _ => [])
        { routines := [("compareRows", byKeys [10, 10, 20] 5)] } := by
      refine ⟨⟨by decide, by decide⟩, ?_, ⟨_, rfl, ?_⟩, fun _ _ => ⟨.nil, rfl⟩⟩
      · intro i j hij hj
        interval_cases j <;> interval_cases i <;> rfl
      · intro i hi j hj
        interval_cases i <;> interval_cases j <;> exact ⟨_, rfl, by decide⟩
    obtain ⟨hone, htwo, hthree, -⟩ := hresults ℤ _ _ _ _ _ _ inferInstance hpartition
    exact ⟨number, rank, dense, hnumber, hrank, hdense, hone, htwo, hthree⟩
  · obtain ⟨-, hcount⟩ :=
      window_functions {} { returnType := .plain .bigInt false, parameters := [.plain .integer false] }
    obtain ⟨windowed, plain, hwindowed, hplain, hresults⟩ := hcount rfl rfl
    have hrows : ∀ row ∈ [[Value.int 7], [.int 7], [.int 8]],
        List.Forall₂ (fun v t => v.IsOf t) row [SqlType.plain .integer false] := by
      simp only [List.forall_mem_cons]
      exact ⟨.cons ⟨rfl, by simp⟩ .nil, .cons ⟨rfl, by simp⟩ .nil, .cons ⟨rfl, by simp⟩ .nil, by simp⟩
    obtain ⟨hwide, hgroup⟩ := hresults (.int 4) 4 6 _ {} (by decide) (by decide) rfl (by decide) hrows
    obtain ⟨hempty, -⟩ := hresults (.int 4) 4 3 [] {} (by decide) (by decide) rfl (by decide) (by simp)
    exact ⟨windowed, plain, hwindowed, hplain, hwide, hgroup, hempty⟩

end AggregateFunction

end SqlCode

import SqlCode.Proofs.PatternSearch
import SqlCode.Proofs.RoutineTests

/-!
# LIKE patterns

A pattern relates to texts item by item, as it is read from the left. Each item is written as a part
of a regular expression, which is read as a node, and the instructions of the node lead from a
position of the text to the positions after what the item takes.
-/

namespace SqlCode

open Fault

variable {c : Char} {cs rest : List Char}

/-! ### Reading -/

namespace Regex

namespace Parser

theorem escape?_of_isMeta (h : isMeta c) : escape? {} (c :: rest) = some (.char c, rest) := by
  have hall : ∀ c ∈ "\\.+*?()|[]\x7b\x7d^$#&-~".toList, escape? {} (c :: rest) = some (.char c, rest) := by
    simp [escape?, isEscapable, isMeta]
  exact hall c (by simpa [isMeta] using h)

theorem steps?_cons {s s' : State} (hflags : s.flags = {})
    (hstep : step? s c cs = some (s', rest)) (fuel : ℕ) : steps? (fuel + 1) s (c :: cs) = steps? fuel s' rest := by
  simp [steps?, hflags, skip, hstep]

theorem ofSet_char (c : Char) : Node.ofSet (.char c) = .literal [c] := by
  simp [Node.ofSet, CharSet.single?, CharSet.char, CharSet.range]

theorem step?_escaped {s : State} (hflags : s.flags = {}) (h : isMeta c) :
    step? s '\\' (c :: cs) = some (s.push (.literal [c]), cs) := by
  simp [step?, hflags, escape?_of_isMeta h, Flags.literal, Flags.close, ofSet_char]

theorem step?_literal {s : State} (hflags : s.flags = {}) (h : ¬ isMeta c) :
    step? s c cs = some (s.push (.literal [c]), cs) := by
  unfold step?
  split
  all_goals try exact absurd (by decide) h
  simp [hflags, Flags.literal, Flags.close, ofSet_char]

theorem step?_star {s : State} {q : Part} {ps : List Part} (hflags : s.flags = {}) (hitems : s.items = q :: ps)
    (hq : q.repeats) (hcs : cs.head? ≠ some '?') :
    step? s '*' cs = some ({ s with items := ⟨.repOf 0 none true q.node, q.depth + 1, true⟩ :: ps }, cs) := by
  have hgreed : greed cs = (true, cs) := by
    unfold greed
    split
    · simp at hcs
    · rfl
  simp [step?, hgreed, State.repeat?, hitems, hq, hflags]

theorem deepest_le {d : ℕ} {ps : List Part} (h : ∀ p ∈ ps, p.depth ≤ d) : Part.deepest ps ≤ d := by
  have hfold : ∀ (ps : List Part) (a : ℕ), a ≤ d → (∀ p ∈ ps, p.depth ≤ d) →
      ps.foldl (fun d p => max d p.depth) a ≤ d := by
    intro ps
    induction ps with
    | nil => exact fun a ha _ => ha
    | cons p ps ih =>
      intro a ha h
      rw [List.forall_mem_cons] at h
      exact ih _ (max_le ha h.1) h.2
  exact hfold ps 0 (Nat.zero_le d) h

theorem seq_of_two (a b : Part) (ps : List Part) : Part.seq (a :: (ps ++ [b])) =
    ⟨.seqOf ((a :: (ps ++ [b])).map (·.node)), Part.deepest (a :: (ps ++ [b])) + 1, true⟩ := by
  cases ps <;> rfl

end Parser

variable {keeps : Char → Bool} {escape : Option Char} {p : List Char}

theorem body?_cons_of_ne (hc : escape ≠ some c) :
    body? keeps escape (c :: p) = (body? keeps escape p).map (item keeps c ++ ·) := by
  cases p with
  | nil => simp [body?, hc]
  | cons d p => rw [body?, if_neg hc]

end Regex

namespace Like

open Regex

/-! ### Items -/

/-- An item of a pattern. -/
inductive Item
  | char (c : Char)
  | anyChar
  | anyRun

namespace Item

/-- The item as a part of a regular expression. -/
def text : Item → List Char
  | .char c => literal c
  | .anyChar => ['.']
  | .anyRun => ['.', '*']

/-- What the part is read as. -/
def node : Item → Node
  | .char c => .literal [c]
  | .anyChar => .set .any
  | .anyRun => .rep 0 none true (.set .any)

@[inherit_doc node]
def part (i : Item) : Parser.Part := ⟨i.node, if i matches .anyRun then 1 else 0, true⟩

/-- What is left of a text after the item. -/
def Takes : Item → List Char → List Char → Prop
  | .char c, u, t => u = c :: t
  | .anyChar, u, t => ∃ c, u = c :: t
  | .anyRun, u, t => ∃ cs, u = cs ++ t

theorem Takes.suffix {i : Item} {u t : List Char} (h : i.Takes u t) : t <:+ u := by
  cases i with
  | char c => exact ⟨[c], h.symm⟩
  | anyChar =>
    obtain ⟨c, h⟩ := h
    exact ⟨[c], h.symm⟩
  | anyRun =>
    obtain ⟨part, h⟩ := h
    exact ⟨part, h.symm⟩

theorem reads (i : Item) : i.node.Reads cs i.Takes := by
  cases i with
  | char c =>
    have hset := @Node.reads_set cs (.char c)
    have hR : (fun u t : List Char => ∃ d, u = d :: t ∧ (CharSet.char c).contains d) = (Item.char c).Takes := by
      funext u t
      simp [CharSet.contains_char, Takes]
    rw [hR] at hset
    exact ⟨hset.1, hset.2⟩
  | anyChar =>
    have hset := @Node.reads_set cs .any
    simp only [CharSet.contains_any, and_true] at hset
    exact hset
  | anyRun => exact Node.reads_anyRun

end Item

variable {items : List Item} {escape : Option Char} {p s t : List Char}

/-- Every item has its part of the text, up to what is left. -/
def Splits : List Item → List Char → List Char → Prop
  | [], s, t => s = t
  | i :: is, s, t => ∃ u, i.Takes s u ∧ Splits is u t

theorem reads_items (items : List Item) : (Node.seq (items.map Item.node)).Reads cs (Splits items) := by
  induction items with
  | nil => exact Node.reads_nil
  | cons i is ih => exact i.reads.cons ih Item.Takes.suffix

/-- The regular expression of the items, bound to both ends of the text. -/
def node (items : List Item) : Node :=
  .seqOf (.look .textStart :: (items.map Item.node ++ [.look .textEnd]))

/-! ### The expression -/

theorem head?_text_ne (items : List Item) (h : rest.head? ≠ some '?') :
    (items.flatMap Item.text ++ rest).head? ≠ some '?' := by
  cases items with
  | nil => exact h
  | cons i is =>
    cases i with
    | char c =>
      rw [List.flatMap_cons, Item.text, literal]
      split_ifs with hc
      · simp
      · intro hhead
        obtain rfl : c = '?' := by simpa using hhead
        exact hc (by decide)
    | anyChar | anyRun => simp [Item.text]

section Parts

open Parser

variable {st : State} {fuel : ℕ}

theorem steps?_text (i : Item) (hflags : st.flags = {}) (hrest : rest.head? ≠ some '?')
    (hfuel : (i.text ++ rest).length ≤ fuel) : ∃ fuel', rest.length ≤ fuel' ∧
      steps? fuel st (i.text ++ rest) = steps? fuel' (st.pushPart i.part) rest := by
  have hdot : ∀ rest, step? st '.' rest = some (st.push (.set .any), rest) := by
    intro rest
    simp [step?, hflags, Flags.dot?]
    rfl
  cases i with
  | char c =>
    change (literal c ++ rest).length ≤ fuel at hfuel
    change ∃ fuel', rest.length ≤ fuel' ∧ steps? fuel st (literal c ++ rest) =
      steps? fuel' (st.push (.literal [c])) rest
    unfold literal at hfuel ⊢
    split_ifs at hfuel ⊢ with hc
    · obtain ⟨fuel, rfl⟩ : ∃ f, fuel = f + 1 := ⟨fuel - 1, by simp at hfuel; omega⟩
      exact ⟨fuel, by simp at hfuel; omega, steps?_cons hflags (step?_escaped hflags hc) fuel⟩
    · obtain ⟨fuel, rfl⟩ : ∃ f, fuel = f + 1 := ⟨fuel - 1, by simp at hfuel; omega⟩
      exact ⟨fuel, by simpa using hfuel, steps?_cons hflags (step?_literal hflags hc) fuel⟩
  | anyChar =>
    obtain ⟨fuel, rfl⟩ : ∃ f, fuel = f + 1 := ⟨fuel - 1, by simp [Item.text] at hfuel; omega⟩
    exact ⟨fuel, by simpa [Item.text] using hfuel, steps?_cons hflags (hdot rest) fuel⟩
  | anyRun =>
    obtain ⟨fuel, rfl⟩ : ∃ f, fuel = f + 2 := ⟨fuel - 2, by simp [Item.text] at hfuel; omega⟩
    have hstar := step?_star (s := st.push (.set .any)) hflags (rfl : _ = _ :: st.items) rfl hrest
    refine ⟨fuel, by simpa [Item.text] using hfuel, ?_⟩
    exact (steps?_cons hflags (hdot ('*' :: rest)) (fuel + 1)).trans
      (steps?_cons (s := st.push (.set .any)) hflags hstar fuel)

theorem steps?_flatMap_text (items : List Item) (hflags : st.flags = {})
    (hfuel : (items.flatMap Item.text ++ ['$']).length ≤ fuel) : ∃ fuel', 1 ≤ fuel' ∧
      steps? fuel st (items.flatMap Item.text ++ ['$']) =
        steps? fuel' { st with items := (items.map Item.part).reverse ++ st.items } ['$'] := by
  induction items generalizing st fuel with
  | nil => exact ⟨fuel, hfuel, rfl⟩
  | cons i is ih =>
    rw [List.flatMap_cons, List.append_assoc] at hfuel ⊢
    obtain ⟨fuel', hfuel', hi⟩ := steps?_text i hflags (head?_text_ne is (by simp)) hfuel
    obtain ⟨fuel'', hfuel'', his⟩ := ih (show (st.pushPart i.part).flags = {} from hflags) hfuel'
    refine ⟨fuel'', hfuel'', ?_⟩
    rw [hi, his]
    simp [State.pushPart]

/-- A condition on a position, as it is read. -/
def lookPart (l : Look) : Part := ⟨.look l, 0, true⟩

/-- The items are read between the ends of the text. -/
theorem parse?_text (items : List Item) :
    parse? ("^" ++ String.ofList (items.flatMap Item.text) ++ "$") false = some ⟨node items, []⟩ := by
  have htext : ("^" ++ String.ofList (items.flatMap Item.text) ++ "$").toList =
      '^' :: (items.flatMap Item.text ++ ['$']) := by simp
  obtain ⟨fuel, hfuel, hitems⟩ := @steps?_flatMap_text
    { flags := {}, items := [lookPart .textStart] } _ items rfl (Nat.le_refl _)
  obtain ⟨fuel, rfl⟩ : ∃ f, fuel = f + 1 := ⟨fuel - 1, by omega⟩
  have hsteps : steps? ((items.flatMap Item.text ++ ['$']).length + 1) { flags := {} }
      ('^' :: (items.flatMap Item.text ++ ['$'])) = some { flags := {}, items := (lookPart .textEnd) ::
          ((items.map Item.part).reverse ++ [lookPart .textStart]) } := by
    rw [steps?_cons rfl rfl]
    refine hitems.trans ?_
    rw [steps?_cons rfl rfl]
    cases fuel <;> rfl
  have hbody : State.body { flags := {}, items := (lookPart .textEnd) ::
      ((items.map Item.part).reverse ++ [lookPart .textStart]) } =
        Part.seq (lookPart .textStart :: (items.map Item.part ++ [lookPart .textEnd])) := by
    simp [State.body, Part.alt]
  have hdepth : ∀ p ∈ lookPart .textStart :: (items.map Item.part ++ [lookPart .textEnd]),
      Part.depth p ≤ 1 := by
    simp only [List.mem_cons, List.mem_append, List.mem_map, List.not_mem_nil, or_false]
    rintro p (rfl | ⟨i, -, rfl⟩ | rfl)
    · decide
    · unfold Item.part
      dsimp only
      split <;> decide
    · decide
  have hnodes : (lookPart .textStart :: (items.map Item.part ++ [lookPart .textEnd])).map Part.node =
      .look .textStart :: (items.map Item.node ++ [.look .textEnd]) := by
    simp [lookPart, Function.comp_def, Item.part]
  have hlimit : Part.deepest (lookPart .textStart :: (items.map Item.part ++ [lookPart .textEnd])) + 1 ≤
      nestingLimit := Nat.le_trans (Nat.succ_le_succ (deepest_le hdepth)) (by decide)
  rw [parse?, htext, List.length_cons]
  simp only [hsteps, Option.bind_eq_bind, Option.bind_some, hbody, seq_of_two]
  rw [if_pos ⟨rfl, hlimit⟩, hnodes]
  rfl

end Parts

/-! ### Patterns -/

/-- The text is split so that every item of the pattern has its part: an escaped character and an ordinary one have
themselves, `_` has one character, and `%` has any run of characters. -/
inductive Matches (escape : Option Char) : List Char → List Char → Prop
  | nil : Matches escape [] []
  | escaped {e d : Char} {p s : List Char} : escape = some e → Matches escape p s →
      Matches escape (e :: d :: p) (d :: s)
  | run {p s : List Char} (cs : List Char) : escape ≠ some '%' → Matches escape p s → Matches escape ('%' :: p) (cs ++ s)
  | one {p s : List Char} (c : Char) : escape ≠ some '_' → Matches escape p s → Matches escape ('_' :: p) (c :: s)
  | char {c : Char} {p s : List Char} : escape ≠ some c → c ≠ '%' → c ≠ '_' → Matches escape p s →
      Matches escape (c :: p) (c :: s)

/-- Read from the left, the pattern ends with an escape character that has nothing to escape. -/
inductive Dangling (escape : Option Char) : List Char → Prop
  | last {e : Char} : escape = some e → Dangling escape [e]
  | escaped {e d : Char} {p : List Char} : escape = some e → Dangling escape p → Dangling escape (e :: d :: p)
  | plain {c : Char} {p : List Char} : escape ≠ some c → Dangling escape p → Dangling escape (c :: p)

/-- The item of a character that is not escaped. -/
def item (c : Char) : Item := if c = '%' then .anyRun else if c = '_' then .anyChar else .char c

theorem text_item (c : Char) : (item c).text = Regex.item (fun _ => false) c := by
  unfold item Regex.item
  split_ifs <;> first | rfl | contradiction

theorem splits_item_iff (hc : escape ≠ some c) (ih : ∀ t, Splits items t [] ↔ Matches escape p t) :
    Splits (item c :: items) s [] ↔ Matches escape (c :: p) s := by
  unfold item
  split_ifs with hrun hone
  · subst hrun
    constructor
    · rintro ⟨t, ⟨cs, rfl⟩, h⟩
      exact .run cs hc ((ih t).1 h)
    · rintro (_ | ⟨he, _⟩ | ⟨cs, _, h⟩ | _ | ⟨_, hne, _⟩)
      · exact absurd he hc
      · exact ⟨_, ⟨cs, rfl⟩, (ih _).2 h⟩
      · exact absurd rfl hne
  · subst hone
    constructor
    · rintro ⟨t, ⟨d, rfl⟩, h⟩
      exact .one d hc ((ih t).1 h)
    · rintro (_ | ⟨he, _⟩ | _ | ⟨d, _, h⟩ | ⟨_, _, hne, _⟩)
      · exact absurd he hc
      · exact ⟨_, ⟨d, rfl⟩, (ih _).2 h⟩
      · exact absurd rfl hne
  · constructor
    · rintro ⟨t, rfl, h⟩
      exact .char hc hrun hone ((ih t).1 h)
    · rintro (_ | ⟨he, _⟩ | _ | _ | ⟨_, _, _, h⟩)
      · exact absurd he hc
      · exact absurd rfl hrun
      · exact absurd rfl hone
      · exact ⟨_, rfl, (ih _).2 h⟩

theorem splits_escaped_iff {d : Char} (hc : escape = some c)
    (ih : ∀ t, Splits items t [] ↔ Matches escape p t) :
    Splits (.char d :: items) s [] ↔ Matches escape (c :: d :: p) s := by
  constructor
  · rintro ⟨t, rfl, h⟩
    exact .escaped hc ((ih t).1 h)
  · rintro (_ | ⟨_, h⟩ | ⟨_, hne, _⟩ | ⟨_, hne, _⟩ | ⟨hne, _, _, _⟩)
    · exact ⟨_, rfl, (ih _).2 h⟩
    all_goals exact absurd hc hne

/-- Either the pattern has an escape character with nothing to escape and is not translated, or it is
translated to items that split the texts of the relation. -/
def Settled (escape : Option Char) (p : List Char) : Prop :=
  (Dangling escape p ∧ body? (fun _ => false) escape p = none) ∨
    ¬ Dangling escape p ∧ ∃ items, body? (fun _ => false) escape p = some (items.flatMap Item.text) ∧
      ∀ s, Splits items s [] ↔ Matches escape p s

theorem settled_nil : Settled escape [] := by
  refine .inr ⟨by rintro ⟨⟩, [], rfl, fun s => ⟨?_, ?_⟩⟩
  · rintro rfl
    exact .nil
  · rintro ⟨⟩
    rfl

theorem Settled.plain (hc : escape ≠ some c) (h : Settled escape p) : Settled escape (c :: p) := by
  have hiff : Dangling escape (c :: p) ↔ Dangling escape p := by
    refine ⟨?_, .plain hc⟩
    rintro (he | ⟨he, -⟩ | ⟨-, h⟩)
    · exact absurd he hc
    · exact absurd he hc
    · exact h
  rw [Settled, hiff, body?_cons_of_ne hc]
  refine h.imp (fun h => ⟨h.1, by rw [h.2]; rfl⟩) ?_
  rintro ⟨hnot, items, hitems, hmatch⟩
  refine ⟨hnot, item c :: items, ?_, fun s => splits_item_iff hc hmatch⟩
  rw [hitems, List.flatMap_cons, text_item]
  rfl

theorem Settled.escaped (hc : escape = some c) (d : Char) (h : Settled escape p) : Settled escape (c :: d :: p) := by
  have hiff : Dangling escape (c :: d :: p) ↔ Dangling escape p := by
    refine ⟨?_, .escaped hc⟩
    rintro (- | ⟨-, h⟩ | ⟨hne, -⟩)
    · exact h
    · exact absurd hc hne
  rw [Settled, hiff, body?, if_pos hc]
  refine h.imp (fun h => ⟨h.1, by rw [h.2]; rfl⟩) ?_
  rintro ⟨hnot, items, hitems, hmatch⟩
  exact ⟨hnot, .char d :: items, by rw [hitems]; rfl, fun s => splits_escaped_iff hc hmatch⟩

theorem settled (escape : Option Char) (p : List Char) : Settled escape p := by
  induction p using List.twoStepInduction with
  | nil => exact settled_nil
  | singleton c =>
    by_cases hc : escape = some c
    · exact .inl ⟨.last hc, if_pos hc⟩
    · exact settled_nil.plain hc
  | cons_cons c d p ih ih' =>
    by_cases hc : escape = some c
    · exact ih.escaped hc d
    · exact (ih' d).plain hc

end Like

/-! ### The routine -/

namespace Routine

/-- The arguments of a pattern routine. -/
def patternArgs (s p : String) (escape : Option Char) : List Value :=
  [.str s, .str p] ++ (escape.map fun c => .str (String.ofList [c])).toList

theorem escapeChar_patternArgs (routine s p : String) (escape : Option Char) :
    escapeChar routine (patternArgs s p escape) = .ok escape := by
  cases escape with
  | none => rfl
  | some c => simp [escapeChar, patternArgs, Args.str, Args.value, bind, Except.bind]

theorem sound_escapeChar (routine : String) (args : List Value) : Fault.Sound (escapeChar routine args) := by
  unfold escapeChar
  split
  · exact sound_ok _
  · exact sound_ok _
  · refine (sound_str _ _ _).bind fun s => ?_
    split
    · exact sound_ok _
    · exact sound_invalidArgument _ _

theorem sound_matcher (routine pattern : String) (ignoreCase : Bool) :
    Fault.Sound (matcher routine pattern ignoreCase) := by
  unfold matcher
  split
  · exact sound_ok _
  · exact sound_invalidArgument _ _

theorem answer_patternTest (routine : String) (regex? : Option Char → List Char → Option String)
    (vs : List Value) : Fault.Answer (patternTest routine regex? vs) := by
  refine (sound_str _ _ _).answer_bind fun s => (sound_str _ _ _).answer_bind fun p =>
    (sound_escapeChar _ _).answer_bind fun escape => ?_
  split
  · exact (sound_matcher _ _ _).answer_bind fun m => answer_bool _
  · exact answer_invalidArgument _ _

theorem patternTest_patternArgs (routine : String)
    (regex? : Option Char → List Char → Option String) (s p : String) (escape : Option Char) :
    patternTest routine regex? (patternArgs s p escape) =
      match regex? escape p.toList with
      | some regex => matcher routine regex false >>= fun m => .ok (.bool (m.isMatch s))
      | none => .error (danglingEscape routine) := by
  show (escapeChar routine (patternArgs s p escape) >>= _) = _
  rw [escapeChar_patternArgs]
  rfl

/-- The regular expression of items is always read, and matches the texts that they split. -/
theorem like_of_body? {escape : Option Char} {p : String} {items : List Like.Item} (s : String)
    (h : Regex.body? (fun _ => false) escape p.toList = some (items.flatMap Like.Item.text)) :
    ∃ regex pattern, Regex.ofLike? escape p.toList = some regex ∧
      Regex.parse? regex false = some pattern ∧
      if pattern.node.fits then
        ∃ b, like (patternArgs s p escape) = .ok (.bool b) ∧ (b = true ↔ Like.Splits items s.toList [])
      else like (patternArgs s p escape) =
        .error (.invalidArgument "like" Regex.PatternError.tooLarge.message) := by
  have hregex : Regex.ofLike? escape p.toList =
      some ("^" ++ String.ofList (items.flatMap Like.Item.text) ++ "$") := by
    rw [Regex.ofLike?, h]
    rfl
  refine ⟨_, _, hregex, Like.parse?_text items, ?_⟩
  rw [like, patternTest_patternArgs, hregex]
  simp only [matcher, Regex.Matcher.compile, Like.parse?_text]
  split_ifs
  · exact ⟨_, rfl, (Like.reads_items items).isMatch_iff rfl⟩
  · rfl

end Routine

open Like Routine in
/-- LIKE fails exactly where the pattern ends with an escape character that has nothing to escape, or is too large, and
answers otherwise whether the text matches. The compiled NOT LIKE on columns of a row fails where LIKE does, gives the
opposite answer otherwise, and is null on null. -/
theorem Term.program_run_not_like (settings : Settings) (defs : List Term) {fields : List (String × SqlType)}
    {cols : List (ℕ × SqlType)} {n : Bool} (hcols : ∀ c ∈ cols, ∃ name, fields[c.1]? = some (name, c.2))
    (hn : ∀ c ∈ cols, c.2.nullable = true → n = true) :
    (∀ (escape : Option Char) (s p : String),
      (Dangling escape p.toList ∧ like (patternArgs s p escape) = .error (danglingEscape "like")) ∨
      ¬ Dangling escape p.toList ∧ ∃ regex pattern, Regex.ofLike? escape p.toList = some regex ∧
        Regex.parse? regex false = some pattern ∧
        if pattern.node.fits then ∃ b, like (patternArgs s p escape) = .ok (.bool b) ∧
          (b = true ↔ Matches escape p.toList s.toList)
        else like (patternArgs s p escape) =
          .error (.invalidArgument "like" Regex.PatternError.tooLarge.message)) ∧
    ∃ q, (Term.call (.builtin .notLike) (.plain .boolean n) (Builtin.columns cols)).program settings defs fields =
        .ok q ∧
      ∀ {row m}, IsRow fields row → m.Unregistered ["like"] →
        let vs := cols.map fun c => row.getD c.1 .null
        (.null ∈ vs → ((q.run row).result m).1 = .ok .null) ∧
        (.null ∉ vs → (∀ {fault}, like vs = .error fault → ((q.run row).result m).1 = .error fault) ∧
          ∀ {b}, like vs = .ok (.bool b) → ((q.run row).result m).1 = .ok (.bool !b)) := by
  refine ⟨fun escape s p => ?_, ?_⟩
  · obtain ⟨hdangling, hnone⟩ | ⟨hnot, items, hitems, hmatch⟩ := settled escape p.toList
    · refine .inl ⟨hdangling, ?_⟩
      rw [like, patternTest_patternArgs, Regex.ofLike?, hnone]
      rfl
    · refine .inr ⟨hnot, ?_⟩
      rw [← hmatch]
      exact like_of_body? s hitems
  · have htest : Builtin.notLike.IsTest "like" like .strict true :=
      ⟨rfl, by decide, rfl, fun _ => rfl, answer_patternTest _ _⟩
    obtain ⟨q, hq, hrun⟩ := htest.program_run hcols hn settings defs
    refine ⟨q, hq, fun {row m} hrow hm => ?_⟩
    rw [hrun hrow hm]
    refine ⟨fun hnull => @test_of_null _ like .strict hnull true, fun hnot => ?_⟩
    rw [@test_of_not_null _ like .strict hnot]
    refine ⟨fun hfault => by rw [hfault]; rfl, fun {b} hb => ?_⟩
    rw [hb]
    cases b <;> rfl

open Like Routine in
theorem Term.program_run_not_like_escaped :
    let text : SqlType := .plain .varchar true
    ∃ q, (Term.call (.builtin .notLike) (.plain .boolean true) (Builtin.columns [(0, text), (1, text), (2, text)])).program
        {} [] [("s", text), ("p", text), ("e", text)] = .ok q ∧
      ((q.run [.str "a.%", .str "a.!%", .str "!"]).result {}).1 = .ok (.bool false) := by
  intro text
  have hcols : ∀ c ∈ [(0, text), (1, text), (2, text)],
      ∃ name, [("s", text), ("p", text), ("e", text)][c.1]? = some (name, c.2) := by simp
  have hrow : IsRow [("s", text), ("p", text), ("e", text)] [.str "a.%", .str "a.!%", .str "!"] :=
    .cons ⟨rfl, by simp⟩ (.cons ⟨rfl, by simp⟩ (.cons ⟨rfl, by simp⟩ .nil))
  have hm : ({} : Machine).Unregistered ["like"] := fun _ _ => rfl
  have hmatch : Matches (some '!') "a.!%".toList "a.%".toList :=
    .char (by decide) (by decide) (by decide) (.char (by decide) (by decide) (by decide) (.escaped rfl .nil))
  obtain ⟨hlike, q, hq, hrun⟩ := program_run_not_like {} [] hcols fun _ _ _ => rfl
  obtain ⟨b, hb, hiff⟩ : ∃ b, like (patternArgs "a.%" "a.!%" (some '!')) = .ok (.bool b) ∧ (b = true ↔ _) := by
    obtain ⟨hdangling, -⟩ | ⟨-, regex, pattern, hregex, hpattern, h⟩ := hlike (some '!') "a.%" "a.!%"
    · obtain ⟨-, hnone⟩ | ⟨hnot, -⟩ := settled (some '!') "a.!%".toList
      · exact absurd hnone (by decide)
      · exact absurd hdangling hnot
    · have hfits : ((Regex.ofLike? (some '!') "a.!%".toList).bind (Regex.parse? · false)).all
          (·.node.fits) = true := by decide +kernel
      rw [hregex, Option.bind_some, hpattern, Option.all_some] at hfits
      rwa [if_pos hfits] at h
  rw [hiff.2 hmatch] at hb
  exact ⟨q, hq, ((hrun hrow hm).2 (by simp)).2 hb⟩

end SqlCode

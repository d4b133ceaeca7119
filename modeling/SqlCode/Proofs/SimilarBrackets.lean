import SqlCode.Proofs.CodePointSets
import SqlCode.Proofs.LikePatterns

/-!
# Bracket expressions of SIMILAR TO

The characters between brackets are replaced and escaped like all others, so that the regular expression has brackets around
characters of which each stands for itself. Reading them gives the set of these characters, and searching for the set in a
text of one character tests membership.
-/

namespace SqlCode

variable {c d : Char} {cs rest : List Char} {s : CharSet}

namespace Regex

/-! ### Sets -/

namespace CharSet

theorem contains_foldl_union (h : s.ranges.Ordered) (cs : List Char) :
    ((cs.map char).foldl union s).contains c ↔ s.contains c ∨ c ∈ cs := by
  induction cs generalizing s with
  | nil => simp
  | cons d cs ih =>
    have hchar : (char d).ranges.Ordered := List.pairwise_singleton _ _
    have hunion : (s.union (char d)).contains c ↔ s.contains c ∨ c = d := by
      rw [← contains_char]
      exact CodePoints.contains_union_iff h hchar
    have hunions := @ih (s.union (char d)) (h.union hchar)
    rw [List.map_cons, List.foldl_cons, hunions, hunion, List.mem_cons, or_assoc]

/-- The set of the given characters. -/
def ofChars (cs : List Char) : CharSet := unions (cs.map char)

theorem contains_ofChars : (ofChars cs).contains c ↔ c ∈ cs := by
  have h : none.contains c ↔ False := by simp [contains, none, CodePoints.contains]
  rw [ofChars, unions, contains_foldl_union (s := none) .nil, h, false_or]

theorem eq_char_of_single? (hs : s.single? = some d) (hc : s.contains c) :
    s = char d := by
  obtain ⟨rs⟩ := s
  unfold single? at hs
  split at hs
  · rename_i lo hi hrs
    split_ifs at hs with hlo
    subst hlo
    obtain rfl : rs = [(lo, lo)] := hrs
    have hn : c.toNat = lo := by
      simp [contains, CodePoints.contains] at hc
      omega
    obtain rfl : Char.ofNat lo = d := by simpa using hs
    rw [← hn, Char.ofNat_toNat]
    rfl
  · simp at hs

end CharSet

/-! ### Reading -/

namespace Parser

/-- A character as it is written in brackets, with a backslash or without. -/
def written (t : Char × Bool) : List Char := if t.2 then ['\\', t.1] else [t.1]

/-- Characters after a backslash have a meaning without it, and the others have none in brackets. -/
def Literal (t : Char × Bool) : Prop :=
  if t.2 then isMeta t.1 = true else t.1 ∉ ['\\', '[', ']', '^', '-', '&', '~']

variable {t : Char × Bool} {ts : List (Char × Bool)} {ms : Members}

theorem member?_written (h : Literal t) : member? {} (written t ++ rest) = some (.char t.1, rest) := by
  obtain ⟨c, escaped⟩ := t
  cases escaped with
  | false =>
    have hc : c ≠ '\\' := fun hc => h (by simp [hc])
    rw [written, if_neg (by simp), List.singleton_append, member?]
    exact hc
  | true => exact escape?_of_isMeta h

theorem range?_written (h : Literal t) (hd : d ≠ '-') :
    range? {} (written t ++ d :: rest) = some (.char t.1, d :: rest) := by
  rw [range?, member?_written h]
  simp [skip, isMemberChar, hd]

theorem head_written (h : Literal t) : ∃ c cs, written t = c :: cs ∧ c ∉ ['[', ']', '^', '-', '&', '~'] := by
  obtain ⟨c, escaped⟩ := t
  cases escaped with
  | false => exact ⟨c, [], rfl, fun hc => h (List.mem_cons_of_mem _ hc)⟩
  | true => exact ⟨'\\', [c], rfl, by decide⟩

theorem members?_written (h : Literal t) (hd : d ≠ '-') (fuel : ℕ) :
    members? (fuel + 1) {} none ms (written t ++ d :: rest) =
      members? fuel {} none (ms.add ⟨.char t.1, 0⟩) (d :: rest) := by
  have hrange := @range?_written d rest t h hd
  obtain ⟨c, cs, hw, hc⟩ := head_written h
  simp only [List.mem_cons, List.not_mem_nil, or_false, not_or] at hc
  rw [hw, List.cons_append] at hrange ⊢
  rw [members?]
  simp [skip, hc, hrange]

theorem members?_flatMap_written (h : ∀ t ∈ ts, Literal t) (fuel : ℕ) :
    members? (ts.length + fuel + 1) {} none ms (ts.flatMap written ++ ']' :: rest) =
      some ((ts.foldl (fun ms t => ms.add ⟨.char t.1, 0⟩) ms).held, rest) := by
  induction ts generalizing ms with
  | nil => rfl
  | cons t ts ih =>
    rw [List.forall_mem_cons] at h
    -- a dash is only written after a backslash
    obtain ⟨d, ds, hnext, hd⟩ : ∃ d ds, ts.flatMap written ++ ']' :: rest = d :: ds ∧ d ≠ '-' := by
      cases ts with
      | nil => exact ⟨']', rest, rfl, by decide⟩
      | cons t ts =>
        obtain ⟨c, cs, hw, hc⟩ := head_written (h.2 t (by simp))
        exact ⟨c, cs ++ ts.flatMap written ++ ']' :: rest, by simp [hw], fun he => hc (by simp [he])⟩
    rw [List.flatMap_cons, List.append_assoc, List.length_cons, Nat.add_right_comm _ 1, hnext, members?_written h.1 hd,
      ← hnext, ih h.2, List.foldl_cons]

theorem foldl_add (ts : List (Char × Bool)) (ms : Members) : ts.foldl (fun ms t => ms.add ⟨.char t.1, 0⟩) ms =
    ⟨((ts.map Prod.fst).map .char).foldl .union ms.set, ms.count + ts.length, ms.depth⟩ := by
  induction ts generalizing ms with
  | nil => rfl
  | cons t ts ih =>
    rw [List.foldl_cons, ih, List.length_cons, Nat.add_comm ts.length, ← Nat.add_assoc]
    simp only [Members.add, Nat.max_zero, List.map_cons, List.foldl_cons]

theorem bracket?_cons (hc : c ∉ ['[', ']', '^', '-', '&', '~']) (fuel : ℕ) (cs : List Char) :
    bracket? (fuel + 1) {} (c :: cs) =
      (members? fuel {} none {} (c :: cs)).map fun r => (⟨r.1.set, r.1.depth + 1⟩, r.2) := by
  simp only [List.mem_cons, List.not_mem_nil, or_false, not_or] at hc
  have hlead : leadingMembers? {} (c :: cs).length {} (c :: cs) = some ({}, c :: cs) := by simp [leadingMembers?, hc]
  rw [List.length_cons] at hlead
  rw [bracket?]
  cases hm : members? fuel {} none {} (c :: cs) <;> simp [skip, hc, hlead, hm, closed?, Flags.close]

theorem bracket?_written (h : ∀ t ∈ ts, Literal t) (hne : ts ≠ []) (fuel : ℕ) : ∃ depth ≤ 2,
    bracket? (ts.length + fuel + 2) {} (ts.flatMap written ++ ']' :: rest) =
      some (⟨.ofChars (ts.map Prod.fst), depth⟩, rest) := by
  obtain ⟨t, ts, rfl⟩ := List.exists_cons_of_ne_nil hne
  have hmembers := @members?_flatMap_written rest _ {} h fuel
  obtain ⟨c, cs, hw, hc⟩ := head_written (h t (by simp))
  rw [List.flatMap_cons, hw, List.cons_append, List.cons_append] at hmembers ⊢
  rw [bracket?_cons hc, hmembers, foldl_add]
  refine ⟨_, ?_, rfl⟩
  unfold Members.held
  dsimp only
  split_ifs <;> decide

theorem length_le_length_flatMap_written (ts : List (Char × Bool)) : ts.length ≤ (ts.flatMap written).length := by
  induction ts with
  | nil => exact Nat.le_refl _
  | cons t ts ih =>
    have ht : 1 ≤ (written t).length := by
      unfold written
      split_ifs <;> simp
    rw [List.flatMap_cons, List.length_append, List.length_cons]
    omega

theorem step?_bracket {s : State} {held : Held} (hflags : s.flags = {})
    (h : bracket? (2 * cs.length + 2) {} cs = some (held, rest)) :
    step? s '[' cs = some (s.pushPart ⟨.ofSet held.set, held.depth, true⟩, rest) := by
  simp [step?, hflags, h]

/-- The pattern of a bracket expression is a set between the ends of the text. -/
theorem parse?_bracket (h : ∀ t ∈ ts, Literal t) (hne : ts ≠ []) :
    parse? ("^(?:" ++ String.ofList ('[' :: (ts.flatMap written ++ [']'])) ++ ")$") false =
      some ⟨.seqOf [.look .textStart, .ofSet (.ofChars (ts.map Prod.fst)), .look .textEnd], []⟩ := by
  have htext : ("^(?:" ++ String.ofList ('[' :: (ts.flatMap written ++ [']'])) ++ ")$").toList =
      '^' :: '(' :: '?' :: ':' :: '[' :: (ts.flatMap written ++ ']' :: [')', '$']) := by simp
  obtain ⟨fuel, hfuel⟩ := Nat.exists_eq_add_of_le (length_le_length_flatMap_written ts)
  obtain ⟨depth, hdepth, hbracket⟩ := @bracket?_written [')', '$'] ts h hne (ts.length + 2 * fuel + 6)
  have hlen : (ts.flatMap written ++ ']' :: [')', '$']).length = ts.length + fuel + 3 := by simp [hfuel]
  rw [show ts.length + (ts.length + 2 * fuel + 6) + 2 = 2 * (ts.length + fuel + 3) + 2 by omega, ← hlen] at hbracket
  rw [parse?, htext]
  generalize ts.flatMap written ++ ']' :: [')', '$'] = cs at *
  have hsteps : steps? (cs.length + 5) { flags := {} } ('^' :: '(' :: '?' :: ':' :: '[' :: cs) = some
      { flags := {}, items := [⟨.look .textEnd, 0, true⟩, ⟨.ofSet (.ofChars (ts.map Prod.fst)), depth + 1, true⟩,
        ⟨.look .textStart, 0, true⟩] } := by
    rw [steps?_cons rfl rfl, steps?_cons rfl rfl, steps?_cons rfl (step?_bracket rfl hbracket), hlen,
      steps?_cons rfl rfl, steps?_cons rfl rfl]
    rfl
  simp only [List.length_cons, hsteps, State.body, Part.seq, Part.alt]
  simp [Part.deepest, nestingLimit]
  omega

end Parser

/-! ### Searching -/

namespace Node

/-- A text that is one character of a set. -/
def wholeSet (s : CharSet) : Node := .seq [.look .textStart, .ofSet s, .look .textEnd]

theorem seqOf_ofSet (s : CharSet) : seqOf [.look .textStart, .ofSet s, .look .textEnd] = wholeSet s := by
  unfold wholeSet ofSet
  split <;> rfl

theorem reads_ofSet (hc : s.contains c) :
    (ofSet s).Reads cs fun u t => ∃ c, u = c :: t ∧ s.contains c := by
  unfold ofSet
  split
  · rename_i d hd
    obtain rfl := CharSet.eq_char_of_single? hd hc
    have hset : (Node.set (.char d)).Reads cs _ := reads_set _
    exact ⟨hset.1, hset.2⟩
  · exact reads_set s

theorem isMatch_ofSet {m : Matcher} (hd : s.contains d)
    (hm : (seqOf [.look .textStart, .ofSet s, .look .textEnd]).compile 0 #[.done] = (m.start, m.program)) :
    m.isMatch (String.ofList [c]) ↔ s.contains c := by
  have hreads := (@reads_ofSet _ (String.ofList [c]).toList _ hd).cons reads_nil
    fun {u t} ⟨d, h, _⟩ => ⟨[d], h.symm⟩
  rw [hreads.isMatch_iff hm, String.toList_ofList]
  simp

end Node

end Regex

/-! ### Bracket expressions -/

namespace Similar

/-- The characters that a character becomes between brackets. A wildcard is replaced there too. -/
def spelled (c : Char) : List Char := if c = '%' then ['.', '*'] else if c = '_' then ['.'] else [c]

/-- The characters that a character becomes, as they are written. -/
def tokens (c : Char) : List (Char × Bool) :=
  if c = '%' then [('.', false), ('*', false)]
  else if c = '_' then [('.', false)]
  else [(c, Regex.Parser.isMeta c && !Regex.isOperator c)]

theorem map_fst_tokens (c : Char) : (tokens c).map Prod.fst = spelled c := by
  unfold tokens spelled
  split_ifs <;> rfl

theorem item_eq_flatMap_written (c : Char) :
    Regex.item Regex.isOperator c = (tokens c).flatMap Regex.Parser.written := by
  unfold Regex.item tokens Regex.literal Regex.Parser.written
  split_ifs <;> simp [*]

theorem literal_of_mem_tokens (hc : c ∉ ['\\', '[', ']']) : ∀ t ∈ tokens c, Regex.Parser.Literal t := by
  unfold tokens
  split_ifs
  · simp [Regex.Parser.Literal]
  · simp [Regex.Parser.Literal]
  · rw [List.forall_mem_singleton, Regex.Parser.Literal]
    split_ifs with hmeta
    · exact (Bool.and_eq_true_iff.1 hmeta).1
    · intro hmem
      rcases (List.mem_append (s := ['\\', '[', ']']) (t := ['^', '-', '&', '~'])).1 hmem with hmem | hmem
      · exact hc hmem
      · -- the other characters with a meaning between brackets are written after a backslash
        simp only [List.mem_cons, List.not_mem_nil, or_false] at hmem
        rcases hmem with rfl | rfl | rfl | rfl
        all_goals exact hmeta (by decide)

variable {escape : Option Char} {p : List Char}

theorem body?_of_forall_ne (h : ∀ c ∈ p, escape ≠ some c) :
    Regex.body? Regex.isOperator escape p = some (p.flatMap (Regex.item Regex.isOperator)) := by
  induction p with
  | nil => rfl
  | cons c p ih =>
    rw [List.forall_mem_cons] at h
    rw [Regex.body?_cons_of_ne h.1, ih h.2]
    rfl

theorem ofSimilar?_bracket (h : ∀ c ∈ '[' :: (p ++ [']']), escape ≠ some c) :
    Regex.ofSimilar? escape ('[' :: (p ++ [']'])) = some ("^(?:" ++
      String.ofList ('[' :: ((p.flatMap tokens).flatMap Regex.Parser.written ++ [']'])) ++ ")$") := by
  have hitems : (p.flatMap tokens).flatMap Regex.Parser.written =
      p.flatMap (Regex.item Regex.isOperator) := by
    rw [List.flatMap_assoc]
    exact List.flatMap_congr fun c _ => (item_eq_flatMap_written c).symm
  have hopen : Regex.item Regex.isOperator '[' = ['['] := by decide
  have hclose : Regex.item Regex.isOperator ']' = [']'] := by decide
  rw [Regex.ofSimilar?, body?_of_forall_ne h, hitems, List.flatMap_cons, List.flatMap_append,
    List.flatMap_singleton, hopen, hclose]
  rfl

/-- A member of a bracket expression. -/
inductive Member
  | single (c : Char)
  | range (lo hi : Char)

def Member.text : Member → List Char
  | .single c => [c]
  | .range lo hi => [lo, '-', hi]

/-- The member stands for the character. -/
def Member.Has (c : Char) : Member → Prop
  | .single d => c = d
  | .range lo hi => lo ≤ c ∧ c ≤ hi

/-- A bracket expression: members, and whether the others are meant. -/
structure Bracket where
  negated : Bool
  members : List Member

namespace Bracket

/-- The text between the brackets. -/
def text (b : Bracket) : List Char := (if b.negated then ['^'] else []) ++ b.members.flatMap Member.text

/-- The character is in the set that the brackets denote in a regular expression. -/
def Denotes (b : Bracket) (c : Char) : Prop := (∃ m ∈ b.members, m.Has c) ↔ b.negated = false

/-- The members are single characters other than wildcards. -/
def Plain (b : Bracket) : Prop := b.negated = false ∧ ∀ m ∈ b.members, ∃ d, m = .single d ∧ d ≠ '%' ∧ d ≠ '_'

theorem flatMap_tokens_ne_nil {b : Bracket} (h : b.members ≠ []) : b.text.flatMap tokens ≠ [] := by
  obtain ⟨m, hm⟩ := List.exists_mem_of_ne_nil _ h
  obtain ⟨d, hd⟩ : ∃ d, d ∈ m.text := by
    cases m with
    | single c => exact ⟨c, List.mem_singleton_self c⟩
    | range lo hi => exact ⟨lo, List.mem_cons_self⟩
  obtain ⟨t, ht⟩ : ∃ t, t ∈ tokens d := by
    unfold tokens
    split_ifs
    all_goals exact ⟨_, List.mem_cons_self⟩
  have hd : d ∈ b.text := List.mem_append_right _ (List.mem_flatMap_of_mem hm hd)
  exact List.ne_nil_of_mem (List.mem_flatMap_of_mem hd ht)

theorem Plain.mem_spelled_iff {b : Bracket} (h : b.Plain) : c ∈ b.text.flatMap spelled ↔ b.Denotes c := by
  obtain ⟨negated, members⟩ := b
  obtain ⟨rfl, h⟩ := h
  have hmem : ∀ m ∈ members, (c ∈ m.text.flatMap spelled ↔ m.Has c) := by
    intro m hm
    obtain ⟨d, rfl, hany, hone⟩ := h m hm
    simp [Member.text, Member.Has, spelled, hany, hone]
  rw [Denotes, eq_self, iff_true, text, if_neg (by simp), List.nil_append, List.flatMap_assoc, List.mem_flatMap]
  exact exists_congr fun m => and_congr_right (hmem m)

end Bracket

end Similar

namespace Routine

open SqlCode.Similar

/-- A bracket expression matches the characters that it is written with, where a dash and a caret stand for themselves and a
wildcard for what replaces it. This is the set that it denotes if it has single characters only and no wildcard. -/
theorem similar_bracket {b : Bracket} {escape : Option Char} (hne : b.members ≠ [])
    (hchars : ∀ d ∈ b.text, d ∉ ['\\', '[', ']']) (hescape : ∀ d ∈ '[' :: (b.text ++ [']']), escape ≠ some d) (c : Char) :
    let answer := similar (patternArgs (String.ofList [c]) (String.ofList ('[' :: (b.text ++ [']']))) escape)
    if (Regex.Node.wholeSet (.ofChars (b.text.flatMap spelled))).fits then
      ∃ t, answer = .ok (.bool t) ∧ (t = true ↔ c ∈ b.text.flatMap spelled) ∧ (b.Plain → (t = true ↔ b.Denotes c))
    else answer = .error (.invalidArgument "similar" Regex.PatternError.tooLarge.message) := by
  intro answer
  have hbody : ∀ t ∈ b.text.flatMap tokens, Regex.Parser.Literal t := by
    intro t ht
    obtain ⟨d, hd, ht⟩ := List.mem_flatMap.1 ht
    exact literal_of_mem_tokens (hchars d hd) t ht
  have hspelled : (b.text.flatMap tokens).map Prod.fst = b.text.flatMap spelled := by
    rw [List.map_flatMap]
    exact List.flatMap_congr fun c _ => map_fst_tokens c
  have htokens := Bracket.flatMap_tokens_ne_nil hne
  have hanswer : answer = _ := patternTest_patternArgs _ _ _ _ _
  rw [String.toList_ofList, ofSimilar?_bracket hescape] at hanswer
  simp only [matcher, Regex.Matcher.compile, Regex.Parser.parse?_bracket hbody htokens, hspelled] at hanswer
  rw [← Regex.Node.seqOf_ofSet]
  split_ifs with hfits
  · obtain ⟨t, ht⟩ := List.exists_mem_of_ne_nil _ htokens
    have hmem : t.1 ∈ b.text.flatMap spelled := hspelled ▸ List.mem_map_of_mem ht
    rw [if_pos hfits] at hanswer
    refine ⟨_, hanswer, ?_⟩
    rw [Regex.Node.isMatch_ofSet (Regex.CharSet.contains_ofChars.2 hmem) rfl,
      Regex.CharSet.contains_ofChars]
    exact ⟨Iff.rfl, fun hplain => hplain.mem_spelled_iff⟩
  · rw [if_neg hfits] at hanswer
    exact hanswer

theorem similar_bracket_range :
    similar (patternArgs "b" "[a-c]" none) = .ok (.bool false) ∧ (⟨false, [.range 'a' 'c']⟩ : Bracket).Denotes 'b' := by
  have h := @similar_bracket ⟨false, [.range 'a' 'c']⟩ none (by simp) (by simp [Bracket.text, Member.text]) (by simp) 'b'
  dsimp only at h
  rw [if_pos (by decide +kernel)] at h
  obtain ⟨t, ht, hiff, -⟩ := h
  obtain rfl : t = false := by simpa [Bracket.text, Member.text, spelled] using hiff
  exact ⟨ht, by simp [Bracket.Denotes, Member.Has]⟩

end Routine

end SqlCode

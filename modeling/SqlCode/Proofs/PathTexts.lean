import SqlCode.Json.Path
import SqlCode.Proofs.Blanks
import SqlCode.Proofs.CalendarTexts

/-!
# Texts of JSON paths

A path has many texts: names stand bare or in quotes, after a point or in brackets, numerals may have zeros in front,
and blanks stand between steps and just inside brackets. `Json.Path.Written` lists them. The reader accepts these texts,
with blanks around them, and no others, and it returns the path that is written.
-/

namespace SqlCode

open CharClass

variable {n : ℕ} {cs : List Char} {p : Char → Bool} {strict : Bool} {c : Char}

/-! ### Runs of characters -/

namespace Blank

/-- Nothing but white space. -/
def Blanks (cs : List Char) : Prop := ∀ c ∈ cs, isWhiteSpace c

instance (cs : List Char) : Decidable (Blanks cs) :=
  List.decidableBAll (fun c => isWhiteSpace c = true) cs

variable {before after : List Char}

theorem Blanks.append (h : Blanks before) (h' : Blanks after) : Blanks (before ++ after) :=
  List.forall_mem_append.2 ⟨h, h'⟩

theorem exists_blanks_append_trimLeft (cs : List Char) : ∃ before, Blanks before ∧ cs = before ++ trimLeft cs :=
  ⟨cs.takeWhile isWhiteSpace, fun _ => List.mem_takeWhile_imp, List.takeWhile_append_dropWhile.symm⟩

theorem exists_trimRight_append_blanks (cs : List Char) : ∃ after, Blanks after ∧ cs = trimRight cs ++ after := by
  obtain ⟨before, hbefore, heq⟩ := exists_blanks_append_trimLeft cs.reverse
  refine ⟨before.reverse, fun c hc => hbefore c (List.mem_reverse.1 hc), ?_⟩
  rw [← List.reverse_inj, heq]
  simp [trimRight, trimLeft]

theorem exists_blanks_append_trim (cs : List Char) :
    ∃ before after, Blanks before ∧ Blanks after ∧ cs = before ++ trim cs ++ after := by
  obtain ⟨before, hbefore, hleft⟩ := exists_blanks_append_trimLeft cs
  obtain ⟨after, hafter, hright⟩ := exists_trimRight_append_blanks (trimLeft cs)
  refine ⟨before, after, hbefore, hafter, ?_⟩
  rw [List.append_assoc, trim, ← hright, ← hleft]

theorem trimLeft_blanks_append (h : Blanks before) : trimLeft (before ++ cs) = trimLeft cs :=
  List.dropWhile_append_of_pos h

theorem trimLeft_blanks_cons (h : Blanks before) (hc : isWhiteSpace c = false) :
    trimLeft (before ++ c :: cs) = c :: cs := by
  rw [trimLeft_blanks_append h]
  exact trimLeft_cons hc

/-- A run without blanks ends where blanks begin. -/
theorem Blanks.head_append (h : Blanks before)
    (hp : ∀ {c}, p c → isWhiteSpace c = false) (hcs : ∀ c ∈ cs.head?, p c = false) :
    ∀ c ∈ (before ++ cs).head?, p c = false := by
  cases before with
  | nil => exact hcs
  | cons d before =>
    intro c hc
    obtain rfl : d = c := Option.some.inj hc
    refine Bool.eq_false_iff.2 fun hd => ?_
    have hblank := h d List.mem_cons_self
    rw [hp hd] at hblank
    cases hblank

end Blank

theorem span_eq_iff {front back : List Char} : cs.span p = (front, back) ↔
    cs = front ++ back ∧ (∀ c ∈ front, p c) ∧ ∀ c ∈ back.head?, p c = false := by
  rw [List.span_eq_takeWhile_dropWhile, Prod.mk.injEq]
  constructor
  · rintro ⟨rfl, rfl⟩
    refine ⟨List.takeWhile_append_dropWhile.symm, fun _ => List.mem_takeWhile_imp, fun c hc => ?_⟩
    have h := List.head?_dropWhile_not p cs
    rw [Option.mem_def.1 hc] at h
    exact h
  · rintro ⟨rfl, hfront, hback⟩
    rw [List.takeWhile_append_of_pos hfront, List.dropWhile_append_of_pos hfront]
    cases back with
    | nil => simp
    | cons c back => simp [hback c rfl]

theorem run_append_ne_cons {front back : List Char} (hne : front ≠ []) (hfront : ∀ c ∈ front, p c)
    {d : Char} (hd : p d = false) (ds : List Char) : front ++ back ≠ d :: ds := by
  obtain ⟨c, cs, rfl⟩ := List.exists_cons_of_ne_nil hne
  intro heq
  rw [← (List.cons.inj heq).1, hfront c List.mem_cons_self] at hd
  cases hd

namespace Numeral

theorem digitChar_sub_zero (h : c.isDigit) : c.toNat - '0'.toNat < 10 ∧
    (c.toNat - '0'.toNat).digitChar = c := by
  have hbounds : 48 ≤ c.toNat ∧ c.toNat ≤ 57 := by
    simpa [Char.isDigit, UInt32.le_iff_toNat_le] using h
  have hlt : c.toNat - '0'.toNat < 10 := by
    show c.toNat - 48 < 10
    omega
  refine ⟨hlt, Char.toNat_inj.1 ?_⟩
  rw [Nat.toNat_digitChar_of_lt_ten hlt]
  show 48 + (c.toNat - 48) = c.toNat
  omega

/-- Digits after a number that is not zero continue its numeral. -/
theorem toDigits_append (hn : 0 < n) (h : ∀ c ∈ cs, c.isDigit) :
    Nat.toDigits 10 n ++ cs = Nat.toDigits 10 (Nat.ofDigitChars 10 cs n) := by
  induction cs generalizing n with
  | nil => simp
  | cons c cs ih =>
    obtain ⟨hlt, hchar⟩ := digitChar_sub_zero (h c List.mem_cons_self)
    have hstep := Nat.toDigits_append_toDigits (by decide) hn hlt
    rw [Nat.toDigits_of_lt_base hlt, hchar] at hstep
    rw [Nat.ofDigitChars_cons, ← ih (by omega) fun d hd => h d (List.mem_cons_of_mem _ hd), ← hstep, List.append_assoc]
    rfl

theorem exists_zeros_append (hne : cs ≠ []) (h : ∀ c ∈ cs, c.isDigit) :
    ∃ zeros, cs = List.replicate zeros '0' ++ Nat.toDigits 10 (Nat.ofDigitChars 10 cs 0) := by
  induction cs with
  | nil => exact absurd rfl hne
  | cons c cs ih =>
    obtain ⟨hc, hcs⟩ := List.forall_mem_cons.1 h
    obtain ⟨hlt, hchar⟩ := digitChar_sub_zero hc
    rw [Nat.ofDigitChars_cons, Nat.mul_zero, Nat.zero_add]
    rcases Nat.eq_zero_or_pos (c.toNat - '0'.toNat) with hzero | hpos
    · rw [hzero] at hchar ⊢
      rcases List.eq_nil_or_concat cs with rfl | hcons
      · exact ⟨0, by rw [← hchar]; rfl⟩
      · obtain ⟨zeros, heq⟩ := ih (by obtain ⟨_, _, rfl⟩ := hcons; simp) hcs
        exact ⟨zeros + 1, by rw [List.replicate_succ, List.cons_append, ← heq, ← hchar]; rfl⟩
    · refine ⟨0, ?_⟩
      rw [← toDigits_append hpos hcs, Nat.toDigits_of_lt_base hlt, hchar]
      rfl

theorem digits_of_nat? (h : nat? cs = some n) :
    cs ≠ [] ∧ (∀ c ∈ cs, c.isDigit) ∧ n = Nat.ofDigitChars 10 cs 0 := by
  rw [nat?, Option.ite_none_right_eq_some, Option.some_inj] at h
  exact ⟨h.1.1, List.all_eq_true.1 h.1.2, h.2.symm⟩

/-- The numerals of a number have zeros in front of its digits. -/
theorem nat?_eq_some_iff :
    nat? cs = some n ↔ ∃ zeros, cs = List.replicate zeros '0' ++ n.repr.toList := by
  rw [Nat.toList_repr]
  constructor
  · intro h
    obtain ⟨hne, hdigits, rfl⟩ := digits_of_nat? h
    exact exists_zeros_append hne hdigits
  · rintro ⟨zeros, rfl⟩
    have hpadded := nat?_padded (zeros + (Nat.toDigits 10 n).length) n
    rwa [toList_padded, Nat.add_sub_cancel] at hpadded

theorem nat?_zeros_append (zeros n : ℕ) : nat? (List.replicate zeros '0' ++ n.repr.toList) = some n :=
  nat?_eq_some_iff.2 ⟨zeros, rfl⟩

end Numeral

namespace Json.Path

open Blank

/-! ### The texts of a path -/

/-- A step as it stands inside brackets. -/
inductive WrittenInBrackets : Step → List Char → Prop
  | name {quote : Char} {name : String} (hquote : quote = '\'' ∨ quote = '"') (hname : quote ∉ name.toList) :
    WrittenInBrackets (.member name) (quote :: name.toList ++ [quote])
  | index {i : ℕ} (zeros : ℕ) (hi : i < 2 ^ 64) :
    WrittenInBrackets (.index i) (List.replicate zeros '0' ++ i.repr.toList)
  | any : WrittenInBrackets .anyIndex ['*']

/-- A step with the point or the brackets that introduce it. -/
inductive StepWritten : Step → List Char → Prop
  | bare {name : String} (hne : name.toList ≠ [])
    (hname : ∀ c ∈ name.toList, isAlphanumeric c ∨ c = '_' ∨ c = '$') :
    StepWritten (.member name) ('.' :: name.toList)
  | quoted {name : String} (hname : '"' ∉ name.toList) :
    StepWritten (.member name) ('.' :: '"' :: name.toList ++ ['"'])
  | anyMember : StepWritten .anyMember ['.', '*']
  | bracketed {step : Step} {before body after : List Char} (hbefore : Blanks before) (hafter : Blanks after)
    (hbody : WrittenInBrackets step body) : StepWritten step ('[' :: before ++ body ++ after ++ [']'])

/-- Steps in a row, with blanks in front of each. -/
inductive StepsWritten : List Step → List Char → Prop
  | nil : StepsWritten [] []
  | cons {step : Step} {steps : List Step} {gap text rest : List Char} (hgap : Blanks gap) (htext : StepWritten step text)
    (hrest : StepsWritten steps rest) : StepsWritten (step :: steps) (gap ++ text ++ rest)

/-- The word that announces a mode. -/
def modeWord : Bool → String
  | true => "strict"
  | false => "lax"

/-- The texts of a path, without blanks around them. -/
inductive Written : Path → List Char → Prop
  | plain {steps : List Step} {text : List Char} (h : StepsWritten steps text) : Written ⟨false, steps⟩ ('$' :: text)
  | mode {strict : Bool} {steps : List Step} {word gap text : List Char}
    (hword : word.map Char.toLower = (modeWord strict).toList) (hne : gap ≠ []) (hgap : Blanks gap)
    (h : StepsWritten steps text) : Written ⟨strict, steps⟩ (word ++ gap ++ '$' :: text)

variable {rest text : List Char} {step : Step} {steps : List Step}

theorem isNameChar_iff : isNameChar c ↔ isAlphanumeric c ∨ c = '_' ∨ c = '$' := by
  simp [isNameChar, or_assoc]

theorem isWhiteSpace_of_isNameChar (h : isNameChar c) : isWhiteSpace c = false := by
  rcases isNameChar_iff.1 h with h | rfl | rfl
  · exact isWhiteSpace_of_isAlphanumeric h
  · exact isWhiteSpace_of_visible (by decide) (by decide)
  · exact isWhiteSpace_of_visible (by decide) (by decide)

/-! ### One step -/

theorem quoted?_eq_some_iff {quote : Char} {name : String} :
    quoted? quote cs = some (name, rest) ↔ cs = name.toList ++ quote :: rest ∧ quote ∉ name.toList := by
  rw [quoted?]
  constructor
  · intro h
    split at h
    · cases h
    · rename_i front c back hspan
      obtain ⟨hcs, hfront, hback⟩ := span_eq_iff.1 hspan
      have hc : c = quote := by simpa using hback c rfl
      obtain ⟨rfl, rfl⟩ := Prod.mk.inj (Option.some.inj h)
      rw [String.toList_ofList, ← hc]
      exact ⟨hcs, fun hmem => by simpa [hc] using hfront c (hc ▸ hmem)⟩
  · rintro ⟨rfl, hname⟩
    have hspan : (name.toList ++ quote :: rest).span (· ≠ quote) = (name.toList, quote :: rest) :=
      span_eq_iff.2 ⟨rfl, fun c hc => by simpa using ne_of_mem_of_not_mem hc hname, by simp⟩
    rw [hspan]
    simp

theorem dotStep?_eq_some (h : dotStep? cs = some (step, rest)) :
    ∃ text, cs = text ++ rest ∧ StepWritten step ('.' :: text) := by
  unfold dotStep? at h
  split at h
  · obtain ⟨rfl, rfl⟩ := Prod.mk.inj (Option.some.inj h)
    exact ⟨['*'], rfl, .anyMember⟩
  · obtain ⟨⟨name, _⟩, hname, heq⟩ := Option.map_eq_some_iff.1 h
    obtain ⟨rfl, rfl⟩ := Prod.mk.inj heq
    obtain ⟨rfl, hmem⟩ := quoted?_eq_some_iff.1 hname
    exact ⟨'"' :: name.toList ++ ['"'], by simp, .quoted hmem⟩
  · split at h
    · cases h
    · rename_i name _ hne hspan
      obtain ⟨rfl, rfl⟩ := Prod.mk.inj (Option.some.inj h)
      obtain ⟨hcs, hfront, -⟩ := span_eq_iff.1 hspan
      have hbare : StepWritten (.member (String.ofList name)) ('.' :: (String.ofList name).toList) :=
        .bare (by simpa using hne) fun c hc => isNameChar_iff.1 (hfront c (by simpa using hc))
      rw [String.toList_ofList] at hbare
      exact ⟨name, hcs, hbare⟩

theorem dotStep?_bare {name : String} (hne : name.toList ≠ []) (hname : ∀ c ∈ name.toList, isNameChar c)
    (hrest : ∀ c ∈ rest.head?, isNameChar c = false) :
    dotStep? (name.toList ++ rest) = some (.member name, rest) := by
  have hspan := span_eq_iff.2 ⟨rfl, hname, hrest⟩
  rw [dotStep?]
  · rw [hspan]
    simp
  -- the first character of a bare name is neither a star nor a quote
  all_goals exact run_append_ne_cons hne hname rfl

theorem bracketBody?_eq_some (h : bracketBody? cs = some (step, rest)) :
    ∃ text, cs = text ++ rest ∧ WrittenInBrackets step text := by
  -- a name is read in the same way after either quote
  have hquoted : ∀ {quote : Char} {back}, (quoted? quote back).map (fun r => (Step.member r.1, r.2)) = some (step, rest) →
      quote = '\'' ∨ quote = '"' → ∃ text, quote :: back = text ++ rest ∧ WrittenInBrackets step text := by
    intro quote back h hquote
    obtain ⟨⟨name, _⟩, hname, heq⟩ := Option.map_eq_some_iff.1 h
    obtain ⟨rfl, rfl⟩ := Prod.mk.inj heq
    obtain ⟨rfl, hmem⟩ := quoted?_eq_some_iff.1 hname
    exact ⟨quote :: name.toList ++ [quote], by simp, .name hquote hmem⟩
  unfold bracketBody? at h
  split at h
  · obtain ⟨rfl, rfl⟩ := Prod.mk.inj (Option.some.inj h)
    exact ⟨['*'], rfl, .any⟩
  · exact hquoted h (.inl rfl)
  · exact hquoted h (.inr rfl)
  · split at h
    · rename_i digits back hspan
      split at h
      · rename_i i hi
        rw [Option.ite_none_right_eq_some] at h
        obtain ⟨hlimit, heq⟩ := h
        obtain ⟨rfl, rfl⟩ := Prod.mk.inj (Option.some.inj heq)
        obtain ⟨zeros, rfl⟩ := Numeral.nat?_eq_some_iff.1 hi
        exact ⟨_, (span_eq_iff.1 hspan).1, .index zeros (Nat.lt_of_le_sub_one (by decide) hlimit)⟩
      · cases h

theorem WrittenInBrackets.read (h : WrittenInBrackets step text) (hrest : ∀ c ∈ rest.head?, c.isDigit = false) :
    bracketBody? (text ++ rest) = some (step, rest) := by
  cases h with
  | @name quote name hquote hname =>
    have hread : quoted? quote (name.toList ++ quote :: rest) = some (name, rest) :=
      quoted?_eq_some_iff.2 ⟨rfl, hname⟩
    rcases hquote with rfl | rfl
    · simp [bracketBody?, hread]
    · simp [bracketBody?, hread]
  | any => rfl
  | @index i zeros hi =>
    have hnat := Numeral.nat?_zeros_append zeros i
    generalize List.replicate zeros '0' ++ i.repr.toList = digits at hnat ⊢
    obtain ⟨hne, hdigits, -⟩ := Numeral.digits_of_nat? hnat
    have hspan := span_eq_iff.2 ⟨rfl, hdigits, hrest⟩
    rw [bracketBody?]
    · rw [hspan]
      simp only [hnat]
      exact if_pos (Nat.le_sub_one_of_lt hi)
    -- a digit is neither a star nor a quote
    all_goals exact run_append_ne_cons hne hdigits rfl

theorem WrittenInBrackets.exists_cons (h : WrittenInBrackets step text) :
    ∃ c cs, text = c :: cs ∧ isWhiteSpace c = false := by
  cases h with
  | @name quote name hquote hname =>
    refine ⟨quote, _, rfl, ?_⟩
    rcases hquote with rfl | rfl
    · rfl
    · rfl
  | any => exact ⟨'*', [], rfl, rfl⟩
  | @index i zeros hi =>
    obtain ⟨hne, hdigits, -⟩ := Numeral.digits_of_nat? (Numeral.nat?_zeros_append zeros i)
    obtain ⟨c, cs, heq⟩ := List.exists_cons_of_ne_nil hne
    exact ⟨c, cs, heq, isWhiteSpace_of_isDigit (hdigits c (heq ▸ List.mem_cons_self))⟩

theorem bracketStep?_eq_some (h : bracketStep? cs = some (step, rest)) :
    ∃ text, cs = text ++ rest ∧ StepWritten step ('[' :: text) := by
  rw [bracketStep?, Option.bind_eq_bind, Option.bind_eq_some_iff] at h
  obtain ⟨⟨step', back⟩, hbody, h⟩ := h
  obtain ⟨body, hcs, hwritten⟩ := bracketBody?_eq_some hbody
  dsimp only at h
  split at h
  · rename_i rest' htrim
    obtain ⟨rfl, rfl⟩ := Prod.mk.inj (Option.some.inj h)
    obtain ⟨before, hbefore, hleft⟩ := exists_blanks_append_trimLeft cs
    obtain ⟨after, hafter, hright⟩ := exists_blanks_append_trimLeft back
    refine ⟨before ++ body ++ after ++ [']'], ?_, .bracketed hbefore hafter hwritten⟩
    rw [hleft, hcs, hright, htrim]
    simp
  · cases h

theorem bracketStep?_bracketed {before body after : List Char} (hbefore : Blanks before) (hafter : Blanks after)
    (hbody : WrittenInBrackets step body) :
    bracketStep? (before ++ body ++ after ++ ']' :: rest) = some (step, rest) := by
  have hclose : ∀ c ∈ (after ++ ']' :: rest).head?, c.isDigit = false := by
    refine hafter.head_append isWhiteSpace_of_isDigit fun c hc => ?_
    cases hc
    rfl
  obtain ⟨c, cs, heq, hc⟩ := hbody.exists_cons
  have htrim : trimLeft (body ++ (after ++ ']' :: rest)) = body ++ (after ++ ']' :: rest) := by
    rw [heq]
    exact trimLeft_cons hc
  have htrim' : trimLeft (after ++ ']' :: rest) = ']' :: rest := trimLeft_blanks_cons hafter rfl
  rw [bracketStep?, List.append_assoc, List.append_assoc, trimLeft_blanks_append hbefore, htrim, hbody.read hclose]
  simp [htrim']

/-! ### Steps in a row -/

/-- The step that starts with `c`. -/
def nextStep? (c : Char) (cs : List Char) : Option (Step × List Char) :=
  if c = '.' then dotStep? cs else if c = '[' then bracketStep? cs else none

theorem nextStep?_eq_some (h : nextStep? c cs = some (step, rest)) :
    ∃ text, cs = text ++ rest ∧ StepWritten step (c :: text) := by
  unfold nextStep? at h
  split_ifs at h with hpoint hbracket
  · rw [hpoint]
    exact dotStep?_eq_some h
  · rw [hbracket]
    exact bracketStep?_eq_some h

/-- A step is read up to the end of its text, which a bare name leaves open. -/
theorem StepWritten.read (h : StepWritten step text) : ∃ c cs, text = c :: cs ∧ (c = '.' ∨ c = '[') ∧
    ∀ rest, (∀ c ∈ rest.head?, isNameChar c = false) → nextStep? c (cs ++ rest) = some (step, rest) := by
  cases h with
  | @bare name hne hname =>
    exact ⟨'.', _, rfl, .inl rfl, fun rest => dotStep?_bare hne fun c hc => isNameChar_iff.2 (hname c hc)⟩
  | @quoted name hname =>
    refine ⟨'.', _, rfl, .inl rfl, fun rest _ => ?_⟩
    have hread : quoted? '"' (name.toList ++ '"' :: rest) = some (name, rest) := quoted?_eq_some_iff.2 ⟨rfl, hname⟩
    simp [nextStep?, dotStep?, hread]
  | anyMember => exact ⟨'.', _, rfl, .inl rfl, fun rest _ => rfl⟩
  | @bracketed _ before body after hbefore hafter hbody =>
    refine ⟨'[', before ++ body ++ after ++ [']'], rfl, .inr rfl, fun rest _ => ?_⟩
    rw [List.append_assoc]
    exact bracketStep?_bracketed hbefore hafter hbody

theorem StepWritten.last (h : StepWritten step text) : ∀ c ∈ text.getLast?, isWhiteSpace c = false := by
  intro c hc
  cases h with
  | @bare name hne hname =>
    rw [List.getLast?_cons_of_ne_nil hne] at hc
    exact isWhiteSpace_of_isNameChar (isNameChar_iff.2 (hname c (List.mem_of_getLast? hc)))
  | quoted hname =>
    rw [List.getLast?_concat] at hc
    cases hc
    rfl
  | anyMember =>
    cases hc
    rfl
  | bracketed hbefore hafter hbody =>
    rw [List.getLast?_concat] at hc
    cases hc
    rfl

/-- The text of steps, with blanks behind it. -/
def StepsIn (steps : List Step) (cs : List Char) : Prop :=
  ∃ text tail, StepsWritten steps text ∧ Blanks tail ∧ cs = text ++ tail

/-- A bare name ends where the text of further steps begins. -/
theorem StepsIn.head (h : StepsIn steps cs) : ∀ c ∈ cs.head?, isNameChar c = false := by
  obtain ⟨text, tail, hsteps, htail, rfl⟩ := h
  cases hsteps with
  | nil =>
    rw [← List.append_nil ([] ++ tail)]
    exact htail.head_append isWhiteSpace_of_isNameChar (by simp)
  | @cons step steps gap text rest hgap htext hrest =>
    rw [List.append_assoc, List.append_assoc]
    refine hgap.head_append isWhiteSpace_of_isNameChar fun c hc => ?_
    obtain ⟨d, cs, rfl, hd, -⟩ := htext.read
    obtain rfl : d = c := Option.some.inj hc
    rcases hd with rfl | rfl
    · rfl
    · rfl

theorem stepsIn_nil : StepsIn steps [] ↔ steps = [] := by
  constructor
  · rintro ⟨text, tail, hsteps, -, hnil⟩
    cases hsteps with
    | nil => rfl
    | cons hgap htext hrest =>
      obtain ⟨c, cs, rfl, -⟩ := htext.read
      simp at hnil
  · rintro rfl
    exact ⟨[], [], .nil, by simp [Blanks], rfl⟩

theorem stepsIn_blank (hc : isWhiteSpace c) : StepsIn steps (c :: cs) ↔ StepsIn steps cs := by
  constructor
  · rintro ⟨text, tail, hsteps, htail, heq⟩
    cases hsteps with
    | nil =>
      obtain rfl : tail = c :: cs := heq.symm
      exact ⟨[], cs, .nil, fun d hd => htail d (List.mem_cons_of_mem c hd), rfl⟩
    | @cons step steps gap text rest hgap htext hrest =>
      cases gap with
      | cons d gap =>
        exact ⟨gap ++ text ++ rest, tail, .cons (fun d hd => hgap d (List.mem_cons_of_mem _ hd)) htext hrest, htail,
          (List.cons.inj heq).2⟩
      | nil =>
        -- a step does not begin with a blank
        obtain ⟨d, ds, rfl, hd, -⟩ := htext.read
        rw [(List.cons.inj heq).1] at hc
        rcases hd with rfl | rfl
        · cases hc
        · cases hc
  · rintro ⟨text, tail, hsteps, htail, rfl⟩
    cases hsteps with
    | nil => exact ⟨[], c :: tail, .nil, List.forall_mem_cons.2 ⟨hc, htail⟩, rfl⟩
    | @cons step steps gap text rest hgap htext hrest =>
      exact ⟨c :: gap ++ text ++ rest, tail, .cons (List.forall_mem_cons.2 ⟨hc, hgap⟩) htext hrest, htail, rfl⟩

theorem stepsIn_cons (hc : isWhiteSpace c = false) : StepsIn steps (c :: cs) ↔
    ∃ step rest more, nextStep? c cs = some (step, rest) ∧ StepsIn more rest ∧ steps = step :: more := by
  -- neither the blanks behind the steps nor those in front of the first begin with `c`
  have hblank : ∀ {d : Char} {gap}, Blanks (d :: gap) → c ≠ d := by
    rintro d gap hgap rfl
    rw [hgap c List.mem_cons_self] at hc
    cases hc
  constructor
  · rintro ⟨text, tail, hsteps, htail, heq⟩
    cases hsteps with
    | nil =>
      obtain rfl : tail = c :: cs := heq.symm
      exact absurd rfl (hblank htail)
    | @cons step steps gap text rest hgap htext hrest =>
      cases gap with
      | cons d gap => exact absurd (List.cons.inj heq).1 (hblank hgap)
      | nil =>
        obtain ⟨d, ds, rfl, -, hread⟩ := htext.read
        obtain ⟨rfl, rfl⟩ := List.cons.inj heq
        have hmore : StepsIn steps (rest ++ tail) := ⟨rest, tail, hrest, htail, rfl⟩
        refine ⟨step, rest ++ tail, steps, ?_, hmore, rfl⟩
        rw [← hread _ hmore.head]
        simp
  · rintro ⟨step, rest, more, hstep, ⟨text, tail, hmore, htail, rfl⟩, rfl⟩
    obtain ⟨read, rfl, hwritten⟩ := nextStep?_eq_some hstep
    refine ⟨[] ++ c :: read ++ text, tail, .cons (by simp [Blanks]) hwritten hmore, htail, ?_⟩
    simp

theorem steps?_cons {fuel : ℕ} (h : isWhiteSpace c = false) :
    steps? (fuel + 1) (c :: cs) = (nextStep? c cs).bind fun r => (steps? fuel r.2).map (r.1 :: ·) := by
  rw [steps?, if_neg (by simp [h]), nextStep?]
  generalize (if c = '.' then dotStep? cs else if c = '[' then bracketStep? cs else none) = next
  cases next with
  | none | some => rfl

/-- The reader of steps returns those that the text consists of; its length is enough fuel. -/
theorem steps?_eq_some_iff {fuel : ℕ} (h : cs.length ≤ fuel) : steps? fuel cs = some steps ↔ StepsIn steps cs := by
  induction fuel generalizing cs steps with
  | zero =>
    obtain rfl := List.length_eq_zero_iff.1 (Nat.le_zero.1 h)
    rw [stepsIn_nil, steps?, Option.some_inj, eq_comm]
  | succ fuel ih =>
    cases cs with
    | nil => rw [stepsIn_nil, steps?, Option.some_inj, eq_comm]
    | cons c cs =>
      have hlength : cs.length ≤ fuel := Nat.le_of_succ_le_succ h
      cases hc : isWhiteSpace c with
      | true => rw [steps?, if_pos hc, stepsIn_blank hc, ih hlength]
      | false =>
        rw [steps?_cons hc, stepsIn_cons hc, Option.bind_eq_some_iff]
        constructor
        · rintro ⟨⟨step, rest⟩, hnext, hmap⟩
          obtain ⟨more, hmore, rfl⟩ := Option.map_eq_some_iff.1 hmap
          obtain ⟨read, rfl, -⟩ := nextStep?_eq_some hnext
          rw [List.length_append] at hlength
          exact ⟨step, rest, more, hnext, (ih (Nat.le_of_add_left_le hlength)).1 hmore, rfl⟩
        · rintro ⟨step, rest, more, hnext, hmore, rfl⟩
          obtain ⟨read, rfl, -⟩ := nextStep?_eq_some hnext
          rw [List.length_append] at hlength
          exact ⟨(step, rest), hnext, Option.map_eq_some_iff.2 ⟨more, (ih (Nat.le_of_add_left_le hlength)).2 hmore, rfl⟩⟩

theorem StepsWritten.last (h : StepsWritten steps text) : ∀ c ∈ text.getLast?, isWhiteSpace c = false := by
  induction h with
  | nil => simp
  | @cons step steps gap text rest hgap htext hrest ih =>
    intro c hc
    rw [List.getLast?_append] at hc
    cases hrest' : rest.getLast? with
    | some d =>
      rw [hrest'] at hc
      exact ih c (hrest' ▸ hc)
    | none =>
      obtain ⟨d, ds, rfl, -⟩ := htext.read
      rw [hrest', Option.none_or, List.getLast?_append_of_ne_nil _ (List.cons_ne_nil d ds)] at hc
      exact htext.last c hc

/-! ### Mode words -/

theorem isWhiteSpace_of_mem_modeWord {word : List Char}
    (h : word.map Char.toLower = (modeWord strict).toList) : ∀ c ∈ word, isWhiteSpace c = false := by
  intro c hc
  have hletters : ∀ d ∈ (modeWord strict).toList, 32 < d.toNat ∧ d.toNat < 127 := by
    cases strict <;> simp [modeWord]
  have hletter := hletters c.toLower (h ▸ List.mem_map_of_mem hc)
  by_cases hupper : c.val ≥ 'A'.val ∧ c.val ≤ 'Z'.val
  · have hbounds : 65 ≤ c.toNat ∧ c.toNat ≤ 90 := by simpa [UInt32.le_iff_toNat_le] using hupper
    exact isWhiteSpace_of_visible (by omega) (by omega)
  · have hlower : c.toLower = c := dif_neg hupper
    rw [hlower] at hletter
    exact isWhiteSpace_of_visible hletter.1 hletter.2

theorem isWord_iff {word : String} : isWord word cs ↔ cs.map Char.toLower = word.toList := by
  rw [isWord, beq_iff_eq]

/-- A text that starts with the root has no mode word. -/
theorem splitMode_root : splitMode ('$' :: cs) = (false, '$' :: cs) := by
  rw [splitMode]
  split
  · rfl
  · rename_i mode d rest hspan
    obtain ⟨heq, -, hblank⟩ := span_eq_iff.1 hspan
    cases mode with
    | nil =>
      rw [← (List.cons.inj heq).1] at hblank
      exact absurd (hblank '$' rfl) (by decide)
    | cons c mode =>
      obtain rfl : '$' = c := (List.cons.inj heq).1
      rw [if_neg (by simp [isWord]), if_neg (by simp [isWord])]

theorem splitMode_modeWord {word gap : List Char}
    (hword : word.map Char.toLower = (modeWord strict).toList) (hne : gap ≠ []) (hgap : Blanks gap) :
    splitMode (word ++ gap ++ '$' :: cs) = (strict, '$' :: cs) := by
  obtain ⟨c, gap, rfl⟩ := List.exists_cons_of_ne_nil hne
  obtain ⟨hc, hgap⟩ := List.forall_mem_cons.1 hgap
  have hspan : (word ++ c :: gap ++ '$' :: cs).span (fun c => !isWhiteSpace c) =
      (word, c :: (gap ++ '$' :: cs)) := by
    refine span_eq_iff.2 ⟨by simp, fun d hd => ?_, fun d hd => ?_⟩
    · rw [isWhiteSpace_of_mem_modeWord hword d hd, Bool.not_false]
    · obtain rfl : c = d := Option.some.inj hd
      rw [hc, Bool.not_true]
  have htrim : trimLeft (gap ++ '$' :: cs) = '$' :: cs := trimLeft_blanks_cons hgap rfl
  rw [splitMode, hspan]
  cases strict with
  | true =>
    have hstrict : isWord "strict" word := isWord_iff.2 hword
    simp only [hstrict, if_true, htrim]
  | false =>
    have hstrict : isWord "strict" word = false := by simp [isWord, hword, modeWord]
    have hlax : isWord "lax" word := isWord_iff.2 hword
    simp only [hstrict, hlax, if_true, htrim, Bool.false_eq_true, if_false]

theorem splitMode_eq (h : splitMode cs = (strict, '$' :: rest)) :
    strict = false ∧ cs = '$' :: rest ∨ ∃ word gap, word.map Char.toLower = (modeWord strict).toList ∧ gap ≠ [] ∧
      Blanks gap ∧ cs = word ++ gap ++ '$' :: rest := by
  rw [splitMode] at h
  split at h
  · obtain ⟨rfl, rfl⟩ := Prod.mk.inj h
    exact .inl ⟨rfl, rfl⟩
  · rename_i word c back hspan
    obtain ⟨hcs, -, hblank⟩ := span_eq_iff.1 hspan
    obtain ⟨gap, hgap, hback⟩ := exists_blanks_append_trimLeft back
    have hmode : ∀ strict', (strict', trimLeft back) = (strict, '$' :: rest) → isWord (modeWord strict') word →
        ∃ word gap, word.map Char.toLower = (modeWord strict).toList ∧ gap ≠ [] ∧ Blanks gap ∧
          cs = word ++ gap ++ '$' :: rest := by
      intro strict' heq hword
      obtain ⟨rfl, htrim⟩ := Prod.mk.inj heq
      refine ⟨word, c :: gap, isWord_iff.1 hword, List.cons_ne_nil _ _,
        List.forall_mem_cons.2 ⟨by simpa using hblank c rfl, hgap⟩, ?_⟩
      rw [hcs, hback, htrim]
      simp
    split_ifs at h with hstrict hlax
    · exact .inr (hmode true h hstrict)
    · exact .inr (hmode false h hlax)
    · obtain ⟨rfl, rfl⟩ := Prod.mk.inj h
      exact .inl ⟨rfl, rfl⟩

/-! ### Whole texts -/

theorem parse?_eq_some_iff {s : String} {p : Path} : parse? s = some p ↔
    ∃ cs, splitMode (trim s.toList) = (p.strict, '$' :: cs) ∧ StepsIn p.steps cs := by
  rw [parse?]
  constructor
  · intro h
    split at h
    · rename_i strict cs hmode
      obtain ⟨steps, hsteps, rfl⟩ := Option.map_eq_some_iff.1 h
      exact ⟨cs, hmode, (steps?_eq_some_iff le_rfl).1 hsteps⟩
    · cases h
  · rintro ⟨cs, hmode, hsteps⟩
    simp only [hmode, (steps?_eq_some_iff le_rfl).2 hsteps, Option.map_some]

theorem StepsWritten.last_root (h : StepsWritten steps text) :
    ∀ c ∈ ('$' :: text).getLast?, isWhiteSpace c = false := by
  intro c hc
  rw [List.getLast?_cons, Option.mem_some_iff] at hc
  cases hlast : text.getLast? with
  | none =>
    rw [hlast] at hc
    rw [← hc]
    rfl
  | some d =>
    rw [hlast] at hc
    rw [← hc]
    exact h.last d hlast

/-- The texts of a path have no blanks around them. -/
theorem Written.trim_eq {p : Path} (h : p.Written text) : trim text = text := by
  cases h with
  | plain h => exact trim_eq_self (fun c hc => by cases hc; rfl) h.last_root
  | @mode strict steps word gap text hword hne hgap h =>
    refine trim_eq_self (fun c hc => ?_) fun c hc => ?_
    · cases word with
      | nil =>
        have hnil : ([] : List Char) ≠ (modeWord strict).toList := by cases strict <;> decide
        exact absurd hword hnil
      | cons d word =>
        obtain rfl : d = c := Option.some.inj hc
        exact isWhiteSpace_of_mem_modeWord hword d List.mem_cons_self
    · rw [List.getLast?_append_of_ne_nil _ (List.cons_ne_nil _ _)] at hc
      exact h.last_root c hc

/-- A text is read as a path exactly if it is one of the path's texts with blanks around it. The number of its
characters bounds the number of steps that are read, so that more fuel changes nothing, and every step that is read
leaves an end of the text. -/
theorem parse?_iff_written :
    (∀ (s : String) (p : Path), parse? s = some p ↔
      ∃ before text after, Blanks before ∧ Blanks after ∧ s.toList = before ++ text ++ after ∧ p.Written text) ∧
    (∀ (fuel : ℕ) (cs : List Char), cs.length ≤ fuel → steps? fuel cs = steps? cs.length cs) ∧
    ∀ (cs : List Char) (step : Step) (rest : List Char),
      dotStep? cs = some (step, rest) ∨ bracketStep? cs = some (step, rest) → rest <:+ cs := by
  refine ⟨fun s p => ?_, fun fuel cs hfuel => ?_, fun cs step rest h => ?_⟩
  · rw [parse?_eq_some_iff]
    constructor
    · rintro ⟨cs, hmode, text, tail, hsteps, htail, rfl⟩
      obtain ⟨before, after, hbefore, hafter, hs⟩ := exists_blanks_append_trim s.toList
      obtain ⟨strict, steps⟩ := p
      rcases splitMode_eq hmode with ⟨rfl, htrim⟩ | ⟨word, gap, hword, hne, hgap, htrim⟩
      · refine ⟨before, '$' :: text, tail ++ after, hbefore, htail.append hafter, ?_, .plain hsteps⟩
        rw [hs, htrim]
        simp
      · refine ⟨before, word ++ gap ++ '$' :: text, tail ++ after, hbefore, htail.append hafter, ?_,
          .mode hword hne hgap hsteps⟩
        rw [hs, htrim]
        simp
    · rintro ⟨before, text, after, hbefore, hafter, hs, hwritten⟩
      rw [hs, trim_append_blanks hbefore hafter, hwritten.trim_eq]
      cases hwritten with
      | @plain steps text h => exact ⟨text, splitMode_root, text, [], h, by simp [Blanks], by simp⟩
      | @mode strict steps word gap text hword hne hgap h =>
        exact ⟨text, splitMode_modeWord hword hne hgap, text, [], h, by simp [Blanks], by simp⟩
  · exact Option.ext fun steps => (steps?_eq_some_iff hfuel).trans (steps?_eq_some_iff le_rfl).symm
  · rcases h with h | h
    · obtain ⟨read, rfl, -⟩ := dotStep?_eq_some h
      exact List.suffix_append read rest
    · obtain ⟨read, rfl, -⟩ := bracketStep?_eq_some h
      exact List.suffix_append read rest

theorem parse?_iff_written_mixed : parse? " StricT \n$.a [ 007 ]['x .y'] [*]\t" =
    some ⟨true, [.member "a", .index 7, .member "x .y", .anyIndex]⟩ := by
  have hletter : CharClass.isAlphanumeric 'a' = true := rfl
  have hbare : StepWritten (.member "a") ('.' :: "a".toList) := .bare (by decide) (by simp [hletter])
  have hindex : StepWritten (.index 7) ('[' :: [' '] ++ (List.replicate 2 '0' ++ (7 : ℕ).repr.toList) ++ [' '] ++ [']']) :=
    .bracketed (by decide) (by decide) (.index 2 (by decide))
  have hquoted : StepWritten (.member "x .y") ('[' :: [] ++ ('\'' :: "x .y".toList ++ ['\'']) ++ [] ++ [']']) :=
    .bracketed (by decide) (by decide) (.name (.inl rfl) (by decide))
  have hany : StepWritten .anyIndex ('[' :: [] ++ ['*'] ++ [] ++ [']']) := .bracketed (by decide) (by decide) .any
  have hsteps := @StepsWritten.cons _ _ [] _ _ (by decide) hbare (@StepsWritten.cons _ _ [' '] _ _ (by decide) hindex
    (@StepsWritten.cons _ _ [] _ _ (by decide) hquoted (@StepsWritten.cons _ _ [' '] _ _ (by decide) hany .nil)))
  have hwritten := @Written.mode true _ "StricT".toList [' ', '\n'] _ (by decide) (by decide) (by decide) hsteps
  exact (parse?_iff_written.1 _ _).2 ⟨[' '], _, ['\t'], by decide, by decide, by decide, hwritten⟩

end Json.Path

end SqlCode

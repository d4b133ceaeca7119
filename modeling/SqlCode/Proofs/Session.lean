import SqlCode.Proofs.CompileScope

/-!
# Sessions

A session serves requests one after another: new input fields, and terms to compile, some of which fail. The
block that it builds assigns every variable once and reads only what exists, and what a result evaluates
to depends on the root, the input slots, the context and the registered routines alone. What earlier rows
or other blocks left in the variables has no influence.
-/

namespace SqlCode

open Run SqlCode.Expr Code

/-- A flagged expression that is steady has one outcome from states that agree on what it reads. -/
theorem Flagged.Uses.coincide_eval {S : String → Prop} {f : Flagged} {m m' : Machine}
    (h : f.Uses S (· ∉ volatile)) (hm : m.Agrees S m') : Coincide m m' f.eval f.eval := by
  refine .bind (coincide_of_agrees h.1 hm) fun v => ?_
  split
  · exact .pure _
  · exact coincide_of_agrees h.2 hm

/-- Inputs use names that are taken, also the one that is added. -/
theorem Compilation.uses_addInput {Q : String → Prop} {c : Compilation}
    (h : ∀ f ∈ c.inputs, f.Uses (· ∈ c.builder.names) Q) (name : String) (type : SqlType) :
    ∀ f ∈ (c.addInput name type).2.inputs,
      f.Uses (· ∈ (c.addInput name type).2.builder.names) Q := by
  have hslot : (Expr.slot ⟨c.builder.freshName name, type.rep⟩).Uses
      (· ∈ c.builder.freshName name :: c.builder.names) Q := by simp
  intro f hf
  rcases List.mem_append.1 hf with hf | hf
  · exact (h f hf).mono (fun _ hx => List.mem_cons_of_mem _ hx)
  · rw [List.mem_singleton.1 hf]
    exact ⟨hslot.mkIsNull, hslot⟩

/-- A request: a new input field, or a term to compile. -/
inductive Request
  | field (name : String) (type : SqlType)
  | term (t : Term)

/-- The operators of a requested term, and of the definitions that it refers to, name routines in `Q`. -/
def Request.Names (Q : String → Prop) (defs : List Term) : Request → Prop
  | .field .. => True
  | .term t => t.EveryOperator defs (·.Names Q)

/-- A compilation with the input slots and the results that it has given so far. -/
structure Session where
  compilation : Compilation
  slots : List Slot := []
  results : List Flagged := []

namespace Session

/-- A session without requests. -/
def start (settings : Settings) (defs : List Term) : Session := ⟨{ settings, definitions := defs }, [], []⟩

/-- Serves a request. A term that does not compile gives no result, and its code stays. -/
def serve (s : Session) : Request → Session
  | .field name type =>
    let added := s.compilation.addInput name type
    { s with compilation := added.2, slots := s.slots ++ [added.1] }
  | .term t =>
    match s.compilation.add t with
    | (.ok f, c) => { s with compilation := c, results := s.results ++ [f] }
    | (.error _, c) => { s with compilation := c }

/-- Serves requests one after another. -/
def serveAll (s : Session) (requests : List Request) : Session := requests.foldl serve s

/-- The block that the session has built. -/
def block (s : Session) : Block := s.compilation.builder.statements

/-- The names around the block: the root and the input slots. -/
def outer (s : Session) : List String := "root" :: s.slots.map (·.name)

/-- The invariant of a session: the compilation is tidy, and the results use names that are taken. -/
structure Sound (Q : String → Prop) (s : Session) : Prop where
  tidy : s.compilation.Tidy Q s.outer
  results : ∀ f ∈ s.results, f.Uses (· ∈ s.compilation.builder.names) Q

variable {Q : String → Prop} {s : Session}

theorem sound_start (Q : String → Prop) (settings : Settings) (defs : List Term) :
    (start settings defs).Sound Q := by
  refine ⟨⟨by simp [outer], ?_, .nil, by simp [start], by simp [start]⟩, by simp [start]⟩
  simp [start, outer, Builder.nameSet]

theorem Sound.field (h : s.Sound Q) (name : String) (type : SqlType) :
    (s.serve (.field name type)).Sound Q := by
  have hfresh := s.compilation.builder.freshName_notMem name
  have hmono : ∀ {f : Flagged}, f.Uses (· ∈ s.compilation.builder.names) Q →
      f.Uses (· ∈ s.compilation.builder.freshName name :: s.compilation.builder.names) Q :=
    fun hf => hf.mono (fun _ hx => List.mem_cons_of_mem _ hx)
  have houter : (s.serve (.field name type)).outer =
      s.outer ++ [s.compilation.builder.freshName name] := by
    simp [outer, serve, Compilation.addInput, Builder.newSlot, Builder.newName]
  refine ⟨⟨by simp [outer], ?_, ?_, Compilation.uses_addInput h.tidy.inputs name type,
    fun p hp => hmono (h.tidy.done p hp)⟩, fun f hf => hmono (h.results f hf)⟩
  · have hn := h.tidy.names
    rw [houter]
    ext x
    have hx := Set.ext_iff.1 hn x
    simp only [Builder.nameSet, Set.mem_ofPred_eq, Set.mem_union] at hx
    simp only [serve, Compilation.addInput, Builder.newSlot, Builder.newName, Builder.nameSet,
      List.mem_cons, Set.mem_ofPred_eq, hx, List.mem_append, Set.mem_union, List.not_mem_nil]
    tauto
  · rw [houter]
    refine h.tidy.isScoped.widen (fun x hx => List.mem_append_left _ hx) fun x hx hmem => ?_
    rcases List.mem_append.1 hmem with hmem | hmem
    · exact (h.tidy.isScoped.declared_fresh.2 x hx).1 hmem
    · have : x ∈ s.compilation.builder.nameSet := h.tidy.names ▸ .inr hx
      exact hfresh (List.mem_singleton.1 hmem ▸ this)

theorem serve_term (s : Session) (t : Term) : (s.serve (.term t)).compilation = (s.compilation.add t).2 ∧
    (s.serve (.term t)).outer = s.outer := by
  rcases hadd : s.compilation.add t with ⟨r, c⟩
  simp only [serve, hadd]
  cases r <;> exact ⟨rfl, rfl⟩

theorem Sound.term (h : s.Sound Q) (hQ : ∀ f, f ∉ volatile → Q f) {t : Term}
    (ht : t.EveryOperator s.compilation.definitions (·.Names Q)) :
    (s.serve (.term t)).Sound Q ∧
      (s.serve (.term t)).compilation.definitions = s.compilation.definitions := by
  obtain ⟨hl, hf⟩ := (Term.invariant_tidy _ _ hQ).compile ⟨h.tidy, rfl⟩ ht
  have hmono : ∀ {f : Flagged} {c : Compilation}, s.compilation.Leads Q s.outer c →
      f.Uses (· ∈ s.compilation.builder.names) Q → f.Uses (· ∈ c.builder.names) Q :=
    fun hl hf => hf.mono hl.names
  have hadd : s.compilation.add t = t.compile.run.run s.compilation := rfl
  rcases hp : t.compile.run.run s.compilation with ⟨r, c⟩
  rw [hp] at hl hf hadd
  simp only [Session.serve, hadd]
  cases r with
  | error e => exact ⟨⟨hl.tidy, fun f hf => hmono hl (h.results f hf)⟩, hl.definitions⟩
  | ok f =>
    refine ⟨⟨hl.tidy, fun g hg => ?_⟩, hl.definitions⟩
    rcases List.mem_append.1 hg with hg | hg
    · exact hmono hl (h.results g hg)
    · rw [List.mem_singleton.1 hg]
      exact hf f rfl

theorem Sound.serve (h : s.Sound Q) (hQ : ∀ f, f ∉ volatile → Q f) {r : Request}
    (hr : r.Names Q s.compilation.definitions) :
    (s.serve r).Sound Q ∧ (s.serve r).compilation.definitions = s.compilation.definitions := by
  cases r with
  | field name type => exact ⟨h.field name type, rfl⟩
  | term t => exact h.term hQ hr

theorem Sound.serveAll (h : s.Sound Q) (hQ : ∀ f, f ∉ volatile → Q f) {requests : List Request}
    (hr : ∀ r ∈ requests, r.Names Q s.compilation.definitions) :
    (s.serveAll requests).Sound Q := by
  induction requests generalizing s with
  | nil => exact h
  | cons r rest ih =>
    obtain ⟨hs, hd⟩ := h.serve hQ (hr r (by simp))
    refine ih hs fun r' hr' => ?_
    rw [hd]
    exact hr r' (by simp [hr'])

/-- A result reads what is around the block or declared by it. -/
theorem Sound.mem_of_reads (h : s.Sound Q) {f : Flagged} (hf : f ∈ s.results) {x : String}
    (hx : x ∈ f.isNull.reads ∨ x ∈ f.value.reads) : x ∈ s.outer ∨ x ∈ Block.declared s.block := by
  have hmem : x ∈ s.compilation.builder.nameSet := by
    rcases hx with hx | hx
    · exact (h.results f hf).1.1 x hx
    · exact (h.results f hf).2.1 x hx
  rw [h.tidy.names] at hmem
  exact hmem

/-- The block and its results evaluate alike from states that agree on the names around the block. -/
theorem Sound.evaluate_alike (h : s.Sound (· ∉ volatile)) {f : Flagged} (hf : f ∈ s.results)
    {m m' : Machine} (hm : m.Agrees (· ∈ s.outer) m') :
    ((Block.evaluate s.block f).result m).1 = ((Block.evaluate s.block f).result m').1 := by
  refine h.tidy.isScoped.runs_alike.evaluate (fun n n' hn => ?_) (by simpa using hm)
  refine (h.results f hf).coincide_eval (hn.mono fun x hx => ?_)
  have : x ∈ s.compilation.builder.nameSet := hx
  rw [h.tidy.names] at this
  simpa using this

/-- Whatever is requested of a session, the block that it builds is well scoped relative to the root and the
input slots, and its results read only these and what the block declares. If no operator of a request
draws random numbers or uses sequences, then block and result evaluate to the same value, or fault in the
same way, from any two states that agree on the root, the input slots, the context and the registered
routines. -/
theorem serveAll_wellScoped (settings : Settings) (defs : List Term)
    (requests : List Request) :
    let s := (start settings defs).serveAll requests
    s.block.WellScoped s.outer ∧
      (∀ f ∈ s.results, ∀ x, x ∈ f.isNull.reads ∨ x ∈ f.value.reads →
        x ∈ s.outer ∨ x ∈ Block.declared s.block) ∧
      ((∀ r ∈ requests, r.Names (· ∉ volatile) defs) → ∀ f ∈ s.results, ∀ m m' : Machine,
        m.Agrees (· ∈ s.outer) m' →
        ((Block.evaluate s.block f).result m).1 = ((Block.evaluate s.block f).result m').1) := by
  intro s
  have hany : s.Sound fun _ => True := by
    refine (sound_start _ settings defs).serveAll (fun _ _ => trivial) fun r _ => ?_
    cases r with
    | field name type => trivial
    | term t => exact fun _ _ _ _ _ _ _ _ => trivial
  refine ⟨hany.tidy.isScoped.wellScoped, fun f hf x hx => hany.mem_of_reads hf hx,
    fun hr f hf m m' hm => ?_⟩
  have hsteady : s.Sound (· ∉ volatile) :=
    (sound_start _ settings defs).serveAll (fun _ h => h) hr
  exact hsteady.evaluate_alike hf hm

/-- A session with a field `a`, a term that fails after its first operand, and `a + 1`: the sum is the same
from two states that agree on `a` but not on the variables that the block declares. -/
theorem serveAll_wellScoped_sum :
    let type : SqlType := .plain .integer true
    let one : Term := .literal (.int 1) type
    let sum : Term := .call (.builtin .plus) type [.input 0 type, one]
    let s := (start {} []).serveAll
      [.field "a" type, .term (.call (.builtin .plus) type [sum, .input 1 type]), .term sum]
    let m := ({} : Machine).bind "a" (.int 6)
    let m' := m.bind "binary_call_value" (.str "left behind")
    s.block.WellScoped ["root", "a"] ∧ s.results.length = 1 ∧ s.block.length = 4 ∧
      ∀ f ∈ s.results,
        ((Block.evaluate s.block f).result m).1 = ((Block.evaluate s.block f).result m').1 := by
  intro type one sum s m m'
  have h := serveAll_wellScoped {} []
    [.field "a" type, .term (.call (.builtin .plus) type [sum, .input 1 type]), .term sum]
  have hplus : (Operator.builtin .plus).Names (· ∉ volatile) := by
    rintro l ⟨rfl⟩
    decide
  have houter : s.outer = ["root", "a"] := by
    subst s sum one type
    decide +kernel
  have hlength : s.results.length = 1 ∧ s.block.length = 4 := by
    subst s sum one type
    decide +kernel
  refine ⟨houter ▸ h.1, hlength.1, hlength.2, fun f hf => h.2.2 ?_ f hf m m' ⟨rfl, rfl, fun x hx => ?_⟩⟩
  · simp [Request.Names, Term.EveryOperator, Term.forall_calls_call, sum, one, hplus]
  · refine (Machine.get?_bind_of_ne m _ ?_).symm
    rintro rfl
    rw [houter] at hx
    simp at hx

/-- The outcome may depend on the root: a registered routine in place of a reader of the context is given the
value of the root. The two states have the same context and routines, and there are no input slots. -/
theorem evaluate_depends_on_root :
    let s := (start {} []).serveAll [.term (.call (.builtin .user) (.plain .varchar true) [])]
    let m := ({} : Machine).register "user" fun args => .ok (args.head?.getD .null)
    let m' := m.bind "root" (.str "x")
    (Operator.builtin .user).Names (· ∉ volatile) ∧ s.slots = [] ∧
      m.Agrees (· ∈ s.slots.map (·.name)) m' ∧
      s.results.map (fun f => ((Block.evaluate s.block f).result m).1) = [.ok .null] ∧
      s.results.map (fun f => ((Block.evaluate s.block f).result m').1) = [.ok (.str "x")] := by
  intro s m m'
  refine ⟨?_, rfl, ⟨rfl, rfl, fun x hx => ?_⟩, rfl, rfl⟩
  · rintro l ⟨rfl⟩
    decide
  · cases hx

end Session

end SqlCode

import OpenQasm.Proofs.Grammar.Texts

/-!
# Statements begun in a parse

Which statements a parse begins, and in which states. A statement is watched for by a reader that
crashes where the statement begins and reads all others as ever. No production catches a crash, so
a parse begins the statement if and only if the parse that watches for it crashes in this way.
-/

namespace OpenQasm.Grammar

/-- The crash that a reader makes where a watched statement begins. No parser brings it about by
itself: roots are looked at when a tree is finished. -/
def watched : Crash := .fault .rootKind

/-- Statements to watch for: the number of levels below them and the states they begin in. -/
abbrev Watch := Nat → State → Prop

/-- Watch for one statement. -/
def only (levels : Nat) (call : State) : Watch :=
  fun levels' state => levels' = levels ∧ state = call

open Classical in
/-- The reader that crashes where a watched statement begins. -/
noncomputable def watching (watch : Watch) : Reader := fun levels inner context state =>
  if watch levels state then .error (.crash watched) state
  else statementOrError inner context state

/-- The parse of a text begins a statement in a state, with so many levels below it. -/
def Begins (source : SourceId) (text : List Char) (options : ParseOptions) (levels : Nat)
    (call : State) : Prop :=
  ∃ after, programWith (watching (only levels call)) ⟨source, text, options⟩
    (startState source text options) = .error (.crash watched) after

section
variable {source : SourceId} {text : List Char} {options : ParseOptions} {levels : Nat}
  {call : State} {token : Token} {rest : List Token}

theorem watching_of {watch : Watch} {inner : Level} {context : Context}
    (h : watch levels call) :
    watching watch levels inner context call = .error (.crash watched) call := if_pos h

theorem watching_of_not {watch : Watch} {inner : Level} {context : Context}
    (h : ¬watch levels call) :
    watching watch levels inner context call = statementOrError inner context call := if_neg h

/-- The first statement of a program is read where the program starts. -/
theorem programWith_first {reader : Reader} {context : Context} {start : State}
    {failure : Crash} (h : start.rest = token :: rest) (hk : token.kind ≠ Symbol.rightBrace)
    (hc : reader (context.options.maxDepth + 1) (levelWith reader (context.options.maxDepth + 1))
      context start = .error (.crash failure) start) :
    programWith reader context start = .error (.crash failure) start := by
  have hpeek : peek context start = .ok (some token.kind) start := by
    have hcurrent : current context start = .ok start.rest.head? start := rfl
    unfold peek
    rw [bind_of_ok hcurrent, h]
    rfl
  unfold programWith
  rw [read_bind]
  refine bind_of_error ?_
  unfold programItemsWith iterate
  rw [get_bind, h]
  refine bind_of_error ?_
  refine (bind_of_ok hpeek).trans ?_
  generalize hseen : some token.kind = seen
  split
  · cases hseen
  · exact absurd (Option.some.inj hseen) hk
  · refine bind_of_error ?_
    simp only [attempt, hc]

/-- The first statement of a text is begun. -/
theorem begins_first (h : (startState source text options).rest = token :: rest)
    (hk : token.kind ≠ Symbol.rightBrace) :
    Begins source text options (options.maxDepth + 1) (startState source text options) :=
  ⟨_, programWith_first h hk (watching_of ⟨rfl, rfl⟩)⟩

namespace Reading

variable {reading : Reading} {watch : Watch}

/-- Watching does not matter to how statements are read, if braces do not either. -/
theorem watching_reads (hf : ¬reading.fair)
    (hw : ∀ levels call token rest, watch levels call → reading.Ready levels call →
      call.rest = token :: rest → token.kind ≠ Symbol.rightBrace → reading.halts watched) :
    reading.Reads (watching watch) := by
  intro levels hi base token rest h hr hk
  unfold Runs
  by_cases hwatch : watch levels base
  · rw [watching_of hwatch]
    exact hw levels base token rest hwatch h hr hk
  · rw [watching_of_not hwatch]
    exact statementOrError_runs hi h hr hk fun hf' => absurd hf' hf

end Reading

/-- A statement begins where a statement may be read, with a token ahead that does not close a
block. -/
theorem Begins.ready (h : Begins source text options levels call) :
    (Reading.ofText source text options).Ready levels call ∧
      ∃ token rest, call.rest = token :: rest ∧ token.kind ≠ Symbol.rightBrace := by
  let begun := (Reading.ofText source text options).Ready levels call ∧
    ∃ token rest, call.rest = token :: rest ∧ token.kind ≠ Symbol.rightBrace
  let reading : Reading :=
    { Reading.ofText source text options with
      halts := fun failure => failure = watched → begun
      halts_overflow := fun failure hover hc => by
        subst hc
        cases hover }
  have hreads : reading.Reads (watching (only levels call)) :=
    Reading.watching_reads id fun _ _ token rest hw hready hr hk _ => by
      obtain ⟨rfl, rfl⟩ := hw
      exact ⟨{ hready with }, token, rest, hr, hk⟩
  have hready := Reading.ready_startState source text options
  have hruns := Reading.programWith_runs hreads { hready with } rfl
  obtain ⟨after, hafter⟩ := h
  unfold Reading.Runs at hruns
  rw [show reading.context = ⟨source, text, options⟩ from rfl, hafter] at hruns
  exact hruns rfl

end

end OpenQasm.Grammar

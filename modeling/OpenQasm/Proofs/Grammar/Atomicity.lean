import OpenQasm.Proofs.Grammar.Calls

/-!
# Statements that fail leave no trace

Every statement that a parse begins is atomic. Read or not, it leaves the nesting as it was; if it
fails, one error stands for it in the tree and nothing else has changed, and while an overflow of
the depth unwinds not even the error is there. At the top level a failure is always caught.
-/

namespace OpenQasm.Grammar

/-- The counters of nesting are the same before and after. -/
structure SameNesting (before after : State) : Prop where
  depth : after.depth = before.depth
  openBlocks : after.openBlocks = before.openBlocks
  scopes : after.scopes.length = before.scopes.length

/-- The names that are declared and the version in force are the same before and after. -/
structure SameNames (before after : State) : Prop where
  scopes : after.scopes = before.scopes
  version : after.version = before.version

/-- How an atomic statement ends. Either a node comes out, and if the statement failed it is an
error that is all that was pushed; or, within open blocks only, the call stops for an overflow of
the depth to unwind, and nothing was pushed; or it crashes, where the machine numbers do not suffice
for the tokens. -/
def Atomic (context : Context) (tokens : List Token) (inner : Level) (call : State) : Prop :=
  (∃ node after, statementOrError inner context call = .ok node after ∧
    SameNesting call after ∧ after.unwinding = none ∧
    ∀ failed, statement inner context call = .error .recovered failed →
      SameNames call after ∧ node.kind = .error ∧
      after.builder = call.builder.withError node.span) ∨
  (∃ after, statementOrError inner context call = .error .recovered after ∧
    SameNesting call after ∧ SameNames call after ∧ after.builder = call.builder ∧
    after.unwinding.isSome ∧ 0 < call.openBlocks) ∨
  ∃ failure after, statementOrError inner context call = .error (.crash failure) after ∧
    Overflows context tokens failure

namespace Reading

variable {reading : Reading} {levels : Nat} {inner : Level} {base failed after : State}
  {node : Placed}

theorem Dropped.sameNesting (h : reading.Dropped base failed) : SameNesting base failed :=
  ⟨h.depth, h.openBlocks, congrArg List.length h.scopes⟩

theorem Yields.sameNesting {declares : Prop} {slot : Slot}
    (h : reading.Yields declares slot levels base node after) : SameNesting base after := by
  obtain ⟨base', read, ahead, hr, -, hheld, -⟩ := h
  have hbase := hr.state
  refine ⟨?_, ?_, ?_⟩
  · rw [hheld.depth, hbase]
  · rw [hheld.openBlocks, hbase]
  · rw [hheld.scopes, hr.count]

theorem Yields.unwinding {declares : Prop} {slot : Slot}
    (h : reading.Yields declares slot levels base node after) : after.unwinding = none := by
  obtain ⟨base', read, ahead, -, -, hheld, -⟩ := h
  exact hheld.unwinding

/-- The productions of the grammar do what they should. -/
theorem level_spec (hf : ¬reading.fair) : reading.Spec levels (level levels) :=
  levelWith_plain levels ▸ levelWith_spec (plainReader_reads hf)

end Reading

open Reading

section
variable {source : SourceId} {text : List Char} {options : ParseOptions} {levels : Nat}
  {call : State}

/-- Every statement that a parse begins is atomic. -/
theorem statementOrError_atomic (h : Begins source text options levels call) :
    Atomic ⟨source, text, options⟩ (startState source text options).rest (level levels) call := by
  obtain ⟨hready, -⟩ := h.ready
  rcases statementOrError_cases (level_spec id) hready with ⟨node, after, hread, hend, hv⟩ |
    ⟨failed, -, hd, hsome, hopen, hend⟩ | ⟨failed, -, hd, hend⟩ | ⟨failure, after, -, hend, hh⟩
  · refine .inl ⟨node, after, hend, hv.sameNesting, hv.unwinding, fun failed hf => ?_⟩
    cases hread.symm.trans hf
  · have ⟨h1, h2, h3⟩ := hd.sameNesting
    exact .inr (.inl ⟨_, hend, ⟨h1, h2, h3⟩, ⟨hd.scopes, hd.version⟩, rfl, hsome, hopen⟩)
  · have ⟨h1, h2, h3⟩ := hd.sameNesting
    exact .inl ⟨_, _, hend, ⟨h1, h2, h3⟩, rfl, fun _ _ => ⟨⟨hd.scopes, hd.version⟩, rfl, rfl⟩⟩
  · exact .inr (.inr ⟨failure, after, hend, hh⟩)

end

/-- The first statement of `;` is begun, and it fails. -/
theorem statementOrError_atomic_semicolon :
    Begins ⟨0⟩ [';'] {} 257 (startState ⟨0⟩ [';'] {}) ∧
      Atomic ⟨⟨0⟩, [';'], {}⟩ (startState ⟨0⟩ [';'] {}).rest (level 257)
        (startState ⟨0⟩ [';'] {}) := by
  have h : Begins ⟨0⟩ [';'] {} 257 (startState ⟨0⟩ [';'] {}) :=
    begins_first (show _ = [⟨Symbol.semicolon, [';'], ⟨⟨0⟩, 0, 1⟩⟩] by decide +kernel) (by decide)
  exact ⟨h, statementOrError_atomic h⟩

/-- A statement at the top level need not come to an end: the exponent of its number may have no
size. -/
theorem not_statementOrError_ok :
    ¬∀ text options levels call, Begins ⟨0⟩ text options levels call → call.openBlocks = 0 →
      ∃ node after, statementOrError (level levels) ⟨⟨0⟩, text, options⟩ call = .ok node after := by
  intro hall
  let text := "1e-9223372036854775808;".toList
  have h : Begins ⟨0⟩ text {} 257 (startState ⟨0⟩ text {}) :=
    begins_first
      (show _ = [⟨.float, "1e-9223372036854775808".toList, ⟨⟨0⟩, 0, 22⟩⟩,
        ⟨Symbol.semicolon, [';'], ⟨⟨0⟩, 22, 23⟩⟩] by decide +kernel) (by decide)
  obtain ⟨node, after, hok⟩ := hall _ _ _ _ h rfl
  have hcrash : (match statementOrError (level 257) ⟨⟨0⟩, text, {}⟩ (startState ⟨0⟩ text {}) with
    | .ok _ _ => true
    | .error _ _ => false) = false := by decide +kernel
  rw [hok] at hcrash
  cases hcrash

end OpenQasm.Grammar

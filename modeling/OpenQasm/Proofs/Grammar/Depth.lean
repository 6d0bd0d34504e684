import OpenQasm.Proofs.Grammar.Comparison
import OpenQasm.Proofs.Grammar.Silence

/-!
# The limit of the depth

A parse is set beside one with a higher limit. As long as no overflow is reported they are in the
same state, since both count levels alike and bring the count back however a production ends. The
first overflow is where they part, and its report stays.
-/

namespace OpenQasm.Grammar

open Comparison

section
variable {source : SourceId} {text : List Char} {options : ParseOptions} {limit : Nat}
  {Parts : State → State → Prop} {stops : Prop}

/-- A parse beside one with a higher limit. -/
def deepened (source : SourceId) (text : List Char) (options : ParseOptions) (limit : Nat)
    (Parts : State → State → Prop) (stops : Prop) : Comparison where
  left := ⟨source, text, options⟩
  right := ⟨source, text, { options with maxDepth := limit }⟩
  Meets state reports := reports = state.diagnostics ∧ state.unwinding = none
  Parts := Parts
  stops := stops
  Halts _ := False

theorem deepened_reportSyntax {depth blocks : Nat} {message : String} :
    (deepened source text options limit Parts stops).Keeps depth blocks (reportSyntax message)
      (reportSyntax message) := by
  intro state reports hat
  obtain ⟨rfl, hsettled⟩ := hat.meets
  let c := deepened source text options limit Parts stops
  have hsame : isSuppressed c.right state = isSuppressed c.left state :=
    isSuppressed_maxDepth source text options limit state
  rw [show state.reporting state.diagnostics = state from rfl]
  rcases isSuppressed_cases c.left state with ⟨suppressed, hleft⟩ | hleft
  · let result := if suppressed || startsWith .error state.rest then state
      else state.reporting (state.diagnostics.push (syntaxReport c.left state.rest message))
    have hresult : c.At depth blocks result result.diagnostics := by
      by_cases h : (suppressed || startsWith .error state.rest) = true
      · rw [show result = state from if_pos h]
        exact hat
      · rw [show result = state.reporting _ from if_neg h]
        exact ⟨⟨rfl, hsettled⟩, hat.depth, hat.openBlocks⟩
    have hl : reportSyntax message c.left state = .ok () result := reportSyntax_of_suppressed hleft
    have hr : reportSyntax message c.right state = .ok () result :=
      reportSyntax_of_suppressed (hsame.trans hleft)
    rw [hl, hr]
    exact .ok hresult
  · have hl : reportSyntax message c.left state = .error (.crash .countOverflow) state :=
      reportSyntax_of_crash hleft
    have hr : reportSyntax message c.right state = .error (.crash .countOverflow) state :=
      reportSyntax_of_crash (hsame.trans hleft)
    rw [hl, hr]
    exact .error hat

/-- The two part where the first overflow is reported. -/
theorem deepened_lawful (hle : options.maxDepth ≤ limit)
    (hparts : ∀ state after, state.unwinding = none → Reported state after →
      Parts (state.overflown ⟨source, text, options⟩) after)
    (halike : ∀ {state other after}, Alike state other → Parts state after → Parts other after)
    (hleft : ∀ {state other after}, ¬stops → Reported state other → Parts state after →
      Parts other after)
    (hright : ∀ {state after other}, Reported after other → Parts state after → Parts state other)
    (hunwinding : ∀ {state after}, stops → Parts state after → state.unwinding.isSome) :
    (deepened source text options limit Parts stops).Lawful where
  source := rfl
  text := rfl
  alike ha hmeets := ⟨hmeets.1.trans ha.diagnostics.symm, ha.unwinding.trans hmeets.2⟩
  pass n hmeets := by
    rw [pass_eq]
    exact hmeets
  push diagnostic hmeets _ := ⟨by rw [hmeets.1]; rfl, hmeets.2⟩
  settle hmeets := ⟨hmeets.1, rfl⟩
  resync hmeets := hmeets
  parts_alike := halike
  parts_left := hleft
  parts_right := hright
  parts_unwinding := hunwinding
  reportSyntax _ := deepened_reportSyntax
  limits := hle
  overflow hr hle := by
    intro state reports hat
    obtain ⟨rfl, hsettled⟩ := hat.meets
    rw [overflow_eq, hsettled]
    exact .part (hparts state _ hsettled (Reports.nested hr _ state)) fun _ =>
      ⟨_, rfl, hat.openBlocks⟩

/-! ## Overflows that are reported -/

/-- An overflow of the depth has been reported. -/
def Overflown (state : State) : Prop :=
  ∃ diagnostic ∈ state.diagnostics.items, diagnostic.code = .maxDepthExceeded

theorem Overflown.reported {state after : State} (h : Overflown state)
    (hr : Reported state after) : Overflown after := by
  obtain ⟨diagnostic, hd, hcode⟩ := h
  exact ⟨diagnostic, hr.mem hd, hcode⟩

theorem overflown_lawful (hle : options.maxDepth ≤ limit) :
    (deepened source text options limit (fun state _ => Overflown state) False).Lawful := by
  refine deepened_lawful hle (fun state _ _ _ => ?_) (fun ha h => ?_) (fun _ hr h => h.reported hr)
    (fun _ h => h) fun hs => hs.elim
  · exact ⟨_, List.mem_append_right _ List.mem_cons_self, rfl⟩
  · exact h.reported (.same ha.diagnostics)

/-- With a higher limit, a program is read as with the lower one, unless that one overflows. -/
theorem program_deepened (source : SourceId) (text : List Char) (hle : options.maxDepth ≤ limit) :
    Overflown (ending (program ⟨source, text, options⟩ (startState source text options))) ∨
    program ⟨source, text, { options with maxDepth := limit }⟩ (startState source text options) =
      program ⟨source, text, options⟩ (startState source text options) := by
  let c := deepened source text options limit (fun state _ => Overflown state) False
  have hstart : c.At 0 0 (startState source text options) {} := ⟨⟨rfl, rfl⟩, rfl, rfl⟩
  have hjoins := program_keeps (overflown_lawful hle) id _ _ hstart
  generalize hleft : program c.left (startState source text options) = left at hjoins
  generalize hright : program c.right ((startState source text options).reporting {}) = right
    at hjoins
  cases hjoins with
  | ok hat =>
    rw [hat.meets.1] at hright
    exact .inr (hright.trans hleft.symm)
  | error hat =>
    rw [hat.meets.1] at hright
    exact .inr (hright.trans hleft.symm)
  | part hparts => exact .inl (hleft ▸ hparts)
  | halt hhalts => exact hhalts.elim

end

/-! ## Parses -/

/-- A parse that reports no overflow is the same with a higher limit. -/
theorem parse_of_fits {source : SourceId} {text : List Char} {options : ParseOptions} {limit : Nat}
    {output : ParseOutput} (hle : options.maxDepth ≤ limit)
    (hparse : parse source text options = .ok output)
    (hfits : ∀ diagnostic ∈ output.diagnostics, diagnostic.code ≠ .maxDepthExceeded) :
    parse source text { options with maxDepth := limit } = .ok output := by
  obtain ⟨root, state, hprogram, -, -, hshown⟩ := exists_of_parse_ok hparse
  rcases program_deepened source text hle with hover | hsame
  · rw [hprogram] at hover
    obtain ⟨diagnostic, hd, hcode⟩ := hover
    have hreported : diagnostic ∈
        (⟨(tokenize source text).2 ++ state.diagnostics.items⟩ : Diagnostics).items :=
      List.mem_append_right _ hd
    obtain ⟨other, hother, hidentity⟩ := Diagnostics.exists_mem_sorted hreported
    have hsame := (Diagnostic.identity_eq_iff.1 hidentity).1
    exact absurd (hsame.trans hcode) (hfits other (hshown ▸ hother))
  · have hright : program ⟨source, text, { options with maxDepth := limit }⟩
        (startState source text { options with maxDepth := limit }) = .ok root state :=
      hsame.trans hprogram
    obtain ⟨hsorted, hdeeper⟩ := parse_of_program hprogram hright rfl hparse
    rw [hdeeper, ← hsorted]

/-- Raising the limit of the depth never changes a text that fits: unless an overflow is reported,
the parse with the higher limit yields the same tree, comments and reports. There is a parse with
the lower limit unless the machine numbers do not suffice for it. -/
theorem parse_deeper (source : SourceId) (text : List Char) (options : ParseOptions) {limit : Nat}
    (hle : options.maxDepth ≤ limit) :
    (∃ output, parse source text options = .ok output ∧
      ((∀ diagnostic ∈ output.diagnostics, diagnostic.code ≠ .maxDepthExceeded) →
        parse source text { options with maxDepth := limit } = .ok output)) ∨
    Crashes source text options := by
  refine (parse_completes source text options).imp_left ?_
  rintro ⟨-, -, output, -, hparse, -⟩
  exact ⟨output, hparse, parse_of_fits hle hparse⟩

/-- A text with syntax errors that nests four levels deep. -/
theorem parse_deeper_errors : ∃ text : List Char,
    text = "\x7b if (x) reset q; h ) \x7d a[(1)] = ;".toList ∧ 4 ≤ 256 ∧
      ∃ output, parse ⟨0⟩ text { maxDepth := 4 } = .ok output ∧
        (∀ diagnostic ∈ output.diagnostics, diagnostic.code ≠ .maxDepthExceeded) ∧
        parse ⟨0⟩ text { maxDepth := 256 } = .ok output := by
  let text := "\x7b if (x) reset q; h ) \x7d a[(1)] = ;".toList
  have hle : 4 ≤ 256 := by decide
  have hlexical : (tokenize ⟨0⟩ text).2 = [] := by decide +kernel
  have hreported : (ending (program ⟨⟨0⟩, text, { maxDepth := 4 }⟩
      (startState ⟨0⟩ text { maxDepth := 4 }))).diagnostics.items.all
        (fun diagnostic => decide (diagnostic.code ≠ .maxDepthExceeded)) = true := by
    decide +kernel
  obtain ⟨output, hparse, hdeeper⟩ :=
    (parse_deeper ⟨0⟩ text { maxDepth := 4 } hle).resolve_right (not_crashes (by decide +kernel))
  obtain ⟨root, state, hprogram, -, -, hshown⟩ := exists_of_parse_ok hparse
  have hfits : ∀ diagnostic ∈ output.diagnostics, diagnostic.code ≠ .maxDepthExceeded := by
    intro diagnostic hd
    rw [hshown, hlexical, List.nil_append] at hd
    rw [hprogram] at hreported
    exact of_decide_eq_true (List.all_eq_true.1 hreported _ (Diagnostics.mem_of_mem_sorted hd))
  exact ⟨text, rfl, hle, output, hparse, hfits, hdeeper hfits⟩

end OpenQasm.Grammar

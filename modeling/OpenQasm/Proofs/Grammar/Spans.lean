import OpenQasm.Proofs.Grammar.Bearings
import OpenQasm.Proofs.Text.Boundary

/-!
# Spans of parses

A text can be sliced at its boundaries, the offsets that fall inside no character, and the lexer
cuts it nowhere else. As the parser makes its spans out of the ends of tokens and of the text, all
spans of a parse lie in the text that was parsed, from boundary to boundary.
-/

namespace OpenQasm

/-- A span that lies in a text, from boundary to boundary. -/
structure Span.LiesIn (span : Span) (text : List Char) : Prop where
  ordered : span.start ≤ span.stop
  start : Text.IsBoundary text span.start
  stop : Text.IsBoundary text span.stop

/-- The lexer cuts a text at its boundaries. -/
theorem liesIn_of_tokenize {source : SourceId} {text : List Char} {token : Token}
    (hw : Text.width text ≤ maxOffset) (ht : token ∈ (tokenize source text).1) :
    token.span.source = source ∧ token.span.LiesIn text := by
  have hstop : (Lexer.ofText source text).stop = Text.width text := Nat.zero_add _
  have htiled : Tiled source 0 text (tokenize source text).1 :=
    (Lexer.ofText source text).drained_drain.tiled (hstop ▸ hw)
  obtain ⟨hsource, -, hlt⟩ := htiled.span token ht
  obtain ⟨hstart, hend⟩ := Text.isBoundary_of_slice? (htiled.slice [] rfl token ht)
  exact ⟨hsource, Nat.le_of_lt hlt, hstart, hend⟩

/-! ## Parses -/

/-- The spans of the nodes of a tree and of its comments. -/
def Tree.spans (tree : Tree) : List Span := tree.nodes.toList.map Node.span ++ tree.comments

/-- All spans of a parse. -/
def ParseOutput.spans (output : ParseOutput) : List Span :=
  output.tree.spans ++ output.diagnostics.flatMap Diagnostic.spans

namespace Grammar

section
variable {source : SourceId} {text : List Char} {options : ParseOptions} {output : ParseOutput}

/-- Cuts at the boundaries of a text. -/
def Cuts.boundaries (context : Context) (hw : Text.width context.text ≤ maxOffset) : Cuts where
  context := context
  isCut := Text.IsBoundary context.text
  isCut_zero := Text.isBoundary_zero context.text
  isCut_end := (Nat.min_eq_left hw).symm ▸ Text.isBoundary_width context.text

/-- All spans of a parse lie in the text. -/
theorem parse_spans (hw : Text.width text ≤ maxOffset)
    (h : parse source text options = .ok output) :
    ∀ span ∈ output.spans, span.source = source ∧ span.LiesIn text := by
  let cuts := Cuts.boundaries ⟨source, text, options⟩ hw
  have hlies : ∀ {span : Span}, cuts.Lies span → span.source = source ∧ span.LiesIn text :=
    fun hl => ⟨hl.source, hl.le, hl.start, hl.stop⟩
  have hmakes : cuts.Makes output := Cuts.parse_makes rfl (fun token ht =>
    have ⟨hsource, hl⟩ := liesIn_of_tokenize hw ht
    ⟨hsource, hl.start, hl.stop, hl.ordered⟩) h
  intro span hm
  rcases List.mem_append.1 hm with hm | hm
  · rcases List.mem_append.1 hm with hm | hm
    · obtain ⟨node, hn, rfl⟩ := List.mem_map.1 hm
      exact hlies (hmakes.nodes node (Array.mem_toList_iff.1 hn))
    · exact hlies (hmakes.comments span hm)
  · obtain ⟨diagnostic, hd, hm⟩ := List.mem_flatMap.1 hm
    exact hlies (hmakes.reports diagnostic hd span hm)

end

end Grammar

end OpenQasm

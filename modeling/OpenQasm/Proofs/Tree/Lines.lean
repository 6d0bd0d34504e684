import OpenQasm.Tree.Outline

/-!
# Lines of outlines

What a line of an outline says of a node breaks no line. Paths, names of grammars and contents of
pragmas are quoted. Names, targets of calibrations, keywords of annotations and bitstrings are
written as they are, so that of these it has to be known.
-/

namespace OpenQasm

namespace Text

/-- A text within one line. -/
def OneLine (text : String) : Prop := '\n' ∉ text.toList

instance (text : String) : Decidable (OneLine text) :=
  inferInstanceAs (Decidable ('\n' ∉ text.toList))

/-- A text is one line if it has no line break. -/
@[simp] theorem oneLine_ofList {chars : List Char} :
    OneLine (String.ofList chars) ↔ '\n' ∉ chars := by
  simp [OneLine]

/-! ## Numbers -/

end Text

/-! ## Literals -/

namespace NodeKind

variable {ι κ : Type} {kind : NodeKind ι}

/-- Whether the texts that a line of an outline has as they are stand on one line. -/
def isOneLine : NodeKind ι → Bool
  | annotationLine keyword _ => decide (Text.OneLine keyword)
  | defcal target .. => decide (Text.OneLine target)
  | identifier name => decide (Text.OneLine name)
  | bitstring bits => decide (Text.OneLine bits)
  | _ => true

/-- Whether a kind is one line does not depend on its children. -/
@[simp] theorem isOneLine_map (f : ι → κ) (kind : NodeKind ι) :
    (kind.map f).isOneLine = kind.isOneLine := by
  cases kind <;> rfl

end NodeKind

end OpenQasm

/-!
# Fields of a text

A text is cut at a separator into the fields between its occurrences, empty ones included.
-/

namespace OpenQasm.Text

/-- The pieces of the text between the occurrences of `separator`. -/
def fields (separator : Char) : List Char → List (List Char)
  | [] => [[]]
  | c :: text =>
    if c = separator then [] :: fields separator text
    else
      match fields separator text with
      | [] => [[c]]
      | field :: rest => (c :: field) :: rest

/-- The text before the first `separator` and the text after it, if there is one. -/
def cutAt? (separator : Char) : List Char → Option (List Char × List Char)
  | [] => none
  | c :: text =>
    if c = separator then some ([], text)
    else (cutAt? separator text).map fun (before, after) => (c :: before, after)

theorem fields_ne_nil (separator : Char) (text : List Char) : fields separator text ≠ [] := by
  cases text with
  | nil => simp [fields]
  | cons c text =>
    rw [fields]
    split
    · simp
    · split <;> simp

theorem cutAt?_of_not_mem {separator : Char} {text : List Char} (h : separator ∉ text) :
    cutAt? separator text = none := by
  induction text with
  | nil => rfl
  | cons c text ih =>
    rw [List.mem_cons, not_or] at h
    rw [cutAt?, if_neg (Ne.symm h.1), ih h.2, Option.map_none]

/-- A text is cut at the first separator. -/
theorem cutAt?_append {separator : Char} {before after : List Char} (h : separator ∉ before) :
    cutAt? separator (before ++ separator :: after) = some (before, after) := by
  induction before with
  | nil => rw [List.nil_append, cutAt?, if_pos rfl]
  | cons c before ih =>
    rw [List.mem_cons, not_or] at h
    rw [List.cons_append, cutAt?, if_neg (Ne.symm h.1), ih h.2, Option.map_some]

end OpenQasm.Text

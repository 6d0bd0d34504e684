import OpenQasm.Grammar.Production

/-!
# Types

Scalar types with their designators, complex numbers, arrays, qubits, and arrays by reference.
-/

namespace OpenQasm.Grammar

section
variable (inner : Level)

/-- A complex type, perhaps with the type of its components. -/
def complexType : Parser Placed := do
  let start ← currentSpan
  advance
  let component ←
    if ← accept Symbol.leftBracket then
      let component ← inner .scalarType
      let _ ← expect Symbol.rightBracket
      pure (some component)
    else
      pure none
  placeFrom start (.complexType component)

/-- A scalar type with its designator, or a complex type. -/
def scalarType : Parser Placed := do
  let start ← currentSpan
  match (← peek).bind scalarKind? with
  | some scalar =>
    advance
    let designator ← designator inner
    placeFrom start (.scalarType scalar designator)
  | none => if ← sees Keyword.kwComplex then complexType inner else unexpected "type"

/-- The type of the elements of an array, and the comma after it. -/
def elementType : Parser Placed := do
  let _ ← expect Symbol.leftBracket
  let element ← scalarType inner
  let _ ← expect Symbol.comma
  return element

def arrayType : Parser Placed := do
  let start ← currentSpan
  advance
  let element ← elementType inner
  let dims ← expressions inner Symbol.rightBracket
  if dims.isEmpty then unexpected "array dimension"
  let _ ← expect Symbol.rightBracket
  placeFrom start (.arrayType element dims)

def qubitType : Parser Placed := do
  let start ← currentSpan
  advance
  let size ← designator inner
  placeFrom start (.qubitType size)

/-- A type, the type of qubits included. -/
def type : Parser Placed := do
  match ← peek with
  | some (.keyword .kwComplex) => complexType inner
  | some (.keyword .kwArray) => arrayType inner
  | some (.keyword .kwQubit) => qubitType inner
  | _ => scalarType inner

/-- An array by reference: `readonly array[T, n, m]` or `mutable array[T, #dim = n]`. -/
def arrayRefType : Parser Placed := do
  let start ← currentSpan
  let isMutable ← match ← peek with
    | some (.keyword .kwMutable) => pure true
    | some (.keyword .kwReadonly) => pure false
    | _ => unexpected "`readonly` or `mutable`"
  advance
  let _ ← expect Keyword.kwArray
  let element ← elementType inner
  if ← accept Symbol.hashDim then
    let _ ← expect Symbol.assign
    let rank ← expression inner
    let _ ← expect Symbol.rightBracket
    placeFrom start (.arrayRefType isMutable element [] (some rank))
  else
    let dims ← expressions inner Symbol.rightBracket
    let _ ← expect Symbol.rightBracket
    placeFrom start (.arrayRefType isMutable element dims none)

end

end OpenQasm.Grammar

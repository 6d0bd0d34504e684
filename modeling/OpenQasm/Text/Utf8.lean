import OpenQasm.Text.Bytes

/-!
# Texts and their bytes

A text has a form in bytes, which is UTF-8. Bytes that are no text are refused with the offset at
which the first character that cannot be read begins.
-/

namespace OpenQasm.Text

/-- The bytes of a text. -/
def encode (text : List Char) : List UInt8 := text.flatMap String.utf8EncodeChar

@[simp] theorem encode_nil : encode [] = [] := rfl

@[simp] theorem encode_cons (c : Char) (text : List Char) :
    encode (c :: text) = String.utf8EncodeChar c ++ encode text := List.flatMap_cons

@[simp] theorem encode_append (s t : List Char) : encode (s ++ t) = encode s ++ encode t :=
  List.flatMap_append

@[simp] theorem length_encode (text : List Char) : (encode text).length = width text := by
  induction text with
  | nil => rfl
  | cons c text ih =>
    rw [encode_cons, List.length_append, String.length_utf8EncodeChar, ih, width_cons]

/-- The number of bytes that follow a first byte, and the bits of the code that it carries. -/
def leading? (byte : UInt8) : Option (Nat × Nat) :=
  let n := byte.toNat
  if n < 0x80 then some (0, n)
  else if n / 0x20 = 0x6 then some (1, n % 0x20)
  else if n / 0x10 = 0xE then some (2, n % 0x10)
  else if n / 0x8 = 0x1E then some (3, n % 0x8)
  else none

/-- The least code that is written with so many bytes after the first. -/
def leastCode : Nat → Nat
  | 0 => 0
  | 1 => 0x80
  | 2 => 0x800
  | _ => 0x10000

/-- Read so many bytes that continue a code, and yield the code and the bytes after it. -/
def continued? : Nat → Nat → List UInt8 → Option (Nat × List UInt8)
  | 0, code, bytes => some (code, bytes)
  | _ + 1, _, [] => none
  | n + 1, code, byte :: bytes =>
    if byte.toNat / 0x40 = 2 then continued? n (code * 0x40 + byte.toNat % 0x40) bytes else none

/-- Read one character. Its code must need all of its bytes and must not be a surrogate. -/
def decodeChar? : List UInt8 → Option (Char × List UInt8)
  | [] => none
  | byte :: bytes => do
    let (count, bits) ← leading? byte
    let (code, rest) ← continued? count bits bytes
    if leastCode count ≤ code ∧ code.isValidChar then some (Char.ofNat code, rest) else none

/-- Reading on does not add bytes. -/
theorem length_continued? {n code code' : Nat} {bytes rest : List UInt8}
    (h : continued? n code bytes = some (code', rest)) : rest.length ≤ bytes.length := by
  fun_induction continued? n code bytes with
  | case1 => simp_all
  | case2 => simp at h
  | case3 n code byte bytes _ ih => exact Nat.le_succ_of_le (ih h)
  | case4 => simp at h

/-- A character takes at least one byte. -/
theorem length_decodeChar? {bytes rest : List UInt8} {c : Char}
    (h : decodeChar? bytes = some (c, rest)) : rest.length < bytes.length := by
  cases bytes with
  | nil => simp [decodeChar?] at h
  | cons byte bytes =>
    simp only [decodeChar?, Option.bind_eq_bind, Option.bind_eq_some_iff] at h
    obtain ⟨⟨count, bits⟩, _, ⟨code, rest'⟩, hcont, h⟩ := h
    split at h
    · simp only [Option.some.injEq, Prod.mk.injEq] at h
      obtain ⟨_, rfl⟩ := h
      exact Nat.lt_succ_of_le (length_continued? hcont)
    · simp at h

/-- Read bytes as text. -/
def decode (bytes : List UInt8) : Except Nat (List Char) :=
  if bytes.isEmpty then .ok []
  else
    match _h : decodeChar? bytes with
    | none => .error 0
    | some (c, rest) =>
      match decode rest with
      | .ok text => .ok (c :: text)
      | .error offset => .error (c.utf8Size + offset)
termination_by bytes.length
decreasing_by exact length_decodeChar? ‹_›

end OpenQasm.Text

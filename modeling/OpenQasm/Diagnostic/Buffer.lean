import OpenQasm.Diagnostic.Basic

/-!
# Buffers of diagnostics

A phase collects what it reports in the order of emission. Before diagnostics are shown they are
sorted by location, cleared of repetitions and, if there is a limit, cut down to so many errors.
-/

namespace OpenQasm

/-- Diagnostics in the order of emission. -/
structure Diagnostics where
  items : List Diagnostic := []
deriving DecidableEq, Repr, Inhabited

namespace Diagnostics

def push (buffer : Diagnostics) (diagnostic : Diagnostic) : Diagnostics :=
  ⟨buffer.items ++ [diagnostic]⟩

/-- Push a diagnostic that has nothing but a code, a span and a message. -/
def report (buffer : Diagnostics) (code : Code) (span : Span) (message : String) : Diagnostics :=
  buffer.push { code, span, message }

def append (buffer : Diagnostics) (more : List Diagnostic) : Diagnostics :=
  ⟨buffer.items ++ more⟩

def length (buffer : Diagnostics) : Nat := buffer.items.length

def isEmpty (buffer : Diagnostics) : Bool := buffer.items.isEmpty

def errorCount (buffer : Diagnostics) : Nat := buffer.items.countP Diagnostic.isError

def hasErrors (buffer : Diagnostics) : Bool := buffer.items.any Diagnostic.isError

@[simp] theorem items_push (buffer : Diagnostics) (diagnostic : Diagnostic) :
    (buffer.push diagnostic).items = buffer.items ++ [diagnostic] := rfl

@[simp] theorem items_append (buffer : Diagnostics) (more : List Diagnostic) :
    (buffer.append more).items = buffer.items ++ more := rfl

/-! ## Order and repetitions -/

/-- The list without the members whose identity occurs in `seen` or earlier in the list. -/
def dropRepeated (seen : List (Code × Span × String)) : List Diagnostic → List Diagnostic
  | [] => []
  | diagnostic :: rest =>
    if diagnostic.identity ∈ seen then dropRepeated seen rest
    else diagnostic :: dropRepeated (diagnostic.identity :: seen) rest

/-- Sorted by location, the order of emission kept within one location, and without repetitions:
the earliest of those that say the same stays. -/
def sorted (buffer : Diagnostics) : List Diagnostic :=
  dropRepeated [] (buffer.items.mergeSort fun a b => a.span.before b.span)

/-! ## The limit on errors -/

/-- What is kept under a limit: the diagnostics, the number of errors left out, and the span of the
last error kept. `room` is the number of errors that may still come. -/
structure Kept where
  items : List Diagnostic := []
  dropped : Nat := 0
  lastError : Option Span := none

/-- Keep all that is no error and the first `room` errors. -/
def keep : Nat → List Diagnostic → Kept
  | _, [] => {}
  | room, diagnostic :: rest =>
    if diagnostic.isError then
      match room with
      | 0 =>
        let kept := keep 0 rest
        { kept with dropped := kept.dropped + 1 }
      | room + 1 =>
        let kept := keep room rest
        { kept with
          items := diagnostic :: kept.items
          lastError := kept.lastError.or (some diagnostic.span) }
    else
      let kept := keep room rest
      { kept with items := diagnostic :: kept.items }

/-- The note that stands for the errors left out. -/
def limitNote (limit dropped : Nat) (span : Span) : Diagnostic where
  code := .errorLimitReached
  span := span
  message := s!"error limit of {limit} reached; {dropped} more error(s) not shown"

/-- Sorted, without repetitions and with at most `limit` errors, where 0 sets no limit. If errors
are left out, a note at the last error kept tells how many. -/
def finish (buffer : Diagnostics) (limit : Nat) : List Diagnostic :=
  if limit = 0 then buffer.sorted
  else
    let kept := keep limit buffer.sorted
    match kept.lastError with
    | some span =>
      if 0 < kept.dropped then kept.items ++ [limitNote limit kept.dropped span] else kept.items
    | none => kept.items

end Diagnostics

end OpenQasm

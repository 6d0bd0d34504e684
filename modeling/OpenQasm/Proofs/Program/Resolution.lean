import OpenQasm.Program.Compilation

/-!
# What include statements lead to

The name of an include statement is resolved from the directory of its source, and leads to a source
with the text of the file or of the library that is found. Sources once registered stay as they are,
so this holds of every source from then on.
-/

namespace OpenQasm

namespace SourceMap

/-- The directory of a source that was read from a file. -/
def directory? (sources : SourceMap) (id : SourceId) : Option Path := do
  (← (← sources.get? id).path).parent?

/-- All sources of one registry are in another one. -/
structure Within (sources sources' : SourceMap) : Prop where
  size : sources.size ≤ sources'.size
  get : ∀ id : SourceId, id.index < sources.size → sources'.get? id = sources.get? id

section
variable {sources sources' sources'' : SourceMap} {id : SourceId}

/-- Sources are within themselves. -/
theorem Within.refl (sources : SourceMap) : Within sources sources :=
  ⟨Nat.le_refl _, fun _ _ => rfl⟩

/-- Sources within others are within those that hold them. -/
theorem Within.trans (h : Within sources sources') (h' : Within sources' sources'') :
    Within sources sources'' where
  size := Nat.le_trans h.size h'.size
  get := fun id hid => (h'.get id (Nat.lt_of_lt_of_le hid h.size)).trans (h.get id hid)

/-- The text of a source stays as it is. -/
theorem Within.text (h : Within sources sources') (hid : id.index < sources.size) :
    sources'.text id = sources.text id := by
  rw [SourceMap.text, SourceMap.text, h.get id hid]

/-- So does its directory. -/
theorem Within.directory (h : Within sources sources') (hid : id.index < sources.size) :
    sources'.directory? id = sources.directory? id := by
  rw [directory?, directory?, h.get id hid]

/-- A source has been registered under the next id. -/
structure Adds (sources : SourceMap) (name : String) (path : Option Path) (text : String)
    (id : SourceId) (sources' : SourceMap) : Prop where
  within : Within sources sources'
  size : sources'.size = sources.size + 1
  index : sources.size ≤ maxOffset → id.index = sources.size
  get : sources.size ≤ maxOffset → sources'.get? id = some (.ofText id name path text)

/-- A source that is inserted is added at the end. -/
theorem adds_insert (sources : SourceMap) (name : String) (path : Option Path) (text : String) :
    Adds sources name path text (sources.insert name path text).1
      (sources.insert name path text).2 where
  within :=
    { size := Nat.le_trans (Nat.le_succ _) (Nat.le_of_eq (Array.size_push ..).symm)
      get := fun id hid => (Array.getElem?_push_lt hid).trans (Array.getElem?_eq_getElem hid).symm }
  size := Array.size_push ..
  index := Nat.min_eq_left
  get := fun h => by
    have hindex : (sources.insert name path text).1.index = sources.size := Nat.min_eq_left h
    rw [get?, hindex]
    exact Array.getElem?_push_size

end

end SourceMap

/-- Why a program may not be loaded: there are no settings to load it with, a file cannot be read,
is no text or is too large, or the machine numbers do not suffice for a parse. -/
def CompileError.IsReading : CompileError → Prop
  | .unreadable .. | .notText .. | .tooLarge .. | .settings _ => True
  | .crash failure => failure = .countOverflow ∨ failure = .exponentOverflow

namespace Loading

open SourceMap (Within)

/-! ## Steps that may fail -/

section
variable {ε α β : Type}

/-- A sequence fails where its first step does, and else goes on. -/
theorem run_bind (first : ExceptT ε Id α) (next : α → ExceptT ε Id β) :
    (first >>= next).run = match first.run with
      | .ok value => (next value).run
      | .error failure => .error failure := by
  rw [ExceptT.run_bind]
  cases first.run <;> rfl

/-- If one thing after another comes to a result, so does each of them. -/
theorem exists_of_bind_ok {first : ExceptT ε Id α} {next : α → ExceptT ε Id β} {result : β}
    (h : (first >>= next).run = .ok result) :
    ∃ value, first.run = .ok value ∧ (next value).run = .ok result := by
  rw [run_bind] at h
  cases hresult : first.run with
  | ok value => exact ⟨value, rfl, by rwa [hresult] at h⟩
  | error failure =>
    rw [hresult] at h
    cases h

/-- If one thing after another fails, one of them does. -/
theorem cases_of_bind_error {first : ExceptT ε Id α} {next : α → ExceptT ε Id β} {failure : ε}
    (h : (first >>= next).run = .error failure) :
    first.run = .error failure ∨
      ∃ value, first.run = .ok value ∧ (next value).run = .error failure := by
  rw [run_bind] at h
  cases hresult : first.run with
  | ok value => exact .inr ⟨value, rfl, by rwa [hresult] at h⟩
  | error failure' =>
    rw [hresult] at h
    obtain rfl := Except.error.inj h
    exact .inl rfl

end

/-! ## Resolutions -/

/-- Where the name of an include statement of a source leads. -/
def resolution (disk : Disk Id) (settings : Settings) (sources : SourceMap) (source : SourceId)
    (name : String) : Resolution :=
  Id.run (settings.search.resolve disk (sources.directory? source) name)

/-- What a source yields when it is parsed. -/
def IsParsed (settings : Settings) (sources : SourceMap) (source : SourceId)
    (output : ParseOutput) : Prop :=
  ∃ version, parse source (sources.text source).toList (settings.parseOptions version) = .ok output

/-- The include statements of a source that lead nowhere. -/
def Unresolved (disk : Disk Id) (settings : Settings) (sources : SourceMap) (source : SourceId)
    (tree : Tree) (id : NodeId) : Prop :=
  ∃ name span, id ∈ tree.items ∧ tree.node? id = some ⟨.includeFile name [], span⟩ ∧
    resolution disk settings sources source name = .notFound

/-- A source has the text that a resolution leads to: the one of the built-in library, or the one
read at a path of the file. -/
inductive Leads (disk : Disk Id) (sources : SourceMap) : Resolution → SourceId → Prop
  | file {path origin : Path} {id : SourceId} : origin = path ∨ disk.canonical origin = path →
      (readText disk origin).run = .ok (sources.text id) → Leads disk sources (.file path) id
  | library {library : Library} {id : SourceId} : sources.text id = library.text →
      Leads disk sources (.library library) id

section
variable {disk : Disk Id} {settings : Settings} {directory : Option Path} {name : String}
  {sources sources' : SourceMap} {id : SourceId} {loading after : Loading}

/-- A library is the one of its name. -/
theorem find?_name {library : Library} (h : Library.find? name = some library) :
    Library.find? library.name = some library := by
  have hname : library.name = name := by
    simpa using List.find?_some h
  rw [hname, h]

/-- A name that resolves to a library names that library. -/
theorem find?_of_resolve {search : IncludeSearch} {library : Library}
    (h : Id.run (search.resolve disk directory name) = .library library) :
    Library.find? library.name = some library := by
  unfold IncludeSearch.resolve at h
  split at h
  · cases h
  · dsimp only [bind, Id.run] at h
    split at h
    · cases h
    · split at h
      · next found hfound =>
        cases h
        unfold IncludeSearch.library? at hfound
        split at hfound
        · exact find?_name hfound
        · cases hfound
      · cases h

/-- More sources do not change how a name resolves. -/
theorem resolution_within {source : SourceId} (hw : Within sources sources')
    (hid : source.index < sources.size) :
    resolution disk settings sources' source = resolution disk settings sources source := by
  funext name
  rw [resolution, resolution, hw.directory hid]

/-! ## Failures -/

/-- Bytes that are no text are a failure of reading. -/
theorem isReading_of_textOf {path : Path} {bytes : Except DiskError (List UInt8)}
    {failure : CompileError} (h : textOf path bytes = .error failure) : failure.IsReading := by
  unfold textOf at h
  split at h
  · cases h
    trivial
  · split at h
    · unfold checkSize at h
      dsimp only at h
      split at h
      · cases h
        trivial
      · cases h
    · cases h
      trivial

/-- A text that is not read is not because of its file. -/
theorem isReading_of_readText {path : Path} {failure : CompileError}
    (h : (readText disk path).run = .error failure) : failure.IsReading := by
  rcases cases_of_bind_error h with h | ⟨bytes, -, h⟩
  · cases h
  · exact isReading_of_textOf h

end

end Loading

end OpenQasm

import Mathlib.Data.List.Nodup
import Mathlib.Data.List.Perm.Subperm
import OpenQasm.Proofs.Program.Resolution

/-!
# Where sources stem from

Every source stems from a file or from a built-in library, and no two sources from the same one. A
file is known by its canonical path; only the entry may have been asked for by another one. As the
tables of the sources know all that there is, a new origin is met at most once, so there are no more
sources than files and libraries.
-/

namespace OpenQasm

/-- A disk with finitely many files: their canonical paths are listed. -/
def Disk.Lists (disk : Disk Id) (files : List Path) : Prop :=
  ∀ name, Id.run (disk.isFile name) = true → Id.run (disk.canonical name) ∈ files

namespace Loading

open SourceMap (Within)

/-! ## Registries -/

/-- A source holds what stands where it stems from. The first source is the entry. -/
inductive Holds (disk : Disk Id) (path : Path) (sources : SourceMap) (id : SourceId) :
    Resolution → Prop
  | entry {text : String} : id.index = 0 → (readText disk path).run = .ok text →
      sources.get? id = some (.ofText id path.text (some path) text) →
      Holds disk path sources id (.file (Id.run (disk.canonical path)))
  | file {file : Path} {text : String} : id.index ≠ 0 → (readText disk file).run = .ok text →
      sources.get? id = some (.ofText id file.text (some file) text) →
      Holds disk path sources id (.file file)
  | library {library : Library} : id.index ≠ 0 → Library.find? library.name = some library →
      sources.get? id = some (.ofText id s!"<builtin>/{library.name}" none library.text) →
      Holds disk path sources id (.library library)

/-- The sources of a registry stem from different files and libraries, the first one from the entry.
-/
structure Origins (disk : Disk Id) (path : Path) (sources : SourceMap) (origins : List Resolution) :
    Prop where
  size : origins.length = sources.size
  nodup : origins.Nodup
  entry : origins[0]? = some (.file (Id.run (disk.canonical path)))
  holds : ∀ (id : SourceId) origin, origins[id.index]? = some origin →
    Holds disk path sources id origin

/-- The tables know each source by its origin. -/
structure Registers (disk : Disk Id) (path : Path) (loading : Loading) (origins : List Resolution) :
    Prop extends Origins disk path loading.sources origins where
  byPath : ∀ file id, loading.byPath.lookup file = some id ↔
    origins[id.index]? = some (.file file)
  byLibrary : ∀ library id, Library.find? library.name = some library →
    (loading.byLibrary.lookup library.name = some id ↔
      origins[id.index]? = some (.library library))

section
variable {disk : Disk Id} {path : Path} {sources sources' : SourceMap} {id : SourceId}
  {origin : Resolution} {origins : List Resolution} {loading after : Loading}

/-- A source keeps its origin when others are registered. -/
theorem Holds.within (h : Holds disk path sources id origin) (hw : Within sources sources')
    (hid : id.index < sources.size) : Holds disk path sources' id origin := by
  cases h with
  | entry hzero hread hget => exact .entry hzero hread ((hw.get id hid).trans hget)
  | file hne hread hget => exact .file hne hread ((hw.get id hid).trans hget)
  | library hne hfind hget => exact .library hne hfind ((hw.get id hid).trans hget)

/-- A source has the text to which its origin leads. -/
theorem Holds.leads (h : Holds disk path sources id origin) : Leads disk sources origin id := by
  have htext : ∀ {file : SourceFile}, sources.get? id = some file →
      sources.text id = file.text := fun hget => by rw [SourceMap.text, hget]
  cases h with
  | entry _ hread hget => exact .file (.inr rfl) (htext hget ▸ hread)
  | file _ hread hget => exact .file (.inl rfl) (htext hget ▸ hread)
  | library _ _ hget => exact .library (htext hget)

/-- The last item of a list is found at its end. -/
theorem getElem?_concat_iff {α : Type} {items : List α} {last item : α} {index : Nat} :
    (items ++ [last])[index]? = some item ↔
      items[index]? = some item ∨ (index = items.length ∧ last = item) := by
  by_cases hlt : index < items.length
  · rw [List.getElem?_append_left hlt, or_iff_left fun h => Nat.ne_of_lt hlt h.1]
  · have hnone : items[index]? = none := List.getElem?_eq_none (Nat.le_of_not_lt hlt)
    rw [List.getElem?_append_right (Nat.le_of_not_lt hlt), hnone, List.getElem?_singleton]
    constructor
    · intro h
      split at h
      · next hsub => exact .inr ⟨by omega, Option.some.inj h⟩
      · cases h
    · rintro (h | ⟨rfl, rfl⟩)
      · cases h
      · rw [Nat.sub_self, if_pos rfl]

/-- The only item of a list is found at its start. -/
theorem getElem?_singleton_iff {α : Type} {last item : α} {index : Nat} :
    [last][index]? = some item ↔ index = 0 ∧ last = item := by
  rw [← List.nil_append [last], getElem?_concat_iff]
  exact or_iff_right nofun

/-- An origin is that of a registered source. -/
theorem Origins.index_lt (h : Origins disk path sources origins)
    (ho : origins[id.index]? = some origin) : id.index < sources.size :=
  h.size ▸ (List.getElem?_eq_some_iff.1 ho).1

/-- The entry has the text at the path that was asked for. -/
theorem Origins.entry_text (h : Origins disk path sources origins) :
    (readText disk path).run = .ok (sources.text ⟨0⟩) := by
  cases h.holds ⟨0⟩ _ h.entry with
  | entry _ hread hget =>
    rw [SourceMap.text, hget]
    exact hread
  | file hne => exact absurd rfl hne

/-- A text that can be read is not too long for its offsets. -/
theorem width_of_readText {file : Path} {text : String}
    (h : (readText disk file).run = .ok text) : Text.width text.toList ≤ maxOffset := by
  obtain ⟨bytes, -, h⟩ := exists_of_bind_ok h
  have h : textOf file bytes = .ok text := h
  unfold textOf at h
  split at h
  · cases h
  · split at h
    · unfold checkSize at h
      dsimp only at h
      split at h
      · cases h
      · next hle =>
        cases h
        exact Nat.le_of_not_lt hle
    · cases h

/-- A text has four bytes for each character at most. -/
theorem width_le (text : List Char) : Text.width text ≤ 4 * text.length := by
  induction text with
  | nil => exact Nat.zero_le _
  | cons c text ih =>
    rw [Text.width_cons, List.length_cons, Nat.mul_succ, Nat.add_comm]
    exact Nat.add_le_add ih c.utf8Size_le_four

/-- So a short one is not too long either. -/
theorem width_le_of_drop {text : String}
    (h : ∃ chars, text = String.ofList chars ∧ (chars.drop 4096).isEmpty) :
    Text.width text.toList ≤ maxOffset := by
  obtain ⟨chars, rfl, hempty⟩ := h
  have hlength : chars.length ≤ 4096 := List.drop_eq_nil_iff.1 (List.isEmpty_iff.1 hempty)
  have hmax : 4 * 4096 ≤ maxOffset := by decide
  rw [String.toList_ofList]
  exact Nat.le_trans (width_le chars) (Nat.le_trans (Nat.mul_le_mul_left 4 hlength) hmax)

set_option maxRecDepth 20000 in
-- Only dropping runs over a literal of this length without recursion in depth.
/-- Nor is any text of the library. -/
theorem width_library {library : Library} (h : Library.find? library.name = some library) :
    Text.width library.text.toList ≤ maxOffset := by
  have hmem : library ∈ [Library.stdgates, Library.qelib1] := List.mem_of_find?_eq_some h
  rcases List.mem_pair.1 hmem with rfl | rfl
  · exact width_le_of_drop ⟨_, rfl, by decide +kernel⟩
  · exact width_le_of_drop ⟨_, rfl, by decide +kernel⟩

/-- Offsets can count the bytes of every source. -/
theorem Origins.width_text (h : Origins disk path sources origins)
    (hlt : id.index < sources.size) : Text.width (sources.text id).toList ≤ maxOffset := by
  have htext : ∀ {file : SourceFile}, sources.get? id = some file →
      sources.text id = file.text := fun hget => by rw [SourceMap.text, hget]
  obtain ⟨origin, ho⟩ : ∃ origin, origins[id.index]? = some origin :=
    ⟨_, List.getElem?_eq_getElem (h.size ▸ hlt)⟩
  cases h.holds id origin ho with
  | entry _ hread hget => exact htext hget ▸ width_of_readText hread
  | file _ hread hget => exact htext hget ▸ width_of_readText hread
  | library _ hfind hget => exact htext hget ▸ width_library hfind

/-- No source stems from nowhere. -/
theorem Origins.ne_notFound (h : Origins disk path sources origins) (hm : origin ∈ origins) :
    origin ≠ .notFound := by
  rintro rfl
  obtain ⟨index, ho⟩ := List.mem_iff_getElem?.1 hm
  cases h.holds ⟨index⟩ _ ho

/-- Two sources with one origin are the same. -/
theorem Origins.index_inj (h : Origins disk path sources origins) {index index' : Nat}
    (ho : origins[index]? = some origin) (ho' : origins[index']? = some origin) :
    index = index' := by
  have hlt := (List.getElem?_eq_some_iff.1 ho).1
  exact (List.getElem?_inj hlt h.nodup).1 (ho.trans ho'.symm)

/-- One source more, with an origin of its own. -/
theorem Origins.push (h : Origins disk path sources origins) (hw : Within sources sources')
    (hsize : sources'.size = sources.size + 1) (hnew : origin ∉ origins)
    (hholds : Holds disk path sources' ⟨origins.length⟩ origin) :
    Origins disk path sources' (origins ++ [origin]) where
  size := by rw [List.length_append, List.length_singleton, h.size, hsize]
  nodup := List.nodup_append.2 ⟨h.nodup, List.nodup_singleton _, fun a ha b hb heq =>
    hnew (List.mem_singleton.1 hb ▸ heq ▸ ha)⟩
  entry := getElem?_concat_iff.2 (.inl h.entry)
  holds id other ho := by
    rcases getElem?_concat_iff.1 ho with ho | ⟨hindex, rfl⟩
    · exact (h.holds id other ho).within hw (h.index_lt ho)
    · rwa [show id = ⟨origins.length⟩ from congrArg SourceId.mk hindex]

/-- A key more in a table, for a source that is not there yet. -/
theorem lookup_cons_iff {κ : Type} [BEq κ] [LawfulBEq κ] {key key' : κ} {id' : SourceId}
    {table : List (κ × SourceId)} (hnone : table.lookup key = none) :
    ((key, id) :: table).lookup key' = some id' ↔
      table.lookup key' = some id' ∨ (id' = id ∧ key = key') := by
  rw [List.lookup_cons]
  split
  · next heq =>
    obtain rfl := eq_of_beq heq
    rw [hnone]
    exact ⟨fun h => .inr ⟨(Option.some.inj h).symm, rfl⟩, fun h => h.elim nofun fun h => h.1 ▸ rfl⟩
  · next hne =>
    refine ⟨.inl, fun h => h.resolve_right fun heq => ?_⟩
    rw [heq.2, beq_self_eq_true] at hne
    cases hne

/-! ## Registering -/

/-- The entry is registered from the start. -/
theorem Origins.length_pos (h : Origins disk path sources origins) : 0 < origins.length :=
  (List.getElem?_eq_some_iff.1 h.entry).1

/-- The next source gets the next id. -/
theorem Origins.next {name text : String} {file : Option Path}
    (h : Origins disk path sources origins)
    (hadds : SourceMap.Adds sources name file text id sources') (hb : sources.size ≤ maxOffset) :
    id = ⟨origins.length⟩ :=
  congrArg SourceId.mk ((hadds.index hb).trans h.size.symm)

/-- A file that is new is registered by its canonical path. -/
theorem Registers.addFile {file : Path} {text : String} (h : Registers disk path loading origins)
    (hb : loading.sources.size ≤ maxOffset) (hnone : loading.byPath.lookup file = none)
    (hread : (readText disk file).run = .ok text) :
    Registers disk path (loading.addFile file file text).2 (origins ++ [.file file]) := by
  have hadds := loading.sources.adds_insert file.text (some file) text
  have hid : (loading.addFile file file text).1 = ⟨origins.length⟩ := h.next hadds hb
  have hnew : .file file ∉ origins := fun hm => by
    obtain ⟨index, ho⟩ := List.mem_iff_getElem?.1 hm
    rw [(h.byPath file ⟨index⟩).2 ho] at hnone
    cases hnone
  have hholds : Holds disk path (loading.addFile file file text).2.sources ⟨origins.length⟩
      (.file file) := .file (Nat.ne_of_gt h.length_pos) hread (hid ▸ hadds.get hb)
  exact
    { h.push hadds.within hadds.size hnew hholds with
      byPath := fun other id => by
        have hcons : (loading.addFile file file text).2.byPath.lookup other = some id ↔
            loading.byPath.lookup other = some id ∨
              (id = (loading.addFile file file text).1 ∧ file = other) := lookup_cons_iff hnone
        rw [hcons, hid, h.byPath, getElem?_concat_iff, Resolution.file.injEq]
        exact or_congr_right (and_congr_left' ⟨congrArg SourceId.index, congrArg SourceId.mk⟩)
      byLibrary := fun library id hfind => by
        rw [getElem?_concat_iff, or_iff_left fun hc => nomatch hc.2]
        exact h.byLibrary library id hfind }

/-- A library that is new is registered by its name. -/
theorem Registers.addLibrary {library : Library} (h : Registers disk path loading origins)
    (hb : loading.sources.size ≤ maxOffset)
    (hnone : loading.byLibrary.lookup library.name = none)
    (hfind : Library.find? library.name = some library) :
    Registers disk path (loading.addLibrary library).2 (origins ++ [.library library]) := by
  have hadds := loading.sources.adds_insert s!"<builtin>/{library.name}" none library.text
  have hid : (loading.addLibrary library).1 = ⟨origins.length⟩ := h.next hadds hb
  have hnew : .library library ∉ origins := fun hm => by
    obtain ⟨index, ho⟩ := List.mem_iff_getElem?.1 hm
    rw [(h.byLibrary library ⟨index⟩ hfind).2 ho] at hnone
    cases hnone
  have hholds : Holds disk path (loading.addLibrary library).2.sources ⟨origins.length⟩
      (.library library) := .library (Nat.ne_of_gt h.length_pos) hfind (hid ▸ hadds.get hb)
  exact
    { h.push hadds.within hadds.size hnew hholds with
      byPath := fun file id => by
        rw [getElem?_concat_iff, or_iff_left fun hc => nomatch hc.2]
        exact h.byPath file id
      byLibrary := fun other id hother => by
        have hcons : (loading.addLibrary library).2.byLibrary.lookup other.name = some id ↔
            loading.byLibrary.lookup other.name = some id ∨
              (id = (loading.addLibrary library).1 ∧ library.name = other.name) :=
          lookup_cons_iff hnone
        rw [hcons, hid, h.byLibrary other id hother, getElem?_concat_iff,
          Resolution.library.injEq]
        have hname : library.name = other.name ↔ library = other :=
          ⟨fun heq => Option.some.inj (hfind.symm.trans (heq ▸ hother)), congrArg Library.name⟩
        rw [hname]
        exact or_congr_right (and_congr_left' ⟨congrArg SourceId.index, congrArg SourceId.mk⟩) }

/-- What opening an include comes to: nothing, a source that is registered, or a new one. -/
inductive Opens (disk : Disk Id) (path : Path) (before : Loading) (origins : List Resolution)
    (resolution : Resolution) : Option (SourceId × Bool) × Loading → Prop
  | nowhere : resolution = .notFound → Opens disk path before origins resolution (none, before)
  | registered {id : SourceId} : origins[id.index]? = some resolution →
      Opens disk path before origins resolution (some (id, false), before)
  | new {after : Loading} : resolution ≠ .notFound →
      Registers disk path after (origins ++ [resolution]) →
      Within before.sources after.sources → after.trees = before.trees →
      after.graph = before.graph → after.diagnostics = before.diagnostics →
      Opens disk path before origins resolution (some (⟨origins.length⟩, true), after)

/-- Opening an include leads to the source that it names. -/
theorem open?_opens {settings : Settings} {directory : Option Path} {name : String}
    {result : Option (SourceId × Bool) × Loading}
    (h : (open? disk settings directory name loading).run = .ok result)
    (hr : Registers disk path loading origins) (hb : result.2.sources.size ≤ maxOffset + 1) :
    Opens disk path loading origins (Id.run (settings.search.resolve disk directory name))
      result := by
  unfold open? at h
  obtain ⟨resolution, hresolve, h⟩ := exists_of_bind_ok h
  obtain rfl : Id.run (settings.search.resolve disk directory name) = resolution :=
    Except.ok.inj hresolve
  cases hfound : Id.run (settings.search.resolve disk directory name) with
  | notFound =>
    rw [hfound] at h
    obtain rfl := Except.ok.inj h
    exact .nowhere rfl
  | file file =>
    rw [hfound] at h
    dsimp only at h
    split at h
    · next id hid =>
      obtain rfl := Except.ok.inj h
      exact .registered ((hr.byPath file id).1 hid)
    · next hnone =>
      obtain ⟨text, hread, h⟩ := exists_of_bind_ok h
      obtain rfl := Except.ok.inj h
      have hadds := loading.sources.adds_insert file.text (some file) text
      have hb := Nat.le_of_succ_le_succ (Nat.le_trans (Nat.le_of_eq hadds.size.symm) hb)
      rw [show (loading.addFile file file text).1 = ⟨origins.length⟩ from hr.next hadds hb]
      exact .new nofun (hr.addFile hb hnone hread) hadds.within rfl rfl rfl
  | library library =>
    rw [hfound] at h
    dsimp only at h
    have hfind := find?_of_resolve hfound
    split at h
    · next id hid =>
      obtain rfl := Except.ok.inj h
      exact .registered ((hr.byLibrary library id hfind).1 hid)
    · next hnone =>
      obtain rfl := Except.ok.inj h
      have hadds := loading.sources.adds_insert s!"<builtin>/{library.name}" none library.text
      have hb := Nat.le_of_succ_le_succ (Nat.le_trans (Nat.le_of_eq hadds.size.symm) hb)
      rw [show (loading.addLibrary library).1 = ⟨origins.length⟩ from hr.next hadds hb]
      exact .new nofun (hr.addLibrary hb hnone hfind) hadds.within rfl rfl rfl

end

/-! ## How many there are -/

/-- Each source has an entry of its own in a table: a canonical path or the name of a library. -/
structure Tabled (disk : Disk Id) (path : Path) (loading : Loading) : Prop where
  size : loading.sources.size = loading.byPath.length + loading.byLibrary.length
  paths : (loading.byPath.map Prod.fst).Nodup
  libraries : (loading.byLibrary.map Prod.fst).Nodup
  canonical : ∀ file ∈ loading.byPath.map Prod.fst, file = Id.run (disk.canonical path) ∨
    ∃ name, Id.run (disk.isFile name) = true ∧ Id.run (disk.canonical name) = file
  known : loading.byLibrary.map Prod.fst ⊆ Library.all.map Library.name

/-- What is registered stays, and tables stay tables. -/
structure Grows (disk : Disk Id) (path : Path) (before after : Loading) : Prop where
  within : Within before.sources after.sources
  tabled : Tabled disk path before → Tabled disk path after

section
variable {disk : Disk Id} {settings : Settings} {path : Path} {directory : Option Path}
  {name : String} {loading before middle after : Loading}

/-- Nothing is opened, nothing grows. -/
theorem Grows.refl (disk : Disk Id) (path : Path) (loading : Loading) :
    Grows disk path loading loading := ⟨.refl _, id⟩

/-- Two growths are one. -/
theorem Grows.trans (h : Grows disk path before middle) (h' : Grows disk path middle after) :
    Grows disk path before after :=
  ⟨h.within.trans h'.within, fun ht => h'.tabled (h.tabled ht)⟩

/-- Trees, edges and reports do not matter. -/
theorem Grows.of_eq (hs : after.sources = before.sources) (hp : after.byPath = before.byPath)
    (hl : after.byLibrary = before.byLibrary) : Grows disk path before after where
  within := hs ▸ .refl _
  tabled h := ⟨by rw [hs, hp, hl]; exact h.size, hp ▸ h.paths, hl ▸ h.libraries,
    hp ▸ h.canonical, hl ▸ h.known⟩

/-- The file that the search finds is there. -/
theorem isFile_of_firstFile? {paths : List Path} {found : Path}
    (h : Id.run (IncludeSearch.firstFile? disk paths) = some found) :
    Id.run (disk.isFile found) = true := by
  induction paths with
  | nil => cases h
  | cons path paths ih =>
    rw [IncludeSearch.firstFile?] at h
    dsimp only [bind, Id.run] at h
    split at h
    · next hfile =>
      cases h
      exact hfile
    · exact ih h

/-- A file to which a name leads is the canonical path of a file. -/
theorem exists_of_resolve_file {search : IncludeSearch} {file : Path}
    (h : Id.run (search.resolve disk directory name) = .file file) :
    ∃ found, Id.run (disk.isFile found) = true ∧ Id.run (disk.canonical found) = file := by
  unfold IncludeSearch.resolve at h
  split at h
  · cases h
  · dsimp only [bind, Id.run] at h
    split at h
    · next found hfound =>
      cases h
      exact ⟨found, isFile_of_firstFile? hfound, rfl⟩
    · split at h <;> cases h

/-- A key that is not found is not in the table. -/
theorem not_mem_keys {κ : Type} [BEq κ] [LawfulBEq κ] {key : κ} {table : List (κ × SourceId)}
    (h : table.lookup key = none) : key ∉ table.map Prod.fst := by
  intro hm
  obtain ⟨entry, he, rfl⟩ := List.mem_map.1 hm
  have hne := List.lookup_eq_none_iff.1 h entry he
  rw [bne_self_eq_false] at hne
  cases hne

/-- Opening an include registers sources and drops none. -/
theorem open?_grows {result : Option (SourceId × Bool) × Loading}
    (h : (open? disk settings directory name loading).run = .ok result) :
    Grows disk path loading result.2 := by
  unfold open? at h
  obtain ⟨resolution, hresolve, h⟩ := exists_of_bind_ok h
  obtain rfl : Id.run (settings.search.resolve disk directory name) = resolution :=
    Except.ok.inj hresolve
  cases hfound : Id.run (settings.search.resolve disk directory name) with
  | notFound =>
    rw [hfound] at h
    obtain rfl := Except.ok.inj h
    exact .refl ..
  | file file =>
    rw [hfound] at h
    dsimp only at h
    split at h
    · obtain rfl := Except.ok.inj h
      exact .refl ..
    · next hnone =>
      obtain ⟨text, -, h⟩ := exists_of_bind_ok h
      obtain rfl := Except.ok.inj h
      have hadds := loading.sources.adds_insert file.text (some file) text
      refine ⟨hadds.within, fun ht => ⟨?_, ?_, ht.libraries, ?_, ht.known⟩⟩
      · exact hadds.size.trans (by rw [ht.size]; simp only [addFile, List.length_cons]; omega)
      · exact List.nodup_cons.2 ⟨not_mem_keys hnone, ht.paths⟩
      · intro other ho
        rcases List.mem_cons.1 ho with rfl | ho
        · exact .inr (exists_of_resolve_file hfound)
        · exact ht.canonical other ho
  | library library =>
    rw [hfound] at h
    dsimp only at h
    split at h
    · obtain rfl := Except.ok.inj h
      exact .refl ..
    · next hnone =>
      obtain rfl := Except.ok.inj h
      have hadds := loading.sources.adds_insert s!"<builtin>/{library.name}" none library.text
      refine ⟨hadds.within, fun ht => ⟨?_, ht.paths, ?_, ht.canonical, ?_⟩⟩
      · exact hadds.size.trans (by
          rw [ht.size]
          simp only [addLibrary, addText, List.length_cons]
          omega)
      · exact List.nodup_cons.2 ⟨not_mem_keys hnone, ht.libraries⟩
      · have hmem := List.mem_of_find?_eq_some (find?_of_resolve hfound)
        exact List.cons_subset.2 ⟨List.mem_map_of_mem hmem, ht.known⟩

/-- There are no more sources than files and libraries, and the entry. -/
theorem Tabled.size_le (h : Tabled disk path loading) {files : List Path}
    (hfiles : disk.Lists files) :
    loading.sources.size ≤ files.length + 1 + Library.all.length := by
  have hpaths : loading.byPath.map Prod.fst ⊆ Id.run (disk.canonical path) :: files := by
    intro file hm
    rcases h.canonical file hm with rfl | ⟨name, hname, rfl⟩
    · exact List.mem_cons_self
    · exact List.mem_cons_of_mem _ (hfiles name hname)
  have hle := (List.subperm_of_subset h.paths hpaths).length_le
  have hle' := (List.subperm_of_subset h.libraries h.known).length_le
  simp only [List.length_map, List.length_cons] at hle hle'
  rw [h.size]
  exact Nat.add_le_add hle hle'

end

end Loading

end OpenQasm

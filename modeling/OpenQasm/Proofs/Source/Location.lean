import Mathlib.Algebra.Group.Nat.Defs
import Mathlib.Data.List.DropRight
import Mathlib.Data.Prod.Lex
import OpenQasm.Proofs.Text.Boundary
import OpenQasm.Source.File

/-!
# Lines and columns

The table of a source has the start of the text and the offset behind each newline, in the order of
the text. The last entry that is not greater than an offset is where the line of the offset begins,
its index is the number of newlines before the offset, and there is no newline between the two. The
search finds that entry as soon as the first one is not greater than the offset, whatever else is in
the table, so that every offset has a line and a column, also inside a character. At boundaries they
grow with the offset (`SourceFile.lineColumn_exact`).
-/

namespace OpenQasm

/-! ## Newlines among bytes -/

section
variable {offset start : Nat} {bytes : List UInt8}

/-- The byte of a newline is in the form of no other character. -/
theorem Text.newline_notMem_utf8EncodeChar {c : Char} (hc : c ≠ '\n') :
    '\n'.toUInt8 ∉ String.utf8EncodeChar c := by
  have hcode : c.val.toNat ≠ 10 := fun h => hc (Char.ext (UInt32.toNat_inj.1 h))
  have hnewline : '\n'.toUInt8.toNat = 10 := rfl
  rw [String.utf8EncodeChar]
  intro hm
  -- One case for each number of bytes: all bytes of a longer form are beyond ASCII.
  split at hm <;> try split at hm <;> try split at hm
  all_goals
    simp only [List.mem_cons, List.not_mem_nil, or_false, ← UInt8.toNat_inj, hnewline,
      UInt8.toNat_ofNat'] at hm
    omega

/-- Lines start in one part of a text or in the other. -/
theorem lineStartsAfter_append (offset : Nat) (bytes more : List UInt8) :
    lineStartsAfter offset (bytes ++ more) =
      lineStartsAfter offset bytes ++ lineStartsAfter (offset + bytes.length) more := by
  induction bytes generalizing offset with
  | nil => rfl
  | cons byte bytes ih =>
    have hoffset : offset + 1 + bytes.length = offset + (byte :: bytes).length := by
      rw [List.length_cons]
      omega
    rw [List.cons_append, lineStartsAfter, lineStartsAfter, ih, hoffset]
    split <;> rfl

/-- Without a line break no line starts. -/
theorem lineStartsAfter_of_notMem (h : '\n'.toUInt8 ∉ bytes) :
    lineStartsAfter offset bytes = [] := by
  induction bytes generalizing offset with
  | nil => rfl
  | cons byte bytes ih =>
    rw [List.mem_cons, not_or] at h
    rw [lineStartsAfter, if_neg (Ne.symm h.1), ih h.2]

/-- A line begins behind a newline, and behind no other character. -/
theorem lineStartsAfter_utf8EncodeChar (offset : Nat) (c : Char) :
    lineStartsAfter offset (String.utf8EncodeChar c) =
      if c = '\n' then [min (offset + 1) maxOffset] else [] := by
  split
  · next hc =>
    subst hc
    rfl
  · next hc => exact lineStartsAfter_of_notMem (Text.newline_notMem_utf8EncodeChar hc)

/-- Lines begin behind the offset of the first byte, up to the offset behind the last one. -/
theorem bounds_of_mem_lineStartsAfter (hw : offset + bytes.length ≤ maxOffset)
    (h : start ∈ lineStartsAfter offset bytes) :
    offset < start ∧ start ≤ offset + bytes.length := by
  induction bytes generalizing offset with
  | nil => cases h
  | cons byte bytes ih =>
    rw [List.length_cons] at hw ⊢
    have hrest (hm : start ∈ lineStartsAfter (offset + 1) bytes) :
        offset < start ∧ start ≤ offset + (bytes.length + 1) := by
      have := ih (by omega) hm
      omega
    rw [lineStartsAfter] at h
    split at h
    · rcases List.mem_cons.1 h with rfl | hm
      · omega
      · exact hrest hm
    · exact hrest h

/-- A line starts behind each line break. -/
theorem length_lineStartsAfter_encode (offset : Nat) (text : List Char) :
    (lineStartsAfter offset (Text.encode text)).length = text.count '\n' := by
  induction text generalizing offset with
  | nil => rfl
  | cons c text ih =>
    rw [Text.encode_cons, lineStartsAfter_append, lineStartsAfter_utf8EncodeChar,
      List.length_append, ih, List.count_cons]
    by_cases hc : c = '\n' <;> simp [hc, Nat.add_comm]

end

/-! ## Searching a table -/

section
variable {table : Array Nat} {value low high first : Nat}

/-- Halving ends at an entry that is not greater than the value, and the next one is. -/
theorem lastAtMost_spec (hlow : low < high) (hhigh : high ≤ table.size)
    (hle : table.getD low 0 ≤ value) (hlt : high < table.size → value < table.getD high 0) :
    lastAtMost table value low high < high ∧
      table.getD (lastAtMost table value low high) 0 ≤ value ∧
      (lastAtMost table value low high + 1 < table.size →
        value < table.getD (lastAtMost table value low high + 1) 0) := by
  fun_induction lastAtMost table value low high with
  | case1 low high hroom middle hmiddle ih => exact ih (by omega) hhigh hmiddle hlt
  | case2 low high hroom middle hmiddle ih =>
    obtain ⟨hbelow, hspec⟩ := ih (by omega) (by omega) hle fun _ => Nat.lt_of_not_le hmiddle
    exact ⟨by omega, hspec⟩
  | case3 low high hroom =>
    have hnext : high = low + 1 := by omega
    exact ⟨hlow, hle, hnext ▸ hlt⟩

/-- If the first entry is not greater than the value, the search finds an entry that is not, either,
and the one behind it is greater. -/
theorem exists_search (table : Array Nat) (value : Nat) (hfirst : table[0]? = some first)
    (hle : first ≤ value) :
    ∃ line start, (search table value).atMost? = some line ∧ table[line]? = some start ∧
      start ≤ value ∧ ∀ next, table[line + 1]? = some next → value < next := by
  obtain ⟨hsize, hget⟩ := Array.getElem?_eq_some_iff.1 hfirst
  have hgetD {i entry : Nat} (h : table[i]? = some entry) : table.getD i 0 = entry := by
    rw [Array.getD_eq_getD_getElem?, h, Option.getD_some]
  obtain ⟨hlast, hbelow, habove⟩ := lastAtMost_spec hsize (Nat.le_refl _)
    ((hgetD hfirst).symm ▸ hle) fun h => absurd h (Nat.lt_irrefl _)
  have hstart := Array.getElem?_eq_getElem hlast
  rw [hgetD hstart] at hbelow
  refine ⟨_, _, ?_, hstart, hbelow, fun next hnext => ?_⟩
  -- Found or missing, the search ends behind the start of the table.
  · rw [search, hstart]
    dsimp only
    split
    · rfl
    · rfl
    · next hgt => exact absurd hbelow (Nat.not_le.2 (Nat.compare_eq_gt.1 hgt))
  · exact hgetD hnext ▸ habove (Array.getElem?_eq_some_iff.1 hnext).1

/-- The search tells the entries that are not greater than the value from those behind them. -/
theorem search_append {front back : List Nat} (hfront : ∀ entry ∈ first :: front, entry ≤ value)
    (hback : ∀ entry ∈ back, value < entry) :
    (search ((first :: front) ++ back).toArray value).atMost? = some front.length := by
  obtain ⟨line, start, hsearch, hstart, hle, hnext⟩ :=
    exists_search ((first :: front) ++ back).toArray value rfl (hfront first List.mem_cons_self)
  rw [List.getElem?_toArray] at hstart hnext
  rcases Nat.lt_trichotomy line front.length with hlt | rfl | hgt
  · have hget : ((first :: front) ++ back)[line + 1]? = some front[line] := by
      rw [List.getElem?_append_left (Nat.succ_lt_succ hlt), List.getElem?_cons_succ,
        List.getElem?_eq_getElem hlt]
    have := hnext _ hget
    have := hfront _ (List.mem_cons_of_mem _ (List.getElem_mem hlt))
    omega
  · exact hsearch
  · rw [List.getElem?_append_right hgt] at hstart
    have := hback _ (List.mem_of_getElem? hstart)
    omega

end

/-! ## The lines of a text -/

namespace Text

section
variable {front back text middle : List Char}

/-- The offsets at which the lines of a text begin. -/
def lineStarts (text : List Char) : List Nat := 0 :: lineStartsAfter 0 (encode text)

/-- Lines start in the front of a text or behind it. -/
theorem lineStarts_append (front back : List Char) : lineStarts (front ++ back) =
    lineStarts front ++ lineStartsAfter (width front) (encode back) := by
  rw [lineStarts, encode_append, lineStartsAfter_append, length_encode, Nat.zero_add]
  rfl

/-- There is one line more than there are line breaks. -/
theorem length_lineStarts (text : List Char) : (lineStarts text).length = text.count '\n' + 1 :=
  congrArg (· + 1) (length_lineStartsAfter_encode 0 text)

/-- The line of a boundary has as many lines before it as there are newlines. -/
theorem search_lineStarts (hw : width (front ++ back) ≤ maxOffset) :
    (search (lineStarts (front ++ back)).toArray (width front)).atMost? =
      some (front.count '\n') := by
  rw [width_append] at hw
  rw [lineStarts_append, lineStarts, ← length_lineStartsAfter_encode 0 front]
  refine search_append (fun entry he => ?_) fun entry he => ?_
  · rcases List.mem_cons.1 he with rfl | he
    · exact Nat.zero_le _
    · have hbounds := bounds_of_mem_lineStartsAfter (by rw [length_encode]; omega) he
      rw [length_encode, Nat.zero_add] at hbounds
      exact hbounds.2
  · exact (bounds_of_mem_lineStartsAfter (by rwa [length_encode]) he).1

/-- The last line of a text begins behind its last newline. -/
theorem getLast?_lineStarts (hw : width text ≤ maxOffset) :
    (lineStarts text).getLast? = some (width (text.rdropWhile (· ≠ '\n'))) := by
  induction text using List.reverseRecOn with
  | nil => rfl
  | append_singleton text c ih =>
    rw [width_append] at hw
    have hstarts : lineStarts (text ++ [c]) =
        lineStarts text ++ if c = '\n' then [min (width text + 1) maxOffset] else [] := by
      rw [lineStarts_append, encode_cons, encode_nil, List.append_nil,
        lineStartsAfter_utf8EncodeChar]
    rw [hstarts]
    by_cases hc : c = '\n'
    · subst hc
      have hnewline : width ['\n'] = 1 := rfl
      rw [if_pos rfl, List.getLast?_concat, List.rdropWhile_concat_neg _ _ _ (by simp),
        width_append, hnewline, Nat.min_eq_left (hnewline ▸ hw)]
    · rw [if_neg hc, List.append_nil, List.rdropWhile_concat_pos _ _ _ (by simp [hc]),
        ih (by omega)]

/-- The line of a boundary begins behind the last newline before it. -/
theorem getElem?_lineStarts (hw : width (front ++ back) ≤ maxOffset) :
    (lineStarts (front ++ back)).toArray[front.count '\n']? =
      some (width (front.rdropWhile (· ≠ '\n'))) := by
  have hlength := length_lineStarts front
  rw [width_append] at hw
  rw [List.getElem?_toArray, lineStarts_append, List.getElem?_append_left (by omega),
    ← getLast?_lineStarts (by omega), List.getLast?_eq_getElem?, hlength, Nat.add_sub_cancel]

/-! ## Places -/

/-- The line and the column of what follows a text: one more than the newlines in it, and one more
than the characters since the last of them. -/
def place (front : List Char) : Nat × Nat :=
  (front.count '\n' + 1, (front.rtakeWhile (· ≠ '\n')).length + 1)

/-- Neither the line nor the column is greater than the number of bytes by more than one. -/
theorem place_le (front : List Char) :
    (place front).1 ≤ width front + 1 ∧ (place front).2 ≤ width front + 1 := by
  have hlength := length_le_width front
  have hline := List.count_le_length (a := '\n') (l := front)
  have hcolumn := (List.rtakeWhile_suffix (fun c => decide (c ≠ '\n')) (l := front)).length_le
  exact ⟨Nat.succ_le_succ (hline.trans hlength), Nat.succ_le_succ (hcolumn.trans hlength)⟩

/-- Characters without a newline go on with the line. -/
theorem rtakeWhile_append (h : '\n' ∉ middle) :
    (front ++ middle).rtakeWhile (· ≠ '\n') = front.rtakeWhile (· ≠ '\n') ++ middle := by
  induction middle using List.reverseRecOn with
  | nil => simp
  | append_singleton middle c ih =>
    rw [List.mem_append, not_or, List.mem_singleton] at h
    rw [← List.append_assoc, List.rtakeWhile_concat_pos _ _ _ (by simpa using Ne.symm h.2), ih h.1,
      List.append_assoc]

/-- What follows a longer text is at a later place. -/
theorem place_lt (front : List Char) (h : middle ≠ []) :
    toLex (place front) < toLex (place (front ++ middle)) := by
  rw [Prod.Lex.toLex_lt_toLex]
  by_cases hm : '\n' ∈ middle
  · have := List.count_pos_iff.2 hm
    left
    rw [place, place, List.count_append]
    omega
  · have hcount := List.count_eq_zero.2 hm
    have hlength := List.length_pos_iff.2 h
    right
    rw [place, place, List.count_append, hcount, rtakeWhile_append hm, List.length_append]
    exact ⟨rfl, by dsimp only; omega⟩

end

end Text

/-! ## Lines and columns of a source -/

namespace SourceFile

section
variable {id : SourceId} {name text : String} {path : Option Path} {front back : List Char}

/-- An offset past the end counts as the end. -/
theorem lineColumn?_min (file : SourceFile) (offset : Nat) :
    file.lineColumn? (min offset file.size) = file.lineColumn? offset := by
  rw [lineColumn?, lineColumn?, Nat.min_assoc, ← Nat.min_assoc file.size, Nat.min_self]

/-- What is found where the search ends at a line that begins no later than the offset. -/
theorem lineColumn?_eq {file : SourceFile} {offset stop line start : Nat}
    (hstop : min offset (min file.size maxOffset) = stop)
    (hsearch : (search file.lineStarts stop).atMost? = some line)
    (hstart : file.lineStarts[line]? = some start) (hle : start ≤ stop) :
    file.lineColumn? offset =
      some (min (line + 1) maxOffset, min (file.charsBetween start stop + 1) maxOffset) := by
  rw [lineColumn?, hstop]
  simp only [hsearch, hstart, Option.bind_eq_bind, Option.bind_some, if_neg (Nat.not_lt.2 hle)]
  rfl

/-- Every offset has a line and a column. -/
theorem exists_lineColumn? (id : SourceId) (name : String) (path : Option Path) (text : String)
    (offset : Nat) : ∃ place, (ofText id name path text).lineColumn? offset = some place := by
  let file := ofText id name path text
  obtain ⟨line, start, hsearch, hstart, hle, -⟩ :=
    exists_search file.lineStarts (min offset (min file.size maxOffset)) rfl (Nat.zero_le _)
  exact ⟨_, lineColumn?_eq rfl hsearch hstart hle⟩

/-- The last line before a boundary is cut out from its start on. -/
theorem charsBetween_width (ht : text.toList = front ++ back) :
    (ofText id name path text).charsBetween (Text.width (front.rdropWhile (· ≠ '\n')))
      (Text.width front) = (front.rtakeWhile (· ≠ '\n')).length := by
  have hfront : front.rdropWhile (· ≠ '\n') ++ front.rtakeWhile (· ≠ '\n') = front :=
    List.rdropWhile_append_rtakeWhile
  have hslice := Text.slice?_append (front.rdropWhile (· ≠ '\n')) (front.rtakeWhile (· ≠ '\n')) back
  rw [hfront, ← Text.width_append, hfront, ← ht] at hslice
  have hfound : Text.slice? (ofText id name path text).text.toList _ _ = _ := hslice
  rw [charsBetween, hfound]

/-- The place of a boundary is that of what follows the text before it. -/
theorem lineColumn?_width (hw : Text.width text.toList < maxOffset)
    (ht : text.toList = front ++ back) :
    (ofText id name path text).lineColumn? (Text.width front) = some (Text.place front) := by
  have hsize : Text.width front ≤ (ofText id name path text).size := by
    rw [size, ofText, ht, Text.width_append]
    exact Nat.le_add_right _ _
  have hmax : (ofText id name path text).size < maxOffset := hw
  have hstop : min (Text.width front) (min (ofText id name path text).size maxOffset) =
      Text.width front := Nat.min_eq_left (Nat.le_min.2 ⟨hsize, by omega⟩)
  have htable : (ofText id name path text).lineStarts =
      (Text.lineStarts (front ++ back)).toArray := by
    rw [← ht]
    rfl
  have hbound : Text.width (front ++ back) ≤ maxOffset := ht ▸ hw.le
  have hstart : Text.width (front.rdropWhile (· ≠ '\n')) ≤ Text.width front := by
    conv_rhs => rw [← List.rdropWhile_append_rtakeWhile (p := (· ≠ '\n')) (l := front)]
    rw [Text.width_append]
    exact Nat.le_add_right _ _
  have hplace := Text.place_le front
  have hline : front.count '\n' + 1 ≤ maxOffset := hplace.1.trans (by omega)
  have hcolumn : (front.rtakeWhile (· ≠ '\n')).length + 1 ≤ maxOffset := hplace.2.trans (by omega)
  rw [lineColumn?_eq hstop (htable ▸ Text.search_lineStarts hbound)
    (htable ▸ Text.getElem?_lineStarts hbound) hstart, charsBetween_width ht,
    Nat.min_eq_left hline, Nat.min_eq_left hcolumn, Text.place]

end

/-- Every offset of a source has a line and a column, and one past the end has those of the end. The
line of a boundary is one more than the newlines before it, and the column one more than the
characters since the last of them. Of two boundaries, the later one has the later line or, in the
same line, the later column, so that the place of a boundary tells its offset. -/
theorem lineColumn_exact {text : String} (hw : Text.width text.toList < 2 ^ 32 - 1)
    (id : SourceId) (name : String) (path : Option Path) :
    let file := ofText id name path text
    (∀ offset, file.lineColumn? offset = some (file.lineColumn offset) ∧
      file.lineColumn offset = file.lineColumn (min offset file.size)) ∧
    (∀ front back, text.toList = front ++ back → file.lineColumn (Text.width front) =
      (front.count '\n' + 1, (front.rtakeWhile (· ≠ '\n')).length + 1)) ∧
    ∀ a b, Text.IsBoundary text.toList a → Text.IsBoundary text.toList b →
      (a < b → toLex (file.lineColumn a) < toLex (file.lineColumn b)) ∧
      (file.lineColumn a = file.lineColumn b → a = b) := by
  intro file
  have hplace (front back : List Char) (ht : text.toList = front ++ back) :
      file.lineColumn (Text.width front) = Text.place front := by
    rw [lineColumn, lineColumn?_width hw ht, Option.getD_some]
  have hlt (a b : Nat) (ha : Text.IsBoundary text.toList a) (hb : Text.IsBoundary text.toList b)
      (hab : a < b) : toLex (file.lineColumn a) < toLex (file.lineColumn b) := by
    obtain ⟨middle, hslice⟩ := ha.exists_slice? hb hab.le
    obtain ⟨front, back, ht, rfl, rfl⟩ := Text.slice?_eq_some_iff.1 hslice
    have hne : middle ≠ [] := by
      rintro rfl
      exact Nat.lt_irrefl _ hab
    rw [hplace front _ ht, ← Text.width_append,
      hplace (front ++ middle) back (ht.trans (List.append_assoc ..).symm)]
    exact Text.place_lt front hne
  refine ⟨fun offset => ⟨?_, ?_⟩, hplace, fun a b ha hb => ⟨hlt a b ha hb, fun heq => ?_⟩⟩
  · obtain ⟨place, hfound⟩ := exists_lineColumn? id name path text offset
    rw [lineColumn, hfound, Option.getD_some]
  · rw [lineColumn, lineColumn, lineColumn?_min]
  · rcases Nat.lt_trichotomy a b with hab | hab | hab
    · exact absurd (hlt a b ha hb hab) (heq ▸ lt_irrefl _)
    · exact hab
    · exact absurd (hlt b a hb ha hab) (heq ▸ lt_irrefl _)

/-- Behind an empty line and a character of two bytes. -/
theorem lineColumn_exact_emptyLine :
    let file := ofText ⟨0⟩ "m" none "a\n\nπ;"
    Text.width "a\n\nπ;".toList < 2 ^ 32 - 1 ∧
      Text.IsBoundary "a\n\nπ;".toList 3 ∧ Text.IsBoundary "a\n\nπ;".toList 5 ∧
      file.lineColumn 3 = (3, 1) ∧ file.lineColumn 5 = (3, 2) ∧
      toLex (file.lineColumn 3) < toLex (file.lineColumn 5) := by
  intro file
  have hw : Text.width "a\n\nπ;".toList < 2 ^ 32 - 1 := by decide
  have hthree : "a\n\nπ;".toList = ['a', '\n', '\n'] ++ ['π', ';'] := rfl
  have hfive : "a\n\nπ;".toList = ['a', '\n', '\n', 'π'] ++ [';'] := rfl
  have hwidth : Text.width ['a', '\n', '\n'] = 3 := by decide
  have hwidth' : Text.width ['a', '\n', '\n', 'π'] = 5 := by decide
  have ha : Text.IsBoundary "a\n\nπ;".toList 3 := ⟨_, _, hthree, hwidth⟩
  have hb : Text.IsBoundary "a\n\nπ;".toList 5 := ⟨_, _, hfive, hwidth'⟩
  obtain ⟨-, hplace, horder⟩ := lineColumn_exact hw ⟨0⟩ "m" none
  have hplace₃ := hplace _ _ hthree
  have hplace₅ := hplace _ _ hfive
  rw [hwidth] at hplace₃
  rw [hwidth'] at hplace₅
  exact ⟨hw, ha, hb, hplace₃, hplace₅, (horder 3 5 ha hb).1 (by decide)⟩

end SourceFile

end OpenQasm

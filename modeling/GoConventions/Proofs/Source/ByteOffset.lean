import GoConventions.Proofs.Source.Position

/-!
# Byte offsets, converted

A byte offset is converted in one of two ways: for a text of one-byte characters it is taken as it
is, and for any other text it is looked up in a table, beyond which the bytes are counted on.  Both
are one function: a byte is converted to the character that it belongs to, the end of the bytes to
the end of the text, and nothing else to a place of the text (`convertsBytes`).

The sizes of the prefixes of a text rise with every character, so a byte belongs to one character
alone (`FallsIn.unique`), and the table has an entry for every byte and one for the end
(`length_offsetsFrom`).

## Main definitions

* `SourceText.ConvertsBytes`: what the conversion is, at every integer.

## Main results

* `Text.charOffset_eq_iff`, `Text.charOffset_inside_iff`: the conversion inside a text.
* `Text.offsetIn_of_isAsciiText`: the table of a text of one-byte characters.
* `SourceText.convertsBytes`: the conversion, and what becomes of positions outside the text.
-/

namespace GoConventions

namespace Text

/-! ## Sizes of prefixes -/

section Sizes

variable {chars front back : List Char} {i j : Nat}

theorem byteSize_append : byteSize (front ++ back) = byteSize front + byteSize back := by
  rw [byteSize, String.ofList_append, String.utf8ByteSize_append]
  rfl

theorem byteSize_toList (s : String) : byteSize s.toList = s.utf8ByteSize := by
  rw [byteSize, String.ofList_toList]

theorem byteSize_pos (h : chars ≠ []) : 0 < byteSize chars := by
  obtain ⟨c, chars, rfl⟩ := List.exists_cons_of_ne_nil h
  have hsize := c.utf8Size_pos
  rw [byteSize_cons]
  omega

/-- The sizes of prefixes rise with every character. -/
theorem byteSize_take_lt (hij : i < j) (hi : i < chars.length) :
    byteSize (chars.take i) < byteSize (chars.take j) := by
  obtain ⟨k, rfl⟩ := Nat.exists_eq_add_of_le (Nat.le_of_lt hij)
  have hne : (chars.drop i).take k ≠ [] := by
    rw [← List.length_pos_iff, List.length_take, List.length_drop]
    omega
  have hpos := byteSize_pos hne
  rw [List.take_add, byteSize_append]
  omega

theorem byteSize_take_le_of_le (chars : List Char) (hij : i ≤ j) :
    byteSize (chars.take i) ≤ byteSize (chars.take j) := by
  obtain ⟨k, rfl⟩ := Nat.exists_eq_add_of_le hij
  rw [List.take_add, byteSize_append]
  exact Nat.le_add_right _ _

theorem byteSize_take_le (chars : List Char) (i : Nat) :
    byteSize (chars.take i) ≤ byteSize chars := by
  conv_rhs => rw [← List.take_append_drop i chars, byteSize_append]
  exact Nat.le_add_right _ _

end Sizes

/-! ## Bytes and characters -/

section Characters

variable {s : String} {byte : Int} {index other : Nat}

theorem FallsIn.le_length (h : FallsIn s byte index) : index ≤ s.length := by
  rcases h with ⟨hlt, -, -⟩ | ⟨rfl, -⟩
  · exact Nat.le_of_lt hlt
  · exact Nat.le_refl _

/-- A byte that falls in a character, or the end, is a byte of the text, or its end. -/
theorem FallsIn.byte_bounds (h : FallsIn s byte index) : 0 ≤ byte ∧ byte ≤ s.utf8ByteSize := by
  rw [← byteSize_toList]
  rcases h with ⟨-, hle, hlt⟩ | ⟨-, rfl⟩
  · have hsize := byteSize_take_le s.toList (index + 1)
    omega
  · omega

/-- **A byte falls in one character alone.** -/
theorem FallsIn.unique (h : FallsIn s byte index) (hother : FallsIn s byte other) :
    index = other := by
  have hlength : s.toList.length = s.length := String.length_toList
  -- The character of the smaller index ends before that of the larger one begins.
  have hnot : ∀ {i j : Nat}, FallsIn s byte i → FallsIn s byte j → ¬ i < j := by
    intro i j hi hj hij
    rcases hi with ⟨-, -, hbyte⟩ | ⟨rfl, -⟩
    · have hle := byteSize_take_le_of_le s.toList (show i + 1 ≤ j from hij)
      rcases hj with ⟨-, hbegun, -⟩ | ⟨-, hend⟩
      · omega
      · have hsize := byteSize_take_le s.toList (i + 1)
        omega
    · have hle := hj.le_length
      omega
  have hlt := hnot h hother
  have hgt := hnot hother h
  omega

/-- The table has an entry for every byte, and one for the end. -/
theorem length_offsetsFrom (i : Nat) (chars : List Char) :
    (offsetsFrom i chars).length = byteSize chars + 1 := by
  induction chars generalizing i with
  | nil => rfl
  | cons c chars ih =>
    rw [offsetsFrom, List.length_append, List.length_replicate, ih, byteSize_cons]
    omega

/-- **The bytes of a text are converted to places of it**, and no other numbers. -/
theorem charOffset_inside_iff :
    (0 ≤ charOffset s byte ∧ charOffset s byte ≤ s.length) ↔
      0 ≤ byte ∧ byte ≤ s.utf8ByteSize := by
  constructor
  · rintro ⟨hpos, hle⟩
    obtain ⟨index, -, hfalls⟩ := fallsIn_charOffset hpos hle
    exact hfalls.byte_bounds
  · rintro ⟨hpos, hle⟩
    have hlength : s.toList.length = s.length := String.length_toList
    rw [← byteSize_toList] at hle
    unfold charOffset
    by_cases hascii : isAsciiText s = true
    · have hone : ∀ c ∈ s.toList, c.toNat < 128 := by simpa [isAsciiText] using hascii
      rw [byteSize_eq_length hone] at hle
      rw [if_pos hascii]
      omega
    · -- The table has an entry for the byte, which is the index of a character or of the end.
      have hentries : byte.toNat < (charOffsets s).length := by
        rw [charOffsets, length_offsetsFrom]
        omega
      obtain ⟨entry, hentry⟩ : ∃ entry, (charOffsets s)[byte.toNat]? = some entry :=
        ⟨_, List.getElem?_eq_getElem hentries⟩
      obtain ⟨count, rfl, hcount⟩ := getElem?_offsetsFrom hentry
      rw [if_neg hascii, offsetIn, if_neg (by omega), hentry]
      dsimp only
      rcases hcount with ⟨hlt, -⟩ | ⟨rfl, -⟩ <;> omega

/-- **A byte offset is converted to the place that it falls in.** -/
theorem charOffset_eq_iff (hindex : index ≤ s.length) :
    charOffset s byte = index ↔ FallsIn s byte index := by
  constructor
  · intro heq
    have hpos : 0 ≤ charOffset s byte := by omega
    have hle : charOffset s byte ≤ s.length := by omega
    obtain ⟨found, hfound, hfalls⟩ := fallsIn_charOffset hpos hle
    obtain rfl : found = index := by omega
    exact hfalls
  · intro hfalls
    obtain ⟨hpos, hle⟩ := charOffset_inside_iff.mpr hfalls.byte_bounds
    obtain ⟨found, hfound, hfallsFound⟩ := fallsIn_charOffset hpos hle
    rw [hfound, hfallsFound.unique hfalls]

/-- What comes after a prefix begins where the bytes of the prefix end. -/
theorem fallsIn_append (before after : String) :
    FallsIn (before ++ after) before.utf8ByteSize before.length := by
  have htake : (before ++ after).toList.take before.length = before.toList := by
    rw [String.toList_append, ← String.length_toList, List.take_left]
  have hlength : (before ++ after).toList.length = (before ++ after).length :=
    String.length_toList
  by_cases hafter : after = ""
  · subst hafter
    rw [String.append_empty]
    exact .inr ⟨rfl, by rw [byteSize_toList]⟩
  · have hlt : before.length < (before ++ after).length := by
      have hne : after.toList ≠ [] := mt String.toList_eq_nil_iff.mp hafter
      rw [String.length_append, ← String.length_toList (s := after)]
      exact Nat.lt_add_of_pos_right (List.length_pos_iff.mpr hne)
    have hsize : byteSize ((before ++ after).toList.take before.length) = before.utf8ByteSize := by
      rw [htake, byteSize_toList]
    have hnext := byteSize_take_lt (Nat.lt_succ_self before.length) (hlength ▸ hlt)
    rw [hsize] at hnext
    exact .inl ⟨hlt, Int.ofNat_le.mpr (Nat.le_of_eq hsize), Int.ofNat_lt.mpr hnext⟩

end Characters

/-! ## Texts of one-byte characters -/

theorem offsetsFrom_eq_range' {chars : List Char} (h : ∀ c ∈ chars, c.utf8Size = 1) (i : Nat) :
    offsetsFrom i chars = List.range' i (chars.length + 1) := by
  induction chars generalizing i with
  | nil => rfl
  | cons c chars ih =>
    obtain ⟨hc, hchars⟩ := List.forall_mem_cons.mp h
    rw [offsetsFrom, hc, ih hchars]
    rfl

/-- **The table of a text of one-byte characters** takes every byte offset as it is. -/
theorem offsetIn_of_isAsciiText {s : String} (h : isAsciiText s = true) (byte : Int) :
    offsetIn (charOffsets s) s.length byte = byte := by
  have hone : ∀ c ∈ s.toList, c.utf8Size = 1 := by
    intro c hc
    rw [Char.utf8Size_eq_one_iff, UInt32.le_iff_toNat_le]
    exact Nat.le_of_lt_succ (of_decide_eq_true (List.all_eq_true.mp h c hc))
  have htable : charOffsets s = List.range' 0 (s.length + 1) := by
    rw [charOffsets, offsetsFrom_eq_range' hone, String.length_toList]
  rw [htable, offsetIn]
  split
  · rfl
  · rename_i hpos
    by_cases hentry : byte.toNat < s.length + 1
    · rw [List.getElem?_range' hentry]
      show ((0 + 1 * byte.toNat : Nat) : Int) = byte
      omega
    · rw [List.getElem?_eq_none (by rw [List.length_range']; omega), List.length_range']
      dsimp only
      omega

end Text

namespace SourceText

/-- What a byte offset is converted to, whichever way is taken, and what becomes of a position that
states it. -/
structure ConvertsBytes (src : SourceText) : Prop where
  /-- The bytes of a character are converted to its index, and nothing else is. -/
  character_iff : ∀ (byte : Int) (index : Nat), index < src.length →
    (Text.charOffset src.text byte = index ↔
      Text.byteSize (src.text.toList.take index) ≤ byte ∧
        byte < Text.byteSize (src.text.toList.take (index + 1)))
  /-- The end of the bytes is converted to the end of the text, and nothing else is. -/
  end_iff : ∀ byte : Int, Text.charOffset src.text byte = src.length ↔
    byte = src.text.utf8ByteSize
  /-- Nothing but the bytes and their end is converted to a place of the text. -/
  outside_iff : ∀ byte : Int,
    Text.charOffset src.text byte < 0 ∨ src.length < Text.charOffset src.text byte ↔
      byte < 0 ∨ src.text.utf8ByteSize < byte
  /-- A position that states another offset is malformed. -/
  position_eq_malformed : ∀ (node : Members) (side : String) (raw : Members) (line byte : Int),
    node.get side = .obj raw → statedPlace raw = .ok (line, byte) →
      byte < 0 ∨ src.text.utf8ByteSize < byte →
        src.position node side = src.malformed
          (.outsideSource (node.textOr "kind" "node") (Text.charOffset src.text byte))
  /-- Where every character has one byte, the table takes every offset as it is, and so the table is
  not needed. -/
  ascii_eq : Text.isAsciiText src.text = true → ∀ byte : Int,
    Text.charOffset src.text byte = byte ∧
      Text.offsetIn (Text.charOffsets src.text) src.length byte = byte
  /-- The number of bytes of a prefix is converted to its number of characters. -/
  prefix_eq : ∀ before after : String, src.text = before ++ after →
    Text.charOffset src.text before.utf8ByteSize = before.length

variable {src : SourceText}

theorem charOffset_outside_iff {byte : Int} :
    Text.charOffset src.text byte < 0 ∨ src.length < Text.charOffset src.text byte ↔
      byte < 0 ∨ src.text.utf8ByteSize < byte := by
  have hinside : (0 ≤ Text.charOffset src.text byte ∧
      Text.charOffset src.text byte ≤ src.text.length) ↔
        0 ≤ byte ∧ byte ≤ src.text.utf8ByteSize := Text.charOffset_inside_iff
  rw [length]
  omega

/-- A position whose byte offset is not one of the text is malformed. -/
theorem position_of_outside {node : Members} {side : String} {raw : Members} {line byte : Int}
    (hraw : node.get side = .obj raw) (hplace : statedPlace raw = .ok (line, byte))
    (houtside : byte < 0 ∨ src.text.utf8ByteSize < byte) :
    src.position node side = src.malformed
      (.outsideSource (node.textOr "kind" "node") (Text.charOffset src.text byte)) := by
  have hout := charOffset_outside_iff.mpr houtside
  rw [position, hraw]
  simp only [hplace]
  rw [if_pos (by simpa using hout)]

/-- **Byte offsets are converted exactly**: those of a character to its index, their end to the end
of the text, and all others to no place of it; the table and its shortcut do the same. -/
theorem convertsBytes (src : SourceText) : src.ConvertsBytes where
  character_iff byte index hindex := by
    rw [Text.charOffset_eq_iff (Nat.le_of_lt hindex)]
    constructor
    · rintro (⟨-, hbyte⟩ | ⟨hend, -⟩)
      · exact hbyte
      · exact absurd hend (Nat.ne_of_lt hindex)
    · intro hbyte
      exact .inl ⟨hindex, hbyte⟩
  end_iff byte := by
    rw [length, Text.charOffset_eq_iff (Nat.le_refl _), ← Text.byteSize_toList]
    constructor
    · rintro (⟨hlt, -⟩ | ⟨-, hend⟩)
      · exact absurd hlt (Nat.lt_irrefl _)
      · exact hend
    · intro hend
      exact .inr ⟨rfl, hend⟩
  outside_iff _ := charOffset_outside_iff
  position_eq_malformed _ _ _ _ _ hraw hplace houtside := position_of_outside hraw hplace houtside
  ascii_eq hascii byte := ⟨if_pos hascii, Text.offsetIn_of_isAsciiText hascii byte⟩
  prefix_eq before after heq := by
    rw [heq, Text.charOffset_eq_iff (by rw [String.length_append]; omega)]
    exact Text.fallsIn_append before after

end SourceText

end GoConventions

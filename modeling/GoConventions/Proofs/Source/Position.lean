import GoConventions.Proofs.Result
import GoConventions.Tree.Imports

/-!
# Positions that a document states

A document states a position by a line and a byte offset.  When the reader takes it, the position is
canonical (`isCanonical_of_position`): it lies in the text and is the position of its offset, with
line and column computed anew.  Its offset is that of the character in which the byte falls, and its
line is the one stated (`places_of_position`).

## Main definitions

* `Text.FallsIn`: a byte offset falls in a character.
* `SourceText.IsCanonical`: a position lies in the text and is the one of its offset.
* `SourceText.Places`: a node states a position.

## Main results

* `fallsIn_charOffset`: a byte offset is converted to the character that it falls in.
* `isCanonical_of_position`, `places_of_position`: positions that are taken from nodes.
* `isCanonical_parenthesizedBody?`: positions between parentheses.
-/

namespace GoConventions

/-! ## Bytes and characters -/

namespace Text

/-- The number of bytes of the UTF-8 form of a list of characters. -/
def byteSize (chars : List Char) : Nat :=
  (String.ofList chars).utf8ByteSize

/-- A byte offset falls in the character with the index: not before the bytes of that character and
before those of the next, or at the end of all bytes. -/
def FallsIn (s : String) (byte : Int) (index : Nat) : Prop :=
  (index < s.length ∧ byteSize (s.toList.take index) ≤ byte ∧
    byte < byteSize (s.toList.take (index + 1))) ∨
  (index = s.length ∧ byte = byteSize s.toList)

theorem byteSize_nil : byteSize [] = 0 := rfl

theorem byteSize_cons (c : Char) (chars : List Char) :
    byteSize (c :: chars) = c.utf8Size + byteSize chars := by
  rw [byteSize, byteSize, String.ofList_cons, String.utf8ByteSize_append,
    String.utf8ByteSize_singleton]

/-- The table gives for every byte the index of its character. -/
theorem getElem?_offsetsFrom {chars : List Char} {i byte index : Nat}
    (h : (offsetsFrom i chars)[byte]? = some index) :
    ∃ count, index = i + count ∧
      ((count < chars.length ∧ byteSize (chars.take count) ≤ byte ∧
        byte < byteSize (chars.take (count + 1))) ∨
      (count = chars.length ∧ byte = byteSize chars)) := by
  induction chars generalizing i byte with
  | nil =>
    cases byte with
    | zero => exact ⟨0, (Option.some.inj h).symm, Or.inr ⟨rfl, rfl⟩⟩
    | succ byte => cases h
  | cons c chars ih =>
    rw [offsetsFrom] at h
    by_cases hfirst : byte < c.utf8Size
    · -- The byte belongs to the first character.
      rw [List.getElem?_append_left (by rwa [List.length_replicate]), List.getElem?_replicate,
        if_pos hfirst] at h
      refine ⟨0, (Option.some.inj h).symm, Or.inl ⟨Nat.succ_pos _, Nat.zero_le _, ?_⟩⟩
      rwa [List.take_succ_cons, List.take_zero, byteSize_cons, byteSize_nil]
    · rw [List.getElem?_append_right (by rw [List.length_replicate]; omega),
        List.length_replicate] at h
      obtain ⟨count, rfl, hcount⟩ := ih h
      refine ⟨count + 1, by omega, ?_⟩
      rcases hcount with ⟨hlt, hle, hbyte⟩ | ⟨rfl, hbyte⟩
      · refine Or.inl ⟨Nat.succ_lt_succ hlt, ?_, ?_⟩
        · rw [List.take_succ_cons, byteSize_cons]
          omega
        · rw [List.take_succ_cons, byteSize_cons]
          omega
      · refine Or.inr ⟨rfl, ?_⟩
        rw [byteSize_cons]
        omega

/-- Below 128 every character has one byte. -/
theorem byteSize_eq_length {chars : List Char} (h : ∀ c ∈ chars, c.toNat < 128) :
    byteSize chars = chars.length := by
  induction chars with
  | nil => rfl
  | cons c chars ih =>
    have hsize : c.utf8Size = 1 := by
      rw [Char.utf8Size_eq_one_iff, UInt32.le_iff_toNat_le]
      exact Nat.le_of_lt_succ (h c List.mem_cons_self)
    rw [byteSize_cons, hsize, ih fun other hother => h other (List.mem_cons_of_mem c hother),
      List.length_cons, Nat.add_comm]

/-- **A byte offset is converted to the character that it falls in**, when the result lies in the
text. -/
theorem fallsIn_charOffset {s : String} {byte : Int} (hpos : 0 ≤ charOffset s byte)
    (hle : charOffset s byte ≤ s.length) :
    ∃ index : Nat, charOffset s byte = index ∧ FallsIn s byte index := by
  unfold charOffset at hpos hle ⊢
  have hlength : s.toList.length = s.length := String.length_toList
  by_cases hascii : isAsciiText s = true
  · -- Bytes are characters.
    rw [if_pos hascii] at hpos hle ⊢
    have hone : ∀ c ∈ s.toList, c.toNat < 128 := by simpa [isAsciiText] using hascii
    have htake : ∀ count ≤ s.length, byteSize (s.toList.take count) = count := by
      intro count hcount
      rw [byteSize_eq_length fun c hc => hone c (List.mem_of_mem_take hc), List.length_take]
      omega
    refine ⟨byte.toNat, by omega, ?_⟩
    by_cases hend : byte.toNat < s.length
    · refine Or.inl ⟨hend, ?_, ?_⟩
      · rw [htake _ (Nat.le_of_lt hend)]
        omega
      · rw [htake _ hend]
        omega
    · refine Or.inr ⟨by omega, ?_⟩
      rw [byteSize_eq_length hone]
      omega
  · rw [if_neg hascii] at hpos hle ⊢
    unfold offsetIn at hpos hle ⊢
    split at hpos
    case isTrue hnegative => omega
    case isFalse hbyte =>
      rw [if_neg hbyte] at hle ⊢
      cases hentry : (charOffsets s)[byte.toNat]? with
      | none =>
        -- Past the table the offset stays past the end of the text.
        rw [hentry] at hle
        have hlong := List.getElem?_eq_none_iff.mp hentry
        dsimp only at hle
        omega
      | some index =>
        obtain ⟨count, rfl, hcount⟩ := getElem?_offsetsFrom hentry
        refine ⟨0 + count, rfl, ?_⟩
        rw [Nat.zero_add]
        rcases hcount with ⟨hlt, hfirst, hnext⟩ | ⟨rfl, hend⟩
        · exact Or.inl ⟨by omega, by omega, by omega⟩
        · exact Or.inr ⟨hlength, by omega⟩

end Text

/-! ## Canonical positions -/

namespace SourceText

variable (src : SourceText)

/-- A position lies in the text and is the position of its offset. -/
structure IsCanonical (position : Position) : Prop where
  nonneg : 0 ≤ position.offset
  le_length : position.offset ≤ src.length
  eq_positionAt : position = src.positionAt position.offset

/-- A node states a position: its line is the one that the node gives, and its offset that of the
character in which the byte falls that the node gives. -/
def Places (node : Members) (side : String) (position : Position) : Prop :=
  ∃ (raw : Members) (byte : Int) (index : Nat), node.get side = .obj raw ∧
    (raw.get "line").wholeNumber = .ok position.line ∧ (raw.get "offset").wholeNumber = .ok byte ∧
    position.offset = index ∧ Text.FallsIn src.text byte index

variable {src}

theorem isCanonical_positionAt {offset : Int} (hpos : 0 ≤ offset) (hle : offset ≤ src.length) :
    src.IsCanonical (src.positionAt offset) :=
  ⟨hpos, hle, rfl⟩

/-- A position of a text is told by its offset. -/
theorem IsCanonical.eq_of_offset_eq {p q : Position}
    (hp : src.IsCanonical p) (hq : src.IsCanonical q) (h : p.offset = q.offset) : p = q := by
  rw [hp.eq_positionAt, hq.eq_positionAt, h]

instance (src : SourceText) (p : Position) : Decidable (src.IsCanonical p) :=
  decidable_of_iff (0 ≤ p.offset ∧ p.offset ≤ src.length ∧ p = src.positionAt p.offset)
    ⟨fun ⟨hpos, hle, heq⟩ => ⟨hpos, hle, heq⟩, fun h => ⟨h.nonneg, h.le_length, h.eq_positionAt⟩⟩

theorem statedPlace_eq_ok {raw : Members} {line byte : Int}
    (h : statedPlace raw = .ok (line, byte)) :
    (raw.get "line").wholeNumber = .ok line ∧ (raw.get "offset").wholeNumber = .ok byte := by
  unfold statedPlace at h
  obtain ⟨line', hline, h⟩ := bind_eq_ok.mp h
  obtain ⟨column, -, h⟩ := bind_eq_ok.mp h
  split at h
  case isTrue => cases h
  case isFalse =>
    obtain ⟨byte', hbyte, h⟩ := bind_eq_ok.mp h
    obtain ⟨rfl, rfl⟩ := Prod.mk.inj (Except.ok.inj h)
    exact ⟨hline, hbyte⟩

/-- The reader's conditions for taking a position. -/
theorem position_eq_ok {node : Members} {side : String} {position : Position}
    (h : src.position node side = .ok position) :
    ∃ raw byte, node.get side = .obj raw ∧ statedPlace raw = .ok (position.line, byte) ∧
      0 ≤ Text.charOffset src.text byte ∧ Text.charOffset src.text byte ≤ src.length ∧
      position = src.positionAt (Text.charOffset src.text byte) := by
  unfold SourceText.position at h
  split at h
  case h_2 => cases h
  case h_1 raw hraw =>
    split at h
    case h_1 => cases h
    case h_2 => cases h
    case h_3 line byte hplace =>
      dsimp only at h
      split at h
      case isTrue => cases h
      case isFalse hinside =>
        split at h
        case isFalse => cases h
        case isTrue hline =>
          obtain rfl := Except.ok.inj h
          simp only [Bool.or_eq_true, decide_eq_true_eq, not_or, Int.not_lt] at hinside
          exact ⟨raw, byte, hraw, by rw [hline]; exact hplace, hinside.1, hinside.2, rfl⟩

/-- **Positions that are taken from nodes are canonical.** -/
theorem isCanonical_of_position {node : Members} {side : String} {position : Position}
    (h : src.position node side = .ok position) : src.IsCanonical position := by
  obtain ⟨raw, byte, -, -, hpos, hle, rfl⟩ := position_eq_ok h
  exact isCanonical_positionAt hpos hle

/-- **Positions that are taken from nodes are those that the nodes state.** -/
theorem places_of_position {node : Members} {side : String} {position : Position}
    (h : src.position node side = .ok position) : src.Places node side position := by
  obtain ⟨raw, byte, hraw, hplace, hpos, hle, hposition⟩ := position_eq_ok h
  obtain ⟨hline, hbyte⟩ := statedPlace_eq_ok hplace
  obtain ⟨index, hindex, hfalls⟩ := Text.fallsIn_charOffset hpos hle
  refine ⟨raw, byte, index, hraw, hline, hbyte, ?_, hfalls⟩
  rw [hposition, ← hindex]
  rfl

/-! ## Positions that are made up from the text -/

theorem lt_of_mem_startsAfter {chars : List Char} {i start : Nat}
    (h : start ∈ Text.startsAfter i chars) : i < start := by
  induction chars generalizing i with
  | nil => cases h
  | cons c chars ih =>
    rw [Text.startsAfter] at h
    split at h
    · rcases List.mem_cons.mp h with rfl | h
      · exact Nat.lt_succ_self i
      · exact Nat.lt_of_succ_lt (ih h)
    · exact Nat.lt_of_succ_lt (ih h)

/-- The text begins in the first line and column. -/
theorem positionAt_zero : src.positionAt 0 = ⟨1, 1, 0⟩ := by
  have hbegun : (Text.startsAfter 0 src.text.toList).takeWhile
      (fun (start : Nat) => decide ((start : Int) ≤ 0)) = [] := by
    cases hstarts : Text.startsAfter 0 src.text.toList with
    | nil => rfl
    | cons start starts =>
      have hlt : 0 < start := lt_of_mem_startsAfter (by rw [hstarts]; exact List.mem_cons_self)
      rw [List.takeWhile_cons_of_neg (by simpa using Nat.ne_of_gt hlt)]
  have hlines :
      src.lineStarts.takeWhile (fun (start : Nat) => decide ((start : Int) ≤ 0)) = [0] := by
    rw [lineStarts, Text.lineStarts, List.takeWhile_cons_of_pos (by simp), hbegun]
  rw [positionAt, hlines]
  rfl

theorem isCanonical_wholeSpan :
    src.IsCanonical src.wholeSpan.start ∧ src.IsCanonical src.wholeSpan.stop := by
  constructor
  · rw [wholeSpan, ← positionAt_zero]
    exact isCanonical_positionAt (Int.le_refl 0) (Int.natCast_nonneg _)
  · exact isCanonical_positionAt (Int.natCast_nonneg _) (Int.le_refl _)

/-- The text of a span that starts in the text does not reach beyond it. -/
theorem length_textAt_le {span : Span} (hspan : src.IsCanonical span.start) :
    span.start.offset + (src.textAt span).toList.length ≤ src.length := by
  have hpos := hspan.nonneg
  have hle := hspan.le_length
  have hlength : src.text.toList.length = src.length := String.length_toList
  have hstart : Text.bound src.text.toList.length span.start.offset = span.start.offset.toNat := by
    unfold Text.bound
    split <;> omega
  rw [textAt, Text.slice, String.toList_ofList, Text.sliceList, List.length_drop, List.length_take,
    hstart]
  omega

/-- The range between parentheses lies in the text. -/
theorem isCanonical_parenthesizedBody? {span body : Span} (hspan : src.IsCanonical span.start)
    (h : parenthesizedBody? src span = some body) :
    src.IsCanonical body.start ∧ src.IsCanonical body.stop := by
  have hlength := length_textAt_le hspan
  have hpos := hspan.nonneg
  unfold parenthesizedBody? at h
  dsimp only at h
  split at h
  case h_2 => cases h
  case h_1 opening fromEnd _ _ =>
    split at h
    case isFalse => cases h
    case isTrue hlt =>
      obtain rfl := Option.some.inj h
      constructor
      · exact isCanonical_positionAt (by omega) (by omega)
      · exact isCanonical_positionAt (by omega) (by omega)

end SourceText

end GoConventions

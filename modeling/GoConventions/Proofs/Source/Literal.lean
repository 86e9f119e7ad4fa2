import Mathlib.Data.List.DropRight
import GoConventions.Source.Literal
import GoConventions.Proofs.Result

/-!
# Literals and their pieces

Between its quotes an interpreted literal is a list of pieces: a character that stands for itself,
or a backslash and the character after it.  A piece is no quote, no backslash without a character
after it, and no line feed, so whatever pieces are put between quotes are a literal
(`StringLiteral.source`), and a text is one in at most one way.

An escape with digits extends over several pieces, and the decoder reads as many digits as there
are.  So the pieces of a literal are not decoded one by one.  But a literal is decoded in two parts
wherever the second part does not begin with a digit that an escape at the end of the first could go
on with (`decodeFrom_spell_append`).

## Main definitions

* `Piece`, `spell`: the pieces of an interpreted literal, and their characters.
* `StringLiteral`: a literal of either form.

## Main results

* `spell_ne_append_backslash`: pieces do not end with a backslash alone.
* `decodeFrom_spell_append`: decoding in two parts.
* `decodeLiteral_interpreted`, `decodeLiteral_raw`: what a literal denotes.
-/

namespace GoConventions

namespace Literal

/-! ## Pieces -/

/-- A piece of an interpreted literal: a character, or a backslash and the character after it. -/
inductive Piece where
  | plain (c : Char) (hc : c ≠ '\x22' ∧ c ≠ '\\' ∧ c ≠ '\n')
  | escaped (c : Char) (hc : c ≠ '\n')

def Piece.spelling : Piece → List Char
  | plain c _ => [c]
  | escaped c _ => ['\\', c]

/-- The characters of some pieces. -/
def spell (pieces : List Piece) : List Char :=
  pieces.flatMap Piece.spelling

section Spelling

variable {c : Char} {pieces front back : List Piece}

@[simp] theorem spell_nil : spell [] = [] := rfl

@[simp] theorem spell_plain {hc : c ≠ '\x22' ∧ c ≠ '\\' ∧ c ≠ '\n'} :
    spell (.plain c hc :: pieces) = c :: spell pieces := rfl

@[simp] theorem spell_escaped {hc : c ≠ '\n'} :
    spell (.escaped c hc :: pieces) = '\\' :: c :: spell pieces := rfl

@[simp] theorem spell_append : spell (front ++ back) = spell front ++ spell back :=
  List.flatMap_append

/-- **No backslash stands alone at the end of pieces.** -/
theorem spell_ne_append_backslash : spell pieces ≠ spell front ++ ['\\'] := by
  -- Piece by piece both sides would agree, until the backslash had to be a piece.
  induction front generalizing pieces with
  | nil =>
    rcases pieces with _ | ⟨⟨c, hc⟩ | ⟨c, hc⟩, pieces⟩
    · simp
    · simp [hc.2.1]
    · simp
  | cons piece front ih =>
    rcases pieces with _ | ⟨⟨c, hc⟩ | ⟨c, hc⟩, pieces⟩ <;> rcases piece with ⟨d, hd⟩ | ⟨d, hd⟩
    · simp
    · simp
    · simpa using fun _ => ih
    · simp [hc.2.1]
    · simp [hd.2.1.symm]
    · simpa using fun _ => ih

end Spelling

/-! ## Escapes -/

section Escapes

variable {base count value code : Nat} {digit? : Char → Option Nat} {c x : Char}
  {s rest : List Char} {pieces front : List Piece}

theorem octalDigit?_eq_none (h : hexDigit? c = none) : octalDigit? c = none := by
  have hdecimal : ¬ ('0' ≤ c ∧ c ≤ '9') := by
    intro hc
    simp [hexDigit?, hc] at h
  refine if_neg fun hc => hdecimal ?_
  obtain ⟨hzero, hseven⟩ := by simpa using hc
  exact ⟨hzero, Char.le_trans hseven (by decide)⟩

/-- Digits are not read on beyond a text that no digit follows. -/
theorem digits?_append (h : ∀ c ∈ rest.head?, digit? c = none) :
    digits? base digit? value count (s ++ rest) = digits? base digit? value count s := by
  induction count generalizing value s with
  | zero => rfl
  | succ count ih =>
    cases s with
    | nil =>
      cases rest with
      | nil => rfl
      | cons c rest => simp [digits?, h c rfl]
    | cons c s => simp only [List.cons_append, digits?, ih]

/-- The digits of an escape are pieces of their own. -/
theorem exists_of_digits?_spell (hbackslash : digit? '\\' = none)
    (h : digits? base digit? value count (spell pieces) = some code) :
    ∃ digits later, pieces = digits ++ later ∧ (spell digits).length = count := by
  induction count generalizing value pieces with
  | zero => exact ⟨[], pieces, rfl, rfl⟩
  | succ count ih =>
    rcases pieces with _ | ⟨⟨c, hc⟩ | ⟨c, hc⟩, pieces⟩
    · cases h
    · obtain ⟨d, -, hrest⟩ := Option.bind_eq_some_iff.mp h
      obtain ⟨digits, later, rfl, hlength⟩ := ih hrest
      exact ⟨.plain c hc :: digits, later, rfl, by simp [hlength]⟩
    · simp [digits?, hbackslash] at h

theorem escape_append (h : ∀ c ∈ rest.head?, hexDigit? c = none) :
    escape c (s ++ rest) = escape c s := by
  have hoctal : ∀ c ∈ rest.head?, octalDigit? c = none := fun c hc =>
    octalDigit?_eq_none (h c hc)
  simp only [escape, digits?_append h, ← List.cons_append, digits?_append hoctal]

/-- What belongs to an escape are pieces of their own. -/
theorem exists_of_escape_spell (h : escape c (spell pieces) = .ok (x, count)) :
    ∃ digits later, pieces = digits ++ later ∧ (spell digits).length = count := by
  unfold escape at h
  dsimp only at h
  split at h
  · split at h
    · rename_i hdigits
      obtain ⟨d, -, hread⟩ := map_eq_ok.mp h
      rw [← (Prod.mk.inj hread).2]
      exact exists_of_digits?_spell rfl hdigits
    · cases h
  · split at h
    · rename_i hdigits
      obtain ⟨d, -, hdigits⟩ := Option.bind_eq_some_iff.mp hdigits
      obtain ⟨e, -, hread⟩ := map_eq_ok.mp h
      rw [← (Prod.mk.inj hread).2]
      exact exists_of_digits?_spell rfl hdigits
    · rw [← (Prod.mk.inj (Except.ok.inj h)).2]
      exact ⟨[], pieces, rfl, rfl⟩

end Escapes

/-! ## Decoding -/

section Decoding

variable {c : Char} {s rest : List Char} {pieces : List Piece}

theorem decodeFrom_eq_drop (k : Nat) (s : List Char) :
    decodeFrom k s = decodeFrom 0 (s.drop k) := by
  induction s generalizing k with
  | nil => cases k <;> rfl
  | cons c s ih =>
    cases k with
    | zero => rfl
    | succ k => exact ih k

theorem decodeFrom_plain (hc : c ≠ '\\') :
    decodeFrom 0 (c :: s) = (c :: ·) <$> decodeFrom 0 s := by
  cases s <;> simp [decodeFrom, hc]

/-- An escape by a single character that is no digit. -/
theorem escape_of_single (hannounced : announcedDigits c = 0) (hdigit : octalDigit? c = none) :
    escape c s = .ok (simpleEscape c, 0) := by
  simp [escape, hannounced, digits?, hdigit]

theorem decodeFrom_escaped (hc : c ≠ '\n') :
    decodeFrom 0 ('\\' :: c :: s) =
      escape c s >>= fun read => (read.1 :: ·) <$> decodeFrom 0 (s.drop read.2) := by
  rw [decodeFrom, if_neg hc]
  refine bind_congr fun (x, count) => ?_
  dsimp only
  rw [decodeFrom_eq_drop (count + 1), List.drop_succ_cons]
  cases decodeFrom 0 (s.drop count) <;> rfl

/-- **A literal is decoded in two parts**, where no digit follows the first. -/
theorem decodeFrom_spell_append (h : ∀ c ∈ rest.head?, hexDigit? c = none) :
    decodeFrom 0 (spell pieces ++ rest) =
      decodeFrom 0 (spell pieces) >>= fun front => (front ++ ·) <$> decodeFrom 0 rest := by
  -- An escape takes its digits along, so the induction goes on with the pieces after these.
  induction hlength : pieces.length using Nat.strongRecOn generalizing pieces with
  | _ n ih =>
    subst hlength
    rcases pieces with _ | ⟨⟨c, hc⟩ | ⟨c, hc⟩, pieces⟩
    · show decodeFrom 0 rest = ([] ++ ·) <$> decodeFrom 0 rest
      cases decodeFrom 0 rest <;> rfl
    · rw [spell_plain, List.cons_append, decodeFrom_plain hc.2.1, decodeFrom_plain hc.2.1,
        ih pieces.length (Nat.lt_succ_self _) rfl]
      cases decodeFrom 0 (spell pieces) <;> cases decodeFrom 0 rest <;> rfl
    · rw [spell_escaped, List.cons_append, List.cons_append, decodeFrom_escaped hc,
        decodeFrom_escaped hc, escape_append h]
      cases hread : escape c (spell pieces) with
      | error fault => rfl
      | ok read =>
        obtain ⟨digits, later, rfl, hlength⟩ := exists_of_escape_spell hread
        have hlater : later.length < (Piece.escaped c hc :: (digits ++ later)).length := by
          rw [List.length_cons, List.length_append]
          omega
        show (read.1 :: ·) <$> decodeFrom 0 ((spell (digits ++ later) ++ rest).drop read.2) =
          (read.1 :: ·) <$> decodeFrom 0 ((spell (digits ++ later)).drop read.2) >>= _
        rw [spell_append, List.append_assoc, ← hlength]
        rw [List.drop_left, List.drop_left, ih _ hlater rfl]
        cases decodeFrom 0 (spell later) <;> cases decodeFrom 0 rest <;> rfl

end Decoding

/-! ## Quotes -/

/-- A text between two quotes. -/
def quoted (quote : Char) (inside : List Char) : String :=
  String.ofList (quote :: (inside ++ [quote]))

section Quotes

variable {quote : Char} {inside other : List Char}

theorem quoted_inj : quoted quote inside = quoted quote other ↔ inside = other := by
  simp [quoted, String.ofList_inj]

theorem slice_quoted : Text.slice 1 (-1) (quoted quote inside) = String.ofList inside := by
  have hlast : Text.bound (inside.length + 1 + 1) (-1) = inside.length + 1 := by
    unfold Text.bound
    split <;> omega
  have hfirst : Text.bound (inside.length + 1 + 1) 1 = 1 := by
    unfold Text.bound
    split <;> omega
  rw [Text.slice, Text.sliceList, quoted, String.toList_ofList, List.length_cons,
    List.length_append, List.length_singleton, hlast, hfirst, List.take_succ_cons,
    List.take_left, List.drop_succ_cons, List.drop_zero]

/-- An interpreted literal denotes what its inside is decoded to. -/
theorem decodeLiteral_interpreted :
    decodeLiteral (quoted '\x22' inside) = String.ofList <$> decodeFrom 0 inside := by
  have hraw : Text.startsWith (quoted '\x22' inside) "\x60" = false := by
    simp only [Text.startsWith, quoted, String.toList_ofList]
    rfl
  rw [decodeLiteral, slice_quoted, hraw, String.toList_ofList]
  rfl

/-- A raw literal denotes what is inside it. -/
theorem decodeLiteral_raw : decodeLiteral (quoted '\x60' inside) = .ok (String.ofList inside) := by
  have hraw : Text.startsWith (quoted '\x60' inside) "\x60" = true := by
    simp only [Text.startsWith, quoted, String.toList_ofList]
    rfl
  rw [decodeLiteral, slice_quoted, hraw]
  rfl

end Quotes

end Literal

/-- A literal: pieces between double quotes, or characters between back quotes. -/
inductive StringLiteral where
  | interpreted (pieces : List Literal.Piece)
  | raw (chars : List Char) (hchars : '\x60' ∉ chars)

namespace StringLiteral

def quote : StringLiteral → Char
  | interpreted _ => '\x22'
  | raw _ _ => '\x60'

def inside : StringLiteral → List Char
  | interpreted pieces => Literal.spell pieces
  | raw chars _ => chars

/-- How a literal is written. -/
def source (written : StringLiteral) : String :=
  Literal.quoted written.quote written.inside

/-- What characters denote inside a literal of this form. -/
def decodeInside : StringLiteral → List Char → Except LiteralFault (List Char)
  | interpreted _, s => Literal.decodeFrom 0 s
  | raw _ _, s => .ok s

theorem decodeLiteral_quoted (written : StringLiteral) (s : List Char) :
    decodeLiteral (Literal.quoted written.quote s) = String.ofList <$> written.decodeInside s := by
  cases written with
  | interpreted pieces => exact Literal.decodeLiteral_interpreted
  | raw chars hchars => exact Literal.decodeLiteral_raw

theorem decodeInside_nil (written : StringLiteral) : written.decodeInside [] = .ok [] := by
  cases written <;> rfl

/-- A character other than a backslash denotes itself. -/
theorem decodeInside_cons (written : StringLiteral) {c : Char} {s : List Char} (hc : c ≠ '\\') :
    written.decodeInside (c :: s) = (c :: ·) <$> written.decodeInside s := by
  cases written with
  | interpreted pieces => exact Literal.decodeFrom_plain hc
  | raw chars hchars => rfl

end StringLiteral

/-- A text is an interpreted literal. -/
def IsInterpreted (source : String) : Prop :=
  ∃ pieces, source = (StringLiteral.interpreted pieces).source

end GoConventions

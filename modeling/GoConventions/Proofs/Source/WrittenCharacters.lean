import Mathlib.Data.Nat.Digits.Defs
import GoConventions.Proofs.Source.Literal

/-!
# Written characters

Between its quotes an interpreted literal writes one character after the other: as it is, by a
backslash and the character that names it, or by its code in the digits of one of four forms.  What
is written is read back, whatever stands next to it (`decodeFrom_append_of_writes`): an escape takes
exactly the characters that belong to it, since the letter after the backslash, or a digit in its
place, settles how many these are.  So a literal denotes the characters that its pieces write, one
after the other, and a raw literal denotes what stands between its quotes (`denotesPieces`).

## Main definitions

* `simpleEscapes`: the characters that have a name, and their names.
* `CodeForm`, `CodeForm.IsNumeral`: the forms of an escape by a code, and the digits of a number.
* `Writes`: a piece of an interpreted literal writes a character.

## Main results

* `escape_eq_ok_of_coded`: an escape by a code takes its digits and nothing else.
* `decodeFrom_append_of_writes`: a piece is read before anything that follows it.
* `denotesPieces`: what literals denote.
-/

namespace GoConventions

namespace Literal

/-! ## Pieces that write a character -/

/-- The names after a backslash, and the characters that they are for. -/
def simpleEscapes : List (Char × Char) :=
  [('a', '\x07'), ('b', '\x08'), ('f', '\x0c'), ('n', '\x0a'), ('r', '\x0d'), ('t', '\x09'),
    ('v', '\x0b'), ('\\', '\\'), ('\x22', '\x22'), ('\x27', '\x27')]

/-- The forms of an escape by a code: a letter and so many digits, or octal digits alone. -/
inductive CodeForm where
  | long
  | short
  | byte
  | octal

namespace CodeForm

/-- The letter in front of the digits. -/
def letter : CodeForm → List Char
  | long => ['U']
  | short => ['u']
  | byte => ['x']
  | octal => []

def count : CodeForm → Nat
  | long => 8
  | short => 4
  | byte => 2
  | octal => 3

def base : CodeForm → Nat
  | octal => 8
  | _ => 16

/-- The codes below which a form writes characters; the forms that write bytes write those of one
byte. -/
def bound : CodeForm → Nat
  | byte => 0x80
  | octal => 0x80
  | _ => 0x110000

/-- How the digits of a form are read. -/
def digit? : CodeForm → Char → Option Nat
  | octal => octalDigit?
  | _ => hexDigit?

end CodeForm

/-- A character is a digit of the base with a value; letters may be of either case. -/
def IsDigit (base : Nat) (c : Char) (value : Nat) : Prop :=
  value < base ∧ ("0123456789abcdef".toList[value]? = some c ∨
    "0123456789ABCDEF".toList[value]? = some c)

/-- Digits of a form are the numeral of a code, with the most significant digit first. -/
def CodeForm.IsNumeral (form : CodeForm) (digits : List Char) (code : Nat) : Prop :=
  digits.length = form.count ∧ ∃ values, List.Forall₂ (IsDigit form.base) digits values ∧
    code = Nat.ofDigits form.base values.reverse

/-- A piece of an interpreted literal writes a character. -/
inductive Writes : List Char → Char → Prop
  | plain {c : Char} (hc : c ≠ '\\' ∧ c ≠ '\x22' ∧ c ≠ '\n') : Writes [c] c
  | simple {name c : Char} (hname : (name, c) ∈ simpleEscapes) : Writes ['\\', name] c
  | coded (form : CodeForm) {digits : List Char} {c : Char}
      (hdigits : form.IsNumeral digits c.toNat) (hbound : c.toNat < form.bound) :
      Writes ('\\' :: (form.letter ++ digits)) c

/-! ## Digits -/

section Digits

variable {base value d : Nat} {c : Char} {digit? : Char → Option Nat} {digits : List Char}
  {values : List Nat} {form : CodeForm}

theorem digit?_of_isDigit (h : IsDigit form.base c d) : form.digit? c = some d := by
  have hall : ∀ d < form.base,
      ("0123456789abcdef".toList[d]?).bind form.digit? = some d ∧
        ("0123456789ABCDEF".toList[d]?).bind form.digit? = some d := by
    cases form <;> decide +kernel
  obtain ⟨hlt, hc | hc⟩ := h
  · have hread := (hall d hlt).1
    rwa [hc] at hread
  · have hread := (hall d hlt).2
    rwa [hc] at hread

/-- **A numeral is read as the number that it stands for**, whatever follows it. -/
theorem digits?_append_of_forall₂
    (h : List.Forall₂ (fun c d => digit? c = some d) digits values) (rest : List Char) :
    digits? base digit? value digits.length (digits ++ rest) =
      some (value * base ^ digits.length + Nat.ofDigits base values.reverse) := by
  -- What has been read so far is multiplied by the base once for every digit that is left.
  induction h generalizing value with
  | nil => simp [digits?]
  | cons hdigit hrest ih =>
    rename_i c d digits values
    have hlength : digits.length = values.length := hrest.length_eq
    rw [List.length_cons, List.cons_append, digits?, hdigit, Option.bind_some, ih,
      List.reverse_cons, Nat.ofDigits_append, List.length_reverse, Nat.ofDigits_singleton,
      hlength, Nat.pow_succ]
    congr 1
    ring

theorem digits?_of_isNumeral {code : Nat} (h : form.IsNumeral digits code) (rest : List Char) :
    digits? form.base form.digit? 0 form.count (digits ++ rest) = some code := by
  obtain ⟨hlength, values, hvalues, rfl⟩ := h
  have hread := hvalues.imp fun _ _ => digit?_of_isDigit
  rw [← hlength, digits?_append_of_forall₂ hread, Nat.zero_mul, Nat.zero_add]

end Digits

/-! ## Escapes that write a character -/

section Escapes

variable {form : CodeForm} {c name letter : Char} {digits rest : List Char}

theorem ofCode_toNat (c : Char) : ofCode c.toNat = .ok c := by
  have hvalid : c.toNat < 0xD800 ∨ 0xDFFF < c.toNat ∧ c.toNat < 0x110000 := c.valid
  have hsurrogate : ¬ (0xD800 ≤ c.toNat && c.toNat < 0xE000) = true := by
    rw [Bool.and_eq_true, decide_eq_true_eq, decide_eq_true_eq]
    omega
  rw [ofCode, if_neg (by omega), if_neg hsurrogate, Char.ofNat_toNat]

theorem escape_of_simple (h : (name, c) ∈ simpleEscapes) (rest : List Char) :
    name ≠ '\n' ∧ escape name rest = .ok (c, 0) := by
  have hall : ∀ entry ∈ simpleEscapes, entry.1 ≠ '\n' ∧ announcedDigits entry.1 = 0 ∧
      octalDigit? entry.1 = none ∧ simpleEscape entry.1 = entry.2 := by decide
  obtain ⟨hfeed, hannounced, hdigit, heq⟩ := hall _ h
  refine ⟨hfeed, ?_⟩
  rw [escape_of_single hannounced hdigit, heq]

/-- An escape with a letter takes the digits that the letter announces. -/
theorem escape_of_announced (hletter : announcedDigits letter = form.count)
    (hbase : form.base = 16) (hdigit : form.digit? = hexDigit?)
    (h : form.IsNumeral digits c.toNat) (rest : List Char) :
    escape letter (digits ++ rest) = .ok (c, digits.length) := by
  have hread := digits?_of_isNumeral h rest
  have hcount : (form.count != 0) = true := by cases form <;> rfl
  rw [hbase, hdigit] at hread
  unfold escape
  rw [hletter, if_pos hcount, hread, h.1]
  simp only [ofCode_toNat]
  rfl

theorem announcedDigits_of_octalDigit? (h : octalDigit? c ≠ none) : announcedDigits c = 0 := by
  have hlong : c ≠ 'U' := by
    rintro rfl
    exact h rfl
  have hshort : c ≠ 'u' := by
    rintro rfl
    exact h rfl
  have hbyte : c ≠ 'x' := by
    rintro rfl
    exact h rfl
  rw [announcedDigits, if_neg hlong, if_neg hshort, if_neg hbyte]

/-- An escape that begins with an octal digit takes three of them. -/
theorem escape_of_octal {first second third : Char} (hdigit : octalDigit? first ≠ none)
    (hdigits : digits? 8 octalDigit? 0 3 ([first, second, third] ++ rest) = some c.toNat) :
    escape first ([second, third] ++ rest) = .ok (c, 2) := by
  unfold escape
  rw [announcedDigits_of_octalDigit? hdigit]
  simp only [List.cons_append, List.nil_append] at hdigits ⊢
  rw [hdigits]
  simp only [ofCode_toNat]
  rfl

/-- **An escape by a code takes its digits and nothing else.** -/
theorem escape_eq_ok_of_coded (h : form.IsNumeral digits c.toNat) (rest : List Char) :
    ∃ first later, form.letter ++ digits = first :: later ∧ first ≠ '\n' ∧
      escape first (later ++ rest) = .ok (c, later.length) := by
  cases form with
  | long => exact ⟨'U', digits, rfl, by decide, escape_of_announced rfl rfl rfl h rest⟩
  | short => exact ⟨'u', digits, rfl, by decide, escape_of_announced rfl rfl rfl h rest⟩
  | byte => exact ⟨'x', digits, rfl, by decide, escape_of_announced rfl rfl rfl h rest⟩
  | octal =>
    -- There is no letter, and the first digit itself follows the backslash.
    have hread := digits?_of_isNumeral h rest
    obtain ⟨hlength, values, hvalues, -⟩ := h
    obtain ⟨first, second, third, rfl⟩ := List.length_eq_three.1 hlength
    rw [List.forall₂_cons_left_iff] at hvalues
    obtain ⟨d, others, hd, -, rfl⟩ := hvalues
    have hdigit : octalDigit? first = some d := digit?_of_isDigit hd
    have hsome : octalDigit? first ≠ none := hdigit ▸ Option.some_ne_none d
    refine ⟨first, [second, third], rfl, ?_, escape_of_octal hsome hread⟩
    rintro rfl
    exact hsome rfl

end Escapes

/-! ## Pieces next to each other -/

section Pieces

variable {piece rest inside : List Char} {c : Char} {pieces : List (List Char)} {chars : List Char}

/-- **A piece is read as the character that it writes**, whatever follows it. -/
theorem decodeFrom_append_of_writes (h : Writes piece c) (rest : List Char) :
    decodeFrom 0 (piece ++ rest) = (c :: ·) <$> decodeFrom 0 rest := by
  cases h with
  | plain hc => exact decodeFrom_plain hc.1
  | simple hname =>
    obtain ⟨hfeed, hescape⟩ := escape_of_simple hname rest
    rw [List.cons_append, List.singleton_append, decodeFrom_escaped hfeed, hescape]
    rfl
  | coded form hdigits hbound =>
    -- What belongs to the escape is passed over, and the reading goes on with what follows it.
    obtain ⟨first, later, hcut, hfeed, hescape⟩ := escape_eq_ok_of_coded hdigits rest
    rw [hcut, List.cons_append, List.cons_append, decodeFrom_escaped hfeed, hescape]
    simp only [List.drop_left, bind, Except.bind]

theorem decodeFrom_flatten (h : List.Forall₂ Writes pieces chars) :
    decodeFrom 0 pieces.flatten = .ok chars := by
  induction h with
  | nil => rfl
  | cons hpiece hrest ih =>
    rw [List.flatten_cons, decodeFrom_append_of_writes hpiece, ih]
    rfl

/-- **Literals are read piece by piece.**  An interpreted literal denotes the characters that its
pieces write, one after the other; a raw literal denotes what stands between its quotes. -/
theorem denotesPieces :
    (∀ pieces chars, List.Forall₂ Writes pieces chars →
      decodeLiteral (quoted '\x22' pieces.flatten) = .ok (String.ofList chars)) ∧
    ∀ inside, decodeLiteral (quoted '\x60' inside) = .ok (String.ofList inside) := by
  refine ⟨fun pieces chars h => ?_, fun inside => decodeLiteral_raw⟩
  rw [decodeLiteral_interpreted, decodeFrom_flatten h]
  rfl

/-- Backslashes and digits stand next to each other in this one: what looks like the rest of an
escape belongs to the next piece. -/
theorem denotesPieces_escapes :
    decodeLiteral "\"\\\\n\\1011\\x41f\\u00E90\\U0001F600\\\"é\"" = .ok "\\nA1Afé0😀\"é" := by
  have hoctal : CodeForm.octal.IsNumeral ['1', '0', '1'] 'A'.toNat :=
    ⟨rfl, [1, 0, 1], by simp [IsDigit, CodeForm.base], rfl⟩
  have hbyte : CodeForm.byte.IsNumeral ['4', '1'] 'A'.toNat :=
    ⟨rfl, [4, 1], by simp [IsDigit, CodeForm.base], rfl⟩
  have hshort : CodeForm.short.IsNumeral ['0', '0', 'E', '9'] 'é'.toNat :=
    ⟨rfl, [0, 0, 14, 9], by simp [IsDigit, CodeForm.base], rfl⟩
  have hlong : CodeForm.long.IsNumeral ['0', '0', '0', '1', 'F', '6', '0', '0'] '😀'.toNat :=
    ⟨rfl, [0, 0, 0, 1, 15, 6, 0, 0], by simp [IsDigit, CodeForm.base], rfl⟩
  let pieces : List (List Char) := ["\\\\", "n", "\\101", "1", "\\x41", "f", "\\u00E9", "0",
    "\\U0001F600", "\\\"", "é"].map String.toList
  have hquoted : quoted '\x22' pieces.flatten =
      "\"\\\\n\\1011\\x41f\\u00E90\\U0001F600\\\"é\"" := by decide +kernel
  rw [← hquoted]
  exact denotesPieces.1 pieces "\\nA1Afé0😀\"é".toList <|
    .cons (.simple (by decide)) <| .cons (.plain (by decide)) <|
    .cons (.coded .octal hoctal (by decide)) <| .cons (.plain (by decide)) <|
    .cons (.coded .byte hbyte (by decide)) <| .cons (.plain (by decide)) <|
    .cons (.coded .short hshort (by decide)) <| .cons (.plain (by decide)) <|
    .cons (.coded .long hlong (by decide)) <| .cons (.simple (by decide)) <|
    .cons (.plain (by decide)) .nil

end Pieces

end Literal

end GoConventions

import GoConventions.Text.CaseTable
import GoConventions.Text.CasedTable

/-!
# Letter case

Upper and lower case of whole texts, for all scripts.  A letter may have a longer image (the sharp s
becomes two letters in upper case), so the mappings work on texts and not on single characters.

Lower case looks at the surroundings in one place: a capital sigma that ends a word has the final
form.  It ends a word when the nearest character before it that is not transparent is a cased
letter and the nearest such character after it is not.

## Main definitions

* `upper`, `lower`: the mappings on texts.
* `isUpper`: the upper-case property of a single letter, which decides whether a name is exported.

## Main results

* `upperChar_eq_toUpper`, `lowerChar_eq_toLower`: on ASCII the mappings are the mappings of `Char`.
-/

namespace GoConventions.Text

/-- The image of a code point under a mapping listed as runs. -/
def imageIn (n : Nat) : List (Nat × Nat × Nat × Nat) → Option Nat
  | [] => none
  | (first, last, step, image) :: runs =>
    if n < first then none
    else if n ≤ last then
      if (n - first) % step = 0 then some (image + (n - first)) else none
    else imageIn n runs

/-- The image of a code point under a mapping listed point by point, in ascending order. -/
def longImageIn (n : Nat) : List (Nat × List Nat) → Option (List Nat)
  | [] => none
  | (point, image) :: points =>
    if n < point then none else if n = point then some image else longImageIn n points

/-- Whether a code point lies in one of the ascending runs. -/
def inRuns (n : Nat) : List (Nat × Nat) → Bool
  | [] => false
  | (first, last) :: runs =>
    if n < first then false else if n ≤ last then true else inRuns n runs

/-- Whether a code point lies in one of the ascending stepped runs. -/
def inSteppedRuns (n : Nat) : List (Nat × Nat × Nat) → Bool
  | [] => false
  | (first, last, step) :: runs =>
    if n < first then false
    else if n ≤ last then (n - first) % step == 0
    else inSteppedRuns n runs

/-- The upper case of one character. -/
def upperChar (c : Char) : List Char :=
  match imageIn c.toNat upperRuns with
  | some image => [Char.ofNat image]
  | none =>
    match longImageIn c.toNat longUpper with
    | some image => image.map Char.ofNat
    | none => [c]

def upperChars (s : List Char) : List Char :=
  s.flatMap upperChar

/-- The upper case of a text. -/
def upper (s : String) : String :=
  String.ofList (upperChars s.toList)

/-- Whether a letter has the upper-case property. -/
def isUpper (c : Char) : Bool :=
  inSteppedRuns c.toNat upperCaseRuns

/-- Whether the nearest character that is not transparent is a cased letter. -/
def meetsCased : List Char → Bool
  | [] => false
  | c :: r => if inRuns c.toNat transparentRuns then meetsCased r else inRuns c.toNat casedRuns

/-- The lower case of one character, `before` being the characters before it, nearest first, and
`after` those after it. -/
def lowerChar (before : List Char) (c : Char) (after : List Char) : List Char :=
  if c = 'Σ' then [if meetsCased before && !meetsCased after then 'ς' else 'σ']
  else if c = 'İ' then ['i', '\u0307']
  else
    match imageIn c.toNat lowerRuns with
    | some image => [Char.ofNat image]
    | none => [c]

/-- The lower case of the rest of a text, given the characters before it, nearest first. -/
def lowerCharsAfter (before : List Char) : List Char → List Char
  | [] => []
  | c :: r => lowerChar before c r ++ lowerCharsAfter (c :: before) r

/-- The lower case of a text. -/
def lower (s : String) : String :=
  String.ofList (lowerCharsAfter [] s.toList)

/-- On ASCII the upper case is that of `Char`. -/
theorem upperChar_eq_toUpper : ∀ n : Fin 128,
    upperChar (Char.ofNat n) = [(Char.ofNat n).toUpper] := by
  decide +kernel

/-- On ASCII the lower case is that of `Char`, whatever stands around it. -/
theorem lowerChar_eq_toLower (before after : List Char) : ∀ n : Fin 128,
    lowerChar before (Char.ofNat n) after = [(Char.ofNat n).toLower] := by
  have plain : ∀ n : Fin 128, Char.ofNat n ≠ 'Σ' ∧ Char.ofNat n ≠ 'İ' ∧
      (match imageIn (Char.ofNat n).toNat lowerRuns with
        | some image => [Char.ofNat image]
        | none => [Char.ofNat n]) = [(Char.ofNat n).toLower] := by
    decide +kernel
  intro n
  obtain ⟨sigma, dotted, image⟩ := plain n
  rw [lowerChar, if_neg sigma, if_neg dotted, image]

/-- The ASCII letters with the upper-case property are those of `Char`. -/
theorem isUpper_eq_isUpper : ∀ n : Fin 128, isUpper (Char.ofNat n) = (Char.ofNat n).isUpper := by
  decide +kernel

end GoConventions.Text

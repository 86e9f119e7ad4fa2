/-!
# Byte offsets and character offsets

A parser counts bytes of the UTF-8 form of a text, and this library counts characters.
`charOffsets` lists, for every byte, the character it belongs to, with one more entry for the end of
the text; `charOffset` converts any integer.

An offset past the end is not moved to the end but as far past it in characters as it is in bytes,
and a negative one stays as it is, so that neither can be taken for a place in the text.  For a text
of one-byte characters the conversion is the identity, and no table is needed.
-/

namespace GoConventions.Text

/-- For every byte of a text whose first character has the index `i`, the index of its character,
and the index of the end. -/
def offsetsFrom (i : Nat) : List Char → List Nat
  | [] => [i]
  | c :: r => List.replicate c.utf8Size i ++ offsetsFrom (i + 1) r

/-- For every byte the index of its character, and for the end the number of characters. -/
def charOffsets (s : String) : List Nat :=
  offsetsFrom 0 s.toList

/-- The character offset that a table gives for a byte offset. -/
def offsetIn (table : List Nat) (length : Nat) (byte : Int) : Int :=
  if byte < 0 then byte
  else
    match table[byte.toNat]? with
    | some i => i
    | none => length + byte - table.length + 1

/-- Whether every character has one byte. -/
def isAsciiText (s : String) : Bool :=
  s.toList.all fun c => c.toNat < 128

/-- The character offset of a byte offset. -/
def charOffset (s : String) (byte : Int) : Int :=
  if isAsciiText s then byte else offsetIn (charOffsets s) s.length byte

end GoConventions.Text

/-!
# Columns

How wide a text is when its tabs are shown, and how a text is padded to a column of a table.
-/

namespace GoConventions.Text

/-- The number of columns of the characters, the first one standing in `column`.  A tab reaches to
the next multiple of `tab`; a carriage return or line feed takes one column and returns to the
margin. -/
def widthFrom (tab column : Nat) : List Char → Nat
  | [] => 0
  | c :: r =>
    if c = '\t' then (tab - column % tab) + widthFrom tab (column + (tab - column % tab)) r
    else 1 + widthFrom tab (if c = '\n' || c = '\r' then 0 else column + 1) r

/-- The number of columns of a line whose tab stops are `tab` columns apart. -/
def width (tab : Nat) (s : String) : Nat :=
  widthFrom tab 0 s.toList

/-- The text, followed by blanks up to the given number of characters. -/
def padRight (columns : Nat) (s : String) : String :=
  s ++ String.ofList (List.replicate (columns - s.toList.length) ' ')

/-- The text, after blanks up to the given number of characters. -/
def padLeft (columns : Nat) (s : String) : String :=
  String.ofList (List.replicate (columns - s.toList.length) ' ') ++ s

/-- A line of the given number of characters `c`. -/
def rule (c : Char) (columns : Nat) : String :=
  String.ofList (List.replicate columns c)

end GoConventions.Text

import GoConventions.Json.Value
import GoConventions.Number.Shortest
import GoConventions.Text.Quoted

/-!
# Values in messages

The text of a value where a message shows it or a name is taken from it.  A text stands for itself;
inside a list or an object, and wherever a message must tell a text from a number, it is quoted.
The words for the constants and the brackets are those of the messages.
-/

namespace GoConventions

namespace Json

mutual

/-- A value as it is shown inside a message: texts are quoted. -/
def shown : Json → String
  | .null => "None"
  | .bool b => if b then "True" else "False"
  | .int n => toString n
  | .real x => x.shortest
  | .str s => Text.quoted s
  | .arr items => "[" ++ ", ".intercalate (shownItems items) ++ "]"
  | .obj members => "\x7b" ++ ", ".intercalate (shownMembers members) ++ "\x7d"

def shownItems : List Json → List String
  | [] => []
  | item :: items => item.shown :: shownItems items

def shownMembers : List (String × Json) → List String
  | [] => []
  | (key, value) :: members => (Text.quoted key ++ ": " ++ value.shown) :: shownMembers members

end

/-- The text of a value: a text itself, any other value as it is shown. -/
def text : Json → String
  | .str s => s
  | value => value.shown

end Json

/-- The text of a member, or the given text when there is no such member. -/
def Members.textOr (members : Members) (key default : String) : String :=
  match members.lookup key with
  | some value => value.text
  | none => default

example : (Json.arr [.null, .bool true, .str "a'b", .obj [("k", .int (-5))]]).shown =
    "[None, True, \"a'b\", \x7b'k': -5\x7d]" := by decide +kernel

end GoConventions

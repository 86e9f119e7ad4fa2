import GoConventions.Tree.Draft

/-!
# Receivers, parameters and results

The parts of a function's signature.  A field gives several names one type, or none a type; a
parameter without a name stands for itself, and a result counts once for each of its names.

The functions here record what they meet, and hand the type of each field to the walk of the body's
language, which is a parameter: the walk of function literals comes back here.
-/

namespace GoConventions

/-- How the parts of a node are walked: the value, the scope it stands in, and what becomes of the
results of a call. -/
abbrev TreeWalk := Json → Nat → CallContext → TreeReader Unit

variable (src : SourceText) (walk : TreeWalk)

/-- The fields of a field list; anything but a node has none. -/
def fieldsOf : Json → TreeResult (List Members)
  | .obj node => nodesIn (Members.get node "list")
  | _ => .ok []

/-- Declares one name of a parameter field. -/
def declareParameter (typeText : String) (scope : Nat) (name : Members) : TreeReader Param := do
  let span ← src.span name
  recordIdentifier src (.obj name)
  if name.name != "_" then
    declare { name := name.name, kind := .variableName, exported := false, scope, span,
              nameSpan := span, isParameter := true }
  return ⟨some name.name, typeText, span⟩

/-- The parameters of one field. -/
def parametersOfField (scope : Nat) (field : Members) : TreeReader (List Param) := do
  let typeText ← src.sourceOrEmpty (field.get "type")
  walk (field.get "type") scope .other
  let names ← nodesIn (field.get "names")
  if names.isEmpty then return [⟨none, typeText, ← src.span field⟩]
  else names.mapM (declareParameter src typeText scope)

/-- Declares the parameters of a field list in a scope. -/
def declareParameters (fieldList : Json) (scope : Nat) : TreeReader (List Param) := do
  return (← (← fieldsOf fieldList).mapM (parametersOfField src walk scope)).flatten

/-- The type of one result field, once for each of its names. -/
def resultsOfField (scope : Nat) (field : Members) : TreeReader (List String) := do
  let typeText ← src.sourceOrEmpty (field.get "type")
  walk (field.get "type") scope .other
  let names ← nodesIn (field.get "names")
  names.forM fun name => recordIdentifier src (.obj name)
  return List.replicate (max 1 names.length) typeText

/-- The types of the results of a field list. -/
def resultTypes (fieldList : Json) (scope : Nat) : TreeReader (List String) := do
  return (← (← fieldsOf fieldList).mapM (resultsOfField src walk scope)).flatten

/-- What is left of a receiver type below type arguments and parentheses, over at most the given
number of steps. -/
def baseTypeWithin : Nat → Json → Json
  | 0, value => value
  | steps + 1, value =>
    match value with
    | .obj node =>
      if ["IndexExpr", "IndexListExpr", "ParenExpr"].any (Members.hasKind node) then
        baseTypeWithin steps (Members.get node "x")
      else value
    | _ => value

/-- What is left of a receiver type below type arguments and parentheses. -/
def baseType (value : Json) : Json :=
  baseTypeWithin value.height value

/-- The name of a receiver's type: that of the identifier below it, else its source. -/
def receiverTypeName (typeNode : Members) (base : Json) : TreeReader String := do
  match base with
  | .obj node =>
    if Members.hasKind node "Ident" then
      recordIdentifier src base
      return Members.name node
    else src.sourceOf typeNode
  | _ => src.sourceOf typeNode

/-- The receiver that a field list declares: its first field. -/
def receiver? (fieldList : Json) : TreeReader (Option Receiver) := do
  match ← fieldsOf fieldList with
  | [] => return none
  | field :: _ => do
    let names ← nodesIn (field.get "names")
    let typeNode ← nodeOrEmpty (field.get "type")
    let pointer := typeNode.hasKind "StarExpr"
    let base := baseType (if pointer then typeNode.get "x" else .obj typeNode)
    let typeName ← receiverTypeName src typeNode base
    names.forM fun name => recordIdentifier src (.obj name)
    return some {
      name := names.head?.map fun name => (name.get "name").text
      typeName, pointer, span := ← src.span field }

end GoConventions

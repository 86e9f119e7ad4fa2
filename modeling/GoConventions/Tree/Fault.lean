import GoConventions.Source.Literal

/-!
# Faults of a tree document

Why a tree document cannot be read.  Most faults are *malformations*: the document says something
that cannot be right, and the message names the file.  The others are values of the wrong shape in a
place where the reader has no words for them; each is told apart by its constructor and has no
message.
-/

namespace GoConventions

/-- What is wrong with a tree document. -/
inductive Malformation where
  | unreadableDocument (reason : String)
  | missingDocument
  | documentNotObject
  | missingPath
  | missingSource (file : String)
  | sourceNotText
  | missingTree
  | rootNotFile
  | missingPackage
  | importWithoutPath
  | missingPosition (kind side : String)
  | incompletePosition (kind side : String)
  | outsideSource (kind : String) (offset : Int)
  | wrongLine (kind : String) (line offset : Int)
  | noDocuments (roots : List String)
  deriving DecidableEq, Repr

def Malformation.message : Malformation → String
  | .unreadableDocument reason => "cannot parse tree document: " ++ reason
  | .missingDocument => "tree document not found"
  | .documentNotObject => "tree document is not a mapping"
  | .missingPath => "tree document has no 'path'"
  | .missingSource file => "source file " ++ file ++ " not found"
  | .sourceNotText => "'source' must be a string"
  | .missingTree => "tree document has no 'tree'"
  | .rootNotFile => "tree root must be a File node"
  | .missingPackage => "File node has no package clause"
  | .importWithoutPath => "ImportSpec has no path"
  | .missingPosition kind side => kind ++ " node has no '" ++ side ++ "' position"
  | .incompletePosition kind side => kind ++ " node has an incomplete '" ++ side ++ "' position"
  | .outsideSource kind offset =>
    kind ++ " offset " ++ toString offset ++ " is outside the source"
  | .wrongLine kind line offset =>
    kind ++ " line " ++ toString line ++ " does not match offset " ++ toString offset
  | .noDocuments roots => "no tree documents found in " ++ ", ".intercalate roots

/-- Why a tree document cannot be read. -/
inductive TreeFault where
  | malformed (path : Option String) (what : Malformation)
  /-- A value that must be an object is something else. -/
  | notObject
  /-- A value that must be a list is something else. -/
  | notList
  /-- The kind of a node is a list or an object. -/
  | compoundKind
  /-- A string literal denotes no text. -/
  | literal (fault : LiteralFault)
  /-- A number of a position is infinite. -/
  | infiniteNumber
  deriving DecidableEq, Repr

/-- The wording of a malformation, after the path of the file where one is known. -/
def malformationMessage (path : Option String) (what : Malformation) : String :=
  match path with
  | some path => if path.isEmpty then what.message else path ++ ": " ++ what.message
  | none => what.message

end GoConventions

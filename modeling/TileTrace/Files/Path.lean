import TileTrace.Text.Split

/-!
# Paths

A path is a text of pieces between slashes. Its last name tells how a file is written, and a sibling is
another name in the same directory. Empty pieces and single dots lead nowhere and do not count behind
the beginning of a path. An operation on a path may fail, with what the operating system says then.
-/

namespace TileTrace

inductive FileFault
  | notFound
  | isDirectory
  | notDirectory
  | alreadyExists
  | busy
  /-- A name of more bytes than a directory takes, or a path of more bytes than the system takes. -/
  | nameTooLong
  /-- A path with a character zero. -/
  | badName
  /-- Anything else, in the words of the system. -/
  | other (text : String)
  deriving DecidableEq

def FileFault.message : FileFault → String
  | notFound => "No such file or directory (os error 2)"
  | isDirectory => "Is a directory (os error 21)"
  | notDirectory => "Not a directory (os error 20)"
  | alreadyExists => "File exists (os error 17)"
  | busy => "Device or resource busy (os error 16)"
  | nameTooLong => "File name too long (os error 36)"
  | badName => "file name contained an unexpected NUL byte"
  | other text => text

namespace Path

def pieces (p : String) : List (List Char) :=
  Text.splitAt '/' p.toList

def ofPieces (ps : List (List Char)) : String :=
  String.ofList (['/'].intercalate ps)

def leadsNowhere (piece : List Char) : Bool :=
  piece.isEmpty || piece == ['.']

def trimEnd (ps : List (List Char)) : List (List Char) :=
  (ps.reverse.dropWhile leadsNowhere).reverse

/-- The piece that says where a path begins, and the pieces behind it: nothing in front of the slash of
an absolute path, or a first dot. -/
def splitRoot : List (List Char) → List (List Char) × List (List Char)
  | [] :: piece :: ps => ([[]], piece :: ps)
  | ['.'] :: ps => ([['.']], ps)
  | ps => ([], ps)

def splitName? (p : String) : Option (List (List Char) × List Char) :=
  let (root, body) := splitRoot (pieces p)
  match (trimEnd body).reverse with
  | [] => none
  | ['.', '.'] :: _ => none
  | name :: directory => some (root ++ trimEnd directory.reverse, name)

def name? (p : String) : Option (List Char) :=
  (splitName? p).map (·.2)

/-- What stands behind the last dot of a name, unless that is its first character. -/
def extension? (name : List Char) : Option (List Char) :=
  let (extension, stem) := name.reverse.span (· ≠ '.')
  match stem with
  | '.' :: _ :: _ => some extension.reverse
  | _ => none

def child (directory : String) (name : List Char) : String :=
  if directory = "" then String.ofList name
  else if directory.toList.getLast? = some '/' then directory ++ String.ofList name
  else directory ++ "/" ++ String.ofList name

/-- The path to another name in the directory of a path. A path that does not end in a name is taken as
the directory. -/
def withName (p : String) (name : List Char) : String :=
  match splitName? p with
  | some (directory, _) => ofPieces (directory ++ [name])
  | none => child p name

def parent? (p : String) : Option String :=
  let (root, body) := splitRoot (pieces p)
  match (trimEnd body).reverse, root with
  | _ :: directory, [[]] =>
    let ps := trimEnd directory.reverse
    some (if ps.isEmpty then "/" else ofPieces ([] :: ps))
  | _ :: directory, root => some (ofPieces (root ++ trimEnd directory.reverse))
  | [], [['.']] => some ""
  | [], _ => none

end Path

end TileTrace

import MapCatalog.Text.Pieces

/-! # Paths -/

namespace MapCatalog

namespace Path

def isIdle (name : List Char) : Bool :=
  name == [] || name == ['.']

def names (path : String) : List String :=
  ((Text.pieces (· == '/') path.toList).filter fun name => !isIdle name).map String.ofList

/-- Where a path leads: whether it starts at the root, and the names from there. -/
structure Place where
  absolute : Bool
  names : List String
deriving DecidableEq

def place (path : String) : Place :=
  ⟨path.toList.head? == some '/', names path⟩

/-- Drop the slashes and idle names at the end of reversed characters. -/
def dropIdleEnd : List Char → List Char
  | '/' :: rest => dropIdleEnd rest
  | '.' :: '/' :: rest => dropIdleEnd rest
  | other => other

/--
A path cut before its last name: the characters before the name, and the name.  The root, the empty
path and a path to a parent end in no name.
-/
def splitName? (path : String) : Option (List Char × List Char) :=
  let reversed := dropIdleEnd path.toList.reverse
  let name := (reversed.takeWhile (· != '/')).reverse
  let folder := (reversed.dropWhile (· != '/')).reverse
  if isIdle name ∨ name = ['.', '.'] then none else some (folder, name)

/-- A name without its extension; a dot in front of a name starts no extension. -/
def stem (name : List Char) : List Char :=
  let reversed := name.reverse
  let beforeDot := ((reversed.dropWhile (· != '.')).drop 1).reverse
  if beforeDot = [] then name else beforeDot

def temporaryExtension : List Char :=
  ".json.tmp".toList

/-- The temporary file beside a file.  A path that ends in no name stays as it is. -/
def temporary (path : String) : String :=
  match splitName? path with
  | none => path
  | some (folder, name) => String.ofList (folder ++ stem name ++ temporaryExtension)

def folder? (path : String) : Option String :=
  let reversed := dropIdleEnd path.toList.reverse
  let folder := reversed.dropWhile (· != '/')
  match dropIdleEnd folder with
  | [] => if folder = [] then none else some "/"
  | rest => some (String.ofList rest.reverse)

end Path

end MapCatalog

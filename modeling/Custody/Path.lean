/-!
# Paths

File paths as texts with slashes. Nothing is normalized: joining puts a slash between
the parts where one is needed, and the parent of a path is what stands before its last
component, where empty components and single dots at the end do not count.

A path is kept as it was written because it is shown again, in messages and as the name
of a unit, and because a path with two dots cannot be shortened without asking the file
system what it leads through. Only the question of what is above a path, which the
search for a configuration asks, looks inside; it keeps all that comes before the
component it cuts off.
-/

set_option autoImplicit false

namespace Custody.Path

/-- Whether a path starts from the root. -/
def isAbsolute (path : String) : Bool := path.toList.head? == some '/'

/-- A path followed by another; an absolute one replaces it. -/
def join (base path : String) : String :=
  if isAbsolute path then path
  else if base.isEmpty || base.toList.getLast? == some '/' then base ++ path
  else base ++ "/" ++ path

/-- The parts between slashes. -/
def components (text : List Char) : List (List Char) :=
  text.foldr (fun c parts =>
    match c, parts with
    | '/', _ => [] :: parts
    | _, part :: rest => (c :: part) :: rest
    | _, [] => [[c]]) [[]]

/-- A part that does not name anything: what stands between two slashes in a row, or a
single dot. -/
def isIdle (part : List Char) : Bool := part == [] || part == ['.']

/-- Parts without idle ones at the end. -/
def trimEnd (parts : List (List Char)) : List (List Char) :=
  (parts.reverse.dropWhile isIdle).reverse

/-- The start of a path that is not one of its parts, the root or the dot for the
current directory, and the parts after it. -/
def split (path : String) : List Char × List (List Char) :=
  match path.toList with
  | '/' :: rest => (['/'], components rest)
  | ['.'] => (['.'], components [])
  | '.' :: '/' :: rest => (['.'], components ('/' :: rest))
  | text => ([], components text)

/-- The path of the directory that holds what a path names; there is none above the root
or the empty path. -/
def parent? (path : String) : Option String :=
  let (start, parts) := split path
  match (trimEnd parts).reverse with
  | [] => if start = ['.'] then some "" else none
  | _ :: above => some (String.ofList (start ++ ['/'].intercalate (trimEnd above.reverse)))

/-- A path and those above it. Each is shorter than the one before, so as many steps as
the path has characters are enough, and the recursion is on their number. -/
def upwards : Nat → String → List String
  | 0, path => [path]
  | steps + 1, path =>
    match parent? path with
    | some above => path :: upwards steps above
    | none => [path]

def ancestors (path : String) : List String := upwards path.length path

end Custody.Path

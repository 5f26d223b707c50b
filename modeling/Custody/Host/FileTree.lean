import Custody.Host.Basic
import Custody.Path

/-!
# A host in memory

A tree of files and directories, a current directory, a standard input and a clock that
stands still. Paths are followed part by part: every part but the last has to be a
directory, and so has the last if a slash or a dot comes after it. Only what a last
name, or one before slashes, names may be missing.

It behaves as a machine does where a command can notice: the same faults in the same
situations, and nothing changed by an operation that fails (`change`). There are no
links and no permissions, since no command asks for either.
-/

set_option autoImplicit false

namespace Custody

/-- A file or a directory. -/
inductive Node where
  | file (text : String)
  | dir (entries : List (String × Node))
deriving Repr, Inhabited

namespace Node

def find? : Node → List String → Option Node
  | node, [] => some node
  | file _, _ :: _ => none
  | dir entries, name :: rest =>
    match entries.lookup name with
    | some node => find? node rest
    | none => none

def setEntry (entries : List (String × Node)) (name : String) (node : Node) :
    List (String × Node) :=
  if (entries.lookup name).isSome then
    entries.map fun (n, old) => if n = name then (n, node) else (n, old)
  else entries ++ [(name, node)]

/-- The tree with a node put where names lead; directories on the way are made. A file
in the way stays, and then nothing changes. -/
def put (new : Node) : Node → List String → Node
  | _, [] => new
  | file text, _ :: _ => file text
  | dir entries, name :: rest =>
    dir (setEntry entries name (put new ((entries.lookup name).getD (dir [])) rest))

end Node

structure Place where
  /-- The names from the root. -/
  names : List String
  /-- What is there. -/
  node? : Option Node
  /-- Nothing is there, and a slash comes after the last name. -/
  asDir : Bool

/-- Where the parts of a path lead from the directory that `names` lead to. -/
def Node.locate (root : Node) : List String → List String → Except Fault Place
  | names, [] => .ok ⟨names, root.find? names, false⟩
  | names, part :: rest =>
    match root.find? names with
    | some (.dir _) =>
      if part = "" || part = "." then root.locate names rest
      else if part = ".." then root.locate names.dropLast rest
      else
        let inner := names ++ [part]
        match root.find? inner with
        | some _ => root.locate inner rest
        | none =>
          if rest.all (·.isEmpty) then .ok ⟨inner, none, !rest.isEmpty⟩
          else .error .noEntry
    | some (.file _) => .error .notDirectory
    | none => .error .noEntry

structure FileTree where
  root : Node
  /-- The path of the current directory, from the root. -/
  currentDir : String
  input : String
  clock : Timestamp

namespace FileTree

def parts (path : String) : List String := (Path.components path.toList).map String.ofList

/-- A tree with files in the current directory. -/
def ofFiles (currentDir : String) (files : List (String × String)) (input : String)
    (clock : Timestamp) : FileTree :=
  let names (path : String) := (parts (Path.join currentDir path)).filter (!·.isEmpty)
  let start := Node.put (.dir []) (.dir []) (names "")
  { root := files.foldl (fun root (path, text) => Node.put (.file text) root (names path)) start
    currentDir, input, clock }

/-- Where a path leads. The empty path leads nowhere; a path that is not absolute leads
on from the current directory. -/
def locate (tree : FileTree) (path : String) : Except Fault Place :=
  if path.isEmpty then .error .noEntry
  else tree.root.locate [] (parts (Path.join tree.currentDir path))

def node? (tree : FileTree) (path : String) : Option Node :=
  match tree.locate path with
  | .ok place => place.node?
  | .error _ => none

def read (tree : FileTree) (path : String) : Except Fault String := do
  match (← tree.locate path).node? with
  | some (.file text) => return text
  | some (.dir _) => throw .isDirectory
  | none => throw .noEntry

def isFile (tree : FileTree) (path : String) : Bool :=
  match tree.node? path with
  | some (.file _) => true
  | _ => false

def isDir (tree : FileTree) (path : String) : Bool :=
  match tree.node? path with
  | some (.dir _) => true
  | _ => false

def write (tree : FileTree) (path text : String) : Except Fault FileTree := do
  let place ← tree.locate path
  match place.node? with
  | some (.dir _) => throw .isDirectory
  | some (.file _) => return { tree with root := Node.put (.file text) tree.root place.names }
  | none =>
    if place.asDir then throw .isDirectory
    else return { tree with root := Node.put (.file text) tree.root place.names }

def makeDir (tree : FileTree) (path : String) : Except Fault FileTree := do
  let place ← tree.locate path
  match place.node? with
  | some _ => throw .alreadyExists
  | none => return { tree with root := Node.put (.dir []) tree.root place.names }

/-- A change of the tree, which stays as it is if the change fails. Every operation that
writes goes through this. -/
def change (f : FileTree → Except Fault FileTree) : StateM FileTree (Except Fault Unit) :=
  fun tree =>
    match f tree with
    | .ok changed => (.ok (), changed)
    | .error fault => (.error fault, tree)

def host : Host (StateM FileTree) where
  readFile path := return (← get).read path
  isFile path := return (← get).isFile path
  isDir path := return (← get).isDir path
  isPresent path := return ((← get).node? path).isSome
  makeDir path := change (·.makeDir path)
  writeFile path text := change (·.write path text)
  readInput := return .ok (← get).input
  currentDir := return .ok (← get).currentDir
  now := return (← get).clock

end FileTree

end Custody

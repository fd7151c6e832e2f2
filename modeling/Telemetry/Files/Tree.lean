import Telemetry.Command.Host

/-!
# File trees

Files and directories as a value, on which commands can run.

* `FileTree`: files and directories under one root.
* `FileTree.read`, `FileTree.write`, `FileTree.createDirectories`: what can be done with them.
* `Scene.host`: runs commands on a tree and collects what they print.
-/

namespace Telemetry

/-- What stands at a place in a tree. -/
inductive FileNode where
  | directory
  | file (content : List UInt8)
deriving DecidableEq

/-- The names that lead to a place, from the root on. -/
abbrev Place := List String

/-- Files and directories under one root. -/
structure FileTree where
  /-- What stands at places other than the root. -/
  nodes : List (Place × FileNode) := []
  /-- The directory in which relative paths begin. -/
  home : Place := []

namespace FileTree

/-- What stands at a place. The root is a directory. -/
def node? (t : FileTree) (place : Place) : Option FileNode :=
  if place.isEmpty then some .directory else t.nodes.lookup place

/-- Puts something at a place. -/
def put (t : FileTree) (place : Place) (node : FileNode) : FileTree :=
  { t with nodes := (place, node) :: t.nodes.filter (·.1 ≠ place) }

/-- The files of a tree with their places. -/
def files (t : FileTree) : List (Place × List UInt8) :=
  t.nodes.filterMap fun (place, node) =>
    match node with
    | .file content => some (place, content)
    | .directory => none

/-- The greatest number of bytes of a name. -/
def maxNameLength : Nat := 255

/-- The greatest number of bytes of a path. -/
def maxPathLength : Nat := 4095

/-- Goes from a place along names. Only directories lead further. -/
def walk (t : FileTree) (place : Place) : List String → Except FileError Place
  | [] => .ok place
  | name :: rest =>
    match t.node? place with
    | none => .error .missing
    | some (.file _) => .error .notADirectory
    | some .directory =>
      if name = "" ∨ name = "." then t.walk place rest
      else if name = ".." then t.walk place.dropLast rest
      else if maxNameLength < name.utf8ByteSize then .error .nameTooLong
      else t.walk (place ++ [name]) rest

/-- The place where a path begins, and the names on it. Between two slashes, and behind the last, a
name may be empty. -/
def names (t : FileTree) (path : String) : Except FileError (Place × List String) :=
  if '\x00' ∈ path.toList then .error .zeroInPath
  else if path = "" then .error .missing
  else if maxPathLength < path.utf8ByteSize then .error .nameTooLong
  else .ok (if path.startsWith "/" then [] else t.home, (path.toList.splitOn '/').map String.ofList)

/-- The content of a file. -/
def read (t : FileTree) (path : String) : Except FileError (List UInt8) := do
  let (start, names) ← t.names path
  match t.node? (← t.walk start names) with
  | none => throw .missing
  | some .directory => throw .isADirectory
  | some (.file content) => return content

/-- Writes a file, in place of one that may be there. A path that ends in a slash names a
directory. -/
def write (t : FileTree) (path : String) (content : List UInt8) : Except FileError FileTree := do
  let (start, names) ← t.names path
  if path.endsWith "/" then
    let above := (names.filter (· ≠ "")).dropLast
    discard <| t.walk start (above ++ [""])
    throw .isADirectory
  let place ← t.walk start names
  match t.node? place with
  | some .directory => throw .isADirectory
  | _ => return t.put place (.file content)

/-- Makes a directory at a place, with those above it. Nothing happens where there is one. -/
def makeDirectories (t : FileTree) (place : Place) : List String → Except FileError FileTree
  | [] => .ok t
  | name :: rest =>
    if name = "" ∨ name = "." then t.makeDirectories place rest
    else if name = ".." then t.makeDirectories place.dropLast rest
    else if maxNameLength < name.utf8ByteSize then .error .nameTooLong
    else
      let next := place ++ [name]
      match t.node? next with
      | some .directory => t.makeDirectories next rest
      | some (.file _) =>
        .error (if rest.all (fun name => name = "") then .alreadyThere else .notADirectory)
      | none => (t.put next .directory).makeDirectories next rest

/-- Makes a directory and all that are missing above it. There is nothing to do for the empty
path. -/
def createDirectories (t : FileTree) (path : String) : Except FileError FileTree :=
  if path = "" then .ok t
  else do
    let (start, names) ← t.names path
    t.makeDirectories start names

end FileTree

/-- A tree and what commands have printed. -/
structure Scene where
  tree : FileTree
  printed : String := ""
  reported : String := ""

namespace Scene

/-- Changes the tree, unless that fails. -/
def change (f : FileTree → Except FileError FileTree) : StateM Scene (Except FileError Unit) :=
  fun scene =>
    match f scene.tree with
    | .ok tree => (.ok (), { scene with tree })
    | .error e => (.error e, scene)

/-- Runs commands on the tree of a scene. -/
def host : Host (StateM Scene) where
  readFile path := do return (← get).tree.read path
  createDirectories path := change (·.createDirectories path)
  writeFile path content := change (·.write path content)
  print text := modify fun scene => { scene with printed := scene.printed ++ text }
  report text := modify fun scene => { scene with reported := scene.reported ++ text }

end Scene

end Telemetry

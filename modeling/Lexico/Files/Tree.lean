import Lexico.Files.Error

/-!
# Trees of files

A **tree** says which places hold a file or a directory; a place is the list of names that leads to
it from the root. A path is followed name by name, from the root or from the working directory. Any
path may be refused besides, to be read or to be written, for a reason of its own. To read or to
create a file either succeeds or says why not; `create` changes one place alone (`node?_put_of_ne`).
-/

namespace Lexico.Files

/-- The names that lead from the root to a file or directory. -/
abbrev Place := List String

/-- What a place holds. -/
inductive Node where
  | file (content : ByteArray)
  | directory

/-- What a path is opened for. -/
inductive Access where
  /-- To read the file. -/
  | reading
  /-- To write the file, which need not be there yet. -/
  | writing
  deriving DecidableEq, Repr

/-- What some places hold, the latest first, where paths start that do not start at the root, and
why a path is not opened, if it is refused. -/
structure Tree where
  nodes : List (Place × Node)
  workingDirectory : Place
  refusal : Access → String → Option FileError := fun _ _ => none

/-- Where a path leads. -/
inductive Target where
  /-- To a directory, by its form. -/
  | directory
  /-- To a name in a directory; `slashed` if a slash follows the name. -/
  | entry (parent : Place) (name : String) (slashed : Bool)
  deriving DecidableEq

namespace Tree

/-- A path has fewer bytes than this. -/
def pathLimit : Nat := 4096

/-- A name has at most this many bytes. -/
def nameLimit : Nat := 255

/-! ### Places -/

/-- What a place holds; the root is a directory. -/
def node? (t : Tree) (place : Place) : Option Node :=
  if place = [] then some .directory else t.nodes.lookup place

/-- The tree in which a place holds something else; the latest entry for a place counts. -/
def put (t : Tree) (place : Place) (node : Node) : Tree :=
  { t with nodes := (place, node) :: t.nodes }

/-- The place holds what was put there. -/
theorem node?_put_self {t : Tree} {place : Place} {node : Node} (h : place ≠ []) :
    (t.put place node).node? place = some node := by
  simp [node?, put, h]

/-- Other places hold what they held. -/
theorem node?_put_of_ne {t : Tree} {place other : Place} {node : Node} (h : other ≠ place) :
    (t.put place node).node? other = t.node? other := by
  simp [node?, put, List.lookup_cons, beq_eq_false_iff_ne.2 h]

/-- The tree with a node at the end of some names, and directories on the way there. -/
def install (t : Tree) (base : Place) (names : List String) (node : Node) : Tree :=
  match names with
  | [] => t.put base node
  | name :: rest =>
    let t := match t.node? base with
      | some _ => t
      | none => t.put base .directory
    t.install (base ++ [name]) rest node

/-- The names on a path. -/
def names (path : String) : List String :=
  ((path.toList.splitOn '/').filter (· ≠ [])).map String.ofList

/-- The tree that holds a working directory and nothing else. -/
def ofWorkingDirectory (place : Place) : Tree :=
  install { nodes := [], workingDirectory := place } [] place .directory

/-- The tree with a node at a path from the working directory, and directories on the way there. -/
def installAt (t : Tree) (path : String) (node : Node) : Tree :=
  t.install t.workingDirectory ((names path).filter (· ≠ ".")) node

/-! ### Paths -/

/-- The place of the directory that a name leads to. -/
def enter (t : Tree) (place : Place) (name : String) : Except FileError Place :=
  if name = "." then .ok place
  else if name = ".." then .ok place.dropLast
  else if nameLimit < name.utf8ByteSize then .error .nameTooLong
  else
    match t.node? (place ++ [name]) with
    | some .directory => .ok (place ++ [name])
    | some (.file _) => .error .notADirectory
    | none => .error .notFound

/-- Where a path leads. The names before the last have to lead to directories. -/
def locate (t : Tree) (path : String) : Except FileError Target :=
  if '\x00' ∈ path.toList then .error .nulInName
  else if pathLimit ≤ path.utf8ByteSize then .error .nameTooLong
  else if path = "" then .error .notFound
  else
    let start := if path.toList.head? = some '/' then [] else t.workingDirectory
    match (names path).getLast? with
    | none => .ok .directory
    | some last => do
      let parent ← (names path).dropLast.foldlM t.enter start
      if last = "." || last = ".." then return .directory
      else return .entry parent last (path.toList.getLast? = some '/')

/-- Where a path leads that is opened. -/
def openAt (t : Tree) (access : Access) (path : String) : Except FileError Target :=
  match t.refusal access path with
  | some e => .error e
  | none => t.locate path

/-- The content of the file at a path. -/
def read (t : Tree) (path : String) : Except FileError ByteArray := do
  match ← t.openAt .reading path with
  | .directory => throw .isADirectory
  | .entry parent name slashed =>
    if nameLimit < name.utf8ByteSize then throw .nameTooLong
    else
      match t.node? (parent ++ [name]) with
      | none => throw .notFound
      | some .directory => throw .isADirectory
      | some (.file content) => if slashed then throw .notADirectory else return content

/-- The tree in which the file at a path has the given content, whether it was there or not. -/
def create (t : Tree) (path : String) (content : ByteArray) : Except FileError Tree := do
  match ← t.openAt .writing path with
  | .directory => throw .isADirectory
  | .entry parent name slashed =>
    if slashed then throw .isADirectory
    else if nameLimit < name.utf8ByteSize then throw .nameTooLong
    else
      match t.node? (parent ++ [name]) with
      | some .directory => throw .isADirectory
      | _ => return t.put (parent ++ [name]) (.file content)

end Tree
end Lexico.Files

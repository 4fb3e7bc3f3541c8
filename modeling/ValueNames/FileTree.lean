import ValueNames.FileStore

/-!
# File trees

A tree of directories and files as a value, with a working directory. A place
in the tree is the list of names that leads to it from the root. Looking up a
path goes piece by piece: each piece needs a directory to be looked up in,
idle pieces stay where they are, and `..` goes up by one.

## Main results

* `node?_set` — setting a place changes that place and no other.
* `node?_erase` — erasing a place changes that place and no other.
* `node?_temporaryName` — the name of a temporary file is not taken.
-/

namespace ValueNames

/-- What stands at a place of a tree. -/
inductive FileNode
  | directory
  | file (content : ByteArray)

/-- Whether a node is a directory. -/
def FileNode.isDirectory : FileNode → Bool
  | directory => true
  | file _ => false

/-- A tree of files with a working directory. -/
structure FileTree where
  /-- The places other than the root, each listed once. -/
  nodes : List (List Text × FileNode) := []
  /-- The place at which relative paths start. -/
  start : List Text := []

namespace FileTree

/-! ## Places -/

/-- What stands at a place; the root is always a directory. -/
def node? (tree : FileTree) : List Text → Option FileNode
  | [] => some .directory
  | place => tree.nodes.lookup place

/-- The tree with nothing at a place. -/
def erase (tree : FileTree) (place : List Text) : FileTree :=
  { tree with nodes := tree.nodes.filter fun entry => !(entry.1 == place) }

/-- The tree with a node at a place. -/
def set (tree : FileTree) (place : List Text) (node : FileNode) : FileTree :=
  let rest := tree.erase place
  { rest with nodes := (place, node) :: rest.nodes }

theorem lookup_filter {nodes : List (List Text × FileNode)} {place other : List Text} :
    (nodes.filter fun entry => !(entry.1 == place)).lookup other =
      if other = place then none else nodes.lookup other := by
  induction nodes with
  | nil => simp
  | cons entry nodes ih =>
      obtain ⟨name, node⟩ := entry
      by_cases hName : name = place
      · subst hName
        by_cases hOther : other = name
        · simpa [hOther] using ih
        · have hNe : (other == name) = false := by simp [hOther]
          simpa [hOther, List.lookup_cons, hNe] using ih
      · by_cases hOther : other = name
        · simp [hOther, hName]
        · have hNe : (other == name) = false := by simp [hOther]
          simp [hName, List.lookup_cons, hNe, ih]

theorem node?_erase {tree : FileTree} {place other : List Text} (h : other ≠ []) :
    (tree.erase place).node? other = if other = place then none else tree.node? other := by
  cases other with
  | nil => exact absurd rfl h
  | cons name names => simpa [node?, erase] using lookup_filter

theorem node?_set {tree : FileTree} {place other : List Text} {node : FileNode} (h : other ≠ []) :
    (tree.set place node).node? other = if other = place then some node else tree.node? other := by
  cases other with
  | nil => exact absurd rfl h
  | cons name names =>
      by_cases hPlace : name :: names = place
      · simp [node?, set, hPlace]
      · have hErase : (tree.erase place).node? (name :: names) = _ := node?_erase h
        have hNe : (name :: names == place) = false := by simp [hPlace]
        simpa [node?, set, List.lookup_cons, hNe, hPlace] using hErase

/-! ## Looking up paths -/

/-- The fault of using something else as a directory. -/
def requireDirectory : Option FileNode → Except FileFault Unit
  | none => .error .notFound
  | some (.file _) => .error .notDirectory
  | some .directory => .ok ()

/-- Where a piece leads from a place. -/
def follow (place : List Text) (piece : Text) : List Text :=
  if Path.isIdle piece then place
  else if piece = ['.', '.'] then place.dropLast
  else place ++ [piece]

/-- The place that pieces lead to; the last piece may name what does not exist. -/
def walk (tree : FileTree) (place : List Text) : List Text → Except FileFault (List Text)
  | [] => .ok place
  | piece :: pieces => do
      requireDirectory (tree.node? place)
      walk tree (follow place piece) pieces

/-- The place at which looking up a path begins. -/
def base (tree : FileTree) (path : Text) : List Text :=
  if Path.isAbsolute path then [] else tree.start

/-- The place that a path leads to. -/
def resolve (tree : FileTree) (path : Text) : Except FileFault (List Text) :=
  if path = [] then .error .notFound
  else tree.walk (tree.base path) (Text.splitOn '/' path)

/-- The content of the file at a path. -/
def read (tree : FileTree) (path : Text) : Except FileFault ByteArray := do
  match tree.node? (← tree.resolve path) with
  | none => .error .notFound
  | some .directory => .error .isDirectory
  | some (.file content) => .ok content

/-- The absolute path of a place. -/
def pathOf (place : List Text) : Text := '/' :: Text.join ['/'] place

/-! ## Changing the tree -/

/-- The length of the longest name of a place. -/
def longestName (tree : FileTree) : Nat :=
  tree.nodes.foldr (fun entry longest => max (entry.1.getLastD []).length longest) 0

/-- A name that no place of the tree has. -/
def temporaryName (tree : FileTree) : Text :=
  ".tmp".toList ++ List.replicate tree.longestName '0'

theorem length_le_longestName {tree : FileTree} {entry : List Text × FileNode}
    (h : entry ∈ tree.nodes) : (entry.1.getLastD []).length ≤ tree.longestName := by
  unfold longestName
  generalize tree.nodes = nodes at h
  induction nodes with
  | nil => cases h
  | cons first nodes ih =>
      rw [List.foldr_cons]
      rcases List.mem_cons.mp h with rfl | hRest
      · exact Nat.le_max_left _ _
      · exact Nat.le_trans (ih hRest) (Nat.le_max_right _ _)

theorem node?_temporaryName (tree : FileTree) (place : List Text) :
    tree.node? (place ++ [tree.temporaryName]) = none := by
  have hLookup : tree.nodes.lookup (place ++ [tree.temporaryName]) = none := by
    rw [List.lookup_eq_none_iff]
    intro entry hEntry
    rw [bne_iff_ne]
    intro hEq
    have hLength := length_le_longestName hEntry
    rw [← hEq] at hLength
    simp [temporaryName] at hLength
    omega
  cases place <;> exact hLookup

/-- Adds a file under a name to the directory at a path. -/
def createTemporary (tree : FileTree) (directory name : Text) (content : ByteArray) :
    Except FileFault (Text × FileTree) := do
  let place ← tree.resolve directory
  requireDirectory (tree.node? place)
  return (Path.join directory name, tree.set (place ++ [name]) (.file content))

/-- The pieces of a path without the empty ones at its end, from the last to the first. -/
def targetPieces (path : Text) : List Text :=
  (Text.splitOn '/' path).reverse.dropWhile (· = [])

/--
The place at which a path names a file that can be replaced. Only a name will
do as the last piece, and no slash may follow it.
-/
def target (tree : FileTree) (path : Text) : Except FileFault (List Text) := do
  if path = [] then .error .notFound
  match targetPieces path with
  | [] => .error .busy
  | name :: pieces =>
    let directory ← tree.walk (tree.base path) pieces.reverse
    requireDirectory (tree.node? directory)
    if name = ['.'] ∨ name = ['.', '.'] then .error .busy
    if path.getLast? = some '/' then .error .notDirectory
    return directory ++ [name]

/-- Moves the file at a path to another path. -/
def rename (tree : FileTree) (source path : Text) : Except FileFault FileTree := do
  let sourcePlace ← tree.resolve source
  let content ← tree.read source
  let place ← tree.target path
  if (tree.node? place).any FileNode.isDirectory then .error .isDirectory
  return (tree.erase sourcePlace).set place (.file content)

/-- Removes the file at a path, if there is one. -/
def remove (tree : FileTree) (path : Text) : FileTree :=
  match tree.resolve path with
  | .error _ => tree
  | .ok place =>
    match tree.node? place with
    | some (.file _) => tree.erase place
    | _ => tree

/-! ## Setting up a tree -/

/--
Makes a directory of each place on the way of pieces where there is nothing, and
answers where the way ends.
-/
def makeDirectories (tree : FileTree) (place : List Text) : List Text → FileTree × List Text
  | [] => (tree, place)
  | piece :: pieces =>
      let next := follow place piece
      let tree := if (tree.node? next).isNone then tree.set next .directory else tree
      tree.makeDirectories next pieces

/-- Makes a directory at a path, together with those on the way. -/
def makeDirectory (tree : FileTree) (path : Text) : FileTree :=
  (tree.makeDirectories (tree.base path) (Text.splitOn '/' path)).1

/-- Puts a file at a path, together with the directories on the way. -/
def put (tree : FileTree) (path : Text) (content : ByteArray) : FileTree :=
  let pieces := Text.splitOn '/' path
  let (tree, directory) := tree.makeDirectories (tree.base path) pieces.dropLast
  tree.set (follow directory (pieces.getLastD [])) (.file content)

/-- The tree with the working directory at a path. -/
def enter (tree : FileTree) (path : Text) : FileTree :=
  { tree with start := (Text.splitOn '/' path).foldl follow (tree.base path) }

/-- All that is below a place, by the path that leads there from it. -/
def below (tree : FileTree) (place : List Text) : List (Text × FileNode) :=
  tree.nodes.filterMap fun (other, node) =>
    if place.isPrefixOf other ∧ other ≠ place then
      some (Text.join ['/'] (other.drop place.length), node)
    else none

/-! ## The operations of a file store -/

/-- Runs an operation that may change the tree. -/
def update {α : Type} (operation : FileTree → Except FileFault (α × FileTree)) :
    StateM FileTree (Except FileFault α) := fun tree =>
  match operation tree with
  | .error fault => (.error fault, tree)
  | .ok (a, tree) => (.ok a, tree)

instance : FileStore (StateM FileTree) where
  workingDirectory := fun tree => (.ok (pathOf tree.start), tree)
  read path := fun tree => (tree.read path, tree)
  isFile path := fun tree => ((tree.read path).isOk, tree)
  createTemporary directory content :=
    update fun tree => tree.createTemporary directory tree.temporaryName content
  rename source target := update fun tree => (tree.rename source target).map fun tree => ((), tree)
  remove path := fun tree => ((), tree.remove path)

end FileTree

end ValueNames

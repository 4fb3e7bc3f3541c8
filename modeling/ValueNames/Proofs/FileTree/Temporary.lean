import ValueNames.FileTree
import ValueNames.Proofs.Text.Pieces

/-!
# A temporary file in a tree

A temporary file has a name that is not taken in its directory. So taking it away again gives
back the very tree that was there, and no path leads elsewhere while it is there: on the
way of a path there are directories only, and these are the same.

## Main results

* `SameDirectories.resolve`, `SameDirectories.target` — paths lead to the same places in
  trees with the same directories.
* `IsFree.temporaryName` — a tree has a free name for every directory.
* `IsFree.erase_set` — without the temporary file the tree is as it was.
* `IsFree.resolve_join` — the path of a temporary file leads to it.
* `rename_temporary` — taking the place of a target is one change to the tree.
-/

namespace ValueNames.FileTree

open Text

/-! ## Trees with the same directories -/

/-- Trees with the same directories and the same working directory. -/
structure SameDirectories (tree other : FileTree) : Prop where
  start : other.start = tree.start
  directory : ∀ place, other.node? place = some .directory ↔ tree.node? place = some .directory

theorem SameDirectories.symm {tree other : FileTree} (same : SameDirectories tree other) :
    SameDirectories other tree :=
  ⟨same.start.symm, fun place => (same.directory place).symm⟩

theorem requireDirectory_eq_ok_iff {node : Option FileNode} :
    requireDirectory node = .ok () ↔ node = some .directory := by
  unfold requireDirectory
  split <;> simp

theorem walk_cons_eq_ok_iff {tree : FileTree} {place result : List Text} {piece : Text}
    {pieces : List Text} :
    tree.walk place (piece :: pieces) = .ok result ↔
      tree.node? place = some .directory ∧ tree.walk (follow place piece) pieces = .ok result := by
  have hBind : tree.walk place (piece :: pieces) =
      (requireDirectory (tree.node? place)).bind fun _ =>
        tree.walk (follow place piece) pieces := rfl
  rw [hBind, bind_eq_ok_iff]
  constructor
  · rintro ⟨⟨⟩, hDirectory, hWalk⟩
    exact ⟨requireDirectory_eq_ok_iff.mp hDirectory, hWalk⟩
  · rintro ⟨hDirectory, hWalk⟩
    exact ⟨(), requireDirectory_eq_ok_iff.mpr hDirectory, hWalk⟩

theorem walk_append_eq_ok_iff {tree : FileTree} {place result : List Text}
    {front back : List Text} :
    tree.walk place (front ++ back) = .ok result ↔
      ∃ between, tree.walk place front = .ok between ∧ tree.walk between back = .ok result := by
  induction front generalizing place with
  | nil => simp [walk]
  | cons piece front ih =>
      rw [List.cons_append, walk_cons_eq_ok_iff, ih]
      simp only [walk_cons_eq_ok_iff, and_assoc, exists_and_left]

theorem SameDirectories.walk {tree other : FileTree} (same : SameDirectories tree other)
    {place result : List Text} {pieces : List Text} :
    other.walk place pieces = .ok result ↔ tree.walk place pieces = .ok result := by
  induction pieces generalizing place with
  | nil => exact Iff.rfl
  | cons piece pieces ih => rw [walk_cons_eq_ok_iff, walk_cons_eq_ok_iff, same.directory, ih]

theorem SameDirectories.base {tree other : FileTree} (same : SameDirectories tree other)
    (path : Text) : other.base path = tree.base path := by
  rw [FileTree.base, same.start, FileTree.base]

theorem resolve_eq_ok_iff {tree : FileTree} {path : Text} {place : List Text} :
    tree.resolve path = .ok place ↔
      path ≠ [] ∧ tree.walk (tree.base path) (splitOn '/' path) = .ok place := by
  rw [resolve]
  split
  · rename_i hEmpty
    simp [hEmpty]
  · rename_i hPath
    simp [hPath]

/-- A path leads to the same place in trees with the same directories. -/
theorem SameDirectories.resolve {tree other : FileTree} (same : SameDirectories tree other)
    {path : Text} {place : List Text} :
    other.resolve path = .ok place ↔ tree.resolve path = .ok place := by
  rw [resolve_eq_ok_iff, resolve_eq_ok_iff, same.base, same.walk]

/-- What a path has to be like for a file to be put where it leads. -/
theorem target_eq_ok_iff {tree : FileTree} {path : Text} {place : List Text} :
    tree.target path = .ok place ↔
      path ≠ [] ∧ path.getLast? ≠ some '/' ∧
        ∃ name pieces directory, targetPieces path = name :: pieces ∧
          tree.walk (tree.base path) pieces.reverse = .ok directory ∧
          tree.node? directory = some .directory ∧ name ≠ ['.'] ∧ name ≠ ['.', '.'] ∧
          place = directory ++ [name] := by
  by_cases hEmpty : path = []
  · subst hEmpty
    exact ⟨fun h => absurd h (by rintro ⟨⟩), fun h => absurd rfl h.1⟩
  unfold target
  rw [if_neg hEmpty]
  cases targetPieces path with
  | nil => exact ⟨fun h => (by cases h), by rintro ⟨-, -, name, pieces, directory, ⟨⟩, -⟩⟩
  | cons name pieces =>
      show (tree.walk (tree.base path) pieces.reverse).bind (fun directory =>
        (requireDirectory (tree.node? directory)).bind fun _ =>
          if name = ['.'] ∨ name = ['.', '.'] then .error .busy
          else if path.getLast? = some '/' then .error .notDirectory
          else .ok (directory ++ [name])) = _ ↔ _
      simp only [bind_eq_ok_iff]
      constructor
      · rintro ⟨directory, hWalk, ⟨⟩, hDirectory, hPlace⟩
        split at hPlace
        · cases hPlace
        · rename_i hName
          split at hPlace
          · cases hPlace
          · rename_i hSlash
            cases hPlace
            rw [not_or] at hName
            exact ⟨hEmpty, hSlash, name, pieces, directory, rfl, hWalk,
              requireDirectory_eq_ok_iff.mp hDirectory, hName.1, hName.2, rfl⟩
      · rintro ⟨-, hSlash, name, pieces, directory, hEq, hWalk, hDirectory, hDot, hDots, rfl⟩
        cases hEq
        refine ⟨directory, hWalk, (), requireDirectory_eq_ok_iff.mpr hDirectory, ?_⟩
        rw [if_neg (not_or.mpr ⟨hDot, hDots⟩), if_neg hSlash]

/-- Files are put to the same place in trees with the same directories. -/
theorem SameDirectories.target {tree other : FileTree} (same : SameDirectories tree other)
    {path : Text} {place : List Text} :
    other.target path = .ok place ↔ tree.target path = .ok place := by
  simp only [target_eq_ok_iff, same.base, same.walk, same.directory]

/-- A file is put into a directory. -/
theorem exists_directory_of_target {tree : FileTree} {path : Text} {place : List Text}
    (h : tree.target path = .ok place) :
    ∃ directory name, place = directory ++ [name] ∧ tree.node? directory = some .directory := by
  obtain ⟨-, -, name, -, directory, -, -, hDirectory, -, -, rfl⟩ := target_eq_ok_iff.mp h
  exact ⟨directory, name, rfl, hDirectory⟩

/-- A file that is put to a path is found there. -/
theorem resolve_of_target {tree : FileTree} {path : Text} {place : List Text}
    (h : tree.target path = .ok place) : tree.resolve path = .ok place := by
  obtain ⟨hPath, hSlash, name, pieces, directory, hPieces, hWalk, hDirectory, hDot, hDots, rfl⟩ :=
    target_eq_ok_iff.mp h
  obtain ⟨front, c, rfl⟩ : ∃ front c, path = front ++ [c] :=
    ⟨_, _, (List.dropLast_concat_getLast hPath).symm⟩
  have hLast : c ≠ '/' := by
    rintro rfl
    exact hSlash (by simp)
  obtain ⟨others, last, hFront⟩ := exists_last_splitOn '/' front
  have hOne : splitOn '/' [c] = [[c]] := splitOn_of_not_mem (by simpa using hLast.symm)
  have hSplit : splitOn '/' (front ++ [c]) = others ++ [last ++ [c]] := splitOn_append hFront hOne
  have hName : name = last ++ [c] ∧ pieces.reverse = others := by
    rw [targetPieces, hSplit, List.reverse_append, List.reverse_singleton, List.singleton_append,
      List.dropWhile_cons_of_neg (by simp)] at hPieces
    obtain ⟨rfl, rfl⟩ := List.cons.inj hPieces
    exact ⟨rfl, List.reverse_reverse others⟩
  have hFollow : follow directory name = directory ++ [name] := by
    have hNonempty : name ≠ [] := by simp [hName.1]
    have hIdle : Path.isIdle name = false := by simp [Path.isIdle, hNonempty, hDot]
    rw [follow, hIdle, if_neg Bool.false_ne_true, if_neg hDots]
  rw [resolve_eq_ok_iff, hSplit, walk_append_eq_ok_iff, ← hName.1, ← hName.2]
  exact ⟨hPath, directory, hWalk, walk_cons_eq_ok_iff.mpr ⟨hDirectory, by rw [hFollow]; rfl⟩⟩

/-- Putting a file where no directory is leaves the directories as they are. -/
theorem sameDirectories_set {tree : FileTree} {place : List Text}
    (hFree : tree.node? place ≠ some .directory) (content : ByteArray) :
    SameDirectories tree (tree.set place (.file content)) where
  start := rfl
  directory other := by
    by_cases hOther : other = []
    · rw [hOther]
      exact Iff.rfl
    · rw [node?_set hOther]
      split
      · rename_i hEq
        simp [hEq, hFree]
      · exact Iff.rfl

theorem read_eq_ok_iff {tree : FileTree} {path : Text} {content : ByteArray} :
    tree.read path = .ok content ↔
      ∃ place, tree.resolve path = .ok place ∧ tree.node? place = some (.file content) := by
  unfold read
  show Except.bind (tree.resolve path) _ = _ ↔ _
  rw [bind_eq_ok_iff]
  refine exists_congr fun place => and_congr_right fun _ => ?_
  split <;> simp_all

/-- A file that is put to a path is what is read there. -/
theorem read_set_of_target {tree : FileTree} {path : Text} {place : List Text}
    (hTarget : tree.target path = .ok place) (hFree : tree.node? place ≠ some .directory)
    (content : ByteArray) : (tree.set place (.file content)).read path = .ok content := by
  obtain ⟨directory, name, rfl, -⟩ := exists_directory_of_target hTarget
  have hRoot : directory ++ [name] ≠ [] := by simp
  have same := sameDirectories_set hFree content
  refine read_eq_ok_iff.mpr ⟨_, same.resolve.mpr (resolve_of_target hTarget), ?_⟩
  rw [node?_set hRoot, if_pos rfl]

/-! ## The temporary file -/

/--
A name under which a new file can be put into the directory at a place: a single piece of a path,
and one that leads to nothing there.
-/
structure IsFree (tree : FileTree) (place : List Text) (name : Text) : Prop where
  slash : '/' ∉ name
  idle : Path.isIdle name = false
  upward : name ≠ ['.', '.']
  node : tree.node? (place ++ [name]) = none

theorem IsFree.temporaryName (tree : FileTree) (place : List Text) :
    tree.IsFree place tree.temporaryName where
  slash := by simp [FileTree.temporaryName, List.mem_replicate]
  idle := by simp [Path.isIdle, FileTree.temporaryName]
  upward := by simp [FileTree.temporaryName]
  node := node?_temporaryName tree place

/-- A name without a slash is not an absolute path. -/
theorem isAbsolute_of_not_mem {name : Text} (hSlash : '/' ∉ name) :
    Path.isAbsolute name = false := by
  cases name with
  | nil => rfl
  | cons c name =>
      have hc : c ≠ '/' := fun hEq => hSlash (hEq ▸ List.mem_cons_self)
      simp [Path.isAbsolute, hc]

/-- A name is put behind a directory, with a slash between them if there is none. -/
theorem exists_tail_join {directory name : Text} (hPath : directory ≠ []) (hSlash : '/' ∉ name) :
    ∃ tail, Path.join directory name = directory ++ tail ∧
      (tail = '/' :: name ∨ ∃ front, directory = front ++ ['/'] ∧ tail = name) := by
  rw [Path.join, isAbsolute_of_not_mem hSlash, if_neg Bool.false_ne_true]
  split
  · rename_i hEnd
    obtain ⟨front, hFront⟩ := List.getLast?_eq_some_iff.mp (hEnd.resolve_left hPath)
    exact ⟨name, rfl, .inr ⟨front, hFront, rfl⟩⟩
  · exact ⟨'/' :: name, rfl, .inl rfl⟩

/-- One more piece on a path goes one step on, whether or not the path ends with a slash. -/
theorem walk_join {tree : FileTree} {directory name : Text} {start place : List Text}
    (hPath : directory ≠ []) (hSlash : '/' ∉ name) (hDirectory : tree.node? place = some .directory)
    (hWalk : tree.walk start (splitOn '/' directory) = .ok place) :
    tree.walk start (splitOn '/' (Path.join directory name)) = .ok (follow place name) := by
  have hStep : tree.walk place [name] = .ok (follow place name) :=
    walk_cons_eq_ok_iff.mpr ⟨hDirectory, rfl⟩
  have hName := splitOn_of_not_mem hSlash
  obtain ⟨tail, hJoin, rfl | ⟨front, rfl, rfl⟩⟩ := exists_tail_join hPath hSlash
  · rw [hJoin, splitOn_append_sep, hName]
    exact walk_append_eq_ok_iff.mpr ⟨place, hWalk, hStep⟩
  · rw [splitOn_append_sep] at hWalk
    obtain ⟨between, hFront, hLast⟩ := walk_append_eq_ok_iff.mp hWalk
    -- The empty piece behind the slash stays where it is.
    obtain ⟨-, hStay⟩ := walk_cons_eq_ok_iff.mp hLast
    cases hStay
    rw [hJoin, List.append_assoc, List.singleton_append, splitOn_append_sep, hName]
    exact walk_append_eq_ok_iff.mpr ⟨_, hFront, hStep⟩

namespace IsFree

variable {tree : FileTree} {place : List Text} {name : Text}

/-- Without the new file the tree is as it was. -/
theorem erase_set (free : tree.IsFree place name) (node : FileNode) :
    (tree.set (place ++ [name]) node).erase (place ++ [name]) = tree := by
  have hLookup : tree.nodes.lookup (place ++ [name]) = none := by
    have hNode := free.node
    cases place <;> exact hNode
  have hAll : (tree.nodes.filter fun entry => !(entry.1 == place ++ [name])) = tree.nodes := by
    rw [List.filter_eq_self]
    intro entry hEntry
    have hNe := bne_iff_ne.mp (List.lookup_eq_none_iff.mp hLookup entry hEntry)
    simpa using hNe.symm
  simp [set, erase, hAll]

/-- A free name leads into its directory. -/
theorem follow_eq (free : tree.IsFree place name) : follow place name = place ++ [name] := by
  simp [follow, free.idle, free.upward]

/-- The path of the new file leads to it. -/
theorem resolve_join (free : tree.IsFree place name) {directory : Text}
    (hResolve : tree.resolve directory = .ok place)
    (hDirectory : tree.node? place = some .directory) :
    tree.resolve (Path.join directory name) = .ok (place ++ [name]) := by
  obtain ⟨hPath, hWalk⟩ := resolve_eq_ok_iff.mp hResolve
  obtain ⟨tail, hJoin, -⟩ := exists_tail_join hPath free.slash
  obtain ⟨c, rest, rfl⟩ := List.exists_cons_of_ne_nil hPath
  have hBase : tree.base (Path.join (c :: rest) name) = tree.base (c :: rest) := by
    rw [hJoin]
    rfl
  have hNonempty : Path.join (c :: rest) name ≠ [] := by simp [hJoin]
  have hInto := walk_join hPath free.slash hDirectory hWalk
  rw [free.follow_eq, ← hBase] at hInto
  exact resolve_eq_ok_iff.mpr ⟨hNonempty, hInto⟩

end IsFree

theorem createTemporary_eq_ok_iff {tree full : FileTree} {directory name path : Text}
    {content : ByteArray} :
    tree.createTemporary directory name content = .ok (path, full) ↔
      ∃ place, tree.resolve directory = .ok place ∧ tree.node? place = some .directory ∧
        path = Path.join directory name ∧ full = tree.set (place ++ [name]) (.file content) := by
  have hCreate : tree.createTemporary directory name content =
      (tree.resolve directory).bind fun place =>
        (requireDirectory (tree.node? place)).bind fun _ =>
          .ok (Path.join directory name, tree.set (place ++ [name]) (.file content)) := rfl
  simp only [hCreate, bind_eq_ok_iff]
  constructor
  · rintro ⟨place, hResolve, ⟨⟩, hDirectory, hEq⟩
    cases hEq
    exact ⟨place, hResolve, requireDirectory_eq_ok_iff.mp hDirectory, rfl, rfl⟩
  · rintro ⟨place, hResolve, hDirectory, rfl, rfl⟩
    exact ⟨place, hResolve, (), requireDirectory_eq_ok_iff.mpr hDirectory, rfl⟩

theorem rename_eq_ok_iff {tree after : FileTree} {source path : Text} :
    tree.rename source path = .ok after ↔
      ∃ sourcePlace content place, tree.resolve source = .ok sourcePlace ∧
        tree.read source = .ok content ∧ tree.target path = .ok place ∧
        tree.node? place ≠ some .directory ∧
        after = (tree.erase sourcePlace).set place (.file content) := by
  have hRename : tree.rename source path =
      (tree.resolve source).bind fun sourcePlace =>
        (tree.read source).bind fun content =>
          (tree.target path).bind fun place =>
            if (tree.node? place).any FileNode.isDirectory then .error .isDirectory
            else .ok ((tree.erase sourcePlace).set place (.file content)) := rfl
  have hAny : ∀ node : Option FileNode,
      node.any FileNode.isDirectory = true ↔ node = some .directory := by
    rintro (_ | _ | _) <;> simp [FileNode.isDirectory]
  simp only [hRename, bind_eq_ok_iff]
  constructor
  · rintro ⟨sourcePlace, hSource, content, hRead, place, hTarget, hAfter⟩
    split at hAfter
    · cases hAfter
    · rename_i hFree
      cases hAfter
      exact ⟨sourcePlace, content, place, hSource, hRead, hTarget, fun h => hFree ((hAny _).mpr h),
        rfl⟩
  · rintro ⟨sourcePlace, content, place, hSource, hRead, hTarget, hFree, rfl⟩
    exact ⟨sourcePlace, hSource, content, hRead, place, hTarget,
      if_neg fun h => hFree ((hAny _).mp h)⟩

section

variable {tree full : FileTree} {directory name path : Text} {content : ByteArray}

/-- Where a temporary file is: at its path, in a tree with the same directories. -/
theorem exists_place_of_createTemporary
    (hName : ∀ place, tree.resolve directory = .ok place →
      tree.node? place = some .directory → tree.IsFree place name)
    (h : tree.createTemporary directory name content = .ok (path, full)) :
    ∃ place, SameDirectories tree full ∧ full.resolve path = .ok place ∧
      full.node? place = some (.file content) ∧ full.erase place = tree := by
  obtain ⟨place, hResolve, hDirectory, rfl, rfl⟩ := createTemporary_eq_ok_iff.mp h
  have free := hName place hResolve hDirectory
  have hFree : tree.node? (place ++ [name]) ≠ some .directory := by
    rw [free.node]
    simp
  have same := sameDirectories_set hFree content
  refine ⟨_, same, same.resolve.mpr (free.resolve_join hResolve hDirectory), ?_,
    free.erase_set _⟩
  rw [node?_set (by simp), if_pos rfl]

/-- A temporary file that takes the place of a target is one change to the tree. -/
theorem rename_temporary {after : FileTree} {destination : Text}
    (hName : ∀ place, tree.resolve directory = .ok place →
      tree.node? place = some .directory → tree.IsFree place name)
    (h : tree.createTemporary directory name content = .ok (path, full)) :
    full.rename path destination = .ok after ↔
      ∃ place, tree.target destination = .ok place ∧ tree.node? place ≠ some .directory ∧
        after = tree.set place (.file content) := by
  obtain ⟨source, same, hResolve, hNode, hErase⟩ := exists_place_of_createTemporary hName h
  have hRead : full.read path = .ok content := read_eq_ok_iff.mpr ⟨source, hResolve, hNode⟩
  rw [rename_eq_ok_iff, hResolve, hRead]
  constructor
  · rintro ⟨_, _, place, ⟨⟩, ⟨⟩, hTarget, hFree, rfl⟩
    exact ⟨place, same.target.mp hTarget,
      fun hDirectory => hFree ((same.directory place).mpr hDirectory), by rw [hErase]⟩
  · rintro ⟨place, hTarget, hFree, rfl⟩
    exact ⟨source, content, place, rfl, rfl, same.target.mpr hTarget,
      fun hDirectory => hFree ((same.directory place).mp hDirectory), by rw [hErase]⟩

end

end ValueNames.FileTree

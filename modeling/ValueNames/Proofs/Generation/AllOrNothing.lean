import ValueNames.Generation
import ValueNames.Proofs.FileTree.Temporary
import ValueNames.Proofs.Header.Compiled

/-!
# Generation is all or nothing

A file system may refuse what it is asked for: it denies to read or to create a file, it is
full before all is written, it denies the last step. Whatever it refuses, a generation that
fails leaves the tree exactly as it was, and one that succeeds puts one file to its target
and changes nothing else. Of temporary files two things are relied on: a new one has a name
that is not taken, and one that is given up is removed.

## Main results

* `replace_run` — a file is replaced, or the tree is as before.
* `generateTo_run` — a generation writes what is generated from the text that was read, or
  the tree is as before.
* `generateTo_plain` — where nothing is refused, this is the generation that runs.
-/

namespace ValueNames

/-! ## File systems -/

/-- What a file system refuses to do, and with which fault; this may depend on the tree. -/
structure Refusals where
  reading : FileTree → (path : Text) → Option FileFault
  creating : FileTree → (directory : Text) → Option FileFault
  /-- What was written of a content before the rest was refused. -/
  writing : FileTree → (content : ByteArray) → Option (ByteArray × FileFault)
  moving : FileTree → (source target : Text) → Option FileFault

/-- Nothing is refused. -/
def Refusals.none : Refusals := ⟨fun _ _ => .none, fun _ _ => .none, fun _ _ => .none,
  fun _ _ _ => .none⟩

/-- How temporary files are named, and what becomes of one that is given up. -/
structure TemporaryFiles where
  name : FileTree → (directory : Text) → Text
  giveUp : FileTree → (path : Text) → FileTree

/-- What is relied on of temporary files. -/
structure TemporaryFiles.Reliable (temporary : TemporaryFiles) : Prop where
  /-- A new file has a name of its own in its directory. -/
  named : ∀ {tree : FileTree} {directory : Text} {place : List Text},
    tree.resolve directory = .ok place → tree.node? place = some .directory →
      tree.IsFree place (temporary.name tree directory)
  /-- A file that is given up is removed. -/
  removed : ∀ {tree : FileTree} {path : Text} {place : List Text} {content : ByteArray},
    tree.resolve path = .ok place → tree.node? place = some (.file content) →
      temporary.giveUp tree path = tree.erase place

/-- What a run cannot know of a file system. -/
structure FileSystem where
  temporary : TemporaryFiles
  refusals : Refusals

/-- The file system of trees themselves, which refuses nothing. -/
def FileSystem.plain : FileSystem :=
  ⟨⟨fun tree _ => tree.temporaryName, FileTree.remove⟩, Refusals.none⟩

theorem FileSystem.reliable_plain : plain.temporary.Reliable where
  named {tree _ place} _ _ := FileTree.IsFree.temporaryName tree place
  removed hResolve hNode := by
    show FileTree.remove _ _ = _
    rw [FileTree.remove, hResolve]
    simp only [hNode]

/-- Runs over a tree of files in some file system. -/
abbrev FileSystemM := ReaderT FileSystem (StateM FileTree)

namespace FileSystemM

/-- Runs an operation unless it is refused. -/
def orRefused {α : Type} (refusal : Option FileFault)
    (operation : StateM FileTree (Except FileFault α)) : StateM FileTree (Except FileFault α) :=
  match refusal with
  | some fault => fun tree => (.error fault, tree)
  | .none => operation

/-- A temporary file that cannot be written is given up. -/
def createTemporary (system : FileSystem) (directory : Text) (content : ByteArray) :
    StateM FileTree (Except FileFault Text) := fun tree =>
  let name := system.temporary.name tree directory
  match system.refusals.writing tree content with
  | .none => FileTree.update (fun tree => tree.createTemporary directory name content) tree
  | some (written, fault) =>
    match tree.createTemporary directory name written with
    | .error fault => (.error fault, tree)
    | .ok (path, full) => (.error fault, system.temporary.giveUp full path)

instance : FileStore FileSystemM where
  workingDirectory := fun _ => FileStore.workingDirectory (m := StateM FileTree)
  read path := fun system tree =>
    orRefused (system.refusals.reading tree path) (FileStore.read path) tree
  isFile path := fun _ => FileStore.isFile (m := StateM FileTree) path
  createTemporary directory content := fun system tree =>
    orRefused (system.refusals.creating tree directory) (createTemporary system directory content)
      tree
  rename source target := fun system tree =>
    orRefused (system.refusals.moving tree source target) (FileStore.rename source target) tree
  remove path := fun system tree => ((), system.temporary.giveUp tree path)

end FileSystemM

/-! ## What the operations do -/

namespace FileSystemM

variable (system : FileSystem) (tree : FileTree)

/-- A step and what follows it. -/
theorem bind_run {α β : Type} (step : FileSystemM α) (next : α → FileSystemM β) :
    (step >>= next) system tree =
      next (step system tree).1 system (step system tree).2 := rfl

/-- A refused operation fails and leaves the tree as it is. -/
theorem orRefused_run {α : Type} (refusal : Option FileFault)
    (operation : StateM FileTree (Except FileFault α)) :
    (∃ fault, orRefused refusal operation tree = (.error fault, tree)) ∨
      orRefused refusal operation tree = operation tree := by
  cases refusal with
  | some fault => exact .inl ⟨fault, rfl⟩
  | none => exact .inr rfl

theorem update_run {α : Type} (operation : FileTree → Except FileFault (α × FileTree)) :
    (∃ fault, FileTree.update operation tree = (.error fault, tree)) ∨
      ∃ a after, operation tree = .ok (a, after) ∧
        FileTree.update operation tree = (.ok a, after) := by
  rw [FileTree.update]
  cases operation tree with
  | error fault => exact .inl ⟨fault, rfl⟩
  | ok result => exact .inr ⟨result.1, result.2, rfl, rfl⟩

theorem read_run (path : Text) :
    ∃ outcome, (FileStore.read path : FileSystemM (Except FileFault ByteArray)) system tree =
        (outcome, tree) ∧
      ∀ content, outcome = .ok content → tree.read path = .ok content := by
  rcases orRefused_run tree (system.refusals.reading tree path) (FileStore.read path) with
    ⟨fault, hRun⟩ | hRun
  · exact ⟨.error fault, hRun, nofun⟩
  · exact ⟨tree.read path, hRun, fun _ => id⟩

/-- A temporary file that is given up leaves no trace. -/
theorem giveUp_temporary {system : FileSystem} {tree full : FileTree} {directory path : Text}
    {content : ByteArray} (hTemporary : system.temporary.Reliable)
    (h : tree.createTemporary directory (system.temporary.name tree directory) content =
      .ok (path, full)) : system.temporary.giveUp full path = tree := by
  obtain ⟨place, -, hResolve, hNode, hErase⟩ :=
    FileTree.exists_place_of_createTemporary (fun _ => hTemporary.named) h
  rw [hTemporary.removed hResolve hNode, hErase]

/-- A temporary file is there, or the tree is as before. -/
theorem createTemporary_run (hTemporary : system.temporary.Reliable) (directory : Text)
    (content : ByteArray) :
    (∃ fault, (FileStore.createTemporary directory content : FileSystemM (Except FileFault Text))
        system tree = (.error fault, tree)) ∨
      ∃ path full,
        tree.createTemporary directory (system.temporary.name tree directory) content =
            .ok (path, full) ∧
          (FileStore.createTemporary directory content : FileSystemM (Except FileFault Text))
            system tree = (.ok path, full) := by
  rcases orRefused_run tree (system.refusals.creating tree directory)
    (createTemporary system directory content) with ⟨fault, hRun⟩ | hRun
  · exact .inl ⟨fault, hRun⟩
  have hStep : (FileStore.createTemporary directory content : FileSystemM (Except FileFault Text))
      system tree = createTemporary system directory content tree := hRun
  rw [hStep, createTemporary]
  cases system.refusals.writing tree content with
  | none => exact update_run tree _
  | some refused =>
      obtain ⟨written, refusal⟩ := refused
      cases hCreate :
          tree.createTemporary directory (system.temporary.name tree directory) written with
      | error fault => exact .inl ⟨fault, by simp only [hCreate]⟩
      | ok result =>
          -- What was written so far is removed again.
          exact .inl ⟨refusal, by simp only [hCreate, giveUp_temporary hTemporary hCreate]⟩

/-- A file is moved, or the tree is as before. -/
theorem rename_run (source target : Text) :
    (∃ fault, (FileStore.rename source target : FileSystemM (Except FileFault Unit))
        system tree = (.error fault, tree)) ∨
      ∃ after, tree.rename source target = .ok after ∧
        (FileStore.rename source target : FileSystemM (Except FileFault Unit)) system tree =
          (.ok (), after) := by
  rcases orRefused_run tree (system.refusals.moving tree source target)
    (FileStore.rename source target) with ⟨fault, hRun⟩ | hRun
  · exact .inl ⟨fault, hRun⟩
  have hStep : (FileStore.rename source target : FileSystemM (Except FileFault Unit))
      system tree =
        FileTree.update (fun tree => (tree.rename source target).map fun tree => ((), tree))
          tree := hRun
  rw [hStep]
  rcases update_run tree fun tree => (tree.rename source target).map fun tree => ((), tree) with
    hFailed | ⟨⟨⟩, after, hAfter, hDone⟩
  · exact .inl hFailed
  · obtain ⟨moved, hRename, hEq⟩ := map_eq_ok_iff.mp hAfter
    obtain rfl : moved = after := congrArg Prod.snd hEq
    exact .inr ⟨moved, hRename, hDone⟩

theorem remove_run (path : Text) :
    (FileStore.remove path : FileSystemM Unit) system tree =
      ((), system.temporary.giveUp tree path) := rfl

/-! ## Reading a text and replacing a file -/

theorem readText_run (path : Text) :
    ∃ outcome, (FileStore.readText path : FileSystemM (Except FileFault Text)) system tree =
        (outcome, tree) ∧
      ∀ text, outcome = .ok text →
        ∃ content, tree.read path = .ok content ∧ Text.ofBytes? content = some text := by
  obtain ⟨outcome, hRead, hOutcome⟩ := read_run system tree path
  rw [FileStore.readText, bind_run, hRead]
  cases outcome with
  | error fault => exact ⟨.error fault, rfl, nofun⟩
  | ok content =>
      cases hText : Text.ofBytes? content with
      | none => exact ⟨.error .notText, by simp only [hText]; rfl, nofun⟩
      | some text =>
          refine ⟨.ok text, by simp only [hText]; rfl, ?_⟩
          rintro _ ⟨⟩
          exact ⟨content, hOutcome content rfl, hText⟩

/-- A file is replaced in one step, or the tree is as before. -/
theorem replace_run (hTemporary : system.temporary.Reliable) (path content : Text) :
    (∃ fault, (FileStore.replace path content : FileSystemM (Except FileFault Unit))
        system tree = (.error fault, tree)) ∨
      ∃ place, tree.target path = .ok place ∧ tree.node? place ≠ some .directory ∧
        (FileStore.replace path content : FileSystemM (Except FileFault Unit)) system tree =
          (.ok (), tree.set place (.file (Text.bytes content))) := by
  rw [FileStore.replace, bind_run]
  rcases createTemporary_run system tree hTemporary (FileStore.directoryOf path)
    (Text.bytes content) with ⟨fault, hCreate⟩ | ⟨temporary, full, hFull, hCreate⟩
  · rw [hCreate]
    exact .inl ⟨fault, rfl⟩
  rw [hCreate]
  simp only [bind_run]
  rcases rename_run system full temporary path with ⟨fault, hRename⟩ | ⟨after, hAfter, hRename⟩
  · rw [hRename]
    -- The temporary file is removed, and nothing else was there.
    refine .inl ⟨fault, ?_⟩
    simp only [bind_run, remove_run, giveUp_temporary hTemporary hFull]
    rfl
  · rw [hRename]
    obtain ⟨place, hTarget, hFree, rfl⟩ :=
      (FileTree.rename_temporary (fun _ => hTemporary.named) hFull).mp hAfter
    exact .inr ⟨place, hTarget, hFree, rfl⟩

end FileSystemM

/-! ## Generating -/

/--
A tree after a file with some content was put to a path, and nothing else was changed.
-/
structure FileTree.Put (tree after : FileTree) (path : Text) (content : ByteArray)
    (place : List Text) : Prop where
  target : tree.target path = .ok place
  directory : tree.node? place.dropLast = some .directory
  free : tree.node? place ≠ some .directory
  node : after.node? place = some (.file content)
  read : after.read path = .ok content
  others : ∀ other, other ≠ place → after.node? other = tree.node? other
  start : after.start = tree.start

theorem FileTree.put_set {tree : FileTree} {path : Text} {place : List Text}
    (hTarget : tree.target path = .ok place) (hFree : tree.node? place ≠ some .directory)
    (content : ByteArray) : tree.Put (tree.set place (.file content)) path content place := by
  obtain ⟨directory, name, rfl, hDirectory⟩ := exists_directory_of_target hTarget
  refine ⟨hTarget, ?_, hFree, ?_, read_set_of_target hTarget hFree content, ?_, rfl⟩
  · rw [List.dropLast_concat]
    exact hDirectory
  · rw [node?_set (by simp), if_pos rfl]
  · intro other hOther
    cases other with
    | nil => rfl
    | cons piece pieces => rw [node?_set (by simp), if_neg hOther]

section

variable (system : FileSystem) (tree : FileTree) (header target : Text) (settings : Settings)

/-- A step that may fail, and what follows it if it does not. -/
theorem ExceptT.bind_run {α β : Type} (step : ExceptT Fault FileSystemM α)
    (next : α → ExceptT Fault FileSystemM β) :
    (step >>= next) system tree =
      match step system tree with
      | (.error fault, after) => (.error fault, after)
      | (.ok a, after) => next a system after := by
  show (ExceptT.bindCont next (step system tree).1 : FileSystemM _) system
    (step system tree).2 = _
  obtain ⟨outcome, after⟩ := step system tree
  cases outcome <;> rfl

theorem orFault_run {α : Type} (step : FileSystemM (Except FileFault α)) :
    (FileStore.orFault step : ExceptT Fault FileSystemM α) system tree =
      ((step system tree).1.mapError Fault.file, (step system tree).2) := rfl

theorem ofExcept_run {α : Type} (outcome : Except Fault α) :
    (ofExcept outcome : ExceptT Fault FileSystemM α) system tree = (outcome, tree) := by
  cases outcome <;> rfl

/-- Scanning a file reads it and changes nothing. -/
theorem ofFile_run :
    ∃ outcome, (ScannedHeader.ofFile header settings : ExceptT Fault FileSystemM ScannedHeader)
        system tree = (outcome, tree) ∧
      ∀ scanned, outcome = .ok scanned → ∃ content text, tree.read header = .ok content ∧
        Text.ofBytes? content = some text ∧ ScannedHeader.ofText text settings = .ok scanned := by
  obtain ⟨outcome, hRead, hOutcome⟩ := FileSystemM.readText_run system tree header
  rw [ScannedHeader.ofFile, ExceptT.bind_run, orFault_run, hRead]
  cases outcome with
  | error fault => exact ⟨.error (.file fault), rfl, nofun⟩
  | ok text =>
      refine ⟨ScannedHeader.ofText text settings, ofExcept_run system tree _, ?_⟩
      intro scanned hScanned
      obtain ⟨content, hContent, hText⟩ := hOutcome text rfl
      exact ⟨content, text, hContent, hText, hScanned⟩

/--
With reliable temporary files, a generation that fails, for whatever reason, leaves the tree as
it was. One that succeeds has read a text, and puts what is generated from that text to the
target, also if it was read there; nothing else changes. Its answer is the number of entities
found in the text.
-/
theorem generateTo_run (hTemporary : system.temporary.Reliable) :
    (∃ fault, (generateTo header target settings : ExceptT Fault FileSystemM Nat) system tree =
        (.error fault, tree)) ∨
      ∃ entities after content text scanned output place,
        (generateTo header target settings : ExceptT Fault FileSystemM Nat) system tree =
            (.ok entities, after) ∧
          tree.read header = .ok content ∧ Text.ofBytes? content = some text ∧
          settings.macroLead ≠ [] ∧ ScannedHeader.ofText text settings = .ok scanned ∧
          entities = (scanned.items.filter (·.item.isEntity)).length ∧
          generate text settings = .ok output ∧
          tree.Put after target (Text.bytes output) place := by
  obtain ⟨outcome, hScan, hOutcome⟩ := ofFile_run system tree header settings
  rw [generateTo, ExceptT.bind_run, hScan]
  cases outcome with
  | error fault => exact .inl ⟨fault, rfl⟩
  | ok scanned =>
      obtain ⟨content, text, hContent, hText, hScanned⟩ := hOutcome scanned rfl
      have hLead : settings.macroLead ≠ [] := by
        intro hEmpty
        rw [ScannedHeader.ofText, Settings.finders, Finder.macroGroup, if_pos hEmpty] at hScanned
        cases hScanned
      have hOutput : generate text settings = .ok (outputFileOf settings scanned.items) := by
        rw [generate, hScanned]
        rfl
      have hEntities : scanned.entityCount = (scanned.items.filter (·.item.isEntity)).length :=
        List.countP_eq_length_filter
      simp only [ExceptT.bind_run, orFault_run]
      rcases FileSystemM.replace_run system tree hTemporary target
        (outputFileOf settings scanned.items) with
        ⟨fault, hReplace⟩ | ⟨place, hTarget, hFree, hReplace⟩
      · rw [hReplace]
        exact .inl ⟨.file fault, rfl⟩
      · rw [hReplace]
        exact .inr ⟨_, _, content, text, scanned, _, place, rfl, hContent, hText, hLead, hScanned,
          hEntities, hOutput, FileTree.put_set hTarget hFree _⟩

end

/-- A header file with enumerations in two branches, in the working directory. -/
def branchingTree : FileTree where
  nodes := [(["src".toList], .directory),
    (["src".toList, "e.h".toList], .file (Text.bytes ScannedHeader.branching))]
  start := ["src".toList]

/-- The file system that denies to move files. -/
def FileSystem.unmoving : FileSystem :=
  ⟨plain.temporary, { Refusals.none with moving := fun _ _ _ => some .busy }⟩

theorem read_branchingTree :
    branchingTree.read "e.h".toList = .ok (Text.bytes ScannedHeader.branching) :=
  rfl

theorem ofFile_branchingTree {system : FileSystem}
    (hReading : ∀ tree path, system.refusals.reading tree path = none) :
    (ScannedHeader.ofFile "e.h".toList {} : ExceptT Fault FileSystemM ScannedHeader) system
        branchingTree =
      (.ok ⟨Comment.strip ScannedHeader.branching, ScannedHeader.branchingItems⟩,
        branchingTree) := by
  have hRead : (FileStore.read "e.h".toList : FileSystemM (Except FileFault ByteArray)) system
      branchingTree = (.ok (Text.bytes ScannedHeader.branching), branchingTree) := by
    show FileSystemM.orRefused (system.refusals.reading _ _) _ _ = _
    rw [hReading]
    rfl
  have hText : (FileStore.readText "e.h".toList : FileSystemM (Except FileFault Text)) system
      branchingTree = (.ok ScannedHeader.branching, branchingTree) := by
    rw [FileStore.readText, FileSystemM.bind_run, hRead]
    simp only [Text.ofBytes?_bytes]
    rfl
  rw [ScannedHeader.ofFile, ExceptT.bind_run, orFault_run, hText, ← ScannedHeader.ofText_branching]
  exact ofExcept_run system branchingTree _

/--
That header file can be its own target: it is replaced by what is generated from the text that it
had. Where files cannot be moved it stays as it is.
-/
theorem generateTo_run_branchingTree :
    FileSystem.plain.temporary.Reliable ∧
      (∃ after output,
        (generateTo "e.h".toList "e.h".toList {} : ExceptT Fault FileSystemM Nat)
            FileSystem.plain branchingTree = (.ok 2, after) ∧
          generate ScannedHeader.branching {} = .ok output ∧
          branchingTree.Put after "e.h".toList (Text.bytes output)
            ["src".toList, "e.h".toList]) ∧
      FileSystem.unmoving.temporary.Reliable ∧
      (generateTo "e.h".toList "e.h".toList {} : ExceptT Fault FileSystemM Nat)
          FileSystem.unmoving branchingTree = (.error (.file .busy), branchingTree) := by
  refine ⟨FileSystem.reliable_plain, ?_, FileSystem.reliable_plain, ?_⟩
  · have hDone : ((generateTo "e.h".toList "e.h".toList {} : ExceptT Fault FileSystemM Nat)
        FileSystem.plain branchingTree).1 = .ok 2 := by
      rw [generateTo, ExceptT.bind_run, ofFile_branchingTree fun _ _ => rfl]
      rfl
    rcases generateTo_run FileSystem.plain branchingTree "e.h".toList "e.h".toList {}
        FileSystem.reliable_plain with
      ⟨fault, hFailed⟩ |
        ⟨entities, after, content, text, scanned, output, place, hRun, hRead, hText, -, -, -, hOutput,
          hPut⟩
    · rw [hFailed] at hDone
      cases hDone
    · rw [hRun] at hDone
      cases hDone
      rw [read_branchingTree] at hRead
      cases hRead
      rw [Text.ofBytes?_bytes] at hText
      cases hText
      have hTarget : branchingTree.target "e.h".toList = .ok ["src".toList, "e.h".toList] := rfl
      cases hTarget.symm.trans hPut.target
      exact ⟨after, output, hRun, hOutput, hPut⟩
  · have hBusy : ((generateTo "e.h".toList "e.h".toList {} : ExceptT Fault FileSystemM Nat)
        FileSystem.unmoving branchingTree).1 = .error (.file .busy) := by
      rw [generateTo, ExceptT.bind_run, ofFile_branchingTree fun _ _ => rfl]
      rfl
    rcases generateTo_run FileSystem.unmoving branchingTree "e.h".toList "e.h".toList {}
        FileSystem.reliable_plain with ⟨fault, hFailed⟩ | ⟨_, _, _, _, _, _, _, hRun, -⟩
    · rw [hFailed] at hBusy
      cases hBusy
      exact hFailed
    · rw [hRun] at hBusy
      cases hBusy

/-! ## Refusing nothing -/

/-- Steps that do the same where nothing is refused still do so one after the other. -/
theorem FileSystemM.plain_bind {α β : Type} {step : FileSystemM α} {next : α → FileSystemM β}
    {plainStep : StateM FileTree α} {plainNext : α → StateM FileTree β}
    (hStep : step FileSystem.plain = plainStep)
    (hNext : ∀ a, next a FileSystem.plain = plainNext a) :
    (step >>= next) FileSystem.plain = plainStep >>= plainNext := by
  funext tree
  show next (step FileSystem.plain tree).1 FileSystem.plain (step FileSystem.plain tree).2 =
    plainNext (plainStep tree).1 (plainStep tree).2
  rw [hStep, hNext]

theorem FileSystemM.plain_readText (path : Text) :
    (FileStore.readText path : FileSystemM (Except FileFault Text)) FileSystem.plain =
      (FileStore.readText path : StateM FileTree (Except FileFault Text)) := by
  refine plain_bind rfl fun outcome => ?_
  cases outcome with
  | error fault => rfl
  | ok content =>
      cases hText : Text.ofBytes? content with
      | none => simp only [hText]; rfl
      | some text => simp only [hText]; rfl

theorem FileSystemM.plain_replace (path content : Text) :
    (FileStore.replace path content : FileSystemM (Except FileFault Unit)) FileSystem.plain =
      (FileStore.replace path content : StateM FileTree (Except FileFault Unit)) := by
  refine plain_bind rfl fun outcome => ?_
  cases outcome with
  | error fault => rfl
  | ok temporary =>
      refine plain_bind rfl fun outcome => ?_
      cases outcome with
      | error fault => exact plain_bind rfl fun _ => rfl
      | ok done => rfl

/-- The same for steps that may fail. -/
theorem ExceptT.plain_bind {α β : Type} {step : ExceptT Fault FileSystemM α}
    {next : α → ExceptT Fault FileSystemM β} {plainStep : ExceptT Fault (StateM FileTree) α}
    {plainNext : α → ExceptT Fault (StateM FileTree) β}
    (hStep : step FileSystem.plain = plainStep)
    (hNext : ∀ a, next a FileSystem.plain = plainNext a) :
    (step >>= next) FileSystem.plain = plainStep >>= plainNext := by
  have hCont : ∀ outcome : Except Fault α,
      (ExceptT.bindCont next outcome : FileSystemM (Except Fault β)) FileSystem.plain =
        (ExceptT.bindCont plainNext outcome : StateM FileTree (Except Fault β)) := by
    intro outcome
    cases outcome with
    | error fault => rfl
    | ok a => exact hNext a
  exact FileSystemM.plain_bind (α := Except Fault α) hStep hCont

theorem plain_ofFile (header : Text) (settings : Settings) :
    (ScannedHeader.ofFile header settings : ExceptT Fault FileSystemM ScannedHeader)
      FileSystem.plain =
        (ScannedHeader.ofFile header settings : ExceptT Fault (StateM FileTree) ScannedHeader) := by
  refine ExceptT.plain_bind
    (FileSystemM.plain_bind (FileSystemM.plain_readText header) fun _ => rfl) fun text => ?_
  cases ScannedHeader.ofText text settings <;> rfl

/-- Where nothing is refused, a generation is that over the tree itself. -/
theorem generateTo_plain (header target : Text) (settings : Settings) :
    (generateTo header target settings : ExceptT Fault FileSystemM Nat) FileSystem.plain =
      (generateTo header target settings : ExceptT Fault (StateM FileTree) Nat) :=
  ExceptT.plain_bind (plain_ofFile header settings) fun scanned =>
    ExceptT.plain_bind
      (FileSystemM.plain_bind
        (FileSystemM.plain_replace target (outputFileOf settings scanned.items)) fun _ => rfl)
      fun _ => rfl

end ValueNames

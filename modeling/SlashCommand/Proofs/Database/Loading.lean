import SlashCommand.Proofs.Database.Insertion
import SlashCommand.Proofs.Json.RoundTrip
import Mathlib.Data.List.Forall2

/-!
# What is loaded from files

A load reads a directory or a bundle, and `Database.build` goes through several of them.  What comes
of it is said here of a file system whose content does not change, which is one that answers in
`Id`.  A tree of files is such a system as long as nothing is written to it (`run_load_fileSystem`).

A directory is an unordered set of names.  The loader picks those of binding files and sorts them,
and two sorted lists with the same members are one list, so neither the order in which the directory
is enumerated nor any other entry has an influence (`loadDirectory_congr`).  The files are then read
up to the first that has no binding.  `DirectoryOutcome` lists what may come of this, and it is all
or nothing: a database has a binding for each file.

Of several sources the one that counts is the first that loads (`run_build_eq_ok_iff`).
`loading_ordered` has these together with what is known of all that is loaded: it is well formed.
-/

namespace SlashCommand

namespace Database

variable {fs fs' : FileSystem Id} {path : String} {names names' paths : List String}
  {bindings : List Binding} {e : DatabaseError} {db : Database} {sources : List BindingSource}

/-! ## The names of binding files -/

/-- A file of this name in a directory holds a binding. -/
def isBindingFile (name : String) : Bool := Path.extension? name == some "json"

theorem bindingFiles_perm (names : List String) :
    (bindingFiles names).Perm (names.filter isBindingFile) :=
  List.mergeSort_perm _ _

theorem pairwise_bindingFiles (names : List String) : (bindingFiles names).Pairwise (· ≤ ·) := by
  have htrans (a b c : String) (hab : decide (a ≤ b) = true) (hbc : decide (b ≤ c) = true) :
      decide (a ≤ c) = true :=
    decide_eq_true (String.le_trans (of_decide_eq_true hab) (of_decide_eq_true hbc))
  have htotal (a b : String) : (decide (a ≤ b) || decide (b ≤ a)) = true := by
    rw [Bool.or_eq_true, decide_eq_true_iff, decide_eq_true_iff]
    exact String.le_total a b
  exact (List.pairwise_mergeSort htrans htotal _).imp of_decide_eq_true

/-- The binding files in the order of their names. -/
structure InNameOrder (names files : List String) : Prop where
  perm : files.Perm (names.filter isBindingFile)
  sorted : files.Pairwise (· ≤ ·)

theorem inNameOrder_iff {files : List String} :
    InNameOrder names files ↔ files = bindingFiles names := by
  constructor
  · intro h
    exact h.perm.trans (bindingFiles_perm names).symm |>.eq_of_pairwise
      (fun _ _ _ _ => String.le_antisymm) h.sorted (pairwise_bindingFiles names)
  · rintro rfl
    exact ⟨bindingFiles_perm names, pairwise_bindingFiles names⟩

/-- Directories with the same binding files have them in the same order. -/
theorem bindingFiles_eq (h : (names.filter isBindingFile).Perm (names'.filter isBindingFile)) :
    bindingFiles names = bindingFiles names' :=
  inNameOrder_iff.mp ⟨(bindingFiles_perm names).trans h, pairwise_bindingFiles names⟩

/-! ## Reading the files -/

/-- The binding that a file holds, or why it holds none. -/
def readBinding (fs : FileSystem Id) (path : String) : Except DatabaseError Binding :=
  (fs.loadJson path Binding.ofDatum?).run

/-- What a file holds is decided by its text. -/
theorem readBinding_congr (h : fs.read path = fs'.read path) :
    readBinding fs path = readBinding fs' path := by
  rw [readBinding, readBinding, FileSystem.loadJson, FileSystem.loadJson, FileSystem.load,
    FileSystem.load, h]

theorem readBinding_of_read {text : String} {b : Binding} (h : (fs.read path).run = .ok text)
    (hparse : (Json.parse text).bind Binding.ofDatum? = some b) : readBinding fs path = .ok b := by
  rw [readBinding, FileSystem.loadJson, FileSystem.load, Id.run_bind, h]
  dsimp only
  rw [hparse]
  rfl

theorem run_loadBindings_cons (fs : FileSystem Id) (path : String) (paths : List String) :
    (loadBindings fs (path :: paths)).run =
      match readBinding fs path with
      | .error e => .error e
      | .ok b => (loadBindings fs paths).run.map (b :: ·) := by
  rw [loadBindings, Id.run_bind, ← readBinding]
  cases readBinding fs path with
  | error e => rfl
  | ok b => rfl

theorem run_loadBindings_congr (h : ∀ path ∈ paths, fs.read path = fs'.read path) :
    (loadBindings fs paths).run = (loadBindings fs' paths).run := by
  induction paths with
  | nil => rfl
  | cons path paths ih =>
    rw [run_loadBindings_cons, run_loadBindings_cons, readBinding_congr (h path List.mem_cons_self),
      ih fun p hp => h p (List.mem_cons_of_mem path hp)]

/-- All files are read, and each gives its binding. -/
theorem run_loadBindings_eq_ok_iff :
    (loadBindings fs paths).run = .ok bindings ↔
      List.Forall₂ (fun path b => readBinding fs path = .ok b) paths bindings := by
  induction paths generalizing bindings with
  | nil =>
    rw [List.forall₂_nil_left_iff]
    exact ⟨fun h => (Except.ok.inj h).symm, fun h => h ▸ rfl⟩
  | cons path paths ih =>
    rw [run_loadBindings_cons, List.forall₂_cons_left_iff]
    cases readBinding fs path with
    | error e => exact iff_of_false nofun fun ⟨_, _, h, _⟩ => nomatch h
    | ok b =>
      constructor
      · intro h
        cases hrest : (loadBindings fs paths).run with
        | error e =>
          rw [hrest] at h
          cases h
        | ok rest =>
          rw [hrest] at h
          cases h
          exact ⟨b, rest, rfl, ih.mp hrest, rfl⟩
      · rintro ⟨_, rest, hb, hrest, rfl⟩
        cases hb
        dsimp only
        rw [ih.mpr hrest]
        rfl

/-- The error is that of the first file that has no binding. -/
theorem run_loadBindings_eq_error_iff :
    (loadBindings fs paths).run = .error e ↔
      ∃ path, paths.find? (fun path => !(readBinding fs path).isOk) = some path ∧
        readBinding fs path = .error e := by
  induction paths with
  | nil => exact iff_of_false nofun fun ⟨_, h, _⟩ => nomatch h
  | cons path paths ih =>
    rw [run_loadBindings_cons]
    cases hpath : readBinding fs path with
    | error e' =>
      rw [List.find?_cons_of_pos (by rw [hpath]; rfl)]
      constructor
      · intro h
        cases h
        exact ⟨path, rfl, hpath⟩
      · rintro ⟨_, hfirst, h⟩
        cases hfirst
        rw [hpath] at h
        cases h
        rfl
    | ok b =>
      rw [List.find?_cons_of_neg (by rw [hpath]; exact nofun), ← ih]
      cases (loadBindings fs paths).run with
      | error e' => exact Iff.rfl
      | ok rest => exact iff_of_false nofun nofun

/-! ## A directory -/

/-- Two file systems have the same binding files in a directory, listed in any order. -/
inductive SameBindingFiles (fs fs' : FileSystem Id) (path : String) : Prop
  | unlisted (e : FileError) (h : (fs.list path).run = .error e)
      (h' : (fs'.list path).run = .error e) : SameBindingFiles fs fs' path
  | listed (names names' : List String) (h : (fs.list path).run = .ok names)
      (h' : (fs'.list path).run = .ok names')
      (hperm : (names.filter isBindingFile).Perm (names'.filter isBindingFile))
      (hread : ∀ name ∈ names, isBindingFile name = true →
        fs.read (Path.join path name) = fs'.read (Path.join path name)) :
      SameBindingFiles fs fs' path

/-- What may come of loading a directory. -/
inductive DirectoryOutcome (fs : FileSystem Id) (path : String) :
    Except DatabaseError Database → Prop
  /-- The directory cannot be listed. -/
  | unlisted {e : FileError} (h : (fs.list path).run = .error e) :
      DirectoryOutcome fs path (.error (.io e))
  /-- The first file without a binding has the error. -/
  | badFile {names files : List String} {file : String} {e : DatabaseError}
      (h : (fs.list path).run = .ok names) (horder : InNameOrder names files)
      (hfirst : files.find? (fun file => !(readBinding fs (Path.join path file)).isOk) = some file)
      (hbad : readBinding fs (Path.join path file) = .error e) :
      DirectoryOutcome fs path (.error e)
  /-- The bindings of all files, in the order of their names, have a defect. -/
  | defective {names files : List String} {bindings : List Binding} {d : Defect}
      (h : (fs.list path).run = .ok names) (horder : InNameOrder names files)
      (hread : List.Forall₂ (fun file b => readBinding fs (Path.join path file) = .ok b) files
        bindings)
      (hdefect : Binding.treeDefect? bindings = some d) :
      DirectoryOutcome fs path (.error (.invalid [d]))
  /-- The bindings of all files, in the order of their names, are the database. -/
  | loaded {names files : List String} {bindings : List Binding}
      (h : (fs.list path).run = .ok names) (horder : InNameOrder names files)
      (hread : List.Forall₂ (fun file b => readBinding fs (Path.join path file) = .ok b) files
        bindings)
      (hvalid : Binding.treeDefect? bindings = none) :
      DirectoryOutcome fs path (.ok ⟨bindings, .source (.directory path)⟩)

theorem run_loadDirectory_of_error {e : FileError} (h : (fs.list path).run = .error e) :
    (loadDirectory fs path).run = .error (.io e) := by
  rw [loadDirectory, Id.run_bind, h]
  rfl

theorem run_loadDirectory_of_ok (h : (fs.list path).run = .ok names) :
    (loadDirectory fs path).run =
      match (loadBindings fs ((bindingFiles names).map (Path.join path))).run with
      | .error e => .error e
      | .ok bindings => ofBindings bindings (.source (.directory path)) := by
  rw [loadDirectory, Id.run_bind, h]
  dsimp only
  rw [Id.run_bind]
  cases (loadBindings fs ((bindingFiles names).map (Path.join path))).run with
  | error e => rfl
  | ok bindings => rfl

theorem loadDirectory_congr (h : SameBindingFiles fs fs' path) :
    (loadDirectory fs path).run = (loadDirectory fs' path).run := by
  cases h with
  | unlisted e h h' => rw [run_loadDirectory_of_error h, run_loadDirectory_of_error h']
  | listed names names' h h' hperm hread =>
    have hsame : (loadBindings fs ((bindingFiles names).map (Path.join path))).run =
        (loadBindings fs' ((bindingFiles names).map (Path.join path))).run := by
      refine run_loadBindings_congr fun p hp => ?_
      obtain ⟨name, hname, rfl⟩ := List.mem_map.mp hp
      obtain ⟨hmem, hfile⟩ := List.mem_filter.mp ((bindingFiles_perm names).mem_iff.mp hname)
      exact hread name hmem hfile
    rw [run_loadDirectory_of_ok h, run_loadDirectory_of_ok h', hsame, bindingFiles_eq hperm]

/-- Something comes of loading a directory, and it is as listed. -/
theorem directoryOutcome_loadDirectory (fs : FileSystem Id) (path : String) :
    DirectoryOutcome fs path (loadDirectory fs path).run := by
  cases hlist : (fs.list path).run with
  | error e =>
    rw [run_loadDirectory_of_error hlist]
    exact .unlisted hlist
  | ok names =>
    have horder : InNameOrder names (bindingFiles names) := inNameOrder_iff.mpr rfl
    rw [run_loadDirectory_of_ok hlist]
    cases hfiles : (loadBindings fs ((bindingFiles names).map (Path.join path))).run with
    | error e =>
      obtain ⟨p, hfirst, hbad⟩ := run_loadBindings_eq_error_iff.mp hfiles
      rw [List.find?_map] at hfirst
      obtain ⟨file, hfile, rfl⟩ := Option.map_eq_some_iff.mp hfirst
      exact .badFile hlist horder hfile hbad
    | ok bindings =>
      have hread := List.forall₂_map_left_iff.mp (run_loadBindings_eq_ok_iff.mp hfiles)
      dsimp only
      rw [ofBindings_eq]
      cases hdefect : Binding.treeDefect? bindings with
      | some d => exact .defective hlist horder hread hdefect
      | none => exact .loaded hlist horder hread hdefect

/-- Nothing else comes of it. -/
theorem DirectoryOutcome.eq {result : Except DatabaseError Database}
    (h : DirectoryOutcome fs path result) : result = (loadDirectory fs path).run := by
  cases h with
  | unlisted h => rw [run_loadDirectory_of_error h]
  | @badFile names files file e h horder hfirst hbad =>
    obtain rfl := inNameOrder_iff.mp horder
    have hfirst' : ((bindingFiles names).map (Path.join path)).find?
        (fun path => !(readBinding fs path).isOk) = some (Path.join path file) := by
      rw [List.find?_map]
      exact congrArg (Option.map (Path.join path)) hfirst
    have hfiles := run_loadBindings_eq_error_iff.mpr ⟨_, hfirst', hbad⟩
    rw [run_loadDirectory_of_ok h, hfiles]
  | defective h horder hread hdefect =>
    obtain rfl := inNameOrder_iff.mp horder
    have hfiles := run_loadBindings_eq_ok_iff.mpr (List.forall₂_map_left_iff.mpr hread)
    rw [run_loadDirectory_of_ok h, hfiles]
    dsimp only
    rw [ofBindings_eq, hdefect]
  | loaded h horder hread hvalid =>
    obtain rfl := inNameOrder_iff.mp horder
    have hfiles := run_loadBindings_eq_ok_iff.mpr (List.forall₂_map_left_iff.mpr hread)
    rw [run_loadDirectory_of_ok h, hfiles]
    dsimp only
    rw [ofBindings_eq, hvalid]

/-! ## A bundle -/

/-- A bundle is loaded if the file holds a package without a defect, and then whole. -/
theorem run_loadBundle_eq_ok_iff :
    (loadBundle fs path).run = .ok db ↔
      ∃ package, (fs.loadJson path BindingPackage.ofDatum?).run = .ok package ∧
        package.defect? = none ∧ db = ⟨package.bindings, .source (.bundle path)⟩ := by
  rw [loadBundle, Id.run_bind]
  cases (fs.loadJson path BindingPackage.ofDatum?).run with
  | error e =>
    refine iff_of_false ?_ ?_
    · rintro ⟨⟩
    · rintro ⟨_, ⟨⟩, _⟩
  | ok package =>
    show ofPackage package (.source (.bundle path)) = .ok db ↔ _
    rw [ofPackage_eq_ok_iff]
    refine ⟨fun h => ⟨package, rfl, h⟩, ?_⟩
    rintro ⟨_, hpackage, h⟩
    cases hpackage
    exact h

/-! ## Several sources -/

/-- The source can be loaded. -/
def loads (fs : FileSystem Id) (source : BindingSource) : Bool := (load fs source).run.isOk

theorem exists_of_loads {source : BindingSource} (h : loads fs source = true) :
    ∃ db, (load fs source).run = .ok db := by
  rw [loads] at h
  cases hload : (load fs source).run with
  | error e =>
    rw [hload] at h
    cases h
  | ok db => exact ⟨db, rfl⟩

theorem run_loadFirst_cons (fs : FileSystem Id) (source : BindingSource)
    (sources : List BindingSource) :
    (loadFirst fs (source :: sources)).run =
      match (load fs source).run with
      | .ok db => .ok db
      | .error _ => (loadFirst fs sources).run := by
  rw [loadFirst, Id.run_bind]
  cases (load fs source).run with
  | error e => rfl
  | ok db => rfl

theorem run_loadFirst_eq_ok_iff :
    (loadFirst fs sources).run = .ok db ↔
      ∃ source, sources.find? (loads fs) = some source ∧ (load fs source).run = .ok db := by
  induction sources with
  | nil => exact iff_of_false nofun fun ⟨_, h, _⟩ => nomatch h
  | cons source sources ih =>
    rw [run_loadFirst_cons]
    cases hsource : (load fs source).run with
    | error e =>
      rw [List.find?_cons_of_neg (by rw [loads, hsource]; exact nofun), ← ih]
    | ok first =>
      rw [List.find?_cons_of_pos (by rw [loads, hsource]; rfl)]
      constructor
      · intro h
        exact ⟨source, rfl, hsource.trans h⟩
      · rintro ⟨_, hfirst, h⟩
        cases hfirst
        exact hsource.symm.trans h

/-- The first source that loads has its bindings in the database, and all sources are recorded. -/
theorem run_build_eq_ok_iff :
    (build fs sources).run = .ok db ↔
      ∃ source first, sources.find? (loads fs) = some source ∧
        (load fs source).run = .ok first ∧ db = ⟨first.bindings, .anyOf sources⟩ := by
  have hbuild : (build fs sources).run =
      (loadFirst fs sources).run.map fun db => { db with origin := .anyOf sources } := rfl
  rw [hbuild]
  cases hfirst : (loadFirst fs sources).run with
  | error e =>
    refine iff_of_false nofun fun ⟨source, first, hsource, hload, _⟩ => ?_
    rw [run_loadFirst_eq_ok_iff.mpr ⟨source, hsource, hload⟩] at hfirst
    cases hfirst
  | ok first =>
    obtain ⟨source, hsource, hload⟩ := run_loadFirst_eq_ok_iff.mp hfirst
    constructor
    · intro h
      exact ⟨source, first, hsource, hload, (Except.ok.inj h).symm⟩
    · rintro ⟨_, _, hsource', hload', rfl⟩
      cases hsource.symm.trans hsource'
      cases hload.symm.trans hload'
      rfl

/-- What is loaded from a source is well formed. -/
theorem treeDefect?_of_run_load {source : BindingSource} (h : (load fs source).run = .ok db) :
    Binding.treeDefect? db.bindings = none := by
  cases source with
  | directory path =>
    have houtcome := directoryOutcome_loadDirectory fs path
    rw [show (loadDirectory fs path).run = .ok db from h] at houtcome
    cases houtcome with
    | loaded _ _ _ hvalid => exact hvalid
  | bundle path =>
    obtain ⟨package, -, hdefect, rfl⟩ := run_loadBundle_eq_ok_iff.mp h
    exact treeDefect?_of_defect? hdefect

end Database

/-! ## Trees of files -/

/-- The files of a tree as they are while nothing is written. -/
def FileTree.content (t : FileTree) : FileSystem Id where
  read path := t.read path
  list path := t.list path
  isDirectory path := t.isDirectory path
  write path text := (t.write path text).map fun _ => ()
  makeDirectories path := (t.makeDirectories path).map fun _ => ()

namespace Database

variable {t : FileTree}

/-- A computation behind one that only reads starts from the same state. -/
theorem run_bind_of_reads {σ α β : Type} {x : StateM σ α} {f : α → StateM σ β} {c : σ} {a : α}
    (h : x.run c = (a, c)) : (x >>= f).run c = (f a).run c := by
  rw [StateT.run_bind, h]
  rfl

theorem run_loadJson_fileSystem {α : Type} (t : FileTree) (path : String)
    (read : Datum → Option α) :
    (FileTree.fileSystem.loadJson path read).run t =
      ((t.content.loadJson path read).run, t) := by
  have htree : (FileTree.fileSystem.read path).run t = (t.read path, t) := rfl
  have hcontent : (t.content.read path).run = t.read path := rfl
  unfold FileSystem.loadJson FileSystem.load
  rw [run_bind_of_reads htree, Id.run_bind, hcontent]
  cases t.read path with
  | error e => cases e <;> rfl
  | ok text =>
    dsimp only
    cases (Json.parse text).bind read <;> rfl

theorem run_loadBindings_fileSystem (t : FileTree) (paths : List String) :
    (loadBindings FileTree.fileSystem paths).run t = ((loadBindings t.content paths).run, t) := by
  induction paths with
  | nil => rfl
  | cons path paths ih =>
    rw [loadBindings, run_bind_of_reads (run_loadJson_fileSystem t path _), run_loadBindings_cons,
      readBinding]
    cases (t.content.loadJson path Binding.ofDatum?).run with
    | error e => rfl
    | ok b =>
      dsimp only
      rw [run_bind_of_reads ih]
      rfl

/-- Loading from a tree of files leaves it as it is, and comes to what is loaded from its
content. -/
theorem run_load_fileSystem (t : FileTree) (source : BindingSource) :
    (load FileTree.fileSystem source).run t = ((load t.content source).run, t) := by
  cases source with
  | directory path =>
    show (loadDirectory FileTree.fileSystem path).run t = ((loadDirectory t.content path).run, t)
    have hlist : (FileTree.fileSystem.list path).run t = ((t.content.list path).run, t) := rfl
    rw [loadDirectory, run_bind_of_reads hlist]
    cases h : (t.content.list path).run with
    | error e =>
      rw [run_loadDirectory_of_error h]
      rfl
    | ok names =>
      dsimp only
      rw [run_bind_of_reads (run_loadBindings_fileSystem t _), run_loadDirectory_of_ok h]
      cases (loadBindings t.content ((bindingFiles names).map (Path.join path))).run <;> rfl
  | bundle path =>
    show (loadBundle FileTree.fileSystem path).run t = ((loadBundle t.content path).run, t)
    rw [loadBundle, loadBundle, run_bind_of_reads (run_loadJson_fileSystem t path _), Id.run_bind]
    cases (t.content.loadJson path BindingPackage.ofDatum?).run with
    | error e => rfl
    | ok package => rfl

theorem run_build_fileSystem (t : FileTree) (sources : List BindingSource) :
    (build FileTree.fileSystem sources).run t = ((build t.content sources).run, t) := by
  have hfirst : (loadFirst FileTree.fileSystem sources).run t =
      ((loadFirst t.content sources).run, t) := by
    induction sources with
    | nil => rfl
    | cons source sources ih =>
      rw [loadFirst, run_bind_of_reads (run_load_fileSystem t source), run_loadFirst_cons]
      cases (load t.content source).run with
      | error e => exact ih
      | ok db => rfl
  rw [build, run_bind_of_reads hfirst]
  rfl

/-! ## All of it -/

/-- **Loading is ordered, stable and all or nothing.**  A directory is loaded by its binding files
alone, in the order of their names and up to the first that is bad, and a bundle as a whole.  A
build succeeds exactly if some source loads; then it has the bindings of the first that does,
whatever comes behind it, and records all sources.  What is loaded is well formed. -/
theorem loading_ordered (fs : FileSystem Id) (path : String) (sources : List BindingSource) :
    (∀ fs', SameBindingFiles fs fs' path →
      (loadDirectory fs path).run = (loadDirectory fs' path).run) ∧
    (∀ result, (loadDirectory fs path).run = result ↔ DirectoryOutcome fs path result) ∧
    (∀ db, (loadBundle fs path).run = .ok db ↔
      ∃ package, (fs.loadJson path BindingPackage.ofDatum?).run = .ok package ∧
        package.defect? = none ∧ db = ⟨package.bindings, .source (.bundle path)⟩) ∧
    ((∃ db, (build fs sources).run = .ok db) ↔
      ∃ source ∈ sources, ∃ db, (load fs source).run = .ok db) ∧
    (∀ db, (build fs sources).run = .ok db ↔
      ∃ source first, sources.find? (loads fs) = some source ∧
        (load fs source).run = .ok first ∧ db = ⟨first.bindings, .anyOf sources⟩) ∧
    (∀ later db, (build fs sources).run = .ok db →
      (build fs (sources ++ later)).run = .ok ⟨db.bindings, .anyOf (sources ++ later)⟩) ∧
    (∀ source db, (load fs source).run = .ok db → Binding.treeDefect? db.bindings = none) ∧
    ∀ db, (build fs sources).run = .ok db → Binding.treeDefect? db.bindings = none := by
  refine ⟨fun _ => loadDirectory_congr, fun result => ⟨?_, fun h => h.eq.symm⟩,
    fun _ => run_loadBundle_eq_ok_iff, ⟨?_, ?_⟩, fun _ => run_build_eq_ok_iff, fun later db h => ?_,
    fun _ _ => treeDefect?_of_run_load, fun db h => ?_⟩
  · rintro rfl
    exact directoryOutcome_loadDirectory fs path
  · rintro ⟨db, h⟩
    obtain ⟨source, first, hsource, hload, -⟩ := run_build_eq_ok_iff.mp h
    exact ⟨source, List.mem_of_find?_eq_some hsource, first, hload⟩
  · rintro ⟨source, hmem, first, hload⟩
    have hloads : loads fs source = true := by
      rw [loads, hload]
      rfl
    obtain ⟨found, hfound⟩ := Option.isSome_iff_exists.mp
      (List.find?_isSome.mpr ⟨source, hmem, hloads⟩)
    obtain ⟨db, hdb⟩ := exists_of_loads (List.find?_some hfound)
    exact ⟨_, run_build_eq_ok_iff.mpr ⟨found, db, hfound, hdb, rfl⟩⟩
  · obtain ⟨source, first, hsource, hload, rfl⟩ := run_build_eq_ok_iff.mp h
    refine run_build_eq_ok_iff.mpr ⟨source, first, ?_, hload, rfl⟩
    rw [List.find?_append, hsource, Option.some_or]
  · obtain ⟨source, first, -, hload, rfl⟩ := run_build_eq_ok_iff.mp h
    have hvalid : Binding.treeDefect? first.bindings = none := treeDefect?_of_run_load hload
    exact hvalid

/-- The text of a file with a binding that has nothing but a label. -/
def labelFile (label : String) : String := Json.compact (.record [("label", .text label)])

theorem readBinding_labelFile {label : String} (h : (fs.read path).run = .ok (labelFile label)) :
    readBinding fs path = .ok { label := label } := by
  have hwritten : Datum.Nested Datum.IsWritten Json.maxDepth (.record [("label", .text label)]) :=
    .record fun m hm => by
      rw [List.mem_singleton.mp hm]
      exact .leaf trivial
  have hbinding : Binding.ofDatum? (.record [("label", .text label)]) =
      some { label := label } := by
    rw [Binding.ofDatum?]
    rfl
  exact readBinding_of_read h (by rw [labelFile, Json.parse_compact hwritten, Option.bind_some,
    hbinding])

/-- A directory with the files of two commands and a note, in no order. -/
def looseTree : FileTree where
  nodes := [(["apps"], .directory), (["apps", "two.json"], .file (labelFile "jira")),
    (["apps", "notes.txt"], .file "todo"), (["apps", "one.json"], .file (labelFile "github"))]

/-- The same without the note, and in order. -/
def tidyTree : FileTree where
  nodes := [(["apps"], .directory), (["apps", "one.json"], .file (labelFile "github")),
    (["apps", "two.json"], .file (labelFile "jira"))]

/-- The commands of the directory in the order of the file names. -/
def appsDatabase : Database where
  bindings := [{ label := "github" }, { label := "jira" }]
  origin := .source (.directory "apps")

theorem directoryOutcome_tidyTree :
    DirectoryOutcome tidyTree.content "apps" (.ok appsDatabase) := by
  have hlist : (tidyTree.content.list "apps").run = .ok ["one.json", "two.json"] := rfl
  have horder : InNameOrder ["one.json", "two.json"] ["one.json", "two.json"] :=
    ⟨.refl _, by decide⟩
  have hone : readBinding tidyTree.content "apps/one.json" = .ok { label := "github" } :=
    readBinding_labelFile rfl
  have htwo : readBinding tidyTree.content "apps/two.json" = .ok { label := "jira" } :=
    readBinding_labelFile rfl
  have hvalid : Binding.treeDefect? appsDatabase.bindings = none :=
    Binding.defectBelow?_cons_eq_none_iff.mpr ⟨by decide, rfl, Binding.defectBelow?_nil,
      Binding.defectBelow?_cons_eq_none_iff.mpr
        ⟨by decide, rfl, Binding.defectBelow?_nil, Binding.defectBelow?_nil⟩⟩
  exact .loaded hlist horder (.cons hone (.cons htwo .nil)) hvalid

/-- The two directories have the same binding files, and where the bundle is missing, the commands
are those of the directory. -/
theorem loading_ordered_apps :
    SameBindingFiles looseTree.content tidyTree.content "apps" ∧
    (load FileTree.fileSystem (.directory "apps")).run looseTree = (.ok appsDatabase, looseTree) ∧
    (build FileTree.fileSystem [.bundle "apps.json", .directory "apps"]).run looseTree =
      (.ok ⟨appsDatabase.bindings, .anyOf [.bundle "apps.json", .directory "apps"]⟩,
        looseTree) := by
  have hsame : SameBindingFiles looseTree.content tidyTree.content "apps" := by
    refine .listed ["two.json", "notes.txt", "one.json"] ["one.json", "two.json"] rfl rfl
      (by decide) fun name hname hfile => ?_
    simp only [List.mem_cons, List.not_mem_nil, or_false] at hname
    obtain rfl | rfl | rfl := hname
    · rfl
    · exact absurd hfile (by decide)
    · rfl
  obtain ⟨hcongr, -⟩ := loading_ordered looseTree.content "apps" []
  obtain ⟨-, houtcome, -⟩ := loading_ordered tidyTree.content "apps" []
  obtain ⟨-, -, -, -, hbuild, -⟩ := loading_ordered looseTree.content "apps"
    [.bundle "apps.json", .directory "apps"]
  have hload : (load looseTree.content (.directory "apps")).run = .ok appsDatabase :=
    (hcongr _ hsame).trans ((houtcome _).mpr directoryOutcome_tidyTree)
  have hmissing : looseTree.content.read "apps.json" = .error .notFound := rfl
  have hbundle : (load looseTree.content (.bundle "apps.json")).run = .error (.io .notFound) := by
    rw [load, loadBundle, FileSystem.loadJson, FileSystem.load, Id.run_bind, Id.run_bind, hmissing]
    rfl
  have hfirst : [.bundle "apps.json", .directory "apps"].find? (loads looseTree.content) =
      some (.directory "apps") := by
    rw [List.find?_cons_of_neg (by rw [loads, hbundle]; exact Bool.false_ne_true),
      List.find?_cons_of_pos (by rw [loads, hload]; rfl)]
  refine ⟨hsame, ?_, ?_⟩
  · rw [run_load_fileSystem, hload]
  · rw [run_build_fileSystem, (hbuild _).mpr ⟨_, _, hfirst, hload, rfl⟩]

end Database

end SlashCommand

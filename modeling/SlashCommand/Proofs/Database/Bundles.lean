import SlashCommand.Database.Loader
import SlashCommand.Files.Tree
import SlashCommand.Proofs.Binding.Checks
import SlashCommand.Proofs.Json.Layout
import SlashCommand.Proofs.Wire.Stored

/-!
# Bundles that were written

The file of a package is accepted as a bundle exactly if the package has no defect and its document
is nested no deeper than documents are read (`Database.loadBundle_fileText_iff`).  The levels are
those of the file, where trees stand inside a list inside a record: a tree in a file of its own has
two levels more (`Database.loadBundle_chain`).
-/

namespace SlashCommand

open Datum (Nested IsLegible)

/-! ## What is read has the same defects -/

/-- What calls carry along does not matter for the defects of a tree. -/
theorem Binding.defectBelow?_map_reread (path before : List String) (bindings : List Binding) :
    defectBelow? path before (bindings.map reread) = defectBelow? path before bindings := by
  fun_induction defectBelow? path before bindings with
  | case1 => rw [List.map_nil, defectBelow?_nil]
  | case2 path before appId label location icon hint description call form children rest ih ih' =>
    -- the defects of a form are those of its fields
    have hform : (form.map Form.reread).bind Form.defect? = form.bind Form.defect? := by
      cases form <;> rfl
    rw [List.map_cons, reread, rereadAll_eq_map, defectBelow?, hform, ih, ih']

/-- A package without a defect has a version and a well-formed tree. -/
theorem BindingPackage.defect?_eq_none_iff {p : BindingPackage} :
    p.defect? = none ↔ Text.trim p.version ≠ "" ∧ Binding.treeDefect? p.bindings = none := by
  rw [defect?]
  split
  · next h =>
    exact iff_of_false (Option.some_ne_none _) fun hversion => hversion.1 (beq_iff_eq.mp h)
  · next h => exact (and_iff_right fun hversion => h (beq_iff_eq.mpr hversion)).symm

theorem BindingPackage.defect?_reread (p : BindingPackage) : p.reread.defect? = p.defect? := by
  rw [defect?, defect?, Binding.treeDefect?, Binding.treeDefect?, reread,
    Binding.defectBelow?_map_reread]

namespace Database

/-! ## Loading a bundle -/

variable {σ : Type} {fs : FileSystem (StateM σ)} {path text : String} {s s' : σ}
  {package : BindingPackage} {db : Database}

/-- A package is accepted unless there is a defect, and its bindings with it. -/
theorem ofPackage_eq_ok_iff {origin : Origin} :
    ofPackage package origin = .ok db ↔
      package.defect? = none ∧ db = ⟨package.bindings, origin⟩ := by
  rw [ofPackage, BindingPackage.defects_eq_toList]
  cases package.defect? with
  | some d => exact iff_of_false nofun fun h => nomatch h.1
  | none => exact ⟨fun h => ⟨rfl, (Except.ok.inj h).symm⟩, fun h => congrArg Except.ok h.2.symm⟩

/-- What comes of a file that can be opened and has a text. -/
theorem run_loadBundle (hread : (fs.read path).run s = (.ok text, s')) :
    ((loadBundle fs path).run s).1 =
      match (Json.parse text).bind BindingPackage.ofDatum? with
      | some package => ofPackage package (.source (.bundle path))
      | none => .error (@DatabaseError.json .notOfKind) := by
  have hjson : (fs.loadJson path BindingPackage.ofDatum?).run s =
      (match (Json.parse text).bind BindingPackage.ofDatum? with
        | some package => .ok package
        | none => .error (@DatabaseError.json .notOfKind), s') := by
    rw [FileSystem.loadJson, FileSystem.load, StateT.run_bind, hread]
    dsimp only [bind, Id]
    generalize (Json.parse text).bind BindingPackage.ofDatum? = package
    cases package <;> rfl
  rw [loadBundle, StateT.run_bind, hjson]
  generalize (Json.parse text).bind BindingPackage.ofDatum? = package
  cases package <;> rfl

/-- **Accepted bundles.**  The file that was written of a package is accepted exactly if the package
has no defect and no more levels than are read. -/
theorem loadBundle_fileText_iff (hlegible : ∀ b ∈ package.bindings, b.Legible)
    (hread : (fs.read path).run s = (.ok package.fileText, s')) :
    (∃ db, ((loadBundle fs path).run s).1 = .ok db) ↔
      package.defect? = none ∧ Nested IsLegible Json.maxDepth package.toDatum := by
  have hstored := BindingPackage.stored (Nat.le_refl Json.maxDepth) hlegible
  obtain ⟨k, hk⟩ := hstored.legible
  have hparse : Json.parse package.fileText = some (package.toDatum.seen Json.maxDepth) := by
    rw [BindingPackage.fileText, Json.parse_pretty, Json.parse_compact_of_isLegible hk]
  rw [run_loadBundle hread, hparse, Option.bind_some]
  constructor
  · rintro ⟨db, hdb⟩
    split at hdb
    · next package' hpackage =>
      have hnested := hstored.nested package' hpackage
      rw [hstored.read_eq hnested] at hpackage
      cases hpackage
      rw [← package.defect?_reread]
      exact ⟨(ofPackage_eq_ok_iff.mp hdb).1, hnested⟩
    · cases hdb
  · rintro ⟨hdefect, hnested⟩
    rw [hstored.read_eq hnested]
    rw [← package.defect?_reread] at hdefect
    exact ⟨_, ofPackage_eq_ok_iff.mpr ⟨hdefect, rfl⟩⟩

/-! ## The levels of a bundle -/

theorem legible_ofLabel (label : String) : (Binding.ofLabel label).Legible :=
  Binding.legible_iff.mpr ⟨nofun, nofun, List.forall_mem_nil _⟩

/-- A command without anything else takes one level. -/
theorem nested_ofLabel {n : Nat} (label : String) :
    Nested IsLegible (n + 1) (Binding.ofLabel label).toDatum := by
  have htext (s : String) : Nested IsLegible n (.text s) := .leaf trivial
  rw [Binding.toDatum_eq, Datum.nested_present_iff]
  simp [Binding.ofLabel, Datum.someList, htext]

/-- A command with so many subcommands, each below the one before. -/
def chain : Nat → Binding
  | 0 => .ofLabel "a"
  | n + 1 => { Binding.ofLabel "a" with bindings := [chain n] }

theorem treeDefect?_chain (n : Nat) : Binding.treeDefect? [chain n] = none := by
  have hlabel (path : List String) : Binding.labelDefect? path [] "a" = none := by
    rw [Binding.labelDefect?, if_neg (by decide), if_neg (by decide)]
    rfl
  have hbelow (path : List String) (n : Nat) :
      Binding.defectBelow? path [] [chain n] = none := by
    induction n generalizing path with
    | zero =>
      exact Binding.defectBelow?_cons_eq_none_iff.mpr
        ⟨hlabel path, rfl, Binding.defectBelow?_nil, Binding.defectBelow?_nil⟩
    | succ n ih =>
      exact Binding.defectBelow?_cons_eq_none_iff.mpr
        ⟨hlabel path, rfl, ih _, Binding.defectBelow?_nil⟩
  exact hbelow [] n

theorem legible_chain (n : Nat) : (chain n).Legible := by
  induction n with
  | zero => exact legible_ofLabel "a"
  | succ n ih => exact Binding.legible_iff.mpr ⟨nofun, nofun, List.forall_mem_singleton.mpr ih⟩

theorem reread_chain (n : Nat) : (chain n).reread = chain n := by
  induction n with
  | zero => exact Binding.reread_eq _
  | succ n ih => rw [Binding.reread_eq, chain, List.map_singleton, ih]; rfl

/-- Each subcommand stands in a list in the record of the command above it. -/
theorem nested_chain_iff {n k : Nat} : Nested IsLegible k (chain n).toDatum ↔ 2 * n + 1 ≤ k := by
  have hzero (n : Nat) : ¬ Nested IsLegible 0 (chain n).toDatum := by
    rw [Binding.toDatum_eq]
    exact Datum.not_nested_zero_record
  induction n generalizing k with
  | zero =>
    cases k with
    | zero => exact iff_of_false (hzero 0) (by omega)
    | succ k => exact iff_of_true (nested_ofLabel "a") (by omega)
  | succ n ih =>
    have hrecord (k : Nat) : Nested IsLegible (k + 1) (chain (n + 1)).toDatum ↔
        Nested IsLegible k (.list [(chain n).toDatum]) := by
      have htext (s : String) : Nested IsLegible k (.text s) := .leaf trivial
      rw [Binding.toDatum_eq, Datum.nested_present_iff]
      simp [chain, Binding.ofLabel, Datum.someList, htext]
    match k with
    | 0 => exact iff_of_false (hzero (n + 1)) (by omega)
    | 1 => exact (hrecord 0).trans (iff_of_false Datum.not_nested_zero_list (by omega))
    | k + 2 =>
      rw [hrecord, Datum.nested_list_iff, List.forall_mem_singleton]
      exact ih.trans (by omega)

/-- A tree of sixty-four levels of commands is read from a file of its own, and is valid.  The bundle
that is written of it is not accepted. -/
theorem loadBundle_chain :
    (Json.parse (Json.compact (chain 63).toDatum)).bind Binding.ofDatum? = some (chain 63) ∧
    ofBindings [chain 63] .memory = .ok ⟨[chain 63], .memory⟩ ∧
    ∀ db, ((loadBundle FileTree.fileSystem "all.json").run ⟨[(["all.json"], .file
      (toPackage ⟨[chain 63], .memory⟩ "1.0.0" "now").fileText)]⟩).1 ≠ .ok db := by
  refine ⟨?_, ?_, fun db hdb => ?_⟩
  · have hnested : Nested IsLegible Json.maxDepth (chain 63).toDatum :=
      nested_chain_iff.mpr (by decide)
    have hstored := (chain 63).stored (legible_chain 63) (Nat.le_refl Json.maxDepth)
    rw [Json.parse_compact_of_isLegible hnested, Option.bind_some, hstored.read_eq hnested,
      reread_chain]
  · rw [ofBindings, Binding.treeDefects_eq_toList, treeDefect?_chain]
    rfl
  · have hlegible : ∀ b ∈ [chain 63], b.Legible := List.forall_mem_singleton.mpr (legible_chain 63)
    have hread : (FileTree.fileSystem.read "all.json").run ⟨[(["all.json"], .file
        (toPackage ⟨[chain 63], .memory⟩ "1.0.0" "now").fileText)]⟩ = (.ok _, _) := rfl
    obtain ⟨-, hnested⟩ := (loadBundle_fileText_iff hlegible hread).mp ⟨db, hdb⟩
    have hroom : Json.maxDepth = 125 + 2 := rfl
    rw [hroom, BindingPackage.nested_iff] at hnested
    exact absurd (nested_chain_iff.mp (hnested _ List.mem_cons_self)) (by decide)

end Database

end SlashCommand

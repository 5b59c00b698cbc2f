import SlashCommand.Proofs.Database.Bundles
import SlashCommand.Proofs.Expansion.Values
import SlashCommand.Proofs.Text.AsciiCase
import Mathlib.Data.List.Pairwise
import Mathlib.Tactic.FinCases

/-!
# Insertions into a database

A database that was loaded is well formed (`Loaded.treeDefect?_eq_none`), and bindings that are well
formed by themselves are put into it one after the other.  Whether the whole stays well formed is
decided by the labels alone (`treeDefect?_eq_none_iff`).

A database takes two labels for one if they differ by the case of ASCII letters, while a tree must
not have siblings whose labels differ by case in general.  So a database holds one binding for each
label up to ASCII case among those that were given (`Merges`), and this is a well-formed tree exactly
if no two of the given labels differ by the case of other letters
(`Loaded.treeDefect?_foldl_insert`).  A look-up differs from that of the tree in the same way, and the
bundle that is written of the database is accepted if the tree is well formed and not too deep for
one.
-/

namespace SlashCommand

open Datum (Nested IsLegible)
open Expansion (CanReturn canReturn_bind eq_of_canReturn_pure)

/-! ## Well-formed siblings -/

namespace Binding

variable {path path' before : List String} {bindings : List Binding} {label : String}

/-- A label has a defect of its own, or is that of a sibling before it. -/
theorem labelDefect?_eq_none_iff :
    labelDefect? path before label = none ↔
      labelDefect? [] [] label = none ∧ ∀ l ∈ before, Text.eqIgnoreCase l label = false := by
  unfold labelDefect?
  split
  · exact iff_of_false nofun fun h => nomatch h.1
  · split
    · exact iff_of_false nofun fun h => nomatch h.1
    · simp

/-- Where siblings stand in a tree matters for how a defect is worded only. -/
theorem defectBelow?_eq_none_of_path (h : defectBelow? path before bindings = none) :
    defectBelow? path' before bindings = none := by
  fun_induction defectBelow? path before bindings generalizing path' with
  | case1 => exact defectBelow?_nil
  | case2 path before appId label location icon hint description call form children rest ih ih' =>
    obtain ⟨hlabel, hrest⟩ := Option.or_eq_none_iff.mp h
    obtain ⟨hform, hrest⟩ := Option.or_eq_none_iff.mp hrest
    obtain ⟨hchildren, hrest⟩ := Option.or_eq_none_iff.mp hrest
    refine defectBelow?_cons_eq_none_iff.mpr ⟨?_, hform, ih hchildren, ih' hrest⟩
    exact labelDefect?_eq_none_iff.mpr (labelDefect?_eq_none_iff.mp hlabel)

/-- Siblings are well formed if each is by itself and no two answer to one label. -/
theorem defectBelow?_eq_none_iff :
    defectBelow? path before bindings = none ↔
      (∀ b ∈ bindings, treeDefect? [b] = none ∧
        ∀ l ∈ before, Text.eqIgnoreCase l b.label = false) ∧
      bindings.Pairwise fun a b => Text.eqIgnoreCase a.label b.label = false := by
  induction bindings generalizing before with
  | nil => exact iff_of_true defectBelow?_nil ⟨fun b hb => absurd hb List.not_mem_nil, .nil⟩
  | cons b bindings ih =>
    have hself : treeDefect? [b] = none ↔
        labelDefect? [] [] b.label = none ∧ b.form.bind Form.defect? = none ∧
          defectBelow? (path ++ [b.label]) [] b.bindings = none := by
      rw [treeDefect?, defectBelow?_cons_eq_none_iff]
      constructor
      · rintro ⟨hlabel, hform, hbelow, -⟩
        exact ⟨hlabel, hform, defectBelow?_eq_none_of_path hbelow⟩
      · rintro ⟨hlabel, hform, hbelow⟩
        exact ⟨hlabel, hform, defectBelow?_eq_none_of_path hbelow, defectBelow?_nil⟩
    rw [defectBelow?_cons_eq_none_iff, labelDefect?_eq_none_iff, ih, List.forall_mem_cons,
      List.pairwise_cons, hself]
    simp only [List.forall_mem_append, List.forall_mem_singleton]
    grind

theorem treeDefect?_eq_none_iff :
    treeDefect? bindings = none ↔
      (∀ b ∈ bindings, treeDefect? [b] = none) ∧
        bindings.Pairwise fun a b => Text.eqIgnoreCase a.label b.label = false := by
  rw [treeDefect?, defectBelow?_eq_none_iff]
  simp

/-- Two labels that are equal up to case are so up to the case of ASCII letters. -/
def CasesAgree (bindings : List Binding) : Prop :=
  ∀ a ∈ bindings, ∀ b ∈ bindings, Text.eqIgnoreCase a.label b.label = true →
    Text.eqIgnoreAsciiCase a.label b.label = true

end Binding

namespace Database

/-! ## One binding for each label -/

variable {given bindings : List Binding} {a b : Binding}

/-- Two bindings that a database takes for one. -/
def SameEntry (a b : Binding) : Prop := Text.eqIgnoreAsciiCase a.label b.label = true

theorem sameEntry_iff :
    SameEntry a b ↔ a.label.toList.map Char.toLower = b.label.toList.map Char.toLower := by
  rw [SameEntry, Text.eqIgnoreAsciiCase, beq_iff_eq]

theorem SameEntry.refl (a : Binding) : SameEntry a a := sameEntry_iff.mpr rfl

theorem SameEntry.symm (h : SameEntry a b) : SameEntry b a :=
  sameEntry_iff.mpr (sameEntry_iff.mp h).symm

theorem SameEntry.trans {c : Binding} (h : SameEntry a b) (h' : SameEntry b c) : SameEntry a c :=
  sameEntry_iff.mpr ((sameEntry_iff.mp h).trans (sameEntry_iff.mp h'))

theorem SameEntry.eqIgnoreCase (h : SameEntry a b) :
    Text.eqIgnoreCase a.label b.label = true :=
  Text.eqIgnoreCase_of_eqIgnoreAsciiCase h

/-- Of the bindings that were given there is one for each label, up to ASCII case. -/
structure Merges (given bindings : List Binding) : Prop where
  mem : ∀ b ∈ bindings, b ∈ given
  kept : ∀ g ∈ given, ∃ b ∈ bindings, SameEntry b g
  apart : bindings.Pairwise fun a b => ¬ SameEntry a b

theorem mem_of_mem_insertInto (h : a ∈ insertInto b bindings) : a = b ∨ a ∈ bindings := by
  induction bindings with
  | nil => exact .inl (List.mem_singleton.mp h)
  | cons c bindings ih =>
    rw [insertInto] at h
    split at h
    · exact (List.mem_cons.mp h).imp_right (List.mem_cons_of_mem c)
    · rcases List.mem_cons.mp h with rfl | h
      · exact .inr List.mem_cons_self
      · exact (ih h).imp_right (List.mem_cons_of_mem c)

theorem mem_insertInto_self : b ∈ insertInto b bindings := by
  induction bindings with
  | nil => exact List.mem_cons_self
  | cons c bindings ih =>
    rw [insertInto]
    split
    · exact List.mem_cons_self
    · exact List.mem_cons_of_mem c ih

/-- A binding stays, or makes room for one with its label. -/
theorem exists_mem_insertInto (h : a ∈ bindings) :
    ∃ c ∈ insertInto b bindings, SameEntry c a := by
  induction bindings with
  | nil => cases h
  | cons d bindings ih =>
    rw [insertInto]
    split
    · rename_i hsame
      rcases List.mem_cons.mp h with rfl | h
      · exact ⟨b, List.mem_cons_self, SameEntry.symm hsame⟩
      · exact ⟨a, List.mem_cons_of_mem b h, .refl a⟩
    · rcases List.mem_cons.mp h with rfl | h
      · exact ⟨a, List.mem_cons_self, .refl a⟩
      · obtain ⟨c, hc, hsame⟩ := ih h
        exact ⟨c, List.mem_cons_of_mem d hc, hsame⟩

theorem apart_insertInto (h : bindings.Pairwise fun a b => ¬ SameEntry a b) :
    (insertInto b bindings).Pairwise fun a b => ¬ SameEntry a b := by
  induction bindings with
  | nil => exact List.pairwise_singleton _ b
  | cons c bindings ih =>
    obtain ⟨hhead, htail⟩ := List.pairwise_cons.mp h
    rw [insertInto]
    split
    · rename_i hsame
      refine .cons (fun d hd hsame' => hhead d hd ?_) htail
      exact SameEntry.trans hsame hsame'
    · rename_i hdiffers
      refine .cons (fun d hd => ?_) (ih htail)
      rcases mem_of_mem_insertInto hd with rfl | hd
      · exact hdiffers
      · exact hhead d hd

theorem Merges.insertInto (h : Merges given bindings) (b : Binding) :
    Merges (given ++ [b]) (insertInto b bindings) where
  mem a ha := by
    rcases mem_of_mem_insertInto ha with rfl | ha
    · exact List.mem_append_right given List.mem_cons_self
    · exact List.mem_append_left [b] (h.mem a ha)
  kept g hg := by
    rcases List.mem_append.mp hg with hg | hg
    · obtain ⟨a, ha, hag⟩ := h.kept g hg
      obtain ⟨c, hc, hca⟩ := exists_mem_insertInto (b := b) ha
      exact ⟨c, hc, hca.trans hag⟩
    · rw [List.mem_singleton.mp hg]
      exact ⟨b, mem_insertInto_self, .refl b⟩
  apart := apart_insertInto h.apart

theorem Merges.foldl_insert {db : Database} (h : Merges given db.bindings) (bs : List Binding) :
    Merges (given ++ bs) (bs.foldl insert db).bindings := by
  induction bs generalizing given db with
  | nil => simpa using h
  | cons b bs ih =>
    have hinsert : Merges (given ++ [b]) (db.insert b).bindings := h.insertInto b
    simpa using ih hinsert

/-- A well-formed tree has one binding for a label. -/
theorem eq_of_eqIgnoreCase (h : Binding.treeDefect? bindings = none) (ha : a ∈ bindings)
    (hb : b ∈ bindings) (hcase : Text.eqIgnoreCase a.label b.label = true) : a = b := by
  have hsymm : Std.Symm fun a b : Binding => Text.eqIgnoreCase a.label b.label = false :=
    ⟨fun a b hab => by rw [← hab, Text.eqIgnoreCase, Text.eqIgnoreCase, Bool.beq_comm]⟩
  by_contra hne
  have hdiffers := (Binding.treeDefect?_eq_none_iff.mp h).2.forall ha hb hne
  rw [hcase] at hdiffers
  cases hdiffers

/-- Siblings that are well formed are all there is for their labels. -/
theorem merges_self (h : Binding.treeDefect? bindings = none) : Merges bindings bindings where
  mem _ hb := hb
  kept g hg := ⟨g, hg, .refl g⟩
  apart := (Binding.treeDefect?_eq_none_iff.mp h).2.imp fun hdiffers hsame => by
    rw [hsame.eqIgnoreCase] at hdiffers
    cases hdiffers

/-- One binding for each label up to ASCII case is a well-formed tree exactly if no labels differ by
the case of other letters. -/
theorem Merges.treeDefect?_eq_none_iff (h : Merges given bindings)
    (hgiven : ∀ g ∈ given, Binding.treeDefect? [g] = none) :
    Binding.treeDefect? bindings = none ↔ Binding.CasesAgree given := by
  constructor
  · intro hvalid a ha b hb hcase
    obtain ⟨a', ha', haa⟩ := h.kept a ha
    obtain ⟨b', hb', hbb⟩ := h.kept b hb
    have hcase' : Text.eqIgnoreCase a'.label b'.label = true := by
      have haa := haa.eqIgnoreCase
      have hbb := hbb.eqIgnoreCase
      simp only [Text.eqIgnoreCase, beq_iff_eq] at haa hbb hcase ⊢
      rw [haa, hcase, hbb]
    obtain rfl := eq_of_eqIgnoreCase hvalid ha' hb' hcase'
    exact haa.symm.trans hbb
  · intro hagree
    refine Binding.treeDefect?_eq_none_iff.mpr
      ⟨fun b hb => hgiven b (h.mem b hb), h.apart.imp_of_mem fun ha hb hdiffers => ?_⟩
    exact Bool.eq_false_iff.mpr fun hcase => hdiffers (hagree _ (h.mem _ ha) _ (h.mem _ hb) hcase)

/-- What both look-ups find for a label is the only binding with that label in any case. -/
theorem find?_eq_some_of_mem (h : Binding.treeDefect? bindings = none) {label : String}
    (hb : b ∈ bindings) (hcase : Text.eqIgnoreCase b.label label = true) :
    Binding.find? bindings label = some b := by
  obtain ⟨c, hc⟩ : ∃ c, Binding.find? bindings label = some c :=
    Option.isSome_iff_exists.mp (List.find?_isSome.mpr ⟨b, hb, hcase⟩)
  have hcb : Text.eqIgnoreCase c.label b.label = true := by
    have hlabel := List.find?_some hc
    simp only [Text.eqIgnoreCase, beq_iff_eq] at hlabel hcase ⊢
    rw [hlabel, hcase]
  rw [hc, eq_of_eqIgnoreCase h (List.mem_of_find?_eq_some hc) hb hcb]

/-- In a well-formed tree the binding that a database has for a label is the one that the tree has,
exactly if the labels that differ from it by case only do so in ASCII letters. -/
theorem get?_eq_find?_iff {db : Database} {label : String}
    (h : Binding.treeDefect? db.bindings = none) :
    db.get? label = Binding.find? db.bindings label ↔
      ∀ b ∈ db.bindings, Text.eqIgnoreCase b.label label = true →
        Text.eqIgnoreAsciiCase b.label label = true := by
  rw [get?]
  constructor
  · intro heq b hb hcase
    rw [find?_eq_some_of_mem h hb hcase] at heq
    have hget : Text.eqIgnoreAsciiCase b.label label := by simpa using List.find?_some heq
    exact hget
  · intro hagree
    cases hget : db.bindings.find? fun b => Text.eqIgnoreAsciiCase b.label label with
    | some b =>
      have hsame : Text.eqIgnoreAsciiCase b.label label = true := by
        simpa using List.find?_some hget
      exact (find?_eq_some_of_mem h (List.mem_of_find?_eq_some hget)
        (Text.eqIgnoreCase_of_eqIgnoreAsciiCase hsame)).symm
    | none =>
      have hnone := List.find?_eq_none.mp hget
      exact (List.find?_eq_none.mpr fun b hb hcase => hnone b hb (hagree b hb hcase)).symm

/-! ## What was loaded -/

variable {σ : Type} {fs : FileSystem (StateM σ)} {db : Database}

/-- A database that a load has come to, from memory or from files. -/
inductive Loaded (fs : FileSystem (StateM σ)) : Database → Prop
  | memory {bindings : List Binding} {origin : Origin} {db : Database}
      (h : ofBindings bindings origin = .ok db) : Loaded fs db
  | source {source : BindingSource} {db : Database} (h : CanReturn (load fs source) (.ok db)) :
      Loaded fs db
  | build {sources : List BindingSource} {db : Database}
      (h : CanReturn (build fs sources) (.ok db)) : Loaded fs db

/-- Bindings are taken unless there is a defect, which is reported alone. -/
theorem ofBindings_eq (bindings : List Binding) (origin : Origin) :
    ofBindings bindings origin =
      match Binding.treeDefect? bindings with
      | some d => .error (.invalid [d])
      | none => .ok ⟨bindings, origin⟩ := by
  rw [ofBindings, Binding.treeDefects_eq_toList]
  cases Binding.treeDefect? bindings <;> rfl

theorem treeDefect?_of_ofBindings {origin : Origin} (h : ofBindings bindings origin = .ok db) :
    Binding.treeDefect? db.bindings = none := by
  rw [ofBindings_eq] at h
  split at h
  · cases h
  · cases h
    assumption

theorem treeDefect?_of_loadDirectory {path : String}
    (h : CanReturn (loadDirectory fs path) (.ok db)) :
    Binding.treeDefect? db.bindings = none := by
  obtain ⟨names, -, hrest⟩ := canReturn_bind h
  cases names with
  | error e => cases eq_of_canReturn_pure hrest
  | ok names =>
    obtain ⟨bindings, -, hrest⟩ := canReturn_bind hrest
    cases bindings with
    | error e => cases eq_of_canReturn_pure hrest
    | ok bindings => exact treeDefect?_of_ofBindings (eq_of_canReturn_pure hrest).symm

/-- A package without a defect has a well-formed tree. -/
theorem treeDefect?_of_defect? {package : BindingPackage} (h : package.defect? = none) :
    Binding.treeDefect? package.bindings = none := (BindingPackage.defect?_eq_none_iff.mp h).2

theorem treeDefect?_of_loadBundle {path : String} (h : CanReturn (loadBundle fs path) (.ok db)) :
    Binding.treeDefect? db.bindings = none := by
  obtain ⟨package, -, hrest⟩ := canReturn_bind h
  cases package with
  | error e => cases eq_of_canReturn_pure hrest
  | ok package =>
    obtain ⟨hdefect, rfl⟩ := ofPackage_eq_ok_iff.mp (eq_of_canReturn_pure hrest).symm
    exact treeDefect?_of_defect? hdefect

theorem treeDefect?_of_load {source : BindingSource} (h : CanReturn (load fs source) (.ok db)) :
    Binding.treeDefect? db.bindings = none := by
  cases source with
  | directory path => exact treeDefect?_of_loadDirectory h
  | bundle path => exact treeDefect?_of_loadBundle h

theorem treeDefect?_of_loadFirst {sources : List BindingSource}
    (h : CanReturn (loadFirst fs sources) (.ok db)) : Binding.treeDefect? db.bindings = none := by
  induction sources with
  | nil => cases eq_of_canReturn_pure h
  | cons source sources ih =>
    obtain ⟨result, hresult, hrest⟩ := canReturn_bind h
    cases result with
    | error e => exact ih hrest
    | ok db' =>
      cases eq_of_canReturn_pure hrest
      exact treeDefect?_of_load hresult

/-- Whatever is loaded is well formed. -/
theorem Loaded.treeDefect?_eq_none (h : Loaded fs db) :
    Binding.treeDefect? db.bindings = none := by
  cases h with
  | memory h => exact treeDefect?_of_ofBindings h
  | source h => exact treeDefect?_of_load h
  | build h =>
    obtain ⟨first, hfirst, hrest⟩ := canReturn_bind h
    cases first with
    | error e => cases eq_of_canReturn_pure hrest
    | ok first =>
      have hvalid := treeDefect?_of_loadFirst hfirst
      cases eq_of_canReturn_pure hrest
      exact hvalid

/-- After well-formed bindings were put into a database that was loaded, it is well formed exactly
if no two labels among those that were loaded or put in differ by the case of letters outside ASCII.
Then it has the binding of the tree for each label that differs by ASCII case at most from those it
is equal to up to case, and for no other.

A file with a package of it is accepted as a bundle exactly if the version is not empty, the tree is
well formed and the document of the package has no more levels than are read.  This is said of
bindings that have a document: their positions have thirty-two bits, and the numbers that their calls
carry along are read from their texts. -/
theorem Loaded.treeDefect?_foldl_insert (h : Loaded fs db) {bs : List Binding}
    (hbs : ∀ b ∈ bs, Binding.treeDefect? [b] = none) :
    (Binding.treeDefect? (bs.foldl insert db).bindings = none ↔
      Binding.CasesAgree (db.bindings ++ bs)) ∧
    (∀ label, Binding.treeDefect? (bs.foldl insert db).bindings = none →
      ((bs.foldl insert db).get? label = Binding.find? (bs.foldl insert db).bindings label ↔
        ∀ b ∈ (bs.foldl insert db).bindings, Text.eqIgnoreCase b.label label = true →
          Text.eqIgnoreAsciiCase b.label label = true)) ∧
    ∀ version generatedAt path s s', (∀ b ∈ (bs.foldl insert db).bindings, b.Legible) →
      (fs.read path).run s =
        (.ok ((bs.foldl insert db).toPackage version generatedAt).fileText, s') →
      ((∃ db', ((loadBundle fs path).run s).1 = .ok db') ↔
        Text.trim version ≠ "" ∧ Binding.treeDefect? (bs.foldl insert db).bindings = none ∧
          Nested IsLegible Json.maxDepth
            ((bs.foldl insert db).toPackage version generatedAt).toDatum) := by
  have hdb := h.treeDefect?_eq_none
  refine ⟨?_, fun label hvalid => get?_eq_find?_iff hvalid,
    fun version generatedAt path s s' hlegible hread => ?_⟩
  · refine ((merges_self hdb).foldl_insert bs).treeDefect?_eq_none_iff fun g hg => ?_
    rcases List.mem_append.mp hg with hg | hg
    · exact (Binding.treeDefect?_eq_none_iff.mp hdb).1 g hg
    · exact hbs g hg
  · rw [loadBundle_fileText_iff hlegible hread, BindingPackage.defect?_eq_none_iff, and_assoc]
    rfl

/-- The database of two commands, one of which is inserted again with its label in capitals.  It is
well formed, and accepted again from the bundle that is written of it. -/
theorem treeDefect?_insert_jira :
    ∃ db, ofBindings [.ofLabel "jira"] .memory = .ok db ∧
      Binding.treeDefect? (db.insert (.ofLabel "JIRA") |>.insert (.ofLabel "github")).bindings =
        none ∧
      ∃ db', ((loadBundle FileTree.fileSystem "all.json").run ⟨[(["all.json"], .file
        ((db.insert (.ofLabel "JIRA") |>.insert (.ofLabel "github")).toPackage
          "1.0.0" "now").fileText)]⟩).1 = .ok db' := by
  have hvalid : ∀ b ∈ [Binding.ofLabel "jira", .ofLabel "JIRA", .ofLabel "github"],
      Binding.treeDefect? [b] = none := by
    rintro b hb
    fin_cases hb <;> exact Binding.defectBelow?_cons_eq_none_iff.mpr
      ⟨by decide, rfl, Binding.defectBelow?_nil, Binding.defectBelow?_nil⟩
  have hjira : ofBindings [.ofLabel "jira"] .memory = .ok ⟨[.ofLabel "jira"], .memory⟩ := by
    rw [ofBindings_eq, hvalid _ List.mem_cons_self]
  have hloaded : Loaded FileTree.fileSystem ⟨[.ofLabel "jira"], .memory⟩ := .memory hjira
  have hgiven : ∀ b ∈ [Binding.ofLabel "JIRA", .ofLabel "github"],
      Binding.treeDefect? [b] = none := fun b hb => hvalid b (List.mem_cons_of_mem _ hb)
  have hinserted := hloaded.treeDefect?_foldl_insert hgiven
  have htree := hinserted.1.mpr (by unfold Binding.CasesAgree; decide)
  refine ⟨_, hjira, htree, (hinserted.2.2 "1.0.0" "now" "all.json" _ _ ?_ rfl).mpr
    ⟨by decide, htree, ?_⟩⟩
  · rintro b hb
    fin_cases hb <;> exact legible_ofLabel _
  · have hroom : Json.maxDepth = 124 + 1 + 2 := rfl
    rw [hroom, BindingPackage.nested_iff]
    rintro b hb
    fin_cases hb <;> exact nested_ofLabel _

/-- A capital letter outside ASCII: the binding is put beside the one with its label, and the tree
has a defect.  Before that the database has no binding for the label, and the tree has one. -/
theorem treeDefect?_insert_capital :
    Binding.treeDefect? [.ofLabel "É"] = none ∧
    ∃ db, ofBindings [.ofLabel "é"] .memory = .ok db ∧
      Binding.treeDefect? (db.insert (.ofLabel "É")).bindings = some (.duplicateBinding "/É") ∧
      db.get? "É" = none ∧ Binding.find? db.bindings "É" = some (.ofLabel "é") := by
  have hsmall : Binding.treeDefect? [.ofLabel "é"] = none :=
    Binding.defectBelow?_cons_eq_none_iff.mpr
      ⟨by decide, rfl, Binding.defectBelow?_nil, Binding.defectBelow?_nil⟩
  have hcase : Text.eqIgnoreCase "é" "É" = true := by decide
  refine ⟨?_, ⟨[.ofLabel "é"], .memory⟩, ?_, ?_, rfl, List.find?_cons_of_pos hcase⟩
  · exact Binding.defectBelow?_cons_eq_none_iff.mpr
      ⟨by decide, rfl, Binding.defectBelow?_nil, Binding.defectBelow?_nil⟩
  · rw [ofBindings_eq, hsmall]
  · have hinsert : insertInto (.ofLabel "É") [.ofLabel "é"] = [.ofLabel "é", .ofLabel "É"] := rfl
    rw [insert, hinsert, Binding.treeDefect?]
    simp only [Binding.ofLabel, Binding.defectBelow?]
    decide

end Database
end SlashCommand

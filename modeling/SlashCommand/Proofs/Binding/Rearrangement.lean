import SlashCommand.Proofs.Binding.Validation
import Mathlib.Data.List.Nodup

/-!
# Trees in another order

Siblings of a tree and fields of a form are declared in some order, and every look-up takes the
first one that answers.  In a tree without a defect there is only one that does, and a tree with the
same bindings and fields in another order answers alike.

* `Form.Rearranged`, `Binding.Rearranged`: the same form, or tree, with fields, and siblings at any
  level, in another order.
* `Binding.find?_rearranged`: the same label leads to bindings that are alike.
* `Form.exists_renaming`: the fields have other places in the form, and what is looked up in it is
  found at the place that the field has there.
-/

namespace SlashCommand

/-- At most one member of a list passes a test that no two of them pass. -/
theorem eq_of_pairwise {α : Type} {p : α → Bool} {l : List α}
    (h : l.Pairwise fun a b => ¬ (p a = true ∧ p b = true)) {a b : α} (ha : a ∈ l) (hb : b ∈ l)
    (hpa : p a = true) (hpb : p b = true) : a = b := by
  obtain ⟨i, hi, rfl⟩ := List.getElem_of_mem ha
  obtain ⟨j, hj, rfl⟩ := List.getElem_of_mem hb
  have hpairwise := List.pairwise_iff_getElem.mp h
  rcases Nat.lt_trichotomy i j with hij | rfl | hij
  · exact absurd ⟨hpa, hpb⟩ (hpairwise i j hi hj hij)
  · rfl
  · exact absurd ⟨hpb, hpa⟩ (hpairwise j i hj hi hij)

/-- Related options are both empty, or hold what is related. -/
theorem eq_none_or_eq_some_of_rel {α β : Type} {R : α → β → Prop} {a : Option α} {b : Option β}
    (h : Option.Rel R a b) :
    (a = none ∧ b = none) ∨ ∃ x y, a = some x ∧ b = some y ∧ R x y := by
  cases h with
  | none => exact .inl ⟨rfl, rfl⟩
  | some h => exact .inr ⟨_, _, rfl, rfl, h⟩

/-! ## Forms -/

/-- The same form, with its fields in another order. -/
def Form.Rearranged (form form' : Form) : Prop :=
  ∃ fields, form.fields.Perm fields ∧ form' = { form with fields }

/-- The field at each place of one form has a place in the other, and what is looked up while
parameters are read is found in both. -/
structure Form.Renaming (form form' : Form) (place : Nat → Nat) : Prop where
  field : ∀ i, form'.fields[place i]? = form.fields[i]?
  position : ∀ k : Nat,
    form'.fields.findIdx? (·.position == ((k + 1 : Nat) : Int)) =
      (form.fields.findIdx? (·.position == ((k + 1 : Nat) : Int))).map place
  rest : ∀ values : Values,
    form'.fields.findIdx? (fun f => f.isRest && !values.contains f.name) =
      (form.fields.findIdx? fun f => f.isRest && !values.contains f.name).map place
  flag : ∀ token : String,
    form'.fields.findIdx? (fun f => Text.eqIgnoreCase f.flagName token) =
      (form.fields.findIdx? fun f => Text.eqIgnoreCase f.flagName token).map place

namespace Form

variable {form form' form'' : Form} {fields fields' : List Field} {p : Field → Bool}
  {place : Nat → Nat}

theorem Rearranged.refl (form : Form) : form.Rearranged form :=
  ⟨form.fields, .refl _, rfl⟩

theorem Rearranged.trans (h : form.Rearranged form') (h' : form'.Rearranged form'') :
    form.Rearranged form'' := by
  obtain ⟨fields, hperm, rfl⟩ := h
  obtain ⟨fields', hperm', rfl⟩ := h'
  exact ⟨fields', hperm.trans hperm', rfl⟩

/-- A test that at most one field passes finds that field at its place in the other order. -/
theorem findIdx?_of_perm (hperm : fields.Perm fields') (hnodup : fields.Nodup)
    (hplace : ∀ i, fields'[place i]? = fields[i]?)
    (h : fields.Pairwise fun g f => ¬ (p g = true ∧ p f = true)) :
    fields'.findIdx? p = (fields.findIdx? p).map place := by
  cases hfind : fields.findIdx? p with
  | none =>
    have hnone := List.findIdx?_eq_none_iff.mp hfind
    exact List.findIdx?_eq_none_iff.mpr fun f hf => hnone f (hperm.mem_iff.mpr hf)
  | some i =>
    obtain ⟨hi, hpi, -⟩ := List.findIdx?_eq_some_iff_getElem.mp hfind
    have hget : fields'[place i]? = some fields[i] :=
      (hplace i).trans (List.getElem?_eq_getElem hi)
    obtain ⟨hj, hsame⟩ := List.getElem?_eq_some_iff.mp hget
    refine List.findIdx?_eq_some_iff_getElem.mpr ⟨hj, hsame.symm ▸ hpi, fun k hk hpk => ?_⟩
    -- a field before it would be the same one
    have hmem : fields'[k] ∈ fields := hperm.mem_iff.mpr (List.getElem_mem _)
    have heq : fields'[k] = fields'[place i] :=
      (eq_of_pairwise h hmem (List.getElem_mem hi) hpk hpi).trans hsame.symm
    have hk' := (hperm.nodup hnodup).getElem_inj_iff.mp heq
    omega

/-- The fields of a form without a defect are different. -/
theorem nodup_fields (h : form.defect? = none) : form.fields.Nodup :=
  (pairwise_apart h).imp fun hapart heq => hapart.name (congrArg Field.name heq)

/-- In a form without a defect the fields can be told apart in any order. -/
theorem exists_renaming (hform : form.defect? = none) (h : form.Rearranged form') :
    ∃ place, form.Renaming form' place := by
  obtain ⟨fields, hperm, rfl⟩ := h
  have hplaces : ∀ i : Nat, ∃ j : Nat, fields[j]? = form.fields[i]? := by
    intro i
    cases hget : form.fields[i]? with
    | none => exact ⟨fields.length, List.getElem?_eq_none (Nat.le_refl _)⟩
    | some f =>
      have hmem : f ∈ fields := hperm.mem_iff.mp (List.mem_of_getElem? hget)
      exact List.getElem?_of_mem hmem
  obtain ⟨place, hplace⟩ := Classical.skolem.mp hplaces
  have hplaced := pairwise_placedApart hform
  have hfind {p : Field → Bool}
      (hp : form.fields.Pairwise fun g f => ¬ (p g = true ∧ p f = true)) :
      fields.findIdx? p = (form.fields.findIdx? p).map place :=
    findIdx?_of_perm hperm (nodup_fields hform) hplace hp
  refine ⟨place, hplace, fun k => hfind ?_, fun values => hfind ?_, fun token => hfind ?_⟩
  · refine hplaced.imp fun hapart hboth => ?_
    have hg := beq_iff_eq.mp hboth.1
    have hf := beq_iff_eq.mp hboth.2
    exact hapart.position (by omega) (hg.trans hf.symm)
  · refine hplaced.imp fun hapart hboth => hapart.rest ?_
    exact ⟨(Bool.and_eq_true_iff.mp hboth.1).1, (Bool.and_eq_true_iff.mp hboth.2).1⟩
  · refine (pairwise_apart hform).imp fun {g f} hapart hboth => ?_
    have hsame : Text.eqIgnoreCase g.flagName f.flagName = true :=
      beq_iff_eq.mpr ((beq_iff_eq.mp hboth.1).trans (beq_iff_eq.mp hboth.2).symm)
    rw [hapart.flagName] at hsame
    cases hsame

end Form

/-! ## Trees -/

namespace Binding

/-- The same bindings, with siblings in another order, also below them, and with the fields of their
forms in another order. -/
inductive Rearranged : List Binding → List Binding → Prop
  | nil : Rearranged [] []
  | cons {b : Binding} {form : Option Form} {below bindings bindings' : List Binding} :
      Option.Rel Form.Rearranged b.form form → Rearranged b.bindings below →
      Rearranged bindings bindings' →
      Rearranged (b :: bindings) ({ b with form, bindings := below } :: bindings')
  | swap (b c : Binding) (bindings : List Binding) :
      Rearranged (b :: c :: bindings) (c :: b :: bindings)
  | trans {bindings bindings' bindings'' : List Binding} : Rearranged bindings bindings' →
      Rearranged bindings' bindings'' → Rearranged bindings bindings''

/-- The same binding, with the fields of its form and the bindings below it in another order. -/
def Alike (b b' : Binding) : Prop :=
  ∃ form below, Option.Rel Form.Rearranged b.form form ∧ Rearranged b.bindings below ∧
    b' = { b with form, bindings := below }

variable {b b' b'' : Binding} {bindings bindings' : List Binding}

theorem rel_refl (form : Option Form) : Option.Rel Form.Rearranged form form := by
  cases form with
  | none => exact .none
  | some form => exact .some (.refl form)

theorem rel_trans {form form' form'' : Option Form} (h : Option.Rel Form.Rearranged form form')
    (h' : Option.Rel Form.Rearranged form' form'') : Option.Rel Form.Rearranged form form'' := by
  cases h with
  | none => exact h'
  | some h =>
    cases h' with
    | some h' => exact .some (h.trans h')

namespace Rearranged

theorem refl (bindings : List Binding) : Rearranged bindings bindings :=
  match bindings with
  | [] => .nil
  | ⟨_, _, _, _, _, _, _, form, below⟩ :: bindings =>
    .cons (b := ⟨_, _, _, _, _, _, _, form, below⟩) (rel_refl form) (refl below) (refl bindings)

theorem length_eq (h : Rearranged bindings bindings') : bindings.length = bindings'.length := by
  induction h with
  | nil => rfl
  | cons _ _ _ _ ih => rw [List.length_cons, List.length_cons, ih]
  | swap => rfl
  | trans _ _ ih ih' => exact ih.trans ih'

theorem isEmpty_eq (h : Rearranged bindings bindings') : bindings.isEmpty = bindings'.isEmpty := by
  have hlength := h.length_eq
  rw [Bool.eq_iff_iff, List.isEmpty_iff_length_eq_zero, List.isEmpty_iff_length_eq_zero, hlength]

end Rearranged

namespace Alike

theorem refl (b : Binding) : b.Alike b :=
  ⟨b.form, b.bindings, rel_refl b.form, .refl b.bindings, by cases b; rfl⟩

theorem trans (h : b.Alike b') (h' : b'.Alike b'') : b.Alike b'' := by
  obtain ⟨form, below, hform, hbelow, rfl⟩ := h
  obtain ⟨form', below', hform', hbelow', rfl⟩ := h'
  exact ⟨form', below', rel_trans hform hform', hbelow.trans hbelow', rfl⟩

theorem label (h : b.Alike b') : b'.label = b.label := by
  obtain ⟨_, _, _, _, rfl⟩ := h
  rfl

theorem form (h : b.Alike b') : Option.Rel Form.Rearranged b.form b'.form := by
  obtain ⟨_, _, hform, _, rfl⟩ := h
  exact hform

theorem below (h : b.Alike b') : Rearranged b.bindings b'.bindings := by
  obtain ⟨_, _, _, hbelow, rfl⟩ := h
  exact hbelow

end Alike

namespace Rearranged

/-- A binding that is alike may stand in front of siblings in another order. -/
theorem cons_of_alike (hb : b.Alike b') (h : Rearranged bindings bindings') :
    Rearranged (b :: bindings) (b' :: bindings') := by
  obtain ⟨form, below, hform, hbelow, rfl⟩ := hb
  exact .cons hform hbelow h

/-- Every binding has one like it in the other order. -/
theorem exists_alike (h : Rearranged bindings bindings') :
    ∀ b ∈ bindings, ∃ b' ∈ bindings', b.Alike b' := by
  induction h with
  | nil => exact nofun
  | cons hform hbelow _ _ ih =>
    refine List.forall_mem_cons.mpr ⟨?_, fun b hb => ?_⟩
    · exact ⟨_, List.mem_cons_self, _, _, hform, hbelow, rfl⟩
    · obtain ⟨b', hb', halike⟩ := ih b hb
      exact ⟨b', List.mem_cons_of_mem _ hb', halike⟩
  | swap b c bindings =>
    exact fun d hd => ⟨d, (List.Perm.swap b c bindings).mem_iff.mpr hd, .refl d⟩
  | trans _ _ ih ih' =>
    intro b hb
    obtain ⟨b', hb', halike⟩ := ih b hb
    obtain ⟨b'', hb'', halike'⟩ := ih' b' hb'
    exact ⟨b'', hb'', halike.trans halike'⟩

/-- Every binding in the other order is like one of the tree. -/
theorem exists_alike_of_mem (h : Rearranged bindings bindings') :
    ∀ b' ∈ bindings', ∃ b ∈ bindings, b.Alike b' := by
  induction h with
  | nil => exact nofun
  | cons hform hbelow _ _ ih =>
    refine List.forall_mem_cons.mpr ⟨?_, fun b' hb' => ?_⟩
    · exact ⟨_, List.mem_cons_self, _, _, hform, hbelow, rfl⟩
    · obtain ⟨b, hb, halike⟩ := ih b' hb'
      exact ⟨b, List.mem_cons_of_mem _ hb, halike⟩
  | swap b c bindings =>
    exact fun d hd => ⟨d, (List.Perm.swap c b bindings).mem_iff.mpr hd, .refl d⟩
  | trans _ _ ih ih' =>
    intro b'' hb''
    obtain ⟨b', hb', halike'⟩ := ih' b'' hb''
    obtain ⟨b, hb, halike⟩ := ih b' hb'
    exact ⟨b, hb, halike.trans halike'⟩

end Rearranged

/-- Among siblings without a defect a label leads to bindings that are alike in any order. -/
theorem find?_rearranged {path before : List String}
    (hvalid : defectBelow? path before bindings = none) (h : Rearranged bindings bindings')
    (label : String) :
    Option.Rel Alike (find? bindings label) (find? bindings' label) := by
  have hanswers {b c : Binding} (hsame : c.label = b.label)
      (hb : Text.eqIgnoreCase b.label label = true) : Text.eqIgnoreCase c.label label = true := by
    rwa [hsame]
  cases hfind : find? bindings label with
  | none =>
    have hno : ∀ b ∈ bindings, ¬ Text.eqIgnoreCase b.label label = true :=
      List.find?_eq_none.mp hfind
    have hno' : find? bindings' label = none := by
      refine List.find?_eq_none.mpr fun b' hb' hlabel => ?_
      obtain ⟨b, hb, halike⟩ := h.exists_alike_of_mem b' hb'
      exact hno b hb (hanswers halike.label.symm hlabel)
    rw [hno']
    exact .none
  | some b =>
    obtain ⟨b', hb', halike⟩ := h.exists_alike b (List.mem_of_find?_eq_some hfind)
    have hsome : (find? bindings' label).isSome = true :=
      List.find?_isSome.mpr ⟨b', hb', hanswers halike.label (label_of_find? hfind)⟩
    obtain ⟨c', hc'⟩ := Option.isSome_iff_exists.mp hsome
    -- the first one that answers in the other order is like one that answers, so like the only one
    obtain ⟨c, hc, hlike⟩ := h.exists_alike_of_mem c' (List.mem_of_find?_eq_some hc')
    have hclabel := hanswers hlike.label.symm (label_of_find? hc')
    have hsame := find?_of_label hvalid hc hclabel
    rw [hfind] at hsame
    obtain rfl := Option.some.inj hsame
    rw [hc']
    exact .some hlike

end Binding

end SlashCommand

import SlashCommand.Proofs.Expansion.Fields
import SlashCommand.Fixtures.Basic

/-!
# Fields are expanded at the same time

The fields of a form are expanded concurrently: each asks the directory its own questions one after
the other, and the answers come in whatever order they come.  A computation that waits for answers
is `Paused`.  It is a monad, so what a field does is the same `expandField` as everywhere else, run
with a backend that only asks (`Backend.paused`).

An order of answers is a list of the places of those that get them (`Lookup.after?`).  Whatever is
still to come, a lookup always comes to what its field comes to on its own, because the answers are
a function of the questions (`map_outcome_after?`); and each answer leaves one question less
(`questionsLeft_after?`).  Hence all orders come to the same end, which is what `expandValues_local`
says together with what that end is.
-/

namespace SlashCommand

/-- What a question is answered with. -/
def Question.Answer : Question → Type
  | .call _ _ => Except BackendError CallResponse
  | .user _ => Except BackendError (Option User)
  | .channel _ _ => Except BackendError (Option Channel)
  | .users _ => Except BackendError (List User)
  | .channels _ _ => Except BackendError (List Channel)

/-- The answer to a question. -/
def Backend.answer (backend : Backend Id) : (q : Question) → q.Answer
  | .call request type => (backend.performCall request type).run
  | .user name => (backend.userByUsername name).run
  | .channel teamId name => (backend.channelByName teamId name).run
  | .users typed => (backend.usersByPrefix typed).run
  | .channels teamId typed => (backend.channelsByPrefix teamId typed).run

/-- A computation that has come to its end, or that waits for the answer to a question. -/
inductive Paused (α : Type) where
  | done (result : α)
  | asks (q : Question) (resume : q.Answer → Paused α)

namespace Paused

variable {α β : Type}

/-- Goes on with another computation at the end. -/
def andThen : Paused α → (α → Paused β) → Paused β
  | .done result, f => f result
  | .asks q resume, f => .asks q fun answer => (resume answer).andThen f

instance : Monad Paused where
  pure := .done
  bind := andThen

/-- What the computation comes to. -/
def outcome (backend : Backend Id) : Paused α → α
  | .done result => result
  | .asks q resume => (resume (backend.answer q)).outcome backend

/-- How many questions are asked up to the end. -/
def questionsLeft (backend : Backend Id) : Paused α → Nat
  | .done _ => 0
  | .asks q resume => (resume (backend.answer q)).questionsLeft backend + 1

theorem outcome_bind (backend : Backend Id) (p : Paused α) (f : α → Paused β) :
    (p >>= f).outcome backend = (f (p.outcome backend)).outcome backend := by
  show (p.andThen f).outcome backend = _
  induction p with
  | done result => rfl
  | asks q resume ih => exact ih (backend.answer q)

end Paused

/-- The backend that asks each question and waits for the answer. -/
def Backend.paused : Backend Paused where
  performCall request type := .asks (.call request type) .done
  userByUsername name := .asks (.user name) .done
  channelByName teamId name := .asks (.channel teamId name) .done
  usersByPrefix typed := .asks (.users typed) .done
  channelsByPrefix teamId typed := .asks (.channels teamId typed) .done

namespace Expansion

variable {backend : Backend Id} {teamId : Option String} {field : Field} {v : Value}

/-! ## One field -/

theorem outcome_resolve (token : String) :
    (resolve Backend.paused teamId field token).outcome backend =
      answer backend teamId field token := by
  unfold answer resolve
  cases field.type <;> rfl

theorem outcome_resolveAfter (tokens : List String) (resolved : List SelectOption) :
    (resolveAfter Backend.paused teamId field resolved tokens).outcome backend =
      (resolveAfter backend teamId field resolved tokens).run := by
  induction tokens generalizing resolved with
  | nil => rfl
  | cons token tokens ih =>
    rw [resolveAfter, Paused.outcome_bind, outcome_resolve, run_resolveAfter_cons]
    cases answer backend teamId field token with
    | error e => rfl
    | ok option =>
      dsimp only
      split
      · rfl
      · exact ih _

/-- A field that waits for answers comes to what it is expanded to at once. -/
theorem outcome_expandField :
    (expandField Backend.paused teamId field v).outcome backend =
      (expandField backend teamId field v).run := by
  unfold expandField
  split
  · rfl
  · rfl
  · rfl
  · rfl
  · rfl
  · rw [Paused.outcome_bind, outcome_resolve]
    rfl
  · rw [Paused.outcome_bind, outcome_resolveAfter]
    rfl

/-! ## All fields -/

/-- The expansion of a field that is under way, by the name of the field. -/
structure Lookup where
  name : String
  rest : Paused (Except ExpansionError TypedValue)

namespace Lookup

/-- A lookup that has come to a result. -/
def finished (result : String × Except ExpansionError TypedValue) : Lookup :=
  ⟨result.1, .done result.2⟩

/-- What the lookup comes to. -/
def outcome (backend : Backend Id) (l : Lookup) : String × Except ExpansionError TypedValue :=
  (l.name, l.rest.outcome backend)

/-- The lookup after the answer to the question that it waits for. -/
def answered? (backend : Backend Id) (l : Lookup) : Option Lookup :=
  match l.rest with
  | .done _ => none
  | .asks q resume => some ⟨l.name, resume (backend.answer q)⟩

end Lookup

/-- The lookups of the fields that have a value, as they begin. -/
def lookups (teamId : Option String) (form : Form) (values : Values) : List Lookup :=
  (presentFields form values).map fun p => ⟨p.1.name, expandField .paused teamId p.1 p.2⟩

/-- The lookups after the one at a place has got its answer, if it waits for one. -/
def answerAt? (backend : Backend Id) (pending : List Lookup) (i : Nat) : Option (List Lookup) := do
  let l ← pending[i]?
  let l' ← l.answered? backend
  return pending.set i l'

/-- The lookups after answers in some order. -/
def after? (backend : Backend Id) (pending : List Lookup) : List Nat → Option (List Lookup)
  | [] => some pending
  | i :: order => (answerAt? backend pending i).bind (after? backend · order)

/-- After answers in this order all lookups have come to their ends, with these results. -/
def Joins (backend : Backend Id) (pending : List Lookup) (order : List Nat)
    (results : List (String × Except ExpansionError TypedValue)) : Prop :=
  after? backend pending order = some (results.map Lookup.finished)

/-- How many questions all lookups have left. -/
def questionsLeft (backend : Backend Id) : List Lookup → Nat
  | [] => 0
  | l :: pending => l.rest.questionsLeft backend + questionsLeft backend pending

variable {pending pending' : List Lookup} {form : Form} {values : Values} {i : Nat}
  {order more : List Nat} {results : List (String × Except ExpansionError TypedValue)}

theorem map_outcome_lookups :
    (lookups teamId form values).map (Lookup.outcome backend) =
      ownResults backend teamId form values := by
  rw [lookups, ownResults, List.map_map]
  refine List.map_congr_left fun p _ => ?_
  exact congrArg (Prod.mk p.1.name) outcome_expandField

/-- An answer takes away one question of the lookup that gets it, and changes nothing else. -/
theorem exists_of_answerAt? (h : answerAt? backend pending i = some pending') :
    ∃ before l l' behind, pending = before ++ l :: behind ∧ pending' = before ++ l' :: behind ∧
      l'.outcome backend = l.outcome backend ∧
      l'.rest.questionsLeft backend + 1 = l.rest.questionsLeft backend := by
  obtain ⟨l, hl, h⟩ := Option.bind_eq_some_iff.mp h
  obtain ⟨l', hl', hset⟩ := Option.bind_eq_some_iff.mp h
  obtain ⟨hlt, rfl⟩ := List.getElem?_eq_some_iff.mp hl
  refine ⟨pending.take i, pending[i], l', pending.drop (i + 1), ?_, ?_, ?_⟩
  · rw [List.getElem_cons_drop, List.take_append_drop]
  · rw [← Option.some.inj hset, List.set_eq_take_append_cons_drop, if_pos hlt]
  · unfold Lookup.answered? at hl'
    split at hl'
    · cases hl'
    · rename_i hrest
      cases hl'
      unfold Lookup.outcome
      rw [hrest]
      exact ⟨rfl, rfl⟩

theorem map_outcome_after? (h : after? backend pending order = some pending') :
    pending'.map (Lookup.outcome backend) = pending.map (Lookup.outcome backend) := by
  induction order generalizing pending with
  | nil => rw [Option.some.inj h]
  | cons i order ih =>
    obtain ⟨next, hnext, hrest⟩ := Option.bind_eq_some_iff.mp h
    obtain ⟨before, l, l', behind, rfl, rfl, houtcome, -⟩ := exists_of_answerAt? hnext
    rw [ih hrest, List.map_append, List.map_append, List.map_cons, List.map_cons, houtcome]

theorem questionsLeft_append (before behind : List Lookup) :
    questionsLeft backend (before ++ behind) =
      questionsLeft backend before + questionsLeft backend behind := by
  induction before with
  | nil => exact (Nat.zero_add _).symm
  | cons l before ih => rw [List.cons_append, questionsLeft, questionsLeft, ih, Nat.add_assoc]

theorem questionsLeft_after? (h : after? backend pending order = some pending') :
    questionsLeft backend pending' + order.length = questionsLeft backend pending := by
  induction order generalizing pending with
  | nil => rw [Option.some.inj h, List.length_nil, Nat.add_zero]
  | cons i order ih =>
    obtain ⟨next, hnext, hrest⟩ := Option.bind_eq_some_iff.mp h
    obtain ⟨before, l, l', behind, rfl, rfl, -, hfewer⟩ := exists_of_answerAt? hnext
    have hlength := ih hrest
    rw [questionsLeft_append, questionsLeft] at hlength ⊢
    rw [List.length_cons]
    omega

theorem after?_append (h : after? backend pending order = some pending') :
    after? backend pending (order ++ more) = after? backend pending' more := by
  induction order generalizing pending with
  | nil => rw [List.nil_append, Option.some.inj h]
  | cons i order ih =>
    obtain ⟨next, hnext, hrest⟩ := Option.bind_eq_some_iff.mp h
    rw [List.cons_append, after?, hnext]
    exact ih hrest

/-- Either all lookups have come to their ends, or one of them can be answered. -/
theorem finished_or_exists_answerAt? (backend : Backend Id) (pending : List Lookup) :
    (∃ results, Joins backend pending [] results) ∨
      ∃ i pending', answerAt? backend pending i = some pending' := by
  by_cases hwaiting : ∃ l ∈ pending, ∃ q resume, l.rest = .asks q resume
  · obtain ⟨l, hl, q, resume, hrest⟩ := hwaiting
    obtain ⟨i, hi⟩ := List.mem_iff_getElem?.mp hl
    refine .inr ⟨i, pending.set i ⟨l.name, resume (backend.answer q)⟩, ?_⟩
    unfold answerAt? Lookup.answered?
    rw [hi, Option.bind_eq_bind, Option.bind_some, hrest]
    rfl
  · refine .inl ⟨pending.map (Lookup.outcome backend), congrArg some ?_⟩
    rw [List.map_map]
    refine (List.map_id' pending).symm.trans (List.map_congr_left fun l hl => ?_)
    obtain ⟨name, rest⟩ := l
    cases rest with
    | done result => rfl
    | asks q resume => exact (hwaiting ⟨_, hl, q, resume, rfl⟩).elim

/-- The answers that are still to come can come. -/
theorem exists_joins (backend : Backend Id) (pending : List Lookup) :
    ∃ order results, Joins backend pending order results := by
  induction hleft : questionsLeft backend pending using Nat.strongRecOn generalizing pending with
  | _ left ih =>
    rcases finished_or_exists_answerAt? backend pending with ⟨results, hjoins⟩ | ⟨i, next, hnext⟩
    · exact ⟨[], results, hjoins⟩
    · have hafter (order : List Nat) :
          after? backend pending (i :: order) = after? backend next order := by
        rw [after?, hnext, Option.bind_some]
      have hfewer := questionsLeft_after? (hafter [])
      rw [List.length_singleton, hleft] at hfewer
      obtain ⟨order, results, hjoins⟩ := ih _ (by omega) next rfl
      exact ⟨i :: order, results, (hafter order).trans hjoins⟩

/-- What is collected when all lookups have come to their ends is what the form is expanded to. -/
theorem collect_of_joins (h : Joins backend (lookups teamId form values) order results) :
    collect results = (expandValues backend teamId form values).run := by
  have hresults := map_outcome_after? h
  rw [List.map_map, map_outcome_lookups] at hresults
  rw [run_expandValues, ← hresults]
  exact congrArg collect (List.map_id results).symm

/-- No order of answers is longer than the number of questions, and each can be completed. -/
theorem exists_joins_append (h : after? backend pending order = some pending') :
    order.length ≤ questionsLeft backend pending ∧
      ∃ more results, Joins backend pending (order ++ more) results := by
  have hlength := questionsLeft_after? h
  obtain ⟨more, results, hjoins⟩ := exists_joins backend pending'
  exact ⟨by omega, more, results, (after?_append h).trans hjoins⟩

/-- **All or nothing, and each field on its own.**  However the answers to the fields of a form are
ordered, they come to an end, and it is always the same.  If each field that has a value can be
expanded, the names of these fields lead to what their own values come to, and no other name leads
anywhere.  Otherwise the errors of the fields that cannot are returned in the order of the form, one
for each, which names it.

The value of a field is nothing to the errors and the results of other fields, and a value under
another name is nothing to any. -/
theorem expandValues_local (backend : Backend Id) (teamId : Option String) (form : Form)
    (values : Values) (hnames : (form.fields.map (·.name)).Nodup) :
    let out := (expandValues backend teamId form values).run
    let begun := lookups teamId form values
    (∀ order results, Joins backend begun order results → collect results = out) ∧
    (∀ order pending, after? backend begun order = some pending →
      order.length ≤ questionsLeft backend begun ∧
      ∃ more results, Joins backend begun (order ++ more) results) ∧
    ((∃ typedValues, out = .ok typedValues) ↔
      ∀ f ∈ form.fields, ∀ v, values[f.name]? = some v →
        ∃ typed, (expandField backend teamId f v).run = .ok typed) ∧
    (∀ typedValues, out = .ok typedValues → ∀ name typed, typedValues[name]? = some typed ↔
      ∃ f ∈ form.fields, f.name = name ∧ own? backend teamId values f = some (.ok typed)) ∧
    (∀ errors, out = .error errors ↔
      errors ≠ [] ∧ errors = form.fields.filterMap (ownError? backend teamId values)) ∧
    (∀ f ∈ form.fields, errorsOn f.name out = (ownError? backend teamId values f).toList) ∧
    ∀ values', let out' := (expandValues backend teamId form values').run
      (∀ f ∈ form.fields, values'[f.name]? = values[f.name]? →
        errorsOn f.name out' = errorsOn f.name out ∧
        ∀ typedValues typedValues', out = .ok typedValues → out' = .ok typedValues' →
          typedValues'[f.name]? = typedValues[f.name]?) ∧
      ((∀ f ∈ form.fields, values'[f.name]? = values[f.name]?) → out' = out) := by
  refine ⟨fun _ _ => collect_of_joins, fun _ _ => exists_joins_append,
    exists_run_expandValues_iff.trans (forall₂_congr fun _ _ => ownError?_eq_none_iff),
    fun _ hout _ _ => getElem?_of_run_expandValues hnames hout,
    fun _ => run_expandValues_eq_error_iff, fun _ => errorsOn_run_expandValues hnames,
    fun values' => ⟨fun f hf hvalue => ⟨?_, ?_⟩, run_expandValues_congr⟩⟩
  · rw [errorsOn_run_expandValues hnames hf, errorsOn_run_expandValues hnames hf, ownError?,
      own?_congr hvalue, ← ownError?]
  · intro typedValues typedValues' hout hout'
    refine Option.ext fun typed => ?_
    rw [getElem?_of_run_expandValues hnames hout, getElem?_of_run_expandValues hnames hout']
    refine exists_congr fun g => and_congr_right fun _ => and_congr_right fun hname => ?_
    rw [own?_congr (hname ▸ hvalue)]

/-- A form with a field of each kind that can fail. -/
def meetingForm : Form where
  fields := [
    { name := "who", type := .user },
    { name := "room", type := .channel },
    { name := "daily", type := .bool }]

/-- Only the first of these values can be expanded. -/
def meetingValues : Values :=
  ((((∅ : Values).insert "who" (.scalar "@alice")).insert "room" (.scalar "~cellar")).insert
    "daily" (.scalar "maybe"))

/-- The room may be found missing before or after the user is found: the errors are the same. -/
theorem expandValues_local_meeting :
    (meetingForm.fields.map (·.name)).Nodup ∧
    ∀ order ∈ [[0, 1], [1, 0]], ∃ results,
      Joins household.backend (lookups none meetingForm meetingValues) order results ∧
      collect results =
        .error [⟨"room", .unknown .channel "~cellar"⟩, ⟨"daily", .invalidBool "maybe"⟩] := by
  have hnames : (meetingForm.fields.map (·.name)).Nodup := by decide
  obtain ⟨hend, -, -, -, herror, -⟩ :=
    expandValues_local household.backend none meetingForm meetingValues hnames
  have hjoins (order : List Nat) (horder : order ∈ [[0, 1], [1, 0]]) :
      Joins household.backend (lookups none meetingForm meetingValues) order
        (ownResults household.backend none meetingForm meetingValues) := by
    simp only [List.mem_cons, List.not_mem_nil, or_false] at horder
    rcases horder with rfl | rfl <;> rfl
  refine ⟨hnames, fun order horder => ⟨_, hjoins order horder, ?_⟩⟩
  rw [hend order _ (hjoins order horder)]
  exact (herror _).mpr ⟨List.cons_ne_nil _ _, rfl⟩

end Expansion

end SlashCommand

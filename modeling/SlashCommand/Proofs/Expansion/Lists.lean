import SlashCommand.Expansion.Basic
import SlashCommand.Fixtures.Basic

/-!
# What expansion makes of a list

The tokens of a list are resolved in their order, and the first that offends decides: it has no
option, or the one that an earlier token has.  Two things can go wrong and either may come first, so
an offence is an error together with its place (`Offends`), and what a list comes to is said by the
first one (`expandField_list`).

The directory is a function of its questions here.  To see how many questions it is asked,
`Backend.recorded` writes them down: none is asked behind the token that offends.
-/

namespace SlashCommand

/-- A question to the app or to the directory. -/
inductive Question where
  | call (request : CallRequest) (type : CallType)
  | user (name : String)
  | channel (teamId : Option String) (name : String)
  | users (typed : String)
  | channels (teamId : Option String) (typed : String)

/-- The backend, with each question that it is asked written down. -/
def Backend.recorded (backend : Backend Id) : Backend (StateM (List Question)) where
  performCall request type asked :=
    ((backend.performCall request type).run, asked ++ [.call request type])
  userByUsername name asked := ((backend.userByUsername name).run, asked ++ [.user name])
  channelByName teamId name asked :=
    ((backend.channelByName teamId name).run, asked ++ [.channel teamId name])
  usersByPrefix typed asked := ((backend.usersByPrefix typed).run, asked ++ [.users typed])
  channelsByPrefix teamId typed asked :=
    ((backend.channelsByPrefix teamId typed).run, asked ++ [.channels teamId typed])

namespace Expansion

variable {backend : Backend Id} {teamId : Option String} {field : Field}
  {tokens done rest : List String} {token : String} {resolved options : List SelectOption}
  {option : SelectOption} {e e' : ExpansionError} {i j : Nat}

/-! ## One token -/

/-- The question about a token: options are not asked for. -/
def question? (teamId : Option String) (field : Field) (token : String) : Option Question :=
  match field.type with
  | .user => some (.user (Text.dropLeading '@' token))
  | .channel => some (.channel teamId (Text.dropLeading '~' token))
  | _ => none

/-- The option of a token, or the error of having none. -/
def answer (backend : Backend Id) (teamId : Option String) (field : Field) (token : String) :
    Except ExpansionError SelectOption :=
  (resolve backend teamId field token).run

theorem run_resolve_recorded (asked : List Question) :
    (resolve backend.recorded teamId field token).run asked =
      (answer backend teamId field token, asked ++ (question? teamId field token).toList) := by
  unfold answer resolve question?
  cases field.type with
  | user => rfl
  | channel => rfl
  | text | bool | staticSelect | dynamicSelect =>
    rw [Option.toList_none, List.append_nil]
    rfl

/-- The error says of the field that nothing is known by the token, that the token refers to what an
earlier one does, or why it could not be looked up. -/
def Blames (field : Field) (token : String) (e : ExpansionError) : Prop :=
  e.field = field.name ∧
    (e.fault = .unknown field.type.referent token ∨ e.fault = .duplicate field.type.referent token ∨
      ∃ reason, e.fault = .lookupFailed reason)

theorem found_eq_ok_iff {α : Type} {toOption : α → SelectOption} {referent : Referent}
    {response : Except BackendError (Option α)} :
    found field referent token toOption response = .ok option ↔
      ∃ a, response = .ok (some a) ∧ toOption a = option := by
  unfold found
  split
  · rename_i a
    constructor
    · intro h
      exact ⟨a, rfl, Except.ok.inj h⟩
    · rintro ⟨b, hb, rfl⟩
      cases hb
      rfl
  · exact iff_of_false nofun nofun
  · exact iff_of_false nofun nofun

theorem blames_of_found {α : Type} {toOption : α → SelectOption}
    {response : Except BackendError (Option α)} {referent : Referent}
    (hreferent : field.type.referent = referent)
    (h : found field referent token toOption response = .error e) : Blames field token e := by
  subst hreferent
  unfold found at h
  split at h
  · cases h
  · cases h
    exact ⟨rfl, .inl rfl⟩
  · cases h
    exact ⟨rfl, .inr (.inr ⟨_, rfl⟩)⟩

theorem answer_of_user (htype : field.type = .user) :
    answer backend teamId field token = found field .user token (fun u => ⟨u.username, u.id, none⟩)
      (backend.userByUsername (Text.dropLeading '@' token)).run := by
  unfold answer resolve
  rw [htype]
  rfl

theorem answer_of_channel (htype : field.type = .channel) :
    answer backend teamId field token =
      found field .channel token (fun c => ⟨c.shownName, c.id, none⟩)
        (backend.channelByName teamId (Text.dropLeading '~' token)).run := by
  unfold answer resolve
  rw [htype]
  rfl

theorem answer_of_staticSelect (htype : field.type = .staticSelect) :
    answer backend teamId field token =
      found field .option token id (.ok (field.options.find? (·.value == token))) := by
  unfold answer resolve
  rw [htype]
  rfl

theorem blames_of_answer (htext : field.type ≠ .text) (hbool : field.type ≠ .bool)
    (h : answer backend teamId field token = .error e) : Blames field token e := by
  cases htype : field.type with
  | text => exact absurd htype htext
  | bool => exact absurd htype hbool
  | user =>
    rw [answer_of_user htype] at h
    exact blames_of_found (by rw [htype]; rfl) h
  | channel =>
    rw [answer_of_channel htype] at h
    exact blames_of_found (by rw [htype]; rfl) h
  | staticSelect =>
    rw [answer_of_staticSelect htype] at h
    exact blames_of_found (by rw [htype]; rfl) h
  | dynamicSelect =>
    unfold answer resolve at h
    rw [htype] at h
    cases h

/-! ## The first offence -/

/-- The token at a place of the list has no option, or has one with the value of an earlier token's;
the error says so. -/
inductive Offends (backend : Backend Id) (teamId : Option String) (field : Field)
    (tokens : List String) (i : Nat) : ExpansionError → Prop
  | unresolved {token : String} {e : ExpansionError} (htoken : tokens[i]? = some token)
      (hanswer : answer backend teamId field token = .error e) :
      Offends backend teamId field tokens i e
  | repeated {token earlier : String} {option first : SelectOption} {j : Nat} (hj : j < i)
      (htoken : tokens[i]? = some token) (hearlier : tokens[j]? = some earlier)
      (hanswer : answer backend teamId field token = .ok option)
      (hfirst : answer backend teamId field earlier = .ok first)
      (hvalue : first.value = option.value) :
      Offends backend teamId field tokens i ⟨field.name, .duplicate field.type.referent token⟩

/-- No token in front of the one that offends does so. -/
def OffendsFirst (backend : Backend Id) (teamId : Option String) (field : Field)
    (tokens : List String) (i : Nat) (e : ExpansionError) : Prop :=
  Offends backend teamId field tokens i e ∧
    ∀ j < i, ∀ e', ¬ Offends backend teamId field tokens j e'

/-- The options are those of the tokens, each with a value of its own. -/
def ResolvesTo (backend : Backend Id) (teamId : Option String) (field : Field)
    (tokens : List String) (options : List SelectOption) : Prop :=
  tokens.map (answer backend teamId field) = options.map .ok ∧ (options.map (·.value)).Nodup

theorem Offends.blames (htext : field.type ≠ .text) (hbool : field.type ≠ .bool)
    (h : Offends backend teamId field tokens i e) :
    ∃ token, tokens[i]? = some token ∧ Blames field token e := by
  cases h with
  | unresolved htoken hanswer => exact ⟨_, htoken, blames_of_answer htext hbool hanswer⟩
  | repeated hj htoken => exact ⟨_, htoken, rfl, .inr (.inl rfl)⟩

theorem Offends.exists_token (h : Offends backend teamId field tokens i e) :
    ∃ token, tokens[i]? = some token := by
  cases h with
  | unresolved htoken => exact ⟨_, htoken⟩
  | repeated _ htoken => exact ⟨_, htoken⟩

/-- A place offends in one way only. -/
theorem Offends.unique (h : Offends backend teamId field tokens i e)
    (h' : Offends backend teamId field tokens i e') : e = e' := by
  cases h with
  | unresolved htoken hanswer =>
    cases h' with
    | unresolved htoken' hanswer' =>
      obtain rfl := Option.some.inj (htoken.symm.trans htoken')
      exact Except.error.inj (hanswer.symm.trans hanswer')
    | repeated _ htoken' _ hanswer' =>
      obtain rfl := Option.some.inj (htoken.symm.trans htoken')
      cases hanswer.symm.trans hanswer'
  | repeated _ htoken _ hanswer =>
    cases h' with
    | unresolved htoken' hanswer' =>
      obtain rfl := Option.some.inj (htoken.symm.trans htoken')
      cases hanswer.symm.trans hanswer'
    | repeated _ htoken' _ hanswer' =>
      obtain rfl := Option.some.inj (htoken.symm.trans htoken')
      rfl

theorem OffendsFirst.unique (h : OffendsFirst backend teamId field tokens i e)
    (h' : OffendsFirst backend teamId field tokens j e') : i = j ∧ e = e' := by
  rcases Nat.lt_trichotomy i j with hlt | rfl | hlt
  · exact (h'.2 i hlt e h.1).elim
  · exact ⟨rfl, h.1.unique h'.1⟩
  · exact (h.2 j hlt e' h'.1).elim

theorem ResolvesTo.unique {options' : List SelectOption}
    (h : ResolvesTo backend teamId field tokens options)
    (h' : ResolvesTo backend teamId field tokens options') : options = options' :=
  (List.map_inj_right fun _ _ => Except.ok.inj).mp (h.1.symm.trans h'.1)

/-- The tokens in front that have options keep them with more tokens behind. -/
theorem ResolvesTo.getElem? (h : ResolvesTo backend teamId field done options)
    (hi : i < done.length) (htoken : (done ++ rest)[i]? = some token) :
    ∃ option, options[i]? = some option ∧ answer backend teamId field token = .ok option := by
  rw [List.getElem?_append_left hi] at htoken
  have hanswers := congrArg (·[i]?) h.1
  simp only [List.getElem?_map, htoken, Option.map_some] at hanswers
  obtain ⟨option, hoption, heq⟩ := Option.map_eq_some_iff.mp hanswers.symm
  exact ⟨option, hoption, heq.symm⟩

/-- One more option, with a value that none of the others has. -/
theorem nodup_values_concat (h : (options.map (·.value)).Nodup)
    (hnew : option.value ∉ options.map (·.value)) :
    ((options ++ [option]).map (·.value)).Nodup := by
  rw [List.map_append, List.map_singleton, List.nodup_append]
  refine ⟨h, List.pairwise_singleton _ _, fun value hvalue value' hvalue' heq => ?_⟩
  exact hnew (List.mem_singleton.mp hvalue' ▸ heq ▸ hvalue)

/-- One more token, with an option that none of the others has. -/
theorem ResolvesTo.concat (h : ResolvesTo backend teamId field done options)
    (hanswer : answer backend teamId field token = .ok option)
    (hdiffers : ∀ t ∈ done, ∀ earlier, answer backend teamId field t = .ok earlier →
      earlier.value ≠ option.value) :
    ResolvesTo backend teamId field (done ++ [token]) (options ++ [option]) := by
  refine ⟨?_, ?_⟩
  · rw [List.map_append, List.map_append, h.1, List.map_singleton, List.map_singleton, hanswer]
  · refine nodup_values_concat h.2 fun hmem => ?_
    obtain ⟨earlier, hearlier, hvalue⟩ := List.mem_map.mp hmem
    have hanswers : Except.ok earlier ∈ done.map (answer backend teamId field) := by
      rw [h.1]
      exact List.mem_map_of_mem hearlier
    obtain ⟨t, ht, hearlier'⟩ := List.mem_map.mp hanswers
    exact hdiffers t ht earlier hearlier' hvalue

/-- Each option is that of a token. -/
theorem ResolvesTo.exists_token (h : ResolvesTo backend teamId field done options)
    (hoption : options[i]? = some option) :
    ∃ token, done[i]? = some token ∧ answer backend teamId field token = .ok option := by
  have hanswers := congrArg (·[i]?) h.1
  simp only [List.getElem?_map, hoption, Option.map_some] at hanswers
  exact Option.map_eq_some_iff.mp hanswers

/-- None of the tokens that have options of their own offends. -/
theorem ResolvesTo.not_offends (h : ResolvesTo backend teamId field done options)
    (hi : i < done.length) : ¬ Offends backend teamId field (done ++ rest) i e := by
  intro hoffends
  cases hoffends with
  | unresolved htoken hanswer =>
    obtain ⟨option, -, hok⟩ := h.getElem? hi htoken
    cases hanswer.symm.trans hok
  | @repeated _ _ _ _ j hj htoken hearlier hanswer hfirst hvalue =>
    obtain ⟨option, hoption, hok⟩ := h.getElem? hi htoken
    obtain ⟨first, hfirst', hok'⟩ := h.getElem? (Nat.lt_trans hj hi) hearlier
    cases hanswer.symm.trans hok
    cases hfirst.symm.trans hok'
    -- two places of the options with one value are the same place
    have hlength : i < (options.map (·.value)).length := by
      rw [List.length_map]
      exact (List.getElem?_eq_some_iff.mp hoption).1
    have hequal : (options.map (·.value))[j]? = (options.map (·.value))[i]? := by
      rw [List.getElem?_map, List.getElem?_map, hoption, hfirst']
      exact congrArg some hvalue
    exact absurd ((List.getElem?_inj (Nat.lt_trans hj hlength) h.2).mp hequal) (Nat.ne_of_lt hj)

/-! ## The run over the tokens -/

/-- The token behind the options does not resolve to another one. -/
inductive Fails (backend : Backend Id) (teamId : Option String) (field : Field)
    (options : List SelectOption) (token : String) : ExpansionError → Prop
  | unresolved {e : ExpansionError} (hanswer : answer backend teamId field token = .error e) :
      Fails backend teamId field options token e
  | repeated {option first : SelectOption} (hanswer : answer backend teamId field token = .ok option)
      (hfirst : first ∈ options) (hvalue : first.value = option.value) :
      Fails backend teamId field options token
        ⟨field.name, .duplicate field.type.referent token⟩

/-- How the resolution of tokens ends that stand behind resolved ones: with the options of all of
them, or at one that fails.  The last index has the tokens that are looked at. -/
inductive Settles (backend : Backend Id) (teamId : Option String) (field : Field)
    (resolved : List SelectOption) :
    List String → Except ExpansionError (List SelectOption) → List String → Prop
  | all {tokens : List String} {options : List SelectOption}
      (hanswers : tokens.map (answer backend teamId field) = options.map .ok)
      (hdistinct : ((resolved ++ options).map (·.value)).Nodup) :
      Settles backend teamId field resolved tokens (.ok (resolved ++ options)) tokens
  | upTo {done rest : List String} {token : String} {options : List SelectOption}
      {e : ExpansionError}
      (hanswers : done.map (answer backend teamId field) = options.map .ok)
      (hdistinct : ((resolved ++ options).map (·.value)).Nodup)
      (hfails : Fails backend teamId field (resolved ++ options) token e) :
      Settles backend teamId field resolved (done ++ token :: rest) (.error e) (done ++ [token])

/-- One more token that has an option of its own. -/
theorem Settles.cons {result : Except ExpansionError (List SelectOption)} {looked : List String}
    (hanswer : answer backend teamId field token = .ok option)
    (h : Settles backend teamId field (resolved ++ [option]) tokens result looked) :
    Settles backend teamId field resolved (token :: tokens) result (token :: looked) := by
  have hmap {done : List String} {options : List SelectOption}
      (hanswers : done.map (answer backend teamId field) = options.map .ok) :
      (token :: done).map (answer backend teamId field) = (option :: options).map .ok := by
    rw [List.map_cons, List.map_cons, hanswer, hanswers]
  cases h with
  | all hanswers hdistinct =>
    rw [List.append_assoc] at hdistinct ⊢
    exact .all (hmap hanswers) hdistinct
  | upTo hanswers hdistinct hfails =>
    rw [List.append_assoc] at hdistinct hfails
    exact .upTo (hmap hanswers) hdistinct hfails

theorem run_resolveAfter_cons :
    (resolveAfter backend teamId field resolved (token :: tokens)).run =
      match answer backend teamId field token with
      | .error e => .error e
      | .ok option =>
        if resolved.any (·.value == option.value) then
          .error ⟨field.name, .duplicate field.type.referent token⟩
        else (resolveAfter backend teamId field (resolved ++ [option]) tokens).run := by
  rw [resolveAfter, Id.run_bind]
  change Id.run (match answer backend teamId field token with | .error e => _ | .ok option => _) = _
  cases answer backend teamId field token with
  | error e => rfl
  | ok option => exact apply_ite Id.run _ _ _

theorem run_resolveAfter_recorded_cons (asked : List Question) :
    (resolveAfter backend.recorded teamId field resolved (token :: tokens)).run asked =
      let asked := asked ++ (question? teamId field token).toList
      match answer backend teamId field token with
      | .error e => (.error e, asked)
      | .ok option =>
        if resolved.any (·.value == option.value) then
          (.error ⟨field.name, .duplicate field.type.referent token⟩, asked)
        else (resolveAfter backend.recorded teamId field (resolved ++ [option]) tokens).run asked := by
  rw [resolveAfter, StateT.run_bind, run_resolve_recorded]
  cases answer backend teamId field token with
  | error e => rfl
  | ok option => exact apply_ite (fun x => StateT.run x _) _ _ _

/-- The tokens are resolved until one fails, and the directory is asked about those that are looked
at and about no other. -/
theorem settles_resolveAfter (backend : Backend Id) (teamId : Option String) (field : Field)
    (resolved : List SelectOption) (tokens : List String) (asked : List Question)
    (hdistinct : (resolved.map (·.value)).Nodup) :
    ∃ looked,
      Settles backend teamId field resolved tokens
        (resolveAfter backend teamId field resolved tokens).run looked ∧
      (resolveAfter backend.recorded teamId field resolved tokens).run asked =
        ((resolveAfter backend teamId field resolved tokens).run,
          asked ++ looked.filterMap (question? teamId field)) := by
  induction tokens generalizing resolved asked with
  | nil =>
    refine ⟨[], ?_, ?_⟩
    · have hall : Settles backend teamId field resolved [] (.ok (resolved ++ [])) [] :=
        .all rfl (by rwa [List.append_nil])
      rwa [List.append_nil] at hall
    · rw [List.filterMap_nil, List.append_nil]
      rfl
  | cons token tokens ih =>
    have hfails {e : ExpansionError} (h : Fails backend teamId field resolved token e) :
        Settles backend teamId field resolved ([] ++ token :: tokens) (.error e) ([] ++ [token]) :=
      .upTo rfl ((List.append_nil resolved).symm ▸ hdistinct) ((List.append_nil resolved).symm ▸ h)
    have hcons (looked : List String) :
        (token :: looked).filterMap (question? teamId field) =
          (question? teamId field token).toList ++ looked.filterMap (question? teamId field) := by
      rw [List.filterMap_cons]
      cases question? teamId field token with
      | none => rfl
      | some question => rfl
    rw [run_resolveAfter_cons, run_resolveAfter_recorded_cons]
    cases hanswer : answer backend teamId field token with
    | error e =>
      refine ⟨[token], hfails (.unresolved hanswer), ?_⟩
      rw [hcons, List.filterMap_nil, List.append_nil]
    | ok option =>
      dsimp only
      by_cases hlisted : (resolved.any (·.value == option.value)) = true
      · rw [if_pos hlisted, if_pos hlisted]
        obtain ⟨first, hfirst, hvalue⟩ := List.any_eq_true.mp hlisted
        refine ⟨[token], hfails (.repeated hanswer hfirst (beq_iff_eq.mp hvalue)), ?_⟩
        rw [hcons, List.filterMap_nil, List.append_nil]
      · rw [if_neg hlisted, if_neg hlisted]
        have hnew : option.value ∉ resolved.map (·.value) := by
          intro hmem
          obtain ⟨first, hfirst, hvalue⟩ := List.mem_map.mp hmem
          exact hlisted (List.any_eq_true.mpr ⟨first, hfirst, beq_iff_eq.mpr hvalue⟩)
        have hdistinct' := nodup_values_concat hdistinct hnew
        obtain ⟨looked, hsettles, hrun⟩ :=
          ih (resolved ++ [option]) (asked ++ (question? teamId field token).toList) hdistinct'
        refine ⟨token :: looked, hsettles.cons hanswer, ?_⟩
        rw [hrun, hcons, List.append_assoc]

/-! ## The list -/

/-- How a list is settled, said of its tokens. -/
theorem Settles.of_nil {result : Except ExpansionError (List SelectOption)} {looked : List String}
    (h : Settles backend teamId field [] tokens result looked) :
    (∃ options, result = .ok options ∧ ResolvesTo backend teamId field tokens options ∧
      looked = tokens) ∨
    ∃ i e, result = .error e ∧ OffendsFirst backend teamId field tokens i e ∧
      looked = tokens.take (i + 1) := by
  cases h with
  | all hanswers hdistinct => exact .inl ⟨_, rfl, ⟨hanswers, hdistinct⟩, rfl⟩
  | @upTo done rest token options e hanswers hdistinct hfails =>
    have hdone : ResolvesTo backend teamId field done options := ⟨hanswers, hdistinct⟩
    have htoken : (done ++ token :: rest)[done.length]? = some token := by simp
    have htake : (done ++ token :: rest).take (done.length + 1) = done ++ [token] := by
      rw [List.take_length_add_append, List.take_succ_cons, List.take_zero]
    refine .inr ⟨done.length, e, rfl, ⟨?_, fun j hj e' => hdone.not_offends hj⟩, htake.symm⟩
    cases hfails with
    | unresolved hanswer => exact .unresolved htoken hanswer
    | repeated hanswer hfirst hvalue =>
      obtain ⟨j, hj⟩ := List.mem_iff_getElem?.mp hfirst
      obtain ⟨earlier, hearlier, hanswer'⟩ := hdone.exists_token hj
      have hlt : j < done.length := (List.getElem?_eq_some_iff.mp hearlier).1
      refine .repeated hlt htoken ?_ hanswer hanswer' hvalue
      rw [List.getElem?_append_left hlt, hearlier]

/-- Either all tokens have options of their own, or one is the first that offends. -/
theorem ResolvesTo.not_offendsFirst (h : ResolvesTo backend teamId field tokens options) :
    ¬ OffendsFirst backend teamId field tokens i e := by
  intro hoffends
  obtain ⟨token, htoken⟩ := hoffends.1.exists_token
  have hlt : i < tokens.length := (List.getElem?_eq_some_iff.mp htoken).1
  have hoffends' := hoffends.1
  rw [← List.append_nil tokens] at hoffends'
  exact h.not_offends hlt hoffends'

/-- A list is expanded through its tokens, whatever has been asked before. -/
theorem run_expandField (backend : Backend Id) (teamId : Option String) (tokens : List String)
    (asked : List Question) (htext : field.type ≠ .text) (hbool : field.type ≠ .bool) :
    let out := (resolveAfter backend.recorded teamId field [] tokens).run asked
    (expandField backend teamId field (.list tokens)).run =
        (resolveAfter backend teamId field [] tokens).run.map .options ∧
      (expandField backend.recorded teamId field (.list tokens)).run asked =
        (out.1.map .options, out.2) := by
  cases htype : field.type with
  | text => exact absurd htype htext
  | bool => exact absurd htype hbool
  | user | channel | staticSelect | dynamicSelect =>
    unfold expandField
    rw [htype]
    exact ⟨rfl, rfl⟩

/-- What a list comes to and what is asked on the way, by the first token that offends. -/
theorem exists_settled (backend : Backend Id) (teamId : Option String) (tokens : List String)
    (asked : List Question) (htext : field.type ≠ .text) (hbool : field.type ≠ .bool) :
    ∃ (result : Except ExpansionError (List SelectOption)) (looked : List String),
      (expandField backend teamId field (.list tokens)).run = result.map .options ∧
      (expandField backend.recorded teamId field (.list tokens)).run asked =
        (result.map .options, asked ++ looked.filterMap (question? teamId field)) ∧
      ((∃ options, result = .ok options ∧ ResolvesTo backend teamId field tokens options ∧
          looked = tokens) ∨
        ∃ i e, result = .error e ∧ OffendsFirst backend teamId field tokens i e ∧
          looked = tokens.take (i + 1)) := by
  obtain ⟨hplain, hrecorded⟩ :=
    run_expandField backend teamId tokens asked htext hbool
  obtain ⟨looked, hsettles, hrun⟩ :=
    settles_resolveAfter backend teamId field [] tokens asked List.nodup_nil
  rw [hrun] at hrecorded
  exact ⟨_, looked, hplain, hrecorded, hsettles.of_nil⟩

/-- A list becomes the options that its tokens resolve to. -/
theorem run_expandField_eq_ok_iff (htext : field.type ≠ .text) (hbool : field.type ≠ .bool) :
    (expandField backend teamId field (.list tokens)).run = .ok (.options options) ↔
      ResolvesTo backend teamId field tokens options := by
  obtain ⟨result, looked, hplain, -, hsettled⟩ :=
    exists_settled backend teamId tokens [] htext hbool
  rw [hplain]
  rcases hsettled with ⟨options', rfl, hresolves, -⟩ | ⟨i, e, rfl, hfirst, -⟩
  · constructor
    · intro h
      cases h
      exact hresolves
    · intro h
      rw [h.unique hresolves]
      rfl
  · exact iff_of_false nofun fun h => h.not_offendsFirst hfirst

/-- **The first token that offends.**  A list is expanded to the options of its tokens if each of
them has one with a value of its own.  Otherwise the error is that of the first token that has none,
or that has one with the value of an earlier token's.  The directory is asked about the tokens up to
that one and about no other, in their order, and its answers are those that it gives unrecorded. -/
theorem expandField_list (backend : Backend Id) (teamId : Option String) (tokens : List String)
    (asked : List Question) (htext : field.type ≠ .text) (hbool : field.type ≠ .bool) :
    let out := (expandField backend.recorded teamId field (.list tokens)).run asked
    out.1 = (expandField backend teamId field (.list tokens)).run ∧
    (∀ typed, out.1 = .ok typed ↔
      ∃ options, ResolvesTo backend teamId field tokens options ∧ typed = .options options) ∧
    (∀ e, out.1 = .error e ↔ ∃ i, OffendsFirst backend teamId field tokens i e) ∧
    (∀ i e, OffendsFirst backend teamId field tokens i e →
      ∃ token, tokens[i]? = some token ∧ Blames field token e ∧
        out.2 = asked ++ (tokens.take (i + 1)).filterMap (question? teamId field)) ∧
    (∀ options, ResolvesTo backend teamId field tokens options →
      out.2 = asked ++ tokens.filterMap (question? teamId field)) := by
  obtain ⟨result, looked, hplain, hrecorded, hsettled⟩ :=
    exists_settled backend teamId tokens asked htext hbool
  rw [hplain, hrecorded]
  refine ⟨rfl, ?_⟩
  dsimp only
  rcases hsettled with ⟨options, rfl, hresolves, rfl⟩ | ⟨i, e, rfl, hfirst, rfl⟩
  · refine ⟨fun typed => ⟨fun h => ?_, ?_⟩, fun e => ⟨nofun, ?_⟩, ?_, fun _ _ => rfl⟩
    · cases h
      exact ⟨options, hresolves, rfl⟩
    · rintro ⟨options', hresolves', rfl⟩
      rw [hresolves.unique hresolves']
      rfl
    · rintro ⟨i, hfirst⟩
      exact (hresolves.not_offendsFirst hfirst).elim
    · intro i e hfirst
      exact (hresolves.not_offendsFirst hfirst).elim
  · refine ⟨fun typed => ⟨nofun, ?_⟩, fun e' => ⟨fun h => ?_, ?_⟩, ?_, ?_⟩
    · rintro ⟨options, hresolves, -⟩
      exact (hresolves.not_offendsFirst hfirst).elim
    · cases h
      exact ⟨i, hfirst⟩
    · rintro ⟨i', hfirst'⟩
      rw [(hfirst.unique hfirst').2]
      rfl
    · intro i' e' hfirst'
      obtain ⟨rfl, rfl⟩ := hfirst.unique hfirst'
      obtain ⟨token, htoken, hblames⟩ := hfirst.1.blames htext hbool
      exact ⟨token, htoken, hblames, rfl⟩
    · intro options hresolves
      exact (hresolves.not_offendsFirst hfirst).elim

/-- A field that takes a list of users. -/
def guestsField : Field where
  name := "guests"
  type := .user
  multiselect := true

/-- A directory of two users. -/
def household : Fixtures where
  users := [⟨"u1", "alice"⟩, ⟨"u2", "bob"⟩]

/-- The third of these guests is the first one again, and the fourth is not looked up any more. -/
theorem expandField_list_guests :
    let out := (expandField (Backend.recorded household.backend) none guestsField
      (.list ["@alice", "bob", "@Alice", "carol"])).run []
    guestsField.type ≠ .text ∧ guestsField.type ≠ .bool ∧
    out.1 = .error ⟨"guests", .duplicate .user "@Alice"⟩ ∧
    out.2 = [.user "alice", .user "bob", .user "Alice"] := by
  have hresolves : ResolvesTo household.backend none guestsField ["@alice", "bob"]
      [⟨"alice", "u1", none⟩, ⟨"bob", "u2", none⟩] := ⟨rfl, by decide⟩
  have hthird : Offends household.backend none guestsField ["@alice", "bob", "@Alice", "carol"] 2
      ⟨"guests", .duplicate .user "@Alice"⟩ := by
    refine .repeated (j := 0) ?_ rfl rfl rfl rfl rfl
    decide
  have hfirst : OffendsFirst household.backend none guestsField
      (["@alice", "bob"] ++ ["@Alice", "carol"]) 2 ⟨"guests", .duplicate .user "@Alice"⟩ :=
    ⟨hthird, fun _ hj _ => hresolves.not_offends hj⟩
  obtain ⟨-, -, herror, hasked, -⟩ := expandField_list household.backend none
    ["@alice", "bob", "@Alice", "carol"] [] (show guestsField.type ≠ .text by decide) (by decide)
  refine ⟨by decide, by decide, (herror _).mpr ⟨2, hfirst⟩, ?_⟩
  obtain ⟨_, -, -, hquestions⟩ := hasked 2 _ hfirst
  exact hquestions

end Expansion

end SlashCommand

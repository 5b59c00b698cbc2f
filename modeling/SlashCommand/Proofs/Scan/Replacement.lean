import SlashCommand.Proofs.Scan.Bounds
import SlashCommand.Proofs.Scan.Conformance
import SlashCommand.Proofs.Scan.TypedTokens

/-!
# Putting another token in the place of the last one

A scan for typing reads a text up to its last token.  Another text is then put in the place of that
token, and the command is executed.  To know where the second scan comes, the first one keeps track
of every text that could have followed what it has read.

* `Past`: what has been read since the scan began.
* `Leads`: with any of these texts behind it, what has been read brings the second scan to the same
  place.
* `Traced`: the way of a scan for typing, one case for each kind of place, with the texts that lead
  there.  A step keeps it (`Traced.next`) unless it takes a word for a truth value that is cut
  short, which is read otherwise when the command is executed.

In front of a parameter or of a value the other text must begin no mark that the first one did not
begin (`Replaces`); between tokens it may be anything, unless a blank or an equals sign has ended
the token before (`Parts`).
-/

namespace SlashCommand

namespace Scan

variable {form : Form} {field : Field} {a s t v : Scan} {i : Nat} {c : Char}
  {w x r text token : List Char}

/-! ## What has been read -/

/-- The scan has read the text `w` since the scan `a`. -/
structure Past (a : Scan) (w : List Char) (s : Scan) : Prop where
  text : s.text = a.text
  cursor : s.cursor = a.cursor + w.length
  ahead : a.ahead = w ++ s.ahead

theorem Past.read (h : Past a w s) (hahead : s.ahead = x ++ r) (htext : t.text = s.text)
    (hcursor : t.cursor = s.cursor + x.length) : Past a (w ++ x) t where
  text := htext.trans h.text
  cursor := by rw [hcursor, h.cursor, List.length_append, Nat.add_assoc]
  ahead := by rw [h.ahead, hahead, ahead_of_read hahead htext hcursor, List.append_assoc]

theorem Past.look (h : Past a w s) (htext : t.text = s.text) (hcursor : t.cursor = s.cursor) :
    Past a w t := by
  have hread := h.read (x := []) (r := s.ahead) rfl htext hcursor
  rwa [List.append_nil] at hread

/-- The scan behind a token, which begins where the scan stands. -/
def behindToken (s : Scan) (state : ScanState) (text token : List Char) : Scan :=
  { s with
    state, token := String.ofList token, tokenStart := s.cursor, cursor := s.cursor + text.length }

theorem ahead_behindToken (h : s.ahead = text ++ r) (state : ScanState) (token : List Char) :
    (s.behindToken state text token).ahead = r :=
  ahead_of_read h rfl rfl

/-- One more character is read into the token. -/
theorem push_behindToken (state : ScanState) (text token : List Char) (c : Char) :
    (s.behindToken state text token).push c = s.behindToken state (text ++ [c]) (token ++ [c]) := by
  have htoken : (String.ofList token).push c = String.ofList (token ++ [c]) := by
    apply String.toList_inj.mp
    simp
  simp only [behindToken, push, htoken, List.length_append, List.length_singleton, Nat.add_assoc]

/-- One more character is read over. -/
theorem advance_behindToken (state : ScanState) (text token : List Char) (c : Char) :
    (s.behindToken state text token).advance = s.behindToken state (text ++ [c]) token := by
  simp only [behindToken, advance, List.length_append, List.length_singleton, Nat.add_assoc]

/-! ## Where execution comes to -/

/-- A command that has the text `w` behind its binding, and goes on with `text`, comes to the scan
`s` when it is executed. -/
def Leads (form : Form) (w : List Char) (s : Scan) (text : List Char) : Prop :=
  ∀ u, Stands .startParameter 0 ∅ (w ++ text) u →
    ∃ t, Stands s.state s.positionals s.values text t ∧
      (s.state = .flagName → t.token = s.token) ∧ outcome form u = outcome form t

theorem Leads.read_name (h : Leads form w s (x ++ text))
    (hread : ∀ u, Stands s.state s.positionals s.values (x ++ text) u →
      (s.state = .flagName → u.token = s.token) →
      ∃ u', Stands t.state t.positionals t.values text u' ∧
        (t.state = .flagName → u'.token = t.token) ∧ outcome form u = outcome form u') :
    Leads form (w ++ x) t text := by
  intro u hu
  rw [List.append_assoc] at hu
  obtain ⟨u₁, hu₁, htoken, hout⟩ := h u hu
  obtain ⟨u₂, hu₂, htoken₂, hout₂⟩ := hread u₁ hu₁ htoken
  exact ⟨u₂, hu₂, htoken₂, hout.trans hout₂⟩

theorem Leads.look_name (h : Leads form w s text)
    (hread : ∀ u, Stands s.state s.positionals s.values text u →
      (s.state = .flagName → u.token = s.token) →
      ∃ u', Stands t.state t.positionals t.values text u' ∧
        (t.state = .flagName → u'.token = t.token) ∧ outcome form u = outcome form u') :
    Leads form w t text := by
  have hleads : Leads form (w ++ []) t text := Leads.read_name (x := []) h hread
  rwa [List.append_nil] at hleads

/-- Execution goes on over a part of the text. -/
theorem Leads.read (h : Leads form w s (x ++ text)) (hname : t.state ≠ .flagName)
    (hread : ∀ u, Stands s.state s.positionals s.values (x ++ text) u →
      ∃ u', Stands t.state t.positionals t.values text u' ∧ outcome form u = outcome form u') :
    Leads form (w ++ x) t text := by
  refine h.read_name fun u hu _ => ?_
  obtain ⟨u', hu', hout⟩ := hread u hu
  exact ⟨u', hu', fun hstate => absurd hstate hname, hout⟩

/-- Execution goes on without reading. -/
theorem Leads.look (h : Leads form w s text) (hname : t.state ≠ .flagName)
    (hread : ∀ u, Stands s.state s.positionals s.values text u →
      ∃ u', Stands t.state t.positionals t.values text u' ∧ outcome form u = outcome form u') :
    Leads form w t text := by
  have hleads : Leads form (w ++ []) t text := Leads.read (x := []) h hname hread
  rwa [List.append_nil] at hleads

/-! ## The way of a scan -/

/-- The state is in front of a parameter or of its value. -/
def isFront : ScanState → Bool
  | .startParameter => true
  | .value _ .start => true
  | _ => false

/-- The state is between tokens. -/
def isBetween : ScanState → Bool
  | .parameterSeparator => true
  | .value _ (.separator _) => true
  | .list _ .start => true
  | .list _ .next => true
  | .listEnd _ => true
  | _ => false

/-- The character ends the token that stands before the state. -/
def Closes : ScanState → Char → Prop
  | .parameterSeparator, c => Text.isBlank c = true
  | .value _ _, c => ¬ IsNameChar c
  | _, _ => False

/-- Between tokens anything may come, or what comes must end the token before. -/
def Parts (form : Form) (w : List Char) (s : Scan) : Prop :=
  (∀ text, Leads form w s text) ∨
    ∃ c r, s.ahead = c :: r ∧ Closes s.state c ∧ ∀ text, Leads form w s (c :: text)

/-- How a scan for typing has come from `a`, and which other texts lead to the same place when they
are executed. -/
inductive Traced (form : Form) (a : Scan) : Scan → Prop
  | front {w : List Char} {s : Scan} : Past a w s → isFront s.state = true →
      s.tokenStart = s.cursor →
      (∀ text, Replaces form a s.cursor s.ahead text → Leads form w s text) → Traced form a s
  | between {w : List Char} {s : Scan} : Past a w s → isBetween s.state = true → s.token = "" →
      Parts form w s → Traced form a s
  | flag {w : List Char} {s : Scan} : Past a w s → s.state = .flagDash ∨ s.state = .flagName →
      (∀ c ∈ s.ahead.head?, ∀ text, Leads form w s (c :: text)) → Traced form a s
  | token {w r text token : List Char} {v : Scan} {i : Nat} {stage : ValueStage} {field : Field} :
      Past a w v → Reaches (parameterStep form .autocomplete) a v → form.fields[i]? = some field →
      v.state = .value i .start →
      (∀ text, Replaces form a v.cursor v.ahead text → Leads form w v text) →
      TokenPart field r stage text token → v.ahead = text ++ r →
      Traced form a (v.behindToken (.value i stage) text token)
  | elementFront {w : List Char} {s : Scan} {i : Nat} : Past a w s →
      s.state = .list i .elementStart →
      (∃ c r, s.ahead = c :: r ∧ Text.isBlank c = false ∧ c ≠ ']') →
      (∀ c text, Text.isBlank c = false → c ≠ ']' → c ≠ ',' → Leads form w s (c :: text)) →
      Traced form a s
  | element {w r text token : List Char} {v : Scan} {i : Nat} {stage : ListStage} : Past a w v →
      v.state = .list i .elementStart →
      (∀ c text, Text.isBlank c = false → c ≠ ']' → c ≠ ',' → Leads form w v (c :: text)) →
      ElementPart r stage text token → v.ahead = text ++ r →
      Traced form a (v.behindToken (.list i stage) text token)
  | elementSeparator {w : List Char} {s : Scan} {i : Nat} : Past a w s →
      s.state = .list i .separator → s.token = "" →
      (∀ c ∈ s.ahead.head?, EndsElement c → ∀ text, Leads form w s (c :: text)) → Traced form a s
  | rest {s : Scan} {i : Nat} : s.state = .rest i → s.tokenStart = s.cursor → Traced form a s

theorem Parts.head (h : Parts form w s) (hahead : s.ahead = c :: r) (text : List Char) :
    Leads form w s (c :: text) := by
  rcases h with hfree | ⟨d, r', hd, -, hshut⟩
  · exact hfree _
  · obtain ⟨rfl, -⟩ := List.cons.inj (hahead.symm.trans hd)
    exact hshut text

theorem Parts.free (h : Parts form w s) (hc : ∀ c ∈ s.ahead.head?, ¬ Closes s.state c)
    (text : List Char) : Leads form w s text := by
  rcases h with hfree | ⟨c, r, hahead, hcloses, -⟩
  · exact hfree text
  · exact absurd hcloses (hc c (by rw [hahead]; rfl))

/-! ## Moves -/

/-- A mark that the one text does not begin with, the other one does not begin with. -/
theorem Replaces.head_ne {position : Nat} {m d : Char}
    (h : Replaces form a position (c :: r) (d :: text))
    (hmark : IsMark form a position m) (hne : c ≠ m) : d ≠ m := by
  rintro rfl
  rcases h.marks d rfl hmark with hnil | hhead
  · cases hnil
  · exact hne (Option.some.inj hhead)

/-! ### In front of a parameter or of its value -/

theorem traced_dash (hform : form.defect? = none) (hpast : Past a w s)
    (hstate : s.state = .startParameter) (hahead : s.ahead = '-' :: r)
    (h : ∀ text, Replaces form a s.cursor s.ahead text → Leads form w s text) :
    Traced form a (s.advance.goto .flagDash) := by
  refine .flag (hpast.read (x := ['-']) hahead rfl rfl) (.inl rfl) fun d _ text => ?_
  have hlead : Leads form w s (['-'] ++ d :: text) := by
    refine h _ ?_
    rw [hahead]
    exact .of_plain hform (by decide) (by decide) (by decide) (by decide) _ _
  refine hlead.read nofun fun u hu => ?_
  rw [hstate] at hu
  exact ⟨_, hu.advance.goto .flagDash,
    outcome_of_next (step_startParameter_dash hu.state_eq hu.ahead_eq)⟩

theorem traced_positional (hpast : Past a w s)
    (hreach : Reaches (parameterStep form .autocomplete) a s) (hstate : s.state = .startParameter)
    (hstart : s.tokenStart = s.cursor) (hahead : s.ahead = c :: r) (hdash : c ≠ '-')
    (hi : form.fields.findIdx? (·.position == ((s.positionals + 1 : Nat) : Int)) = some i)
    (h : ∀ text, Replaces form a s.cursor s.ahead text → Leads form w s text) :
    Traced form a (s.countPositional.goto (.value i .start)) := by
  refine .front (hpast.look rfl rfl) rfl hstart fun text htext => ?_
  have htext : Replaces form a s.cursor s.ahead text := htext
  obtain ⟨d, text, rfl, -⟩ := htext.plain
  have hd : d ≠ '-' :=
    (hahead ▸ htext).head_ne (.inl ⟨rfl, s, hreach, rfl, .inl hstate⟩) hdash
  refine (h _ htext).look nofun fun u hu => ?_
  refine ⟨u.countPositional.goto (.value i .start), ⟨rfl, ?_, hu.values_eq, hu.ahead_eq⟩,
    outcome_of_next ?_⟩
  · exact congrArg (· + 1) hu.positionals_eq
  · rw [step_startParameter_cons (hu.state_eq.trans hstate) hu.ahead_eq hd, hu.positionals_eq, hi]

/-- A bracket opens a list. -/
theorem traced_bracket (hform : form.defect? = none) (hpast : Past a w s)
    (hfield : form.fields[i]? = some field) (hstate : s.state = .value i .start)
    (hahead : s.ahead = '[' :: r) (hmulti : field.multiselect = true)
    (h : ∀ text, Replaces form a s.cursor s.ahead text → Leads form w s text) :
    Traced form a ((s.beginToken.assign field.name (.list [])).advance.goto (.list i .start)) := by
  refine .between (hpast.read (x := ['[']) hahead rfl rfl) rfl rfl (.inl fun text => ?_)
  have hlead : Leads form w s (['['] ++ text) := by
    refine h _ ?_
    rw [hahead]
    exact .of_plain hform (by decide) (by decide) (by decide) (by decide) _ _
  refine hlead.read nofun fun u hu => ?_
  rw [hstate] at hu
  refine ⟨(u.beginToken.assign field.name (.list [])).advance.goto (.list i .start),
    ⟨rfl, hu.positionals_eq, ?_, ahead_advance (s := u.beginToken) hu.ahead_eq⟩,
    outcome_of_next (step_start_bracket hfield hu.state_eq hu.ahead_eq hmulti)⟩
  show u.values.insert _ _ = s.values.insert _ _
  rw [hu.values_eq]

/-- In front of a value. -/
theorem traced_valueStart (hform : form.defect? = none) (hpast : Past a w s)
    (hreach : Reaches (parameterStep form .autocomplete) a s)
    (hfield : form.fields[i]? = some field) (hstate : s.state = .value i .start)
    (h : ∀ text, Replaces form a s.cursor s.ahead text → Leads form w s text)
    (hmove : ValueMoves .autocomplete field i s .start t) : Traced form a t := by
  have hempty : ∀ c ∈ ([] : List Char), Text.isBlank c = false :=
    fun _ h => absurd h List.not_mem_nil
  cases hmove with
  | startEnd hahead =>
    show Traced form a (s.behindToken (.value i .bare) [] [])
    exact .token hpast hreach hfield hstate h (.bare hempty (by simp)) hahead
  | @quote q _ hahead =>
    show Traced form a (s.behindToken (.value i (.quoted q)) [q.char] [])
    exact .token hpast hreach hfield hstate h (.quoted .nil) hahead
  | bracket hahead hmulti => exact traced_bracket hform hpast hfield hstate hahead hmulti h
  | bare hahead hbegins =>
    show Traced form a (s.behindToken (.value i .bare) [] [])
    refine .token hpast hreach hfield hstate h (.bare hempty ?_) hahead
    intro d hd
    rwa [← Option.some.inj hd]

/-! ### In a token -/

/-- A token that has been read to its end is taken back, or it is given to its field. -/
theorem traced_tokenEnd {quoted : Bool} {stage : ValueStage} (hform : form.defect? = none)
    (hpast : Past a w v) (hreach : Reaches (parameterStep form .autocomplete) a v)
    (hfield : form.fields[i]? = some field) (hstate : v.state = .value i .start)
    (h : ∀ text, Replaces form a v.cursor v.ahead text → Leads form w v text)
    (htoken : quoted = true ∨ token ≠ [] → TokenText field text token)
    (hr : quoted = false → StartsBlank r) (hahead : v.ahead = text ++ r)
    (hspelled : field.type = .bool → ¬ CutsBool (v.behindToken (.value i stage) text token))
    (hmove : ValueEndMoves .autocomplete field quoted (v.behindToken (.value i stage) text token) t) :
    Traced form a t := by
  have hbehind := ahead_behindToken hahead (.value i stage) token
  have hread := hpast.read (t := v.behindToken (.value i stage) text token) hahead rfl rfl
  cases hmove with
  | rescan hmarks hbool hnot =>
    -- the token is read once more as a parameter
    rw [hbehind] at hmarks
    have hblank : StartsBlank r := by
      cases quoted with
      | true => exact hmarks rfl
      | false => exact hr rfl
    have hrejected : Rejected .autocomplete field v.ahead := by
      refine ⟨hbool, text, token, r, hahead, hblank, htoken (.inr ?_), hnot⟩
      rintro rfl
      cases hnot
    have hpasses : Passes form a v.cursor (AwaitsTruth form) :=
      ⟨v, hreach, rfl, i, field, hstate, hfield, hbool⟩
    refine .front (hpast.look rfl rfl) rfl rfl fun text htext => ?_
    refine (h text htext).look nofun fun u hu => ?_
    rw [hstate] at hu
    exact outcome_skipBool hfield
      (htext.rejected hpasses field (List.mem_of_getElem? hfield) hrejected) hu
  | @close c r' hmore hmarks hne haccepts =>
    obtain rfl : r = c :: r' := hbehind.symm.trans hmore
    have hc : Text.isBlank c = true := by
      cases quoted with
      | true => exact hmarks rfl
      | false => exact hr rfl c rfl
    have hblank : StartsBlank (c :: r') := startsBlank_cons hc
    have hcomplete : TokenText field text token := by
      refine htoken ?_
      cases quoted with
      | true => exact .inl rfl
      | false =>
        refine .inr ?_
        rintro rfl
        exact hne rfl rfl
    refine .between (hread.look rfl rfl) rfl rfl (.inr ⟨c, r', hbehind, hc, fun more => ?_⟩)
    have hlead : Leads form w v (text ++ c :: more) := by
      refine h _ ?_
      rw [hahead]
      exact .of_token hcomplete hblank (startsBlank_cons hc) hform
    refine hlead.read nofun fun u hu => ?_
    rw [hstate] at hu
    refine outcome_tokenText hfield hcomplete (fun hbool => ?_) (startsBlank_cons hc) hu
    -- the truth value is not cut short
    have hexecute : acceptsBool .execute (String.ofList token) = true := by
      refine Bool.of_not_eq_false fun hnot => hspelled hbool ⟨haccepts hbool, hnot, ?_⟩
      rw [peek?_of_ahead hbehind]
      exact nofun
    simpa [acceptsBool] using hexecute

/-- A scan for typing goes on inside a quotation, or behind its closing mark. -/
theorem QuotedMoves.behindToken {q : Quote} {closed state : ScanState} {body : List Char}
    (hmove : QuotedMoves q closed (v.behindToken state (q.char :: body) token) t)
    (h : QuotedText q body token) (hahead : v.ahead = q.char :: body ++ r) :
    (∃ r', r = q.char :: r' ∧ body ≠ [] ∧
        t = v.behindToken closed (q.char :: (body ++ [q.char])) token) ∨
      ∃ body' token' r', QuotedText q body' token' ∧ v.ahead = q.char :: body' ++ r' ∧
        t = v.behindToken state (q.char :: body') token' := by
  have hbehind := ahead_behindToken hahead state token
  cases hmove with
  | @close r' hmore hinside =>
    obtain rfl : r = q.char :: r' := hbehind.symm.trans hmore
    refine .inl ⟨r', rfl, ?_, ?_⟩
    · rintro rfl
      exact hinside rfl
    · rw [advance_behindToken]
      rfl
  | @escape d r' hq hmore =>
    obtain rfl : r = '\\' :: d :: r' := hbehind.symm.trans hmore
    rw [advance_behindToken _ _ _ '\\', push_behindToken]
    refine .inr ⟨body ++ ['\\', d], token ++ [d], r', h.append (.escaped hq .nil), ?_, ?_⟩
    · rw [hahead]
      simp
    · simp
  | @plain c r' hmore hclose hescape =>
    obtain rfl : r = c :: r' := hbehind.symm.trans hmore
    rw [push_behindToken]
    refine .inr ⟨body ++ [c], token ++ [c], r', h.append (.plain hclose hescape .nil), ?_, rfl⟩
    rw [hahead]
    simp

/-- Inside and behind a token. -/
theorem traced_token {stage : ValueStage} (hform : form.defect? = none)
    (hpast : Past a w v) (hreach : Reaches (parameterStep form .autocomplete) a v)
    (hfield : form.fields[i]? = some field) (hstate : v.state = .value i .start)
    (h : ∀ text, Replaces form a v.cursor v.ahead text → Leads form w v text)
    (hpart : TokenPart field r stage text token) (hahead : v.ahead = text ++ r)
    (hspelled : ¬ IsAbbreviated form (v.behindToken (.value i stage) text token))
    (hmove : ValueMoves .autocomplete field i (v.behindToken (.value i stage) text token) stage t) :
    Traced form a t := by
  have hbehind := ahead_behindToken hahead (.value i stage) token
  have hcut (hended : endedField? form (v.behindToken (.value i stage) text token) = some field) :
      field.type = .bool → ¬ CutsBool (v.behindToken (.value i stage) text token) := by
    refine fun hbool hcut => hspelled ⟨?_, hcut⟩
    rw [hended]
    simp [hbool]
  cases hmove with
  | separatorEnd | equals | gap | begin | startEnd | quote | bracket | bare => cases hpart
  | @push c r' hmore hplain =>
    obtain rfl : r = c :: r' := hbehind.symm.trans hmore
    rw [push_behindToken]
    exact .token hpast hreach hfield hstate h (hpart.push hplain) (by simpa using hahead)
  | complete hblank =>
    rw [hbehind] at hblank
    exact .token hpast hreach hfield hstate h (hpart.complete hblank) hahead
  | quoted hquotedMove =>
    cases hpart with
    | quoted hquoted =>
      rcases hquotedMove.behindToken hquoted hahead with
        ⟨r, rfl, hbody, rfl⟩ | ⟨body', token', r', hquoted', hahead', rfl⟩
      · exact .token hpast hreach hfield hstate h (r := r) (.endQuoted hbody hquoted)
          (by rw [hahead]; simp)
      · exact .token hpast hreach hfield hstate h (.quoted hquoted') hahead'
  | endBare hend =>
    cases hpart with
    | endBare hw hc hblank =>
      refine traced_tokenEnd hform hpast hreach hfield hstate h ?_ (fun _ => hblank) hahead
        (hcut hfield) hend
      intro hne
      obtain ⟨c, w', rfl⟩ := List.exists_cons_of_ne_nil (hne.resolve_left Bool.false_ne_true)
      exact .bare (hc c rfl) fun d hd => hw d (List.mem_cons_of_mem c hd)
  | endQuoted hend =>
    cases hpart with
    | endQuoted hbody hquoted =>
      exact traced_tokenEnd hform hpast hreach hfield hstate h
        (fun _ => .quoted (.mk hbody hquoted)) (absurd ·.symm Bool.false_ne_true) hahead
        (hcut hfield) hend

/-! ### Between tokens -/

/-- Behind a parameter. -/
theorem traced_gap (hpast : Past a w s) (hstate : s.state = .parameterSeparator)
    (htoken : s.token = "") (h : Parts form w s) (hahead : s.ahead = c :: r)
    (hblank : Text.isBlank c = true) : Traced form a s.markToken.advance := by
  refine .between (hpast.read (x := [c]) hahead rfl rfl) (congrArg isBetween hstate) htoken
    (.inl fun text => ?_)
  refine Leads.read (x := [c]) (h.head hahead text) (hstate ▸ nofun) fun u hu => ?_
  exact ⟨_, hu.markToken.advance, outcome_of_next
    (step_parameterSeparator_blank (hu.state_eq.trans hstate) hu.ahead_eq hblank)⟩

theorem traced_begin (hpast : Past a w s) (hstate : s.state = .parameterSeparator)
    (h : Parts form w s) (hahead : s.ahead = c :: r) (hplain : Text.isBlank c = false) :
    Traced form a (s.markToken.goto .startParameter) := by
  refine .front (hpast.look rfl rfl) rfl rfl fun text htext => ?_
  have hfree := h.free (fun d hd hcloses => by
    rw [hahead] at hd
    rw [hstate, ← Option.some.inj hd] at hcloses
    exact Bool.false_ne_true (hplain.symm.trans hcloses)) text
  obtain ⟨d, text, rfl, hd⟩ := htext.plain
  refine hfree.look nofun fun u hu => ?_
  exact ⟨_, hu.markToken.goto .startParameter, outcome_of_next
    (step_parameterSeparator_cons (hu.state_eq.trans hstate) hu.ahead_eq hd)⟩

/-- Between the name of a flag and its value. -/
theorem traced_separator {equalsSeen : Bool} (hpast : Past a w s)
    (hreach : Reaches (parameterStep form .autocomplete) a s)
    (hfield : form.fields[i]? = some field) (hstate : s.state = .value i (.separator equalsSeen))
    (htoken : s.token = "") (h : Parts form w s)
    (hmove : ValueMoves .autocomplete field i s (.separator equalsSeen) t) : Traced form a t := by
  cases hmove with
  | separatorEnd hexecute => cases hexecute
  | equals hahead =>
    refine .between (hpast.read (x := ['=']) hahead rfl rfl) rfl htoken (.inl fun text => ?_)
    refine Leads.read (x := ['=']) (h.head hahead text) ScanState.noConfusion fun u hu => ?_
    exact ⟨_, hu.markToken.advance.goto _, outcome_of_next
      (step_separator_equals hfield (hu.state_eq.trans hstate) hu.ahead_eq)⟩
  | @gap _ c _ hahead hblank =>
    refine .between (hpast.read (x := [c]) hahead rfl rfl) (congrArg isBetween hstate) htoken
      (.inl fun text => ?_)
    have hnot : s.state ≠ .flagName := by simp [hstate]
    refine Leads.read (x := [c]) (h.head hahead text) hnot fun u hu => ?_
    exact ⟨_, hu.markToken.advance, outcome_of_next
      (step_separator_blank hfield (hu.state_eq.trans hstate) hu.ahead_eq hblank)⟩
  | begin hahead hequals hplain =>
    refine .front (hpast.look rfl rfl) rfl rfl fun text htext => ?_
    have htext : Replaces form a s.cursor s.ahead text := htext
    have hfree := h.free (fun d hd hcloses => by
      rw [hahead] at hd
      rw [hstate, ← Option.some.inj hd] at hcloses
      exact hcloses (not_or.mpr ⟨hequals, by rw [hplain]; exact Bool.false_ne_true⟩)) text
    obtain ⟨d, text, rfl, hd⟩ := htext.plain
    have hne : d ≠ '=' :=
      (hahead ▸ htext).head_ne (.inr ⟨rfl, s, hreach, rfl, i, equalsSeen, hstate⟩) hequals
    refine hfree.look ScanState.noConfusion fun u hu => ?_
    exact ⟨_, hu.markToken.goto (.value i .start), outcome_of_next
      (step_separator_cons hfield (hu.state_eq.trans hstate) hu.ahead_eq hne hd)⟩

theorem traced_listEnd (hpast : Past a w s) (hstate : s.state = .listEnd i) (h : Parts form w s)
    (hahead : s.ahead = c :: r) (hblank : Text.isBlank c = true) :
    Traced form a (s.beginToken.goto .parameterSeparator) := by
  refine .between (hpast.look rfl rfl) rfl rfl (.inr ⟨c, r, hahead, hblank, fun text => ?_⟩)
  refine (h.head hahead text).look nofun fun u hu => ?_
  exact ⟨_, hu.beginToken.goto .parameterSeparator, outcome_of_next
    (step_listEnd_blank (hu.state_eq.trans hstate) hu.ahead_eq hblank)⟩

/-! ### Names of flags -/

theorem traced_secondDash (hpast : Past a w s) (hstate : s.state = .flagDash)
    (hahead : s.ahead = '-' :: r) (h : ∀ c ∈ s.ahead.head?, ∀ text, Leads form w s (c :: text)) :
    Traced form a (s.advance.beginToken.goto .flagName) := by
  refine .flag (hpast.read (x := ['-']) hahead rfl rfl) (.inr rfl) fun d _ text => ?_
  refine Leads.read_name (x := ['-']) (h '-' (by rw [hahead]; rfl) (d :: text)) fun u hu _ => ?_
  exact ⟨_, hu.advance.beginToken.goto .flagName, fun _ => rfl, outcome_of_next
    (step_flagDash_dash (hu.state_eq.trans hstate) hu.ahead_eq)⟩

theorem traced_singleDash (hpast : Past a w s) (hstate : s.state = .flagDash)
    (hdash : s.ahead.head? ≠ some '-')
    (h : ∀ c ∈ s.ahead.head?, ∀ text, Leads form w s (c :: text)) :
    Traced form a (s.beginToken.goto .flagName) := by
  refine .flag (hpast.look rfl rfl) (.inr rfl) fun d hd text => ?_
  refine (h d hd text).look_name fun u hu _ => ?_
  refine ⟨_, hu.beginToken.goto .flagName, fun _ => rfl, outcome_of_next
    (step_flagDash_other (hu.state_eq.trans hstate) ?_)⟩
  rw [hu.ahead_eq]
  rintro hd'
  exact hdash (hd.trans hd')

theorem traced_name (hpast : Past a w s) (hstate : s.state = .flagName)
    (hahead : s.ahead = c :: r) (hname : IsNameChar c)
    (h : ∀ c ∈ s.ahead.head?, ∀ text, Leads form w s (c :: text)) : Traced form a (s.push c) := by
  refine .flag (hpast.read (x := [c]) hahead rfl rfl) (.inr hstate) fun d _ text => ?_
  refine Leads.read_name (x := [c]) (h c (by rw [hahead]; rfl) (d :: text)) fun u hu htoken => ?_
  exact ⟨_, hu.push c, fun _ => congrArg (String.push · c) (htoken hstate), outcome_of_next
    (step_flagName_cons (hu.state_eq.trans hstate) hu.ahead_eq hname)⟩

/-- A name that is complete selects its field. -/
theorem traced_flag (hpast : Past a w s) (hstate : s.state = .flagName)
    (hahead : s.ahead = c :: r) (hname : ¬ IsNameChar c)
    (hi : (form.fields.findIdx? fun f => Text.eqIgnoreCase f.flagName s.token) = some i)
    (h : ∀ c ∈ s.ahead.head?, ∀ text, Leads form w s (c :: text)) :
    Traced form a (s.clearToken.goto (.value i (.separator false))) := by
  refine .between (hpast.look rfl rfl) rfl rfl (.inr ⟨c, r, hahead, hname, fun text => ?_⟩)
  refine (h c (by rw [hahead]; rfl) text).look_name fun u hu htoken => ?_
  refine ⟨u.clearToken.goto (.value i (.separator false)),
    ⟨rfl, hu.positionals_eq, hu.values_eq, hu.ahead_eq⟩, ScanState.noConfusion,
    outcome_of_next ?_⟩
  rw [step_flagName_end (hu.state_eq.trans hstate) (.inr ⟨c, text, hu.ahead_eq, hname⟩),
    flagEndStep, htoken hstate, hi]

/-! ### Lists -/

/-- In front of an element. -/
theorem traced_elementGap {stage : ListStage} {afterComma : Bool} (hpast : Past a w s)
    (hfield : form.fields[i]? = some field) (hstate : s.state = .list i stage)
    (hfront : stage = .start ∧ afterComma = false ∨ stage = .next ∧ afterComma = true)
    (htoken : s.token = "") (h : Parts form w s) (hmove : ListMoves field i s stage t) :
    Traced form a t := by
  have hbetween : isBetween (.list i stage) = true := by
    rcases hfront with ⟨rfl, -⟩ | ⟨rfl, -⟩
    · rfl
    · rfl
  have hfree := h.free (hstate ▸ fun c _ => id)
  have hu_step {u : Scan} (hu : u.state = s.state) : parameterStep form .execute u =
      elementStep .execute i afterComma u := by
    rw [parameterStep_list hfield (hu.trans hstate)]
    rcases hfront with ⟨rfl, rfl⟩ | ⟨rfl, rfl⟩
    · rfl
    · rfl
  cases hmove with
  | @gap _ c _ _ hahead hblank =>
    refine .between (hpast.read (x := [c]) hahead rfl rfl) ?_ htoken (.inl fun text => ?_)
    · exact (congrArg isBetween hstate).trans hbetween
    · refine Leads.read (x := [c]) (hfree _) (hstate ▸ nofun) fun u hu => ?_
      exact ⟨_, hu.advance, outcome_of_next
        ((hu_step hu.state_eq).trans (elementStep_blank hu.ahead_eq hblank))⟩
  | close hstage hahead =>
    obtain ⟨rfl, rfl⟩ : stage = .start ∧ afterComma = false := by
      refine hfront.resolve_right ?_
      rintro ⟨rfl, -⟩
      rcases hstage with hstage | hstage
      · cases hstage
      · cases hstage
    refine .between (hpast.read (x := [']']) hahead rfl rfl) rfl htoken (.inl fun text => ?_)
    refine Leads.read (x := [']']) (hfree _) nofun fun u hu => ?_
    exact ⟨_, hu.advance.goto (.listEnd i), outcome_of_next
      ((hu_step hu.state_eq).trans (elementStep_close hu.ahead_eq))⟩
  | @begin _ c r _ hahead hblank hclose =>
    refine .elementFront (hpast.look rfl rfl) rfl ⟨c, r, hahead, hblank, hclose⟩ ?_
    intro d text hd hdclose hdcomma
    refine (hfree _).look nofun fun u hu => ?_
    exact ⟨_, hu.goto (.list i .elementStart), outcome_of_next
      ((hu_step hu.state_eq).trans (elementStep_cons hu.ahead_eq hd hdclose fun _ => hdcomma))⟩
  | startEnd | quote | bare | push | complete | quoted | append | comma => cases hbetween

/-- At the beginning of an element. -/
theorem traced_elementStart (hpast : Past a w s) (hstate : s.state = .list i .elementStart)
    (hfirst : ∃ c r, s.ahead = c :: r ∧ Text.isBlank c = false ∧ c ≠ ']')
    (h : ∀ c text, Text.isBlank c = false → c ≠ ']' → c ≠ ',' → Leads form w s (c :: text))
    (hmove : ListMoves field i s .elementStart t) : Traced form a t := by
  obtain ⟨c, r, hahead, hblank, hclose⟩ := hfirst
  cases hmove with
  | gap hstage | close hstage | begin hstage => simp at hstage
  | startEnd hnil => cases hnil.symm.trans hahead
  | @quote q _ hquote =>
    show Traced form a (s.behindToken (.list i (.quoted q)) [q.char] [])
    exact .element hpast hstate h (.quoted .nil) hquote
  | bare hmore _ hcomma _ =>
    obtain ⟨rfl, rfl⟩ := List.cons.inj (hmore.symm.trans hahead)
    show Traced form a (s.behindToken (.list i .bare) [] [])
    refine .element hpast hstate h (.bare (fun _ h => absurd h List.not_mem_nil) ?_) hahead
    intro d hd hends
    rw [← Option.some.inj hd] at hends
    rcases hends with hends | hends | hends
    · rw [hblank] at hends
      cases hends
    · exact hcomma hends
    · exact hclose hends

/-- Inside and behind an element. -/
theorem traced_element {stage : ListStage} (hpast : Past a w v)
    (hfield : form.fields[i]? = some field) (hstate : v.state = .list i .elementStart)
    (h : ∀ c text, Text.isBlank c = false → c ≠ ']' → c ≠ ',' → Leads form w v (c :: text))
    (hpart : ElementPart r stage text token) (hahead : v.ahead = text ++ r)
    (hmove : ListMoves field i (v.behindToken (.list i stage) text token) stage t) :
    Traced form a t := by
  have hbehind := ahead_behindToken hahead (.list i stage) token
  cases hpart with
  | bare hw hc =>
    have hpart : ElementPart r .bare text text := .bare hw hc
    cases hmove with
    | gap hstage | close hstage | begin hstage => simp at hstage
    | @push c r' hmore hchar =>
      obtain rfl : r = c :: r' := hbehind.symm.trans hmore
      rw [push_behindToken]
      exact .element hpast hstate h (hpart.push hchar) (by simpa using hahead)
    | @complete c r' hmore hends =>
      obtain rfl : r = c :: r' := hbehind.symm.trans hmore
      exact .element hpast hstate h (hpart.complete hends) hahead
  | quoted hquoted =>
    cases hmove with
    | gap hstage | close hstage | begin hstage => simp at hstage
    | quoted hquotedMove =>
      rcases hquotedMove.behindToken hquoted hahead with
        ⟨r, rfl, hbody, rfl⟩ | ⟨body', token', r', hquoted', hahead', rfl⟩
      · exact .element hpast hstate h (r := r) (.ended (.quoted (.mk hbody hquoted)))
          (by rw [hahead]; simp)
      · exact .element hpast hstate h (.quoted hquoted') hahead'
  | ended helement =>
    cases hmove with
    | gap hstage | close hstage | begin hstage => simp at hstage
    | append =>
      refine .elementSeparator (hpast.read hahead rfl rfl) rfl rfl fun c _ hends more => ?_
      obtain ⟨d, text', rfl, hd, hdclose, hdcomma⟩ := helement.exists_cons
      have hleads := h d (text' ++ c :: more) hd hdclose hdcomma
      refine Leads.read hleads ScanState.noConfusion fun u hu => ?_
      rw [hstate] at hu
      exact outcome_element hfield helement hends hu

/-- Behind an element. -/
theorem traced_elementSeparator (hpast : Past a w s) (hfield : form.fields[i]? = some field)
    (hstate : s.state = .list i .separator) (htoken : s.token = "")
    (h : ∀ c ∈ s.ahead.head?, EndsElement c → ∀ text, Leads form w s (c :: text))
    (hmove : ListMoves field i s .separator t) : Traced form a t := by
  have hu_step {u : Scan} (hu : u.state = s.state) : parameterStep form .execute u =
      elementSeparatorStep .execute i u := parameterStep_list hfield (hu.trans hstate)
  have hlead {c : Char} {r : List Char} (hahead : s.ahead = c :: r) (hends : EndsElement c)
      (text : List Char) :
      Leads form w s (c :: text) := h c (by rw [hahead]; rfl) hends text
  cases hmove with
  | begin hstage => simp at hstage
  | @gap _ c _ _ hahead hblank =>
    refine .elementSeparator (hpast.read (x := [c]) hahead rfl rfl) hstate htoken
      fun d _ _ text => ?_
    refine Leads.read (x := [c]) (hlead hahead (.inl hblank) (d :: text)) (hstate ▸ nofun)
      fun u hu => ?_
    exact ⟨_, hu.advance, outcome_of_next
      ((hu_step hu.state_eq).trans (elementSeparatorStep_blank hu.ahead_eq hblank))⟩
  | comma hahead =>
    refine .between (hpast.read (x := [',']) hahead rfl rfl) rfl htoken (.inl fun text => ?_)
    refine Leads.read (x := [',']) (hlead hahead (.inr (.inl rfl)) text) nofun fun u hu => ?_
    exact ⟨_, hu.advance.goto (.list i .next), outcome_of_next
      ((hu_step hu.state_eq).trans (elementSeparatorStep_comma hu.ahead_eq))⟩
  | close _ hahead =>
    refine .between (hpast.read (x := [']']) hahead rfl rfl) rfl htoken (.inl fun text => ?_)
    refine Leads.read (x := [']']) (hlead hahead (.inr (.inr rfl)) text) nofun fun u hu => ?_
    exact ⟨_, hu.advance.goto (.listEnd i), outcome_of_next
      ((hu_step hu.state_eq).trans (elementSeparatorStep_close hu.ahead_eq))⟩

/-! ### All places -/

/-- A step for typing keeps track of which other texts lead to the same place. -/
theorem Traced.next (hform : form.defect? = none) (hs : Reading form s.text s)
    (hreach : Reaches (parameterStep form .autocomplete) a s)
    (hspelled : ¬ IsAbbreviated form s) (h : Traced form a s)
    (hstep : parameterStep form .autocomplete s = .next t) : Traced form a t := by
  have hmove := moves_of_parameterStep hstep
  cases h with
  | front hpast hfront hstart h =>
    cases hmove with
    | dash hstate hahead => exact traced_dash hform hpast hstate hahead h
    | positional hstate hahead hdash hi =>
      exact traced_positional hpast hreach hstate hstart hahead hdash hi h
    | rest => exact .rest rfl rfl
    | @value i stage _ _ hfield hstate hvalue =>
      cases stage with
      | start => exact traced_valueStart hform hpast hreach hfield hstate h hvalue
      | _ => simp_all [isFront]
    | _ => simp_all [isFront]
  | between hpast hbetween htoken h =>
    cases hmove with
    | gap hstate hahead hblank => exact traced_gap hpast hstate htoken h hahead hblank
    | begin hstate hahead hplain => exact traced_begin hpast hstate h hahead hplain
    | @value i stage _ _ hfield hstate hvalue =>
      cases stage with
      | separator => exact traced_separator hpast hreach hfield hstate htoken h hvalue
      | _ => simp_all [isBetween]
    | @list i stage _ _ hfield hstate hlist =>
      cases stage with
      | start => exact traced_elementGap hpast hfield hstate (.inl ⟨rfl, rfl⟩) htoken h hlist
      | next => exact traced_elementGap hpast hfield hstate (.inr ⟨rfl, rfl⟩) htoken h hlist
      | _ => simp_all [isBetween]
    | listEnd hstate hahead hblank => exact traced_listEnd hpast hstate h hahead hblank
    | _ => simp_all [isBetween]
  | flag hpast hflag h =>
    cases hmove with
    | secondDash hstate hahead => exact traced_secondDash hpast hstate hahead h
    | singleDash hstate hdash => exact traced_singleDash hpast hstate hdash h
    | name hstate hahead hname => exact traced_name hpast hstate hahead hname h
    | flag hstate hend hi =>
      obtain ⟨-, hexecute⟩ | ⟨c, r, hahead, hname⟩ := hend
      · cases hexecute
      · exact traced_flag hpast hstate hahead hname hi h
    | _ => simp_all
  | token hpast hbegun hfield hstate h hpart hahead =>
    exact traced_token hform hpast hbegun hfield hstate h hpart hahead hspelled
      (valueMoves_of_parameterStep hfield rfl hstep)
  | elementFront hpast hstate hfirst h =>
    cases hmove with
    | list hfield hstate' hlist =>
      obtain ⟨rfl, rfl⟩ := ScanState.list.inj (hstate'.symm.trans hstate)
      exact traced_elementStart hpast hstate hfirst h hlist
    | _ => simp_all
  | @element _ _ _ _ _ i _ hpast hstate h hpart hahead =>
    obtain ⟨field, -, hfield⟩ := hs.field (i := i) rfl
    exact traced_element hpast hfield hstate h hpart hahead
      (listMoves_of_listStep ((parameterStep_list hfield rfl).symm.trans hstep))
  | elementSeparator hpast hstate htoken h =>
    cases hmove with
    | list hfield hstate' hlist =>
      obtain ⟨rfl, rfl⟩ := ScanState.list.inj (hstate'.symm.trans hstate)
      exact traced_elementSeparator hpast hfield hstate htoken h hlist
    | _ => simp_all
  | rest hstate =>
    cases hmove with
    | _ => simp_all

/-- The scan in front of the first parameter. -/
theorem Traced.start (hstate : a.state = .startParameter) (hpositionals : a.positionals = 0)
    (hvalues : a.values = ∅) (hstart : a.tokenStart = a.cursor) : Traced form a a := by
  refine .front (w := []) ⟨rfl, rfl, rfl⟩ (by rw [hstate]; rfl) hstart fun text _ u hu => ?_
  refine ⟨u, ?_, fun hname => ?_, rfl⟩
  · rw [hstate, hpositionals, hvalues]
    exact hu
  · rw [hstate] at hname
    cases hname

end Scan

end SlashCommand

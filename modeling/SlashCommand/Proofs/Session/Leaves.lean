import SlashCommand.Proofs.FormCache.Fetching
import SlashCommand.Proofs.Scan.Retyping
import SlashCommand.Proofs.Session.Execution

/-!
# Commands that are read at a leaf

While a command is typed, its text is replaced again and again, and each time it is matched and
scanned anew.  Where it has come to a leaf with a form (`ReadAtLeaf`), a text that is changed from
the parameters on comes to the same leaf and to the same form, whether the form is written at the
leaf or was fetched: the second time it is in the cache (`run_parse_again`).

So what the changed command is read as depends on its parameters only: it is what a scan of the form
reads from where the parameters begin (`ReadAtLeaf.parse_retyped`).
-/

namespace SlashCommand

namespace Session

variable {s : Session} {backend : Backend Id} {cache cache' : FormCache} {text changed : String}
  {scan read : Scan} {b : Binding} {form : Form} {new : List Char}

theorem error?_of_isFailed (h : read.isFailed = false) : read.error? = none := by
  unfold Scan.error?
  split
  · rename_i error hstate
    rw [Scan.isFailed, hstate] at h
    cases h
  · rfl

theorem isFailed_of_error? (h : read.error? = none) : read.isFailed = false := by
  cases hfailed : read.isFailed with
  | false => rfl
  | true =>
    obtain ⟨error, hstate⟩ := Scan.exists_failed hfailed
    rw [Scan.error?, hstate] at h
    cases h

/-! ## Matching another command -/

/-- Where a command is matched to a leaf while it is typed, another one that is changed behind that
is matched to the same leaf, and its form comes from the same place. -/
theorem formSource_retyped (hb : (s.matchCommand text .autocomplete).binding = some b)
    (hleaf : b.isLeaf = true)
    (hsame : (s.matchCommand changed .autocomplete).rewind =
      (s.matchCommand text .autocomplete).rewind.onText changed.toList) :
    let a := s.matchCommand changed .autocomplete
    a.isFailed = false ∧ a.binding = some b ∧
      s.formSource a = s.formSource (s.matchCommand text .autocomplete) := by
  intro a
  have hm := ((s.sameLeaf_matchCommand text).leaf b hb hleaf).1
  have hbinding : a.binding = (s.matchCommand text .autocomplete).binding :=
    (congrArg Scan.binding hsame :)
  have happ : a.appId = (s.matchCommand text .autocomplete).appId := (congrArg Scan.appId hsame :)
  have hlocation : a.location = (s.matchCommand text .autocomplete).location :=
    (congrArg Scan.location hsame :)
  have ha : a.isFailed = false :=
    ((s.sameLeaf_matchCommand changed).leaf b (hbinding.trans hb) hleaf).1
  refine ⟨ha, hbinding.trans hb, ?_⟩
  simp only [formSource, ha, hm, happ, hlocation, hbinding]

/-- The same when the changed command is executed. -/
theorem matchCommand_changed (hb : (s.matchCommand text .autocomplete).binding = some b)
    (hleaf : b.isLeaf = true)
    (hsame : (s.matchCommand changed .autocomplete).rewind =
      (s.matchCommand text .autocomplete).rewind.onText changed.toList) :
    let e := s.matchCommand changed .execute
    e.isFailed = false ∧
      e.rewind = (s.matchCommand text .autocomplete).rewind.onText changed.toList ∧
      s.formSource e = s.formSource (s.matchCommand text .autocomplete) := by
  intro e
  obtain ⟨-, hbinding, hsource⟩ := formSource_retyped hb hleaf hsame
  have hchanged := s.sameLeaf_matchCommand changed
  obtain ⟨-, he, hrewind⟩ := hchanged.leaf b hbinding hleaf
  exact ⟨he, hrewind.trans hsame, (formSource_of_sameLeaf hchanged hbinding hleaf).trans hsource⟩

/-- A scan with a form is that of the form, and with the cache that it leaves behind the form is
attached again wherever it comes from the same place. -/
theorem run_parse_again (hcache : cache.WellFormed)
    (hparse : ((s.parse backend text .autocomplete).run cache).run = (.ok scan, cache'))
    (hform : scan.form = some form) :
    ((s.matchCommand text .autocomplete).withForm form).parseForm .autocomplete = scan ∧
      ∀ changed mode, s.formSource (s.matchCommand changed mode) =
          s.formSource (s.matchCommand text .autocomplete) →
        ((s.parse backend changed mode).run cache').run.1 =
          .ok (((s.matchCommand changed mode).withForm form).parseForm mode) := by
  have hkept (form' : Form) := (Scan.sameForm_parseForm
    ((s.matchCommand text .autocomplete).withForm form') .autocomplete).form
  cases parsedBy_of_run hparse with
  | formless =>
    rw [s.form_matchCommand] at hform
    cases hform
  | @inline form' hsource =>
    obtain rfl : form' = form := Option.some.inj ((hkept form').symm.trans hform)
    refine ⟨rfl, fun changed mode hsame => ?_⟩
    rw [parse_of_inline rfl (hsame.trans hsource) rfl]
    rfl
  | @fetched form' _ _ _ hsource hfetch =>
    obtain rfl : form' = form := Option.some.inj ((hkept form').symm.trans hform)
    refine ⟨rfl, fun changed mode hsame => ?_⟩
    rw [run_parse_of_remote rfl (hsame.trans hsource), FormCache.run_fetch_again hcache hfetch]
    rfl

/-! ## The text and its parameters -/

/-- The scan for typing in front of the parameters of a text, with their form. -/
def typedFrom (s : Session) (text : String) (form : Form) : Scan :=
  ((s.matchCommand text .autocomplete).withForm form).rewind

/-- The parameters of a text begin in it. -/
theorem inBounds_matchCommand (s : Session) (text : String) :
    Scan.InBounds text.toList (s.matchCommand text .autocomplete) :=
  (Scan.InBounds.ofText text).matchBinding s.bindings .autocomplete

theorem text_matchCommand (s : Session) (text : String) :
    (s.matchCommand text .autocomplete).text = text.toList :=
  (s.inBounds_matchCommand text).text_eq

theorem tokenStart_matchCommand_le (s : Session) (text : String) :
    (s.matchCommand text .autocomplete).tokenStart ≤
      (s.matchCommand text .autocomplete).text.length := by
  rw [text_matchCommand]
  exact (s.inBounds_matchCommand text).tokenStart_le_length

theorem reading_typedFrom (s : Session) (text : String) (form : Form) :
    Scan.Reading form (s.typedFrom text form).text (s.typedFrom text form) :=
  Scan.Reading.rewind (s := (s.matchCommand text .autocomplete).withForm form)
    (s.tokenStart_matchCommand_le text)

/-- The scan for typing stands in front of the first parameter. -/
theorem stands_typedFrom (s : Session) (text : String) (form : Form) :
    Scan.Stands .startParameter 0 ∅
      (text.toList.drop (s.matchCommand text .autocomplete).tokenStart)
      (s.typedFrom text form) := by
  have hinput := Scan.sameInput_matchBinding (Scan.ofText text) s.bindings .autocomplete
  refine ⟨rfl, hinput.positionals, hinput.values, ?_⟩
  exact congrArg (List.drop (s.matchCommand text .autocomplete).tokenStart) hinput.text

/-- A text is read at a leaf with the form, without an error, and comes to the scan. -/
structure ReadAtLeaf (s : Session) (backend : Backend Id) (text : String)
    (cache cache' : FormCache) (form : Form) (scan : Scan) : Prop where
  parses : ((s.parse backend text .autocomplete).run cache).run = (.ok scan, cache')
  succeeds : scan.error? = none
  hasForm : scan.form = some form
  leaf : ∃ b, scan.binding = some b ∧ b.isLeaf = true

namespace ReadAtLeaf

variable (h : ReadAtLeaf s backend text cache cache' form scan) (hcache : cache.WellFormed)

include h hcache

/-- The scan is that of the form behind the binding. -/
theorem scan_eq :
    ((s.matchCommand text .autocomplete).withForm form).parseForm .autocomplete = scan :=
  (run_parse_again hcache h.parses h.hasForm).1

/-- The binding is found before the form is read. -/
theorem exists_leaf :
    ∃ b, (s.matchCommand text .autocomplete).binding = some b ∧ b.isLeaf = true ∧
      (s.matchCommand text .autocomplete).isFailed = false := by
  obtain ⟨b, hb, hleaf⟩ := h.leaf
  have hkept := (Scan.sameForm_parseForm
    ((s.matchCommand text .autocomplete).withForm form) .autocomplete).binding
  rw [h.scan_eq hcache, hb] at hkept
  exact ⟨b, hkept.symm, hleaf, ((s.sameLeaf_matchCommand text).leaf b hkept.symm hleaf).1⟩

theorem readForm_eq : Scan.readForm form .autocomplete (s.typedFrom text form) = scan := by
  obtain ⟨b, -, -, hfailed⟩ := h.exists_leaf hcache
  have hscan := h.scan_eq hcache
  rwa [Scan.parseForm_withForm, if_neg (by simp [hfailed])] at hscan

theorem text_eq : scan.text = text.toList := by
  rw [← h.readForm_eq hcache, (s.reading_typedFrom text form).text_readForm]
  exact s.text_matchCommand text

/-- The last token comes behind the slash. -/
theorem exists_slash : ∃ pre, scan.text.take scan.tokenStart = '/' :: pre := by
  obtain ⟨b, hb, -⟩ := h.exists_leaf hcache
  obtain ⟨-, rest, hslash⟩ := Scan.exists_slash hb
  have hone : 1 ≤ (s.matchCommand text .autocomplete).tokenStart :=
    Scan.one_le_tokenStart_matchBinding hb
  have hlength : 1 ≤ (s.typedFrom text form).text.length :=
    Nat.le_trans hone (s.tokenStart_matchCommand_le text)
  have hstart : 1 ≤ (Scan.readForm form .autocomplete (s.typedFrom text form)).tokenStart :=
    Scan.le_tokenStart_readForm ⟨hone, hone, hlength⟩
  rw [h.readForm_eq hcache] at hstart
  obtain ⟨n, hn⟩ := Nat.exists_eq_add_of_le' hstart
  exact ⟨rest.take n, by rw [h.text_eq hcache, hslash, hn, List.take_succ_cons]⟩

/-- A command that is changed from its parameters on, and does not begin them with a blank that was
not there, is matched to the leaf as before. -/
theorem matchCommand_retyped
    (hchanged : changed.toList =
      text.toList.take (s.matchCommand text .autocomplete).tokenStart ++ new)
    (hnew : ∃ c r, new = c :: r ∧ (Text.isBlank c = false ∨
      (text.toList.drop (s.matchCommand text .autocomplete).tokenStart).head? = some c)) :
    (s.matchCommand changed .autocomplete).rewind =
      (s.matchCommand text .autocomplete).rewind.onText changed.toList := by
  obtain ⟨b, hb, hleaf, -⟩ := h.exists_leaf hcache
  have hle := (s.inBounds_matchCommand text).tokenStart_le_length
  refine Scan.matchBinding_retyped hb hleaf (List.take_append_drop _ _).symm hchanged ?_ hnew
  rw [List.length_take, Nat.min_eq_left hle]
  rfl

/-- **Reading anew.**  Where the changed command is matched to the leaf as before, its parameters are
read with the same form. -/
theorem parse_retyped
    (hsame : (s.matchCommand changed .autocomplete).rewind =
      (s.matchCommand text .autocomplete).rewind.onText changed.toList) :
    ((s.parse backend changed .autocomplete).run cache').run.1 =
      .ok (Scan.readForm form .autocomplete ((s.typedFrom text form).onText changed.toList)) := by
  obtain ⟨b, hb, hleaf, -⟩ := h.exists_leaf hcache
  obtain ⟨ha, -, hsource⟩ := formSource_retyped hb hleaf hsame
  have hbegin : ((s.matchCommand changed .autocomplete).withForm form).rewind =
      (s.typedFrom text form).onText changed.toList :=
    congrArg (·.withForm form) hsame
  rw [(run_parse_again hcache h.parses h.hasForm).2 changed .autocomplete hsource,
    Scan.parseForm_withForm, if_neg (by simp [ha]), hbegin]

/-- What is changed behind the place where the parameters begin is read with the same form. -/
theorem parse_changedBehind {pre old : List Char} {c : Char}
    (htext : text.toList = pre ++ old) (hchanged : changed.toList = pre ++ c :: new)
    (hc : Text.isBlank c = false)
    (hle : (s.matchCommand text .autocomplete).tokenStart ≤ pre.length) :
    ((s.parse backend changed .autocomplete).run cache').run.1 =
      .ok (Scan.readForm form .autocomplete ((s.typedFrom text form).onText changed.toList)) := by
  have hsplit : changed.toList = text.toList.take (s.matchCommand text .autocomplete).tokenStart ++
      (pre.drop (s.matchCommand text .autocomplete).tokenStart ++ c :: new) := by
    rw [hchanged, htext, List.take_append_of_le_length hle, ← List.append_assoc,
      List.take_append_drop]
  refine h.parse_retyped hcache (h.matchCommand_retyped hcache hsplit ?_)
  cases hdrop : pre.drop (s.matchCommand text .autocomplete).tokenStart with
  | nil => exact ⟨c, new, rfl, .inl hc⟩
  | cons d rest =>
    refine ⟨d, rest ++ c :: new, rfl, .inr ?_⟩
    rw [htext, List.drop_append_of_le_length hle, hdrop]
    rfl

end ReadAtLeaf

end Session

end SlashCommand

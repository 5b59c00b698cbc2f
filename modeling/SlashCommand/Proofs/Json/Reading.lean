import SlashCommand.Json.Reader
import SlashCommand.Proofs.Datum.Numeral

/-!
# What JSON is read as

Every document that is read from a JSON text has lists and records to the depth that is read, and
the scalars of a JSON text in them (`nested_of_parse`).  This holds of all that is on the stack of the
builder at any time, with as many levels less as there are lists and records around it
(`Builder.Sound`), and each token keeps it (`Builder.Sound.step`).
-/

namespace SlashCommand.Json

open Datum (Nested IsRead IsResolved IsWritten)

variable {d : Datum} {t : Token} {ts : List Token} {fs : List Frame} {c : Char}

/-! ## Tokens -/

/-- A token has a scalar of a JSON text, if it has one. -/
def Token.Sound : Token → Prop
  | .scalar d => IsRead d
  | _ => True

/-- The value that a token is by itself. -/
def Token.value? : Token → Option Datum
  | .scalar d => some d
  | .text s => some (s.elim .unreadable .text)
  | _ => none

theorem Token.Sound.isRead_of_value? (h : t.Sound) (hd : t.value? = some d) : IsRead d := by
  cases t with
  | scalar d' =>
    cases hd
    exact h
  | text s =>
    cases hd
    cases s with
    | none => exact .inl rfl
    | some s => exact .inr trivial
  | _ => cases hd

theorem Token.sound_of_wordToken? {word : List Char} (h : wordToken? word = some t) : t.Sound := by
  unfold wordToken? at h
  split at h
  · cases h
    exact .inr trivial
  · cases h
    exact .inr trivial
  · cases h
    exact .inr trivial
  · obtain ⟨numeral, -, rfl⟩ := Option.map_eq_some_iff.mp h
    cases hvalue : numeral.value?.filter Number.isFinite with
    | none => exact .inl rfl
    | some v =>
      obtain ⟨hv, hfinite⟩ := Option.filter_eq_some_iff.mp hvalue
      refine .inr ?_
      cases v with
      | whole n => exact Numeral.inWord_of_value? hv
      | float bits => exact hfinite

theorem Token.sound_of_begin {l : Lexer} (h : Lexer.begin c = (some t, l)) : t.Sound := by
  unfold Lexer.begin at h
  split at h
  · cases h
  split at h
  · cases h
  split at h
  · next m hm =>
    cases h
    unfold mark? at hm
    split at hm <;> cases hm <;> trivial
  · cases h

/-- The tokens that a character completes. -/
theorem Lexer.sound_of_step {l l' : Lexer} (h : l.step c = some (ts, l')) : ∀ t ∈ ts, t.Sound := by
  cases l with
  | between =>
    cases hbegin : Lexer.begin c with
    | mk first l =>
      simp only [Lexer.step, hbegin] at h
      cases h
      intro t ht
      rw [Option.mem_toList.mp ht] at hbegin
      exact Token.sound_of_begin hbegin
  | word done =>
    simp only [Lexer.step] at h
    split at h
    · obtain ⟨word, hword, hrest⟩ := Option.bind_eq_some_iff.mp h
      cases hbegin : Lexer.begin c with
      | mk first l =>
        rw [hbegin] at hrest
        cases hrest
        refine List.forall_mem_cons.mpr ⟨Token.sound_of_wordToken? hword, fun t ht => ?_⟩
        have hfirst : first = some t := Option.mem_toList.mp ht
        rw [hfirst] at hbegin
        exact Token.sound_of_begin hbegin
    · cases h
      exact fun t ht => absurd ht List.not_mem_nil
  | quoted units =>
    simp only [Lexer.step] at h
    split at h
    · cases h
      exact List.forall_mem_singleton.mpr trivial
    split at h
    · cases h
      exact fun t ht => absurd ht List.not_mem_nil
    split at h
    · cases h
    · cases h
      exact fun t ht => absurd ht List.not_mem_nil
  | escaped units =>
    simp only [Lexer.step] at h
    split at h
    · cases h
      exact fun t ht => absurd ht List.not_mem_nil
    · obtain ⟨_, -, hresult⟩ := Option.map_eq_some_iff.mp h
      cases hresult
      exact fun t ht => absurd ht List.not_mem_nil
  | codeUnit units value left =>
    obtain ⟨_, -, hresult⟩ := Option.map_eq_some_iff.mp h
    cases left <;> cases hresult <;> exact fun t ht => absurd ht List.not_mem_nil

theorem Lexer.sound_of_finish {l : Lexer} (h : l.finish = some ts) : ∀ t ∈ ts, t.Sound := by
  cases l with
  | between =>
    cases h
    exact fun t ht => absurd ht List.not_mem_nil
  | word done =>
    obtain ⟨word, hword, rfl⟩ := Option.map_eq_some_iff.mp h
    exact List.forall_mem_singleton.mpr (Token.sound_of_wordToken? hword)
  | _ => cases h

/-! ## The builder -/

/-- What a list or record holds so far. -/
def Frame.data : Frame → List Datum
  | .items done => done
  | .members done _ => done.map Prod.snd

/-- Around what an open list or record holds stand the lists and records below it on the stack, and
itself. -/
def FramesSound : List Frame → Prop
  | [] => True
  | f :: fs => (∀ d ∈ f.data, Nested IsRead (maxDepth - (fs.length + 1)) d) ∧ FramesSound fs

/-- All that has been built is of the shape that is read. -/
structure Builder.Sound (b : Builder) : Prop where
  frames : FramesSound b.frames
  result : ∀ d, b.expect = .nothing d → Nested IsRead maxDepth d

namespace Builder

variable {b b' : Builder}

theorem sound_put (hd : Nested IsRead (maxDepth - fs.length) d) (hfs : FramesSound fs) :
    (put d fs).Sound := by
  cases fs with
  | nil => exact ⟨trivial, fun d' hd' => by cases hd'; exact hd⟩
  | cons f fs =>
    cases f with
    | items done =>
      exact ⟨⟨List.forall_mem_cons.mpr ⟨hd, hfs.1⟩, hfs.2⟩, fun d' hd' => by cases hd'⟩
    | members done key =>
      exact ⟨⟨List.forall_mem_cons.mpr ⟨hd, hfs.1⟩, hfs.2⟩, fun d' hd' => by cases hd'⟩

theorem nested_close {f : Frame} (h : FramesSound (f :: fs)) :
    Nested IsRead (maxDepth - fs.length) (close fs.length f) := by
  obtain ⟨hdata, -⟩ := h
  have hlevels (hdepth : fs.length < maxDepth) :
      maxDepth - fs.length = maxDepth - (fs.length + 1) + 1 := by omega
  cases f with
  | items done =>
    rw [close]
    split
    · next hdepth =>
      rw [hlevels hdepth]
      exact .list fun d hd => hdata d (List.mem_reverse.mp hd)
    · exact .leaf (.inl rfl)
  | members done key =>
    rw [close]
    split
    · next ms hms =>
      split
      · next hdepth =>
        rw [hlevels hdepth]
        refine .record fun m hm => ?_
        obtain ⟨⟨key, d⟩, hmem, hkey⟩ := Datum.exists_mem_of_mapM hms m hm
        obtain ⟨k, -, rfl⟩ := Option.map_eq_some_iff.mp hkey
        exact hdata d (List.mem_map.mpr ⟨(key, d), List.mem_reverse.mp hmem, rfl⟩)
      · exact .leaf (.inl rfl)
    · exact .leaf (.inl rfl)

/-- What a token does to the stack: it is a value, opens or closes a list or record, or changes only
what is waited for. -/
inductive Steps (t : Token) : List Frame → Builder → Prop
  | value {fs : List Frame} {d : Datum} (h : t.value? = some d) : Steps t fs (put d fs)
  | opens {fs : List Frame} {f : Frame} {e : Expect} (hf : f.data = [])
      (he : ∀ d, e ≠ .nothing d) : Steps t fs ⟨f :: fs, e⟩
  | closes {fs : List Frame} {f : Frame} : Steps t (f :: fs) (put (close fs.length f) fs)
  | waits {fs : List Frame} {f f' : Frame} {e : Expect} (hf : f'.data = f.data)
      (he : ∀ d, e ≠ .nothing d) : Steps t (f :: fs) ⟨f' :: fs, e⟩
  | colon {fs : List Frame} : Steps t fs ⟨fs, .value⟩

theorem steps_of_step (h : b.step t = some b') : Steps t b.frames b' := by
  obtain ⟨fs, e⟩ := b
  unfold Builder.step at h
  dsimp only at h ⊢
  split at h
  · cases h; exact .value rfl
  · cases h; exact .value rfl
  · cases h; exact .value rfl
  · cases h; exact .value rfl
  · cases h; exact .opens rfl nofun
  · cases h; exact .opens rfl nofun
  · cases h; exact .opens rfl nofun
  · cases h; exact .opens rfl nofun
  · cases h; exact .closes
  · cases h; exact .closes
  · cases h; exact .waits rfl nofun
  · cases h; exact .closes
  · cases h; exact .closes
  · cases h; exact .waits rfl nofun
  · cases h; exact .waits rfl nofun
  · cases h; exact .waits rfl nofun
  · cases h; exact .colon
  · cases h

/-- A token keeps all that has been built in shape. -/
theorem Sound.step (h : b.Sound) (ht : t.Sound) (hstep : b.step t = some b') : b'.Sound := by
  have hfs := h.frames
  have hsteps := steps_of_step hstep
  generalize b.frames = fs at hfs hsteps
  cases hsteps with
  | value hd => exact sound_put (.leaf (ht.isRead_of_value? hd)) hfs
  | opens hf he =>
    refine ⟨⟨?_, hfs⟩, fun d hd => absurd hd (he d)⟩
    rw [hf]
    exact fun d hd => absurd hd List.not_mem_nil
  | closes => exact sound_put (nested_close hfs) hfs.2
  | waits hf he => exact ⟨⟨by rw [hf]; exact hfs.1, hfs.2⟩, fun d hd => absurd hd (he d)⟩
  | colon => exact ⟨hfs, fun d hd => nomatch hd⟩

theorem Sound.foldlM (h : b.Sound) (hts : ∀ t ∈ ts, t.Sound)
    (hfold : ts.foldlM Builder.step b = some b') : b'.Sound := by
  induction ts generalizing b with
  | nil =>
    cases hfold
    exact h
  | cons t ts ih =>
    obtain ⟨ht, hts⟩ := List.forall_mem_cons.mp hts
    rw [List.foldlM_cons] at hfold
    obtain ⟨next, hnext, hrest⟩ := Option.bind_eq_some_iff.mp hfold
    exact ih (h.step ht hnext) hts hrest

end Builder

/-! ## The reader -/

theorem Reader.sound_step {r r' : Reader} (h : r.builder.Sound) (hstep : r.step c = some r') :
    r'.builder.Sound := by
  obtain ⟨⟨ts, l⟩, hlexer, hrest⟩ := Option.bind_eq_some_iff.mp hstep
  obtain ⟨b, hb, hr⟩ := Option.bind_eq_some_iff.mp hrest
  cases hr
  exact h.foldlM (Lexer.sound_of_step hlexer) hb

theorem Reader.sound_foldlM {r r' : Reader} {cs : List Char} (h : r.builder.Sound)
    (hfold : cs.foldlM Reader.step r = some r') : r'.builder.Sound := by
  induction cs generalizing r with
  | nil =>
    cases hfold
    exact h
  | cons c cs ih =>
    rw [List.foldlM_cons] at hfold
    obtain ⟨next, hnext, hrest⟩ := Option.bind_eq_some_iff.mp hfold
    exact ih (sound_step h hnext) hrest

/-- What is read from a text has the scalars of a text, and no more levels than are read. -/
theorem nested_of_parse {text : String} (h : parse text = some d) : Nested IsRead maxDepth d := by
  obtain ⟨r, hr, hfinish⟩ := Option.bind_eq_some_iff.mp h
  have hstart : Builder.start.Sound := ⟨trivial, fun d hd => by cases hd⟩
  have hsound := Reader.sound_foldlM (r := ⟨.between, .start⟩) hstart hr
  obtain ⟨ts, hlexer, hrest⟩ := Option.bind_eq_some_iff.mp hfinish
  obtain ⟨b, hb, hresult⟩ := Option.bind_eq_some_iff.mp hrest
  refine (hsound.foldlM (Lexer.sound_of_finish hlexer) hb).result d ?_
  rw [Builder.result?] at hresult
  split at hresult
  · next hexpect =>
    cases hresult
    exact hexpect
  · cases hresult

end SlashCommand.Json

import SlashCommand.Proofs.Expansion.Lists

/-!
# Looking up mentions in the fixtures

Fixtures find a user or a channel by a name up to the case of the ASCII letters, and of several they
find the first.  So the mention of somebody in the directory leads to somebody of the same name
(`Fixtures.exists_answer_user`, `Fixtures.exists_answer_channel`).
-/

namespace SlashCommand

theorem Text.dropLeading_append (c : Char) (name : String) :
    dropLeading c (String.singleton c ++ name) = name := by
  simp [dropLeading]

namespace Fixtures

open Expansion

variable {f : Fixtures} {teamId : Option String} {field : Field} {token name : String}
  {option : SelectOption} {u v : User} {c d : Channel}

theorem mem_of_user? (h : f.user? name = some u) :
    u ∈ f.users ∧ Text.eqIgnoreAsciiCase u.username name = true := by
  have hname := List.find?_some h
  exact ⟨List.mem_of_find?_eq_some h, hname⟩

theorem mem_of_channel? (h : f.channel? teamId name = some c) :
    c ∈ f.channels.filter (·.isIn teamId) ∧ Text.eqIgnoreAsciiCase c.name name = true := by
  have hseen := List.find?_some h
  obtain ⟨hteam, hname⟩ := Bool.and_eq_true_iff.mp hseen
  exact ⟨List.mem_filter.mpr ⟨List.mem_of_find?_eq_some h, hteam⟩, hname⟩

/-- The channels that are suggested are seen from the team. -/
theorem mem_seen_of_mem {typed : String}
    (h : c ∈ f.channels.filter fun c => c.isIn teamId && startsWith typed c.name) :
    c ∈ f.channels.filter (·.isIn teamId) := by
  obtain ⟨hc, hseen⟩ := List.mem_filter.mp h
  exact List.mem_filter.mpr ⟨hc, (Bool.and_eq_true_iff.mp hseen).1⟩

/-- A user is found by the name, though perhaps another one of this name. -/
theorem exists_user? (h : u ∈ f.users) : ∃ v, f.user? u.username = some v :=
  Option.isSome_iff_exists.mp (List.find?_isSome.mpr ⟨u, h, beq_self_eq_true _⟩)

theorem exists_channel? (h : c ∈ f.channels.filter (·.isIn teamId)) :
    ∃ d, f.channel? teamId c.name = some d := by
  obtain ⟨hc, hteam⟩ := List.mem_filter.mp h
  have hseen : (c.isIn teamId && Text.eqIgnoreAsciiCase c.name c.name) = true :=
    Bool.and_eq_true_iff.mpr ⟨hteam, beq_self_eq_true _⟩
  exact Option.isSome_iff_exists.mp (List.find?_isSome.mpr ⟨c, hc, hseen⟩)

theorem answer_user_iff (htype : field.type = .user) :
    Expansion.answer f.backend teamId field token = .ok option ↔
      ∃ u, f.user? (Text.dropLeading '@' token) = some u ∧ option = ⟨u.username, u.id, none⟩ := by
  rw [answer_of_user htype, found_eq_ok_iff]
  constructor
  · rintro ⟨u, hu, rfl⟩
    exact ⟨u, Except.ok.inj hu, rfl⟩
  · rintro ⟨u, hu, rfl⟩
    exact ⟨u, congrArg Except.ok hu, rfl⟩

theorem answer_channel_iff (htype : field.type = .channel) :
    Expansion.answer f.backend teamId field token = .ok option ↔
      ∃ c, f.channel? teamId (Text.dropLeading '~' token) = some c ∧
        option = ⟨c.shownName, c.id, none⟩ := by
  rw [answer_of_channel htype, found_eq_ok_iff]
  constructor
  · rintro ⟨c, hc, rfl⟩
    exact ⟨c, Except.ok.inj hc, rfl⟩
  · rintro ⟨c, hc, rfl⟩
    exact ⟨c, congrArg Except.ok hc, rfl⟩

/-- The mention of a user leads to the first user of this name. -/
theorem answer_user (teamId : Option String) (htype : field.type = .user)
    (h : f.user? name = some u) :
    Expansion.answer f.backend teamId field ("@" ++ name) = .ok ⟨u.username, u.id, none⟩ := by
  have hdrop : Text.dropLeading '@' ("@" ++ name) = name := Text.dropLeading_append '@' name
  exact (answer_user_iff htype).mpr ⟨u, by rw [hdrop, h], rfl⟩

/-- The mention of a channel leads to the first channel of this name that is seen from the team. -/
theorem answer_channel (htype : field.type = .channel) (h : f.channel? teamId name = some c) :
    Expansion.answer f.backend teamId field ("~" ++ name) = .ok ⟨c.shownName, c.id, none⟩ := by
  have hdrop : Text.dropLeading '~' ("~" ++ name) = name := Text.dropLeading_append '~' name
  exact (answer_channel_iff htype).mpr ⟨c, by rw [hdrop, h], rfl⟩

/-- The mention of a user leads to a user of this name. -/
theorem exists_answer_user (teamId : Option String) (htype : field.type = .user)
    (h : u ∈ f.users) :
    ∃ v ∈ f.users, Text.eqIgnoreAsciiCase v.username u.username = true ∧
      Expansion.answer f.backend teamId field ("@" ++ u.username) =
        .ok ⟨v.username, v.id, none⟩ := by
  obtain ⟨v, hv⟩ := exists_user? h
  obtain ⟨hmem, hname⟩ := mem_of_user? hv
  exact ⟨v, hmem, hname, answer_user teamId htype hv⟩

/-- The mention of a channel that is seen from the team leads to one of this name. -/
theorem exists_answer_channel (htype : field.type = .channel)
    (h : c ∈ f.channels.filter (·.isIn teamId)) :
    ∃ d ∈ f.channels.filter (·.isIn teamId), Text.eqIgnoreAsciiCase d.name c.name = true ∧
      Expansion.answer f.backend teamId field ("~" ++ c.name) = .ok ⟨d.shownName, d.id, none⟩ := by
  obtain ⟨d, hd⟩ := exists_channel? h
  obtain ⟨hmem, hname⟩ := mem_of_channel? hd
  exact ⟨d, hmem, hname, answer_channel htype hd⟩

theorem answer_staticSelect_iff (htype : field.type = .staticSelect) :
    Expansion.answer f.backend teamId field token = .ok option ↔
      field.options.find? (·.value == token) = some option := by
  rw [answer_of_staticSelect htype, found_eq_ok_iff]
  constructor
  · rintro ⟨o, ho, rfl⟩
    exact Except.ok.inj ho
  · intro h
    exact ⟨option, congrArg Except.ok h, rfl⟩

end Fixtures

end SlashCommand

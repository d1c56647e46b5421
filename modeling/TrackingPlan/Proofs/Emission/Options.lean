import TrackingPlan.Emission.Options
/-!
# Options — the keys that name no setting

A key that names no setting is passed over when the options value knows nothing by that name.  Three names it does know
(`ownKeys`): its export is lost to an entry under the one, and the other two refuse every entry.  So the export of an
object with entries for settings and unknown keys is that of its settings alone, and one entry under an own key leaves
no export at all (`exported_of_entries`).  The key that stands for all settings at once is a case of its own.
-/
namespace TrackingPlan

theorem Language.ofJson_text (l : Language) : Language.ofJson (.str l.text) = .ok l := by
  cases l <;> rfl

namespace Options

variable {o o' : Options} {k : String} {v : Json} {ms : List (String × Json)}

/-- The keys that name a setting. -/
def settingKeys : List String := ["language", "def_support", "unique_enums", "custom_type_description"]

/-- The key of all settings at once. -/
def settingsKey : String := "__dict__"

/-- The keys of what else an options value has that an entry can spoil: its export, its sort and its identity. -/
def ownKeys : List String := ["to_dict", "__class__", "__weakref__"]

/-- The entries of an object that name a setting. -/
def settingsIn (ms : List (String × Json)) : List (String × Json) := ms.filter (fun e => settingKeys.contains e.1)

/-- **Options made from an object and exported again.** -/
def exported (v : Json) : Except Fault Json := (ofJson v).bind toJson

/-- Options that have an export: the language is known, and the export is not replaced. -/
structure Exportable (o : Options) : Prop where
  language : ∃ l, o.language = .known l
  kept : o.exportReplaced = false

theorem exportable_usual : Exportable {} := ⟨⟨.typescript, rfl⟩, rfl⟩

/-! ## One entry -/

theorem set_unknown (hs : k ∉ settingKeys) (hall : k ≠ settingsKey) (hown : k ∉ ownKeys) (o : Options) (v : Json) :
    o.set k v = .ok o := by
  unfold set
  split <;> simp_all [settingKeys, settingsKey, ownKeys]

theorem Exportable.set (ho : o.Exportable) (hs : k ∈ settingKeys)
    (hv : k = "language" → ∃ l : Language, v = .str l.text) : ∃ o', o.set k v = .ok o' ∧ o'.Exportable := by
  simp only [settingKeys, List.mem_cons, List.not_mem_nil, or_false] at hs
  rcases hs with rfl | rfl | rfl | rfl
  · obtain ⟨l, rfl⟩ := hv rfl
    refine ⟨{ o with language := .known l }, ?_, ⟨l, rfl⟩, ho.kept⟩
    simp only [Options.set, Language.ofJson_text]
    rfl
  · exact ⟨{ o with defSupport := v }, rfl, ho.language, ho.kept⟩
  · exact ⟨{ o with uniqueEnums := v }, rfl, ho.language, ho.kept⟩
  · exact ⟨{ o with description := v }, rfl, ho.language, ho.kept⟩

/-- A lost export comes back with all settings at once only, and an entry under an own key loses it. -/
theorem exportReplaced_of_set (h : o.set k v = .ok o') (hall : k ≠ settingsKey)
    (hlost : o.exportReplaced = true ∨ k ∈ ownKeys) : o'.exportReplaced = true := by
  unfold set at h
  split at h
  · cases hl : Language.ofJson v with
    | ok l => rw [hl] at h; cases h; simpa [ownKeys] using hlost
    | error f => rw [hl] at h; cases h
  · cases h; simpa [ownKeys] using hlost
  · cases h; simpa [ownKeys] using hlost
  · cases h; simpa [ownKeys] using hlost
  · cases h; rfl
  · cases h
  · cases h
  · exact absurd rfl hall
  · cases h; simp_all [ownKeys]

/-! ## All entries -/

theorem setAll_settingsIn (h : ∀ e ∈ ms, e.1 ≠ settingsKey ∧ e.1 ∉ ownKeys) :
    o.setAll (settingsIn ms) = o.setAll ms := by
  induction ms generalizing o with
  | nil => rfl
  | cons e ms ih =>
    obtain ⟨k, v⟩ := e
    obtain ⟨⟨hall, hown⟩, hms⟩ := List.forall_mem_cons.1 h
    by_cases hk : k ∈ settingKeys
    · have hcons : settingsIn ((k, v) :: ms) = (k, v) :: settingsIn ms :=
        List.filter_cons_of_pos (List.contains_iff_mem.2 hk)
      rw [hcons, setAll, setAll]
      cases o.set k v with
      | ok o' => exact ih hms
      | error f => rfl
    · have hcons : settingsIn ((k, v) :: ms) = settingsIn ms :=
        List.filter_cons_of_neg fun h => hk (List.contains_iff_mem.1 h)
      rw [hcons, setAll, set_unknown hk hall hown]
      exact ih hms

/-- **Entries for settings can all be set**, when the language is one. -/
theorem Exportable.setAll (ho : o.Exportable) (hs : ∀ e ∈ ms, e.1 ∈ settingKeys)
    (hv : ∀ v, ("language", v) ∈ ms → ∃ l : Language, v = .str l.text) :
    ∃ o', o.setAll ms = .ok o' ∧ o'.Exportable := by
  induction ms generalizing o with
  | nil => exact ⟨o, rfl, ho⟩
  | cons e ms ih =>
    obtain ⟨k, v⟩ := e
    obtain ⟨hk, hms⟩ := List.forall_mem_cons.1 hs
    obtain ⟨o', hset, ho'⟩ := ho.set hk fun he => hv v (he ▸ List.mem_cons_self)
    obtain ⟨o'', hall, ho''⟩ := ih ho' hms fun v hmem => hv v (List.mem_cons_of_mem _ hmem)
    refine ⟨o'', ?_, ho''⟩
    rw [Options.setAll, hset]
    exact hall

theorem exportReplaced_of_setAll (hall : ∀ e ∈ ms, e.1 ≠ settingsKey) (h : o.setAll ms = .ok o')
    (hlost : o.exportReplaced = true ∨ ∃ e ∈ ms, e.1 ∈ ownKeys) : o'.exportReplaced = true := by
  induction ms generalizing o with
  | nil =>
    cases h
    exact hlost.resolve_right fun ⟨_, hmem, _⟩ => by cases hmem
  | cons e ms ih =>
    obtain ⟨k, v⟩ := e
    obtain ⟨hk, hms⟩ := List.forall_mem_cons.1 hall
    rw [setAll] at h
    cases hset : o.set k v with
    | error f => rw [hset] at h; cases h
    | ok p =>
      rw [hset] at h
      refine ih hms h ?_
      rcases hlost with hlost | ⟨e, hmem, hown⟩
      · exact .inl (exportReplaced_of_set hset hk (.inl hlost))
      · rcases List.mem_cons.1 hmem with rfl | hmem
        · exact .inl (exportReplaced_of_set hset hk (.inr hown))
        · exact .inr ⟨e, hmem, hown⟩

/-! ## The export -/

theorem Exportable.toJson (ho : o.Exportable) : ∃ j, o.toJson = .ok j := by
  obtain ⟨⟨l, hl⟩, hkept⟩ := ho
  rw [Options.toJson, hkept, hl]
  exact ⟨_, rfl⟩

/-- **An export gives itself back**, whatever the options were made from. -/
theorem exported_toJson {j : Json} (h : o.toJson = .ok j) : exported j = .ok j := by
  unfold toJson at h
  split at h
  · cases h
  · split at h
    · cases h
    · next l _ =>
      cases h
      simp only [exported, ofJson, setAll, set, Language.ofJson_text]
      rfl

theorem exported_error (hall : ∀ e ∈ ms, e.1 ≠ settingsKey) (hown : ∃ e ∈ ms, e.1 ∈ ownKeys) :
    ∃ f, exported (.obj ms) = .error f := by
  cases h : setAll {} ms with
  | error f => exact ⟨f, by rw [exported, ofJson, h]; rfl⟩
  | ok o =>
    refine ⟨.exportReplaced, ?_⟩
    rw [exported, ofJson, h]
    show o.toJson = _
    rw [toJson, if_pos (exportReplaced_of_setAll hall h (.inr hown))]

/-- **Which keys are ignored.**  Take entries of which those under the language name one, and none stands for all
settings at once.  The entries for settings alone have an export, which gives itself back.  All entries together have
the same one when no key among them is an own key of options, whatever other keys there are; else they have none. -/
theorem exported_of_entries (hlang : ∀ v, ("language", v) ∈ ms → ∃ l : Language, v = .str l.text)
    (hall : ∀ e ∈ ms, e.1 ≠ settingsKey) :
    ∃ j, exported (.obj (settingsIn ms)) = .ok j ∧ exported j = .ok j ∧
      ((∀ e ∈ ms, e.1 ∉ ownKeys) → exported (.obj ms) = .ok j) ∧
      ((∃ e ∈ ms, e.1 ∈ ownKeys) → ∃ f, exported (.obj ms) = .error f) := by
  have hsettings : ∀ e ∈ settingsIn ms, e.1 ∈ settingKeys := fun e he =>
    List.contains_iff_mem.1 (List.mem_filter.1 he).2
  obtain ⟨o, ho, hexp⟩ := exportable_usual.setAll hsettings fun v hmem => hlang v (List.mem_filter.1 hmem).1
  obtain ⟨j, hj⟩ := hexp.toJson
  have hkept : exported (.obj (settingsIn ms)) = .ok j := by
    rw [exported, ofJson, ho]
    exact hj
  refine ⟨j, hkept, exported_toJson hj, fun hown => ?_, exported_error hall⟩
  rw [exported, ofJson, ← setAll_settingsIn fun e he => ⟨hall e he, hown e he⟩]
  exact hkept

/-- Entries for two settings, among keys that name none. -/
def laden : List (String × Json) :=
  [("sdk", .str "web"), ("language", .str "kotlin"), ("from_dict", .int 3), ("unique_enums", .bool true)]

theorem exported_of_laden :
    (∀ v, ("language", v) ∈ laden → ∃ l : Language, v = .str l.text) ∧ (∀ e ∈ laden, e.1 ≠ settingsKey) ∧
      (∀ e ∈ laden, e.1 ∉ ownKeys) ∧
      ∃ j, exported (.obj (settingsIn laden)) = .ok j ∧ exported j = .ok j ∧ exported (.obj laden) = .ok j := by
  have hlang : ∀ v, ("language", v) ∈ laden → ∃ l : Language, v = .str l.text := fun v hv => by
    obtain rfl : v = .str "kotlin" := by simpa [laden] using hv
    exact ⟨.kotlin, rfl⟩
  have hall : ∀ e ∈ laden, e.1 ≠ settingsKey := by simp [laden, settingsKey]
  have hown : ∀ e ∈ laden, e.1 ∉ ownKeys := by simp [laden, ownKeys]
  obtain ⟨j, hsettings, hback, hladen, -⟩ := exported_of_entries hlang hall
  exact ⟨hlang, hall, hown, j, hsettings, hback, hladen hown⟩

/-- An object in place of all settings. -/
def replaced : List (String × Json) := [("__dict__", .obj [("def_support", .int 5)])]

/-- The export of options that are the usual ones but for this setting. -/
def usualBut (defSupport : Json) : Json :=
  .obj [("language", .str "typescript"), ("def_support", defSupport), ("unique_enums", .bool false),
    ("custom_type_description", .str "Custom type for \x7bsource\x7d")]

/-- **Keys that name no setting and are not ignored**: without them there is an export, and with them there is none, or
a different one. -/
theorem export_lost : exported (.obj []) = .ok (usualBut (.bool true)) ∧
    exported (.obj [("to_dict", .null)]) = .error .exportReplaced ∧
    exported (.obj [("__class__", .null)]) = .error .optionRefused ∧
    exported (.obj [("__weakref__", .null)]) = .error .optionFixed ∧
    settingsIn replaced = [] ∧ exported (.obj replaced) = .ok (usualBut (.int 5)) :=
  ⟨rfl, rfl, rfl, rfl, rfl, rfl⟩

end Options
end TrackingPlan

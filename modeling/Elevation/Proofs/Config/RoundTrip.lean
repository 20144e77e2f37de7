import Elevation.Proofs.Config.Conformance

/-! Settings that are written to a file as the documentation says are the ones that loading finds
there. A text that is empty cannot be used, and spoils the whole file. -/

namespace Elevation.Config

open Yaml (Value)

namespace Setting

def Filled : Setting → Prop
  | helper text => text ≠ ""
  | preserveEnvFlag text => text ≠ ""
  | degradeWithoutHelper _ => True

instance : DecidablePred Filled
  | helper text => inferInstanceAs (Decidable (text ≠ ""))
  | preserveEnvFlag text => inferInstanceAs (Decidable (text ≠ ""))
  | degradeWithoutHelper _ => inferInstanceAs (Decidable True)

def Holds (p : Privilege) : Setting → Prop
  | helper text => p.helper = text
  | preserveEnvFlag text => p.preserveEnvFlag = text
  | degradeWithoutHelper flag => p.degradeWithoutHelper = flag

end Setting

variable {settings : List Setting}

theorem lookup_fields (settings : List Setting) (key : Key) :
    (settings.map fun s => (s.key.text, s.value)).lookup key.text =
      (settings.find? fun s => s.key = key).map Setting.value := by
  induction settings with
  | nil => rfl
  | cons s settings ih =>
    by_cases h : s.key = key
    · simp [h]
    · have htext : (key.text == s.key.text) = false := by
        simpa using fun heq => h (Key.text_injective heq).symm
      simp [List.lookup_cons, htext, h, ih]

theorem given_valueOf (settings : List Setting) (key : Key) :
    given (valueOf settings) key.text =
      (settings.find? fun s => s.key = key).map Setting.value := by
  rw [← lookup_fields]
  simp [given, valueOf, Value.fields?]

theorem find?_key (hkeys : (settings.map Setting.key).Nodup) {s : Setting} (hs : s ∈ settings) :
    settings.find? (fun t => t.key = s.key) = some s := by
  induction settings with
  | nil => cases hs
  | cons t settings ih =>
    obtain ⟨ht, hrest⟩ := List.nodup_cons.1 hkeys
    rcases List.mem_cons.1 hs with rfl | hs
    · simp
    · have hne : t.key ≠ s.key := fun heq => ht (heq ▸ List.mem_map_of_mem hs)
      simp [hne, ih hrest hs]

theorem given_of_mem (hkeys : (settings.map Setting.key).Nodup) {s : Setting}
    (hs : s ∈ settings) : given (valueOf settings) s.key.text = some s.value := by
  rw [given_valueOf, find?_key hkeys hs]
  rfl

theorem given_of_not_mem {key : Key} (h : key ∉ settings.map Setting.key) :
    given (valueOf settings) key.text = none := by
  rw [given_valueOf, List.find?_eq_none.2, Option.map_none]
  intro s hs heq
  exact h (of_decide_eq_true heq ▸ List.mem_map_of_mem hs)

theorem exists_of_lookup {key : Key} {value : Value}
    (h : (settings.map fun s => (s.key.text, s.value)).lookup key.text = some value) :
    ∃ s ∈ settings, s.key = key ∧ s.value = value := by
  rw [lookup_fields] at h
  obtain ⟨s, hfind, hvalue⟩ := Option.map_eq_some_iff.1 h
  exact ⟨s, List.mem_of_find?_eq_some hfind, by simpa using List.find?_some hfind, hvalue⟩

theorem textFits_lookup (hfilled : ∀ s ∈ settings, s.Filled) (key : Key)
    (hkey : key ≠ .degradeWithoutHelper) :
    TextFits ((settings.map fun s => (s.key.text, s.value)).lookup key.text) := by
  intro value h
  obtain ⟨s, hs, rfl, rfl⟩ := exists_of_lookup h
  cases s with
  | helper text => exact ⟨text, rfl, hfilled _ hs⟩
  | preserveEnvFlag text => exact ⟨text, rfl, hfilled _ hs⟩
  | degradeWithoutHelper flag => exact absurd rfl hkey

theorem flagFits_lookup (settings : List Setting) :
    FlagFits ((settings.map fun s => (s.key.text, s.value)).lookup
      Key.degradeWithoutHelper.text) := by
  intro value h
  obtain ⟨s, -, hkey, rfl⟩ := exists_of_lookup h
  cases s with
  | degradeWithoutHelper flag => exact ⟨flag, rfl⟩
  | _ => cases hkey

/-- The value of a file conforms if and only if no text in it is empty. -/
theorem conforms_valueOf (hkeys : (settings.map Setting.key).Nodup) :
    Conforms (valueOf settings) ↔ ∀ s ∈ settings, s.Filled := by
  constructor
  · intro h s hs
    obtain ⟨hhelper, hflag, -⟩ := h.given_fit
    have hgiven := given_of_mem hkeys hs
    cases s with
    | helper text =>
      obtain ⟨_, heq, hne⟩ := hhelper _ hgiven
      cases heq
      exact hne
    | preserveEnvFlag text =>
      obtain ⟨_, heq, hne⟩ := hflag _ hgiven
      cases heq
      exact hne
    | degradeWithoutHelper flag => trivial
  · intro hfilled
    have hknown : ∀ field ∈ settings.map fun s => (s.key.text, s.value),
        field.1 ∈ Privilege.keys := by
      intro field hfield
      obtain ⟨s, -, rfl⟩ := List.mem_map.1 hfield
      exact s.key.text_mem_keys
    have hsettings : SettingsFit (settings.map fun s => (s.key.text, s.value)) :=
      ⟨hknown, textFits_lookup hfilled .helper (by decide),
        textFits_lookup hfilled .preserveEnvFlag (by decide), flagFits_lookup settings⟩
    refine .inr ⟨_, rfl, by simp [keys], fun value hvalue => ?_⟩
    rw [List.lookup_cons_self] at hvalue
    exact ⟨_, (Option.some.inj hvalue).symm, hsettings⟩

theorem Overlays.holds {p : Privilege} (hkeys : (settings.map Setting.key).Nodup)
    (h : Overlays (valueOf settings) p) {s : Setting} (hs : s ∈ settings) : s.Holds p := by
  have hgiven := given_of_mem hkeys hs
  cases s with
  | helper text => exact h.helper.eq_of_given hgiven fun _ _ => Value.string.inj
  | preserveEnvFlag text => exact h.preserveEnvFlag.eq_of_given hgiven fun _ _ => Value.string.inj
  | degradeWithoutHelper flag =>
    exact h.degradeWithoutHelper.eq_of_given hgiven fun _ _ => Value.boolean.inj

theorem Overlays.default {p : Privilege} (h : Overlays (valueOf settings) p) {s : Setting}
    (hs : s.key ∉ settings.map Setting.key) : s.Holds p ↔ s.Holds Privilege.standard := by
  have hgiven := given_of_not_mem hs
  cases s with
  | helper text => rw [Setting.Holds, h.helper.eq_default hgiven, Setting.Holds]
  | preserveEnvFlag text =>
    rw [Setting.Holds, h.preserveEnvFlag.eq_default hgiven, Setting.Holds]
  | degradeWithoutHelper flag =>
    rw [Setting.Holds, h.degradeWithoutHelper.eq_default hgiven, Setting.Holds]

/-- Settings with distinct keys are written to a file in any order, and the digits of escapes in
either case. If no text is empty, they are in force after loading, and every other setting is the
default. Otherwise all settings are the defaults. -/
theorem load_written {fs : FileSystem} {path : String} (capital : Bool) (hsome : settings ≠ [])
    (hkeys : (settings.map Setting.key).Nodup)
    (hread : fs.read path = .ok (Text.Utf8.encode (written capital settings))) :
    ((∀ s ∈ settings, s.Filled) → (load fs path).fromFile = true ∧
      (∀ s ∈ settings, s.Holds (load fs path).config.privilege) ∧
      ∀ s : Setting, s.key ∉ settings.map Setting.key →
        (s.Holds (load fs path).config.privilege ↔ s.Holds standard.privilege)) ∧
    ((∃ s ∈ settings, ¬ s.Filled) → (load fs path).fromFile = false ∧
      (load fs path).config = standard) := by
  have hparse := parse_written capital hsome hkeys
  rw [← Text.Utf8.decode_encode (written capital settings)] at hparse
  rw [load_of_parse hread hparse]
  constructor
  · intro hfilled
    obtain ⟨config, hloaded, hoverlays⟩ :=
      loaded_of_conforms ((conforms_valueOf hkeys).2 hfilled) path
    rw [hloaded]
    exact ⟨rfl, fun s hs => hoverlays.holds hkeys hs, fun s hs => hoverlays.default hs⟩
  · rintro ⟨s, hs, hempty⟩
    have hfaulty : ¬ Conforms (valueOf settings) :=
      fun h => hempty ((conforms_valueOf hkeys).1 h s hs)
    obtain ⟨issues, -, hloaded⟩ := loaded_of_not_conforms hfaulty path
    rw [hloaded]
    exact ⟨rfl, rfl⟩

theorem load_written_escaped_and_empty :
    let filled : List Setting := [.degradeWithoutHelper false, .helper "do \"as\" # \\ :\n--- \x07"]
    let empty : List Setting := [.preserveEnvFlag "", .helper "doas"]
    let fs : FileSystem :=
      ⟨[(["filled.yaml"], .file (Text.Utf8.encode (written true filled)) 0o644),
        (["empty.yaml"], .file (Text.Utf8.encode (written true empty)) 0o644)], []⟩
    filled ≠ [] ∧ (filled.map Setting.key).Nodup ∧
      fs.read "/filled.yaml" = .ok (Text.Utf8.encode (written true filled)) ∧
      (load fs "/filled.yaml").fromFile = true ∧
      (load fs "/filled.yaml").config.privilege.helper = "do \"as\" # \\ :\n--- \x07" ∧
      (load fs "/filled.yaml").config.privilege.preserveEnvFlag = "-E" ∧
      (load fs "/filled.yaml").config.privilege.degradeWithoutHelper = false ∧
      empty ≠ [] ∧ (empty.map Setting.key).Nodup ∧
      fs.read "/empty.yaml" = .ok (Text.Utf8.encode (written true empty)) ∧
      (load fs "/empty.yaml").fromFile = false ∧ (load fs "/empty.yaml").config = standard := by
  intro filled empty fs
  have hread : fs.read "/filled.yaml" = .ok (Text.Utf8.encode (written true filled)) := rfl
  have hread' : fs.read "/empty.yaml" = .ok (Text.Utf8.encode (written true empty)) := rfl
  have hkeys : (filled.map Setting.key).Nodup := by decide
  have hkeys' : (empty.map Setting.key).Nodup := by decide
  have hfilled : ∀ s ∈ filled, s.Filled := by decide +kernel
  have hempty : ∃ s ∈ empty, ¬ s.Filled := by decide +kernel
  obtain ⟨hfrom, hholds, hothers⟩ :=
    (load_written true (List.cons_ne_nil _ _) hkeys hread).1 hfilled
  obtain ⟨hfrom', hconfig⟩ := (load_written true (List.cons_ne_nil _ _) hkeys' hread').2 hempty
  have hflag : (Setting.preserveEnvFlag "-E").Holds (load fs "/filled.yaml").config.privilege :=
    (hothers _ (by decide)).2 rfl
  exact ⟨List.cons_ne_nil _ _, hkeys, hread, hfrom, hholds (.helper _) (by simp), hflag,
    hholds (.degradeWithoutHelper _) (by simp), List.cons_ne_nil _ _, hkeys', hread',
    hfrom', hconfig⟩

end Elevation.Config

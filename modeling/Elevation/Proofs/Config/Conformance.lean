import Elevation.Config.Load
import Elevation.Proofs.Config.Written

/-! Which values of a config file are accepted, and what becomes of the settings. A value is
accepted exactly if it conforms; then each setting is the one that is given, or else the default. A
value that does not conform changes nothing, even where parts of it would. -/

namespace Elevation.Config

open Yaml (Value)

def TextFits (given : Option Value) : Prop :=
  ∀ value, given = some value → ∃ text, value = .string text ∧ text ≠ ""

def FlagFits (given : Option Value) : Prop :=
  ∀ value, given = some value → ∃ flag, value = .boolean flag

structure SettingsFit (fields : List (String × Value)) : Prop where
  known : ∀ field ∈ fields, field.1 ∈ Privilege.keys
  helper : TextFits (fields.lookup Privilege.helperKey)
  preserveEnvFlag : TextFits (fields.lookup Privilege.preserveEnvFlagKey)
  degradeWithoutHelper : FlagFits (fields.lookup Privilege.degradeWithoutHelperKey)

structure FieldsFit (fields : List (String × Value)) : Prop where
  known : ∀ field ∈ fields, field.1 ∈ keys
  settings : ∀ value, fields.lookup privilegeKey = some value →
    ∃ settings, value = .object settings ∧ SettingsFit settings

/-- A config file may be empty, or hold an object with fields that fit. -/
def Conforms (value : Value) : Prop :=
  value = .null ∨ ∃ fields, value = .object fields ∧ FieldsFit fields

def given (value : Value) (key : String) : Option Value := do
  let fields ← value.fields?
  let settings ← (← fields.lookup privilegeKey).fields?
  settings.lookup key

/-- A setting is the value that is given, and the default if none is. -/
def Takes {α : Type} (given : Option Value) (wrap : α → Value) (default setting : α) : Prop :=
  given = some (wrap setting) ∨ given = none ∧ setting = default

/-- The settings of a file laid over the defaults, one by one. -/
structure Overlays (value : Value) (p : Privilege) : Prop where
  helper : Takes (given value Privilege.helperKey) .string Privilege.standard.helper p.helper
  preserveEnvFlag : Takes (given value Privilege.preserveEnvFlagKey) .string
    Privilege.standard.preserveEnvFlag p.preserveEnvFlag
  degradeWithoutHelper : Takes (given value Privilege.degradeWithoutHelperKey) .boolean
    Privilege.standard.degradeWithoutHelper p.degradeWithoutHelper

/-! A part of a value has no faults if and only if it fits. -/

theorem ofText_eq_nil_iff (path : List String) (given : Option Value) :
    Issue.ofText path given = [] ↔ TextFits given := by
  cases given with
  | none => simp [Issue.ofText, TextFits]
  | some value => cases value <;> simp [Issue.ofText, TextFits]

theorem ofFlag_eq_nil_iff (path : List String) (given : Option Value) :
    Issue.ofFlag path given = [] ↔ FlagFits given := by
  cases given with
  | none => simp [Issue.ofFlag, FlagFits]
  | some value => cases value <;> simp [Issue.ofFlag, FlagFits]

theorem ofKeys_eq_nil_iff (known path names : List String) :
    Issue.ofKeys known path names = [] ↔ ∀ name ∈ names, name ∈ known := by
  unfold Issue.ofKeys
  split
  next hnone => simpa [List.filter_eq_nil_iff] using hnone
  next hsome => simpa [List.filter_eq_nil_iff] using hsome

/-- Bytes always have a name that no setting has. -/
theorem ofKeys_bytes {known : List String} (h : known = keys ∨ known = Privilege.keys)
    (path : List String) (content : List UInt8) :
    Issue.ofKeys known path (Value.bytes content).names ≠ [] := by
  rw [ne_eq, ofKeys_eq_nil_iff]
  intro hall
  have hcopy : "copy" ∈ Value.bytesNames := by decide
  have hknown := hall "copy" (List.mem_append_right _ hcopy)
  rcases h with rfl | rfl <;> exact absurd hknown (by decide)

theorem mem_names_object {fields : List (String × Value)} {known : List String} :
    (∀ name ∈ (Value.object fields).names, name ∈ known) ↔ ∀ field ∈ fields, field.1 ∈ known := by
  simp [Value.names, Value.fields?]

theorem ofPrivilege_eq_nil_iff (path : List String) (given : Option Value) :
    Issue.ofPrivilege path given = [] ↔
      ∀ value, given = some value → ∃ fields, value = .object fields ∧ SettingsFit fields := by
  cases given with
  | none => simp [Issue.ofPrivilege]
  | some value =>
    cases value with
    | object fields =>
      simp only [Issue.ofPrivilege, Value.fields?, List.append_eq_nil_iff, ofText_eq_nil_iff,
        ofFlag_eq_nil_iff, ofKeys_eq_nil_iff, mem_names_object]
      constructor
      · rintro ⟨⟨⟨hhelper, hflag⟩, hdegrade⟩, hknown⟩ value hvalue
        exact ⟨fields, (Option.some.inj hvalue).symm, hknown, hhelper, hflag, hdegrade⟩
      · intro hfit
        obtain ⟨_, hfields, hsettings⟩ := hfit _ rfl
        obtain rfl := Value.object.inj hfields
        exact ⟨⟨⟨hsettings.helper, hsettings.preserveEnvFlag⟩, hsettings.degradeWithoutHelper⟩,
          hsettings.known⟩
    | bytes content =>
      simp [Issue.ofPrivilege, Value.fields?, ofKeys_bytes (.inr rfl)]
    | _ => simp [Issue.ofPrivilege, Value.fields?]

theorem ofValue_eq_nil_iff (value : Value) :
    Issue.ofValue value = [] ↔ ∃ fields, value = .object fields ∧ FieldsFit fields := by
  cases value with
  | object fields =>
    simp only [Issue.ofValue, Value.fields?, List.append_eq_nil_iff, ofPrivilege_eq_nil_iff,
      ofKeys_eq_nil_iff, mem_names_object]
    constructor
    · rintro ⟨hsettings, hknown⟩
      exact ⟨fields, rfl, hknown, hsettings⟩
    · rintro ⟨_, hfields, hfit⟩
      obtain rfl := Value.object.inj hfields
      exact ⟨hfit.settings, hfit.known⟩
  | bytes content => simp [Issue.ofValue, Value.fields?, ofKeys_bytes (.inl rfl)]
  | _ => simp [Issue.ofValue, Value.fields?]

theorem ofDocument_eq_nil_iff (value : Value) :
    Issue.ofValue (ofDocument value) = [] ↔ Conforms value := by
  rw [ofValue_eq_nil_iff, Conforms]
  cases value with
  | null =>
    have hempty : FieldsFit [] := ⟨by simp, by simp⟩
    simp [ofDocument, hempty]
  | _ => simp [ofDocument]

/-! What the settings of a value are. -/

theorem given_ofDocument (value : Value) (key : String) :
    given (ofDocument value) key = given value key := by
  cases value <;> rfl

theorem overrides_eq (value : Value) : Overrides.ofValue value =
    ⟨Overrides.textOf (given value Privilege.helperKey),
      Overrides.textOf (given value Privilege.preserveEnvFlagKey),
      Overrides.flagOf (given value Privilege.degradeWithoutHelperKey)⟩ := by
  unfold Overrides.ofValue given
  cases value.fields? with
  | none => rfl
  | some fields =>
    cases hsettings : fields.lookup privilegeKey with
    | none => simp [hsettings, Overrides.none, Overrides.textOf, Overrides.flagOf]
    | some settings =>
      cases hfields : settings.fields? <;>
        simp [hsettings, hfields, Overrides.none, Overrides.textOf, Overrides.flagOf]

theorem Conforms.given_fit {value : Value} (h : Conforms value) :
    TextFits (given value Privilege.helperKey) ∧
      TextFits (given value Privilege.preserveEnvFlagKey) ∧
      FlagFits (given value Privilege.degradeWithoutHelperKey) := by
  rcases h with rfl | ⟨fields, rfl, hfit⟩
  · simp [given, Value.fields?, TextFits, FlagFits]
  · cases hsettings : fields.lookup privilegeKey with
    | none => simp [given, Value.fields?, hsettings, TextFits, FlagFits]
    | some settings =>
      obtain ⟨settings, rfl, hfits⟩ := hfit.settings _ hsettings
      have hgiven (key : String) : given (.object fields) key = settings.lookup key := by
        simp [given, Value.fields?, hsettings]
      simp only [hgiven]
      exact ⟨hfits.helper, hfits.preserveEnvFlag, hfits.degradeWithoutHelper⟩

theorem Takes.eq_of_given {α : Type} {given : Option Value} {wrap : α → Value}
    {default setting value : α} (h : Takes given wrap default setting)
    (hgiven : given = some (wrap value)) (hwrap : ∀ a b, wrap a = wrap b → a = b) :
    setting = value := by
  rcases h with h | ⟨h, -⟩
  · exact hwrap _ _ (Option.some.inj (h.symm.trans hgiven))
  · cases h.symm.trans hgiven

theorem Takes.eq_default {α : Type} {given : Option Value} {wrap : α → Value}
    {default setting : α} (h : Takes given wrap default setting) (hgiven : given = none) :
    setting = default := by
  rcases h with h | ⟨-, h⟩
  · cases h.symm.trans hgiven
  · exact h

theorem TextFits.takes {given : Option Value} (h : TextFits given) (default : String) :
    Takes given .string default ((Overrides.textOf given).getD default) := by
  cases given with
  | none => exact .inr ⟨rfl, rfl⟩
  | some value =>
    obtain ⟨text, rfl, -⟩ := h value rfl
    exact .inl rfl

theorem FlagFits.takes {given : Option Value} (h : FlagFits given) (default : Bool) :
    Takes given .boolean default ((Overrides.flagOf given).getD default) := by
  cases given with
  | none => exact .inr ⟨rfl, rfl⟩
  | some value =>
    obtain ⟨flag, rfl⟩ := h value rfl
    exact .inl rfl

/-! Loading a value. -/

theorem loaded_of_conforms {value : Value} (h : Conforms value) (path : String) :
    ∃ config, Loaded.ofValue path value = ⟨config, path, true, .configLoaded path config⟩ ∧
      Overlays value config.privilege := by
  obtain ⟨hhelper, hflag, hdegrade⟩ := h.given_fit
  refine ⟨standard.overlay (Overrides.ofValue (ofDocument value)), ?_, ?_⟩
  · rw [Loaded.ofValue, (ofDocument_eq_nil_iff value).2 h]
  · simp only [overrides_eq, given_ofDocument]
    exact ⟨hhelper.takes _, hflag.takes _, hdegrade.takes _⟩

theorem loaded_of_not_conforms {value : Value} (h : ¬ Conforms value) (path : String) :
    ∃ issues, issues ≠ [] ∧
      Loaded.ofValue path value = Loaded.defaults path (.configInvalid path issues) := by
  refine ⟨Issue.ofValue (ofDocument value), mt (ofDocument_eq_nil_iff value).1 h, ?_⟩
  unfold Loaded.ofValue
  split
  next hnone => exact absurd ((ofDocument_eq_nil_iff value).1 hnone) h
  · rfl

theorem pathExists_of_read {fs : FileSystem} {path : String} {content : List UInt8}
    (h : fs.read path = .ok content) : fs.pathExists path = true := by
  cases hstatus : fs.status path with
  | ok object => simp [FileSystem.pathExists, hstatus]
  | error errno => simp [FileSystem.read, hstatus, bind, Except.bind] at h

theorem load_of_parse {fs : FileSystem} {path : String} {content : List UInt8} {value : Value}
    (hread : fs.read path = .ok content)
    (hparse : Yaml.parse (Text.Utf8.decode content) = some value) :
    load fs path = Loaded.ofValue path value := by
  simp [load, pathExists_of_read hread, hread, ofContent, hparse]

/-- For every file that can be read and holds a document. It is applied if and only if its value
conforms. Then each setting is the one that it gives, or the default; otherwise all three are the
defaults. -/
theorem applied_iff_conforms {fs : FileSystem} {path : String} {content : List UInt8}
    {value : Value} (hread : fs.read path = .ok content)
    (hparse : Yaml.parse (Text.Utf8.decode content) = some value) :
    ((load fs path).fromFile = true ↔ Conforms value) ∧
      (Conforms value → Overlays value (load fs path).config.privilege) ∧
      (¬ Conforms value → (load fs path).config = standard) := by
  rw [load_of_parse hread hparse]
  by_cases h : Conforms value
  · obtain ⟨config, hloaded, hoverlays⟩ := loaded_of_conforms h path
    simp [hloaded, h, hoverlays]
  · obtain ⟨issues, -, hloaded⟩ := loaded_of_not_conforms h path
    simp [hloaded, h, Loaded.defaults]

theorem applied_iff_conforms_given_false :
    let content := Text.Utf8.encode "privilege:\n  degrade_without_helper: false\n".toList
    let fs : FileSystem := ⟨[(["c.yaml"], .file content 0o644)], []⟩
    let value : Value :=
      .object [("privilege", .object [("degrade_without_helper", .boolean false)])]
    fs.read "/c.yaml" = .ok content ∧
      Yaml.parse (Text.Utf8.decode content) = some value ∧
      Conforms value ∧
      (load fs "/c.yaml").fromFile = true ∧
      (load fs "/c.yaml").config.privilege.helper = "sudo" ∧
      (load fs "/c.yaml").config.privilege.preserveEnvFlag = "-E" ∧
      (load fs "/c.yaml").config.privilege.degradeWithoutHelper = false := by
  intro content fs value
  have hread : fs.read "/c.yaml" = .ok content := rfl
  have hparse : Yaml.parse (Text.Utf8.decode content) = some value := by
    have htext : "privilege:\n  degrade_without_helper: false\n".toList =
        written false [.degradeWithoutHelper false] := by decide +kernel
    rw [Text.Utf8.decode_encode, htext]
    exact parse_written false (by simp) (by simp)
  have hconforms : Conforms value := by
    have hsettings : SettingsFit [("degrade_without_helper", .boolean false)] :=
      { known := by simp [Privilege.keys, Privilege.degradeWithoutHelperKey]
        helper := fun value h => by cases h
        preserveEnvFlag := fun value h => by cases h
        degradeWithoutHelper := fun value h => ⟨false, (Option.some.inj h).symm⟩ }
    exact .inr ⟨_, rfl, by simp [keys, privilegeKey],
      fun value h => ⟨_, (Option.some.inj h).symm, hsettings⟩⟩
  obtain ⟨happlied, hoverlays, -⟩ := applied_iff_conforms hread hparse
  obtain ⟨hhelper, hflag, hdegrade⟩ := hoverlays hconforms
  exact ⟨hread, hparse, hconforms, happlied.2 hconforms, hhelper.eq_default rfl,
    hflag.eq_default rfl, hdegrade.eq_of_given rfl fun _ _ => Value.boolean.inj⟩

end Elevation.Config

import Elevation.Config.Load
import Elevation.Proofs.Config.Conformance

/-! Loading never fails. Whatever stands at a path, a configuration results whose settings can be
used: the helper and its flag have a name. One record tells what happened: an error if something
stands there that is no configuration. -/

namespace Elevation

structure Privilege.Usable (p : Privilege) : Prop where
  helper_ne_empty : p.helper ≠ ""
  preserveEnvFlag_ne_empty : p.preserveEnvFlag ≠ ""

namespace Config

theorem standard_usable : standard.privilege.Usable := by
  constructor <;> decide

theorem textOf_ne_empty {path : List String} {value : Option Yaml.Value}
    (h : Issue.ofText path value = []) : Overrides.textOf value ≠ some "" := by
  intro he
  match value with
  | some (.string text) =>
    obtain rfl := Option.some.inj he
    simp [Issue.ofText] at h

theorem overrides_ne_empty {value : Yaml.Value} (h : Issue.ofValue value = []) :
    (Overrides.ofValue value).helper ≠ some "" ∧
      (Overrides.ofValue value).preserveEnvFlag ≠ some "" := by
  unfold Issue.ofValue at h
  unfold Overrides.ofValue
  cases hroot : value.fields? with
  | none => simp [hroot] at h
  | some root =>
    simp only [hroot, List.append_eq_nil_iff] at h
    simp only [Option.getD_some]
    cases hgiven : root.lookup privilegeKey with
    | none => simp [Overrides.none]
    | some given =>
      simp only [hgiven, Issue.ofPrivilege] at h
      cases hfields : given.fields? with
      | none => simp [hfields] at h
      | some fields =>
        simp only [hfields, List.append_eq_nil_iff] at h
        simp only [Option.bind_some, hfields]
        exact ⟨textOf_ne_empty h.1.1.1.1, textOf_ne_empty h.1.1.1.2⟩

theorem overlay_usable {config : Config} {overrides : Overrides}
    (hconfig : config.privilege.Usable) (hhelper : overrides.helper ≠ some "")
    (hflag : overrides.preserveEnvFlag ≠ some "") :
    (config.overlay overrides).privilege.Usable := by
  constructor
  · cases hg : overrides.helper with
    | none => simpa [overlay, hg] using hconfig.helper_ne_empty
    | some text => simpa [overlay, hg] using fun he => hhelper (hg.trans (congrArg some he))
  · cases hg : overrides.preserveEnvFlag with
    | none => simpa [overlay, hg] using hconfig.preserveEnvFlag_ne_empty
    | some text => simpa [overlay, hg] using fun he => hflag (hg.trans (congrArg some he))

theorem loaded_usable (path : String) (value : Yaml.Value) :
    (Loaded.ofValue path value).config.privilege.Usable := by
  unfold Loaded.ofValue
  cases hissues : Issue.ofValue (ofDocument value) with
  | nil =>
    obtain ⟨hhelper, hflag⟩ := overrides_ne_empty hissues
    exact overlay_usable standard_usable hhelper hflag
  | cons issue issues => exact standard_usable

theorem load_usable (fs : FileSystem) (path : String) :
    (load fs path).config.privilege.Usable := by
  unfold load
  split
  · split
    · exact standard_usable
    · unfold ofContent
      split
      · exact standard_usable
      · exact loaded_usable _ _
  · exact standard_usable

def Holds (fs : FileSystem) (path : String) (value : Yaml.Value) : Prop :=
  ∃ content, fs.read path = .ok content ∧ Yaml.parse (Text.Utf8.decode content) = some value

def Loadable (fs : FileSystem) (path : String) : Prop :=
  ∃ value, Holds fs path value ∧ Conforms value

theorem Holds.unique {fs : FileSystem} {path : String} {a b : Yaml.Value} (ha : Holds fs path a)
    (hb : Holds fs path b) : a = b := by
  obtain ⟨content, hread, hparse⟩ := ha
  obtain ⟨content', hread', hparse'⟩ := hb
  obtain rfl := Except.ok.inj (hread.symm.trans hread')
  exact Option.some.inj (hparse.symm.trans hparse')

variable (fs : FileSystem) (path : String)

/-- What loading comes to: the file is missing, it holds no value, its value is faulty, or its value
is laid over the defaults. -/
theorem load_cases :
    (fs.pathExists path = false ∧ load fs path = Loaded.defaults path (.configMissing path)) ∨
    (fs.pathExists path = true ∧ (∀ value, ¬ Holds fs path value) ∧
      ∃ cause, load fs path = Loaded.defaults path (.configUnreadable path cause)) ∨
    (fs.pathExists path = true ∧ (∃ value, Holds fs path value ∧ ¬ Conforms value) ∧
      ∃ issues, load fs path = Loaded.defaults path (.configInvalid path issues)) ∨
    (fs.pathExists path = true ∧ Loadable fs path ∧
      ∃ config, load fs path = ⟨config, path, true, .configLoaded path config⟩) := by
  cases hexists : fs.pathExists path with
  | false => exact .inl ⟨rfl, by simp [load, hexists]⟩
  | true =>
    refine .inr ?_
    cases hread : fs.read path with
    | error errno =>
      refine .inl ⟨rfl, ?_, .system errno, ?_⟩
      · rintro value ⟨content, hcontent, -⟩
        rw [hread] at hcontent
        cases hcontent
      · simp [load, hexists, hread]
    | ok content =>
      cases hparse : Yaml.parse (Text.Utf8.decode content) with
      | none =>
        refine .inl ⟨rfl, ?_, .malformed, ?_⟩
        · rintro value ⟨other, hother, hvalue⟩
          obtain rfl := Except.ok.inj (hread.symm.trans hother)
          rw [hparse] at hvalue
          cases hvalue
        · simp [load, hexists, hread, ofContent, hparse]
      | some value =>
        have hholds : Holds fs path value := ⟨content, hread, hparse⟩
        rw [load_of_parse hread hparse]
        by_cases h : Conforms value
        · obtain ⟨config, hloaded, -⟩ := loaded_of_conforms h path
          exact .inr (.inr ⟨rfl, ⟨value, hholds, h⟩, config, hloaded⟩)
        · obtain ⟨issues, -, hloaded⟩ := loaded_of_not_conforms h path
          exact .inr (.inl ⟨rfl, ⟨value, hholds, h⟩, issues, hloaded⟩)

theorem not_loadable_of_faulty {value : Yaml.Value} (hholds : Holds fs path value)
    (h : ¬ Conforms value) : ¬ Loadable fs path := by
  rintro ⟨other, hother, hconforms⟩
  exact h (hholds.unique hother ▸ hconforms)

/-- For every file system and every path. Loading answers, for the path that was asked for, settings
that can be used, which are the defaults unless they come from the file. It leaves one record: an
error exactly if the path exists and there is no configuration to be had from it, and otherwise a
debug record, which tells the configuration that is answered exactly if it comes from the file. -/
theorem load_fail_safe :
    ∃ config fromFile record, load fs path = ⟨config, path, fromFile, record⟩ ∧
      config.privilege.Usable ∧
      (fromFile = false → config = standard) ∧
      (record.level = .error ↔ fs.pathExists path = true ∧ ¬ Loadable fs path) ∧
      (record.level ≠ .error → record.level = .debug) ∧
      (record.message = "Config loaded" ↔ fromFile = true) ∧
      (fromFile = true → record = .configLoaded path config) := by
  have husable := load_usable fs path
  rcases load_cases fs path with ⟨hmissing, h⟩ | ⟨hexists, hnone, cause, h⟩ |
    ⟨hexists, ⟨value, hholds, hfaulty⟩, issues, h⟩ | ⟨hexists, hloadable, config, h⟩
  · rw [h] at husable
    refine ⟨standard, false, .configMissing path, h, husable, ?_⟩
    simp [Record.level, Record.message, hmissing]
  · rw [h] at husable
    refine ⟨standard, false, .configUnreadable path cause, h, husable, ?_⟩
    have hunloadable : ¬ Loadable fs path := fun ⟨value, hholds, _⟩ => hnone value hholds
    simp [Record.level, Record.message, hexists, hunloadable]
  · rw [h] at husable
    refine ⟨standard, false, .configInvalid path issues, h, husable, ?_⟩
    simp [Record.level, Record.message, hexists, not_loadable_of_faulty fs path hholds hfaulty]
  · rw [h] at husable
    refine ⟨config, true, .configLoaded path config, h, husable, ?_⟩
    simp [Record.level, Record.message, hloadable]

end Config

end Elevation

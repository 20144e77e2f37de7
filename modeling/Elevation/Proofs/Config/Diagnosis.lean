import Elevation.Proofs.Config.Conformance
import Elevation.Proofs.Yaml.DocumentOrder

/-! The diagnosis of a config file. Every fault of its value is told once, in a fixed order of the
places where there may be one, and nothing else is told. Unknown keys are told in the order of the
object that has them, which is that of the document unless a key is written like an index. -/

namespace Elevation.Config

open Yaml (Value)

namespace Issue

def path : Issue → List String
  | invalidType _ _ path => path
  | tooSmall path => path
  | unrecognizedKeys _ path => path

def settingPlaces (path : List String) : List (List String) :=
  [path ++ [Privilege.helperKey], path ++ [Privilege.preserveEnvFlagKey],
    path ++ [Privilege.degradeWithoutHelperKey], path]

def places : List (List String) := settingPlaces [privilegeKey] ++ [[]]

end Issue

def settings? (value : Value) : Option Value := value.fields?.bind (·.lookup privilegeKey)

/-- The order in which the names of a value are told. The names of an object are those that a map of
the document gives; the names of bytes are their positions and then those of their operations. -/
inductive Order (text : List Char) : Value → (String → String → Prop) → Prop where
  | object {version : Yaml.Version} {document : Yaml.Node} {fields : List (String × Value)}
      {given : List String} (hdocument : Yaml.documentOf text = some (version, document))
      (hobject : document.ObjectOf version fields given) :
      Order text (.object fields) (Value.Precedes given)
  | bytes {content : List UInt8} : Order text (.bytes content) fun a b =>
      (Value.bytes content).names.idxOf a < (Value.bytes content).names.idxOf b

/-- These are the names that are not known: one at least, each of them once, and in an order. -/
structure Unknown (known names : List String) (before : String → String → Prop)
    (keys : List String) : Prop where
  ne_nil : keys ≠ []
  mem_iff : ∀ key, key ∈ keys ↔ key ∈ names ∧ key ∉ known
  nodup : keys.Nodup
  ordered : keys.Pairwise before

/-- What is wrong with the value of a config file. An empty file is no fault. -/
inductive Fault (text : List Char) (value : Value) : Issue → Prop where
  | noObject (hfile : value ≠ .null) (h : value.fields? = none) :
      Fault text value (.invalidType .object value.kind [])
  | noSettings {settings : Value} (hsettings : settings? value = some settings)
      (h : settings.fields? = none) :
      Fault text value (.invalidType .object settings.kind [privilegeKey])
  | noText {key : String} {setting : Value}
      (hkey : key = Privilege.helperKey ∨ key = Privilege.preserveEnvFlagKey)
      (hgiven : given value key = some setting) (h : ∀ text, setting ≠ .string text) :
      Fault text value (.invalidType .string setting.kind [privilegeKey, key])
  | emptyText {key : String}
      (hkey : key = Privilege.helperKey ∨ key = Privilege.preserveEnvFlagKey)
      (hgiven : given value key = some (.string "")) :
      Fault text value (.tooSmall [privilegeKey, key])
  | noFlag {setting : Value} (hgiven : given value Privilege.degradeWithoutHelperKey = some setting)
      (h : ∀ flag, setting ≠ .boolean flag) :
      Fault text value
        (.invalidType .boolean setting.kind [privilegeKey, Privilege.degradeWithoutHelperKey])
  | unknownSettings {settings : Value} {before : String → String → Prop} {keys : List String}
      (hsettings : settings? value = some settings) (horder : Order text settings before)
      (hkeys : Unknown Privilege.keys settings.names before keys) :
      Fault text value (.unrecognizedKeys keys [privilegeKey])
  | unknownKeys {before : String → String → Prop} {keys : List String}
      (horder : Order text value before) (hkeys : Unknown Config.keys value.names before keys) :
      Fault text value (.unrecognizedKeys keys [])

/-! The issues of one part of a value. -/

variable {issue : Issue} {path : List String}

theorem mem_ofText_iff {given : Option Value} : issue ∈ Issue.ofText path given ↔
    (∃ setting, given = some setting ∧ (∀ text, setting ≠ .string text) ∧
      issue = .invalidType .string setting.kind path) ∨
    given = some (.string "") ∧ issue = .tooSmall path := by
  cases given with
  | none => simp [Issue.ofText]
  | some setting => cases setting <;> simp [Issue.ofText]

theorem mem_ofFlag_iff {given : Option Value} : issue ∈ Issue.ofFlag path given ↔
    ∃ setting, given = some setting ∧ (∀ flag, setting ≠ .boolean flag) ∧
      issue = .invalidType .boolean setting.kind path := by
  cases given with
  | none => simp [Issue.ofFlag]
  | some setting => cases setting <;> simp [Issue.ofFlag]

/-! The order of the names of a value. -/

theorem bytesNames_nodup : Value.bytesNames.Nodup := by decide +kernel

theorem not_digits_of_mem_bytesNames :
    ∀ name ∈ Value.bytesNames, name.toList.all Char.isDigit = false := by
  decide +kernel

theorem names_bytes (content : List UInt8) : (Value.bytes content).names =
    (List.range' 0 content.length).map toString ++ Value.bytesNames := by
  have hpositions : content.zipIdx.map (·.2) = List.range' 0 content.length :=
    List.zipIdx_map_snd 0 content
  rw [← hpositions, List.map_map]
  simp only [Value.names, Value.fields?, Option.getD_some, List.map_map]
  rfl

theorem names_bytes_nodup (content : List UInt8) : (Value.bytes content).names.Nodup := by
  rw [names_bytes]
  refine List.nodup_append.2 ⟨?_, bytesNames_nodup, ?_⟩
  · apply List.Nodup.map
    · exact fun m n h => Value.toString_injective h
    · exact List.nodup_range' 1
  -- A position is all digits, and the name of an operation is not.
  · rintro position hposition name hname rfl
    obtain ⟨n, -, rfl⟩ := List.mem_map.1 hposition
    have hdigits : (toString n).toList.all Char.isDigit = true := by
      simpa using fun c => Nat.isDigit_of_mem_toDigits (c := c) (by decide) (by decide)
    rw [not_digits_of_mem_bytesNames _ hname] at hdigits
    cases hdigits

variable {text : List Char} {value : Value} {before : String → String → Prop}

theorem Order.asymm (h : Order text value before) {a b : String} (hab : before a b) :
    ¬ before b a := by
  cases h with
  | object => exact hab.asymm
  | bytes => exact Nat.lt_asymm hab

theorem Order.ordered (h : Order text value before) : value.names.Pairwise before := by
  cases h with
  | object _ hobject =>
    have hordered := hobject.follows.ordered
    simpa [Value.names, Value.fields?] using hordered
  | @bytes content =>
    rw [List.pairwise_iff_getElem]
    intro i j hi hj hlt
    have hnodup := names_bytes_nodup content
    rw [hnodup.idxOf_getElem i hi, hnodup.idxOf_getElem j hj]
    exact hlt

theorem Order.exists_fields (h : Order text value before) :
    ∃ fields, value.fields? = some fields := by
  cases h with
  | object => exact ⟨_, rfl⟩
  | bytes => exact ⟨_, rfl⟩

/-- The names of a value are told in some order, if there are any. -/
def Ordered (text : List Char) (value : Value) : Prop :=
  value.names = [] ∨ ∃ before, Order text value before

theorem ordered_of_everywhere {version : Yaml.Version} {document : Yaml.Node}
    (hdocument : Yaml.documentOf text = some (version, document))
    (h : value.Everywhere (document.FieldsOf version)) : Ordered text value := by
  cases h with
  | @object fields hfields _ =>
    rcases hfields with rfl | ⟨given, hobject⟩
    · exact .inl rfl
    · exact .inr ⟨_, .object hdocument hobject⟩
  | bytes => exact .inr ⟨_, .bytes⟩
  | _ => exact .inl rfl

theorem exists_of_settings {settings : Value} (h : settings? value = some settings) :
    ∃ fields, value.fields? = some fields ∧ (privilegeKey, settings) ∈ fields := by
  obtain ⟨fields, hfields, hlookup⟩ := Option.bind_eq_some_iff.1 h
  obtain ⟨front, back, rfl, -⟩ := List.lookup_eq_some_iff.1 hlookup
  exact ⟨_, hfields, List.mem_append_right _ List.mem_cons_self⟩

theorem ordered_of_parse (h : Yaml.parse text = some value) :
    Ordered text value ∧ ∀ settings, settings? value = some settings → Ordered text settings := by
  rcases Yaml.parse_cases h with rfl | ⟨version, document, hdocument, hvalue⟩
  · exact ⟨.inl rfl, fun settings hsettings => (nomatch hsettings)⟩
  · have heverywhere := Yaml.Node.toValue?_everywhere hvalue
    refine ⟨ordered_of_everywhere hdocument heverywhere, fun settings hsettings => ?_⟩
    obtain ⟨fields, hfields, hmem⟩ := exists_of_settings hsettings
    cases heverywhere with
    | object _ hvalues =>
      obtain rfl := Option.some.inj hfields
      exact ordered_of_everywhere hdocument (hvalues _ hmem)
    | bytes =>
      obtain rfl := Option.some.inj hfields
      obtain ⟨entry, -, hfield⟩ := List.mem_map.1 hmem
      obtain ⟨-, rfl⟩ := Prod.mk.inj hfield
      exact .inl rfl
    | _ => cases hfields

theorem unknown_iff {known names keys : List String}
    (hasymm : ∀ {a b}, before a b → ¬ before b a) (h : names.Pairwise before) :
    Unknown known names before keys ↔ keys ≠ [] ∧ keys = names.filter (!known.contains ·) := by
  have hmem (key : String) :
      key ∈ names.filter (!known.contains ·) ↔ key ∈ names ∧ key ∉ known := by
    simp
  have hordered : (names.filter (!known.contains ·)).Pairwise before := h.filter _
  constructor
  · intro hkeys
    refine ⟨hkeys.ne_nil, Value.eq_of_ordered hasymm hkeys.ordered hordered fun key => ?_⟩
    rw [hkeys.mem_iff, hmem]
  · rintro ⟨hne, rfl⟩
    exact ⟨hne, hmem, Value.nodup_of_ordered hasymm hordered, hordered⟩

theorem mem_ofKeys_iff {known names : List String} : issue ∈ Issue.ofKeys known path names ↔
    ∃ keys, keys ≠ [] ∧ keys = names.filter (!known.contains ·) ∧
      issue = .unrecognizedKeys keys path := by
  rw [Issue.ofKeys]
  split
  next hnone =>
    constructor
    · intro h
      exact absurd h List.not_mem_nil
    · rintro ⟨keys, hne, hkeys, -⟩
      exact absurd (hkeys.trans hnone) hne
  next hsome =>
    constructor
    · intro h
      exact ⟨_, hsome, rfl, List.mem_singleton.1 h⟩
    · rintro ⟨keys, -, rfl, rfl⟩
      exact List.mem_singleton_self _

theorem mem_ofKeys_of_ordered (h : Ordered text value) {known : List String} :
    issue ∈ Issue.ofKeys known path value.names ↔
      ∃ before keys, Order text value before ∧ Unknown known value.names before keys ∧
        issue = .unrecognizedKeys keys path := by
  rw [mem_ofKeys_iff]
  constructor
  · rintro ⟨keys, hne, hkeys, rfl⟩
    rcases h with hnone | ⟨before, horder⟩
    · rw [hnone] at hkeys
      exact absurd hkeys hne
    · exact ⟨before, keys, horder, (unknown_iff horder.asymm horder.ordered).2 ⟨hne, hkeys⟩, rfl⟩
  · rintro ⟨before, keys, horder, hkeys, rfl⟩
    obtain ⟨hne, hfilter⟩ := (unknown_iff horder.asymm horder.ordered).1 hkeys
    exact ⟨keys, hne, hfilter, rfl⟩

/-! The issues of a whole value. -/

theorem given_eq (value : Value) (key : String) : given value key =
    (settings? value).bind fun settings => settings.fields?.bind (·.lookup key) := by
  rw [given, settings?, Option.bind_assoc]
  rfl

theorem ofValue_eq {fields : List (String × Value)} (h : value.fields? = some fields) :
    Issue.ofValue value =
      Issue.ofPrivilege [privilegeKey] (settings? value) ++ Issue.ofKeys keys [] value.names := by
  simp [Issue.ofValue, settings?, h]

def settingIssues (value : Value) : List Issue :=
  Issue.ofText [privilegeKey, Privilege.helperKey] (given value Privilege.helperKey) ++
  Issue.ofText [privilegeKey, Privilege.preserveEnvFlagKey]
    (given value Privilege.preserveEnvFlagKey) ++
  Issue.ofFlag [privilegeKey, Privilege.degradeWithoutHelperKey]
    (given value Privilege.degradeWithoutHelperKey)

theorem ofPrivilege_eq {settings : Value} {fields : List (String × Value)}
    (hsettings : settings? value = some settings) (h : settings.fields? = some fields) :
    Issue.ofPrivilege [privilegeKey] (settings? value) =
      settingIssues value ++ Issue.ofKeys Privilege.keys [privilegeKey] settings.names := by
  simp [Issue.ofPrivilege, settingIssues, given_eq, hsettings, h]

theorem fault_of_mem_ofText {key : String}
    (hkey : key = Privilege.helperKey ∨ key = Privilege.preserveEnvFlagKey)
    (h : issue ∈ Issue.ofText [privilegeKey, key] (given value key)) :
    Fault text value issue := by
  rcases mem_ofText_iff.1 h with ⟨_, hgiven, hne, rfl⟩ | ⟨hgiven, rfl⟩
  · exact .noText hkey hgiven hne
  · exact .emptyText hkey hgiven

theorem fault_of_mem_ofPrivilege
    (hordered : ∀ settings, settings? value = some settings → Ordered text settings)
    (h : issue ∈ Issue.ofPrivilege [privilegeKey] (settings? value)) : Fault text value issue := by
  cases hsettings : settings? value with
  | none =>
    rw [hsettings] at h
    exact absurd h List.not_mem_nil
  | some settings =>
    cases hfields : settings.fields? with
    | none =>
      rw [hsettings, Issue.ofPrivilege, hfields] at h
      obtain rfl := List.mem_singleton.1 h
      exact .noSettings hsettings hfields
    | some fields =>
      rw [ofPrivilege_eq hsettings hfields] at h
      simp only [settingIssues, List.mem_append] at h
      rcases h with ((hhelper | hflag) | hdegrade) | hunknown
      · exact fault_of_mem_ofText (.inl rfl) hhelper
      · exact fault_of_mem_ofText (.inr rfl) hflag
      · obtain ⟨_, hgiven, hne, rfl⟩ := mem_ofFlag_iff.1 hdegrade
        exact .noFlag hgiven hne
      · have hnames := hordered settings hsettings
        obtain ⟨_, _, horder, hkeys, rfl⟩ := (mem_ofKeys_of_ordered hnames).1 hunknown
        exact .unknownSettings hsettings horder hkeys

theorem mem_ofValue_of_settings {settings : Value} (hsettings : settings? value = some settings)
    (h : issue ∈ Issue.ofPrivilege [privilegeKey] (settings? value)) :
    issue ∈ Issue.ofValue value := by
  obtain ⟨fields, hfields, -⟩ := exists_of_settings hsettings
  rw [ofValue_eq hfields]
  exact List.mem_append_left _ h

theorem mem_ofValue_of_given {key : String} {setting : Value}
    (hgiven : given value key = some setting) (h : issue ∈ settingIssues value) :
    issue ∈ Issue.ofValue value := by
  rw [given_eq] at hgiven
  obtain ⟨settings, hsettings, hsetting⟩ := Option.bind_eq_some_iff.1 hgiven
  obtain ⟨fields, hfields, -⟩ := Option.bind_eq_some_iff.1 hsetting
  apply mem_ofValue_of_settings hsettings
  rw [ofPrivilege_eq hsettings hfields]
  exact List.mem_append_left _ h

theorem mem_settingIssues_of_text {key : String}
    (hkey : key = Privilege.helperKey ∨ key = Privilege.preserveEnvFlagKey)
    (h : issue ∈ Issue.ofText [privilegeKey, key] (given value key)) :
    issue ∈ settingIssues value := by
  rcases hkey with rfl | rfl
  · exact List.mem_append_left _ (List.mem_append_left _ h)
  · exact List.mem_append_left _ (List.mem_append_right _ h)

theorem fault_of_mem_ofValue (hfile : value ≠ .null) (hparse : Yaml.parse text = some value)
    (h : issue ∈ Issue.ofValue value) : Fault text value issue := by
  obtain ⟨hroot, hsettings⟩ := ordered_of_parse hparse
  cases hfields : value.fields? with
  | none =>
    rw [Issue.ofValue, hfields] at h
    obtain rfl := List.mem_singleton.1 h
    exact .noObject hfile hfields
  | some fields =>
    rw [ofValue_eq hfields] at h
    rcases List.mem_append.1 h with h | h
    · exact fault_of_mem_ofPrivilege hsettings h
    · obtain ⟨before, keys, horder, hkeys, rfl⟩ := (mem_ofKeys_of_ordered hroot).1 h
      exact .unknownKeys horder hkeys

theorem mem_ofValue_of_fault (h : Fault text value issue) : issue ∈ Issue.ofValue value := by
  cases h with
  | noObject _ h => simp [Issue.ofValue, h]
  | noSettings hsome h =>
    apply mem_ofValue_of_settings hsome
    simp [Issue.ofPrivilege, hsome, h]
  | noText hkey hgiven h =>
    apply mem_ofValue_of_given hgiven
    exact mem_settingIssues_of_text hkey (mem_ofText_iff.2 (.inl ⟨_, hgiven, h, rfl⟩))
  | emptyText hkey hgiven =>
    apply mem_ofValue_of_given hgiven
    exact mem_settingIssues_of_text hkey (mem_ofText_iff.2 (.inr ⟨hgiven, rfl⟩))
  | noFlag hgiven h =>
    apply mem_ofValue_of_given hgiven
    exact List.mem_append_right _ (mem_ofFlag_iff.2 ⟨_, hgiven, h, rfl⟩)
  | unknownSettings hsome horder hkeys =>
    obtain ⟨fields, hfields⟩ := horder.exists_fields
    apply mem_ofValue_of_settings hsome
    rw [ofPrivilege_eq hsome hfields]
    apply List.mem_append_right
    exact (mem_ofKeys_of_ordered (.inr ⟨_, horder⟩)).2 ⟨_, _, horder, hkeys, rfl⟩
  | unknownKeys horder hkeys =>
    obtain ⟨fields, hfields⟩ := horder.exists_fields
    rw [ofValue_eq hfields]
    apply List.mem_append_right
    exact (mem_ofKeys_of_ordered (.inr ⟨_, horder⟩)).2 ⟨_, _, horder, hkeys, rfl⟩

/-! The order of the issues. -/

theorem ofText_places (path : List String) (given : Option Value) :
    ((Issue.ofText path given).map Issue.path).Sublist [path] := by
  cases given with
  | none => exact List.nil_sublist _
  | some setting =>
    rw [Issue.ofText.eq_def]
    cases setting with
    | string text =>
      dsimp only
      split
      · exact List.Sublist.refl _
      · exact List.nil_sublist _
    | _ => exact List.Sublist.refl _

theorem ofFlag_places (path : List String) (given : Option Value) :
    ((Issue.ofFlag path given).map Issue.path).Sublist [path] := by
  cases given with
  | none => exact List.nil_sublist _
  | some setting =>
    cases setting with
    | boolean => exact List.nil_sublist _
    | _ => exact List.Sublist.refl _

theorem ofKeys_places (known path names : List String) :
    ((Issue.ofKeys known path names).map Issue.path).Sublist [path] := by
  rw [Issue.ofKeys]
  split
  · exact List.nil_sublist _
  · exact List.Sublist.refl _

theorem ofPrivilege_places (path : List String) (settings : Option Value) :
    ((Issue.ofPrivilege path settings).map Issue.path).Sublist (Issue.settingPlaces path) := by
  cases settings with
  | none => exact List.nil_sublist _
  | some settings =>
    rw [Issue.ofPrivilege]
    split
    · exact List.singleton_sublist.2 (by simp [Issue.settingPlaces, Issue.path])
    · simp only [List.map_append]
      exact (((ofText_places _ _).append (ofText_places _ _)).append (ofFlag_places _ _)).append
        (ofKeys_places _ _ _)

/-- Each place is told about once at most, and one after the other. -/
theorem ofValue_places (value : Value) :
    ((Issue.ofValue value).map Issue.path).Sublist Issue.places := by
  rw [Issue.ofValue]
  split
  · exact List.singleton_sublist.2 (by simp [Issue.places, Issue.path])
  · rw [List.map_append]
    exact (ofPrivilege_places _ _).append (ofKeys_places _ _ _)

theorem ofValue_nodup (value : Value) : (Issue.ofValue value).Nodup := by
  have hplaces : Issue.places.Nodup := by decide
  exact ((ofValue_places value).nodup hplaces).of_map

/-! Loading a file. -/

theorem record_eq_iff {file : String} {issues : List Issue} :
    (Loaded.ofValue file value).record = .configInvalid file issues ↔
      issues ≠ [] ∧ issues = Issue.ofValue (ofDocument value) := by
  rw [Loaded.ofValue]
  split
  next hnone =>
    constructor
    · intro h
      cases h
    · rintro ⟨hne, hissues⟩
      exact absurd (hissues.trans hnone) hne
  next hsome =>
    constructor
    · intro h
      cases h
      exact ⟨hsome, rfl⟩
    · rintro ⟨-, rfl⟩
      rfl

theorem mem_issues_iff (hparse : Yaml.parse text = some value) {issues : List Issue}
    (h : issues ≠ []) (hissues : issues = Issue.ofValue (ofDocument value)) :
    issue ∈ issues ↔ Fault text value issue := by
  have hfile : value ≠ .null := by
    rintro rfl
    exact h hissues
  have hdocument : ofDocument value = value := by
    cases value with
    | null => exact absurd rfl hfile
    | _ => rfl
  rw [hissues, hdocument]
  constructor
  · exact fault_of_mem_ofValue hfile hparse
  · exact mem_ofValue_of_fault

/-- For every file that can be read and holds a value. The file is rejected exactly if faults are
told about it. Then all its faults are told, each of them once, and nothing else: the settings come
first, one by one, then the keys besides them, and the keys of the whole file come last. -/
theorem rejected_file_is_diagnosed {fs : FileSystem} {file : String} {content : List UInt8}
    (hread : fs.read file = .ok content)
    (hparse : Yaml.parse (Text.Utf8.decode content) = some value) :
    ((load fs file).fromFile = false ↔
      ∃ issues, issues ≠ [] ∧ (load fs file).record = .configInvalid file issues) ∧
    ∀ issues, (load fs file).record = .configInvalid file issues →
      (∀ issue, issue ∈ issues ↔ Fault (Text.Utf8.decode content) value issue) ∧
      issues.Nodup ∧ (issues.map Issue.path).Sublist Issue.places := by
  rw [load_of_parse hread hparse]
  refine ⟨?_, fun issues hrecord => ?_⟩
  · by_cases h : Conforms value
    · obtain ⟨config, hloaded, -⟩ := loaded_of_conforms h file
      simp [hloaded]
    · obtain ⟨issues, hne, hloaded⟩ := loaded_of_not_conforms h file
      simp [hloaded, Loaded.defaults, hne]
  · obtain ⟨hne, hissues⟩ := record_eq_iff.1 hrecord
    refine ⟨fun issue => mem_issues_iff hparse hne hissues, ?_⟩
    rw [hissues]
    exact ⟨ofValue_nodup _, ofValue_places _⟩

theorem rejected_file_is_diagnosed_at_both_levels :
    let content := Text.Utf8.encode ("zebra: 1\nprivilege:\n  helper: ''\n  10: x\n  beta: 1\n" ++
      "  degrade_without_helper: 3\n  2: y\nalpha: a\n").toList
    let fs : FileSystem := ⟨[(["c.yaml"], .file content 0o644)], []⟩
    let issues : List Issue := [.tooSmall ["privilege", "helper"],
      .invalidType .boolean .number ["privilege", "degrade_without_helper"],
      .unrecognizedKeys ["2", "10", "beta"] ["privilege"],
      .unrecognizedKeys ["zebra", "alpha"] []]
    fs.read "/c.yaml" = .ok content ∧
      ∃ value, Yaml.parse (Text.Utf8.decode content) = some value ∧
        value.names = ["zebra", "privilege", "alpha"] ∧
        (load fs "/c.yaml").fromFile = false ∧
        (load fs "/c.yaml").record = .configInvalid "/c.yaml" issues ∧
        ∀ issue, issue ∈ issues ↔ Fault (Text.Utf8.decode content) value issue := by
  intro content fs issues
  have hread : fs.read "/c.yaml" = .ok content := rfl
  have hnames : (Yaml.parse (Text.Utf8.decode content)).map Value.names =
      some ["zebra", "privilege", "alpha"] := by decide +kernel
  have hrecord : (load fs "/c.yaml").record = .configInvalid "/c.yaml" issues := by
    decide +kernel
  obtain ⟨value, hparse, hvalue⟩ := Option.map_eq_some_iff.1 hnames
  obtain ⟨hrejected, hissues⟩ := rejected_file_is_diagnosed hread hparse
  exact ⟨hread, value, hparse, hvalue, hrejected.2 ⟨issues, by decide, hrecord⟩, hrecord,
    (hissues issues hrecord).1⟩

end Elevation.Config

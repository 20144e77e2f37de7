import Elevation.Failure

/-! What is said of something thrown. The text of a value is given here as a relation, one kind of
value at a time, and so are the reason and the exit code that a failure gives: they follow from the
code of an error, or else from what was thrown itself. Only a value without a text explains nothing.
-/

namespace Elevation

theorem bind_eq_ok_iff {ε α β : Type} {x : Except ε α} {f : α → Except ε β} {b : β} :
    (x >>= f) = .ok b ↔ ∃ a, x = .ok a ∧ f a = .ok b := by
  cases x <;> simp [bind, Except.bind]

theorem pure_eq_ok_iff {ε α : Type} {a b : α} : (pure a : Except ε α) = .ok b ↔ a = b := by
  simp [pure, Except.pure]

inductive Primitive.Reads : Primitive → String → Prop where
  | undefined : Reads .undefined "undefined"
  | null : Reads .null "null"
  | true : Reads (.boolean true) "true"
  | false : Reads (.boolean false) "false"
  | number (value : Number) : Reads (.number value) value.text
  | bigInt (value : Int) : Reads (.bigInt value) (toString value)
  | string (value : String) : Reads (.string value) value

theorem Primitive.text_eq_ok_iff {value : Primitive} {text : String} :
    value.text = .ok text ↔ value.Reads text := by
  constructor
  · intro h
    cases value with
    | boolean value => cases value <;> cases h <;> constructor
    | symbol description => cases h
    | _ => cases h; constructor
  · rintro ⟨⟩ <;> rfl

namespace Datum

def Gives (method : Option Datum) (text : String) : Prop :=
  ∃ source value, method = some (.function source (.ok (.primitive value))) ∧ value.Reads text

/-- There is no method, or it answers with an object. One that throws is not mute. -/
def Mute (method : Option Datum) : Prop :=
  ∀ source answer, method = some (.function source answer) →
    ∃ value, answer = .ok value ∧ ∀ p, value ≠ .primitive p

mutual

/-- The value has this text where a text is needed. -/
inductive Reads : Datum → String → Prop where
  | primitive {value : Primitive} {text : String} (h : value.Reads text) :
      Reads (.primitive value) text
  | function (source : String) (answer : Except Thrown Datum) :
      Reads (.function source answer) source
  | array {items : List Datum} {texts : List String} (h : ReadsEach items texts) :
      Reads (.array items) (",".intercalate texts)
  | plain {fields : List (String × Datum)} (h : fields.lookup "toString" = none) :
      Reads (.object fields) "[object Object]"
  | toString {fields : List (String × Datum)} {text : String}
      (h : Gives (fields.lookup "toString") text) : Reads (.object fields) text
  | valueOf {fields : List (String × Datum)} {text : String}
      (hown : fields.lookup "toString" ≠ none) (hmute : Mute (fields.lookup "toString"))
      (h : Gives (fields.lookup "valueOf") text) : Reads (.object fields) text

/-- The elements have these texts in an array, where nothing stands for undefined and null. -/
inductive ReadsEach : List Datum → List String → Prop where
  | nil : ReadsEach [] []
  | blank {item : Datum} {rest : List Datum} {texts : List String}
      (hitem : item = .undefined ∨ item = .null) (h : ReadsEach rest texts) :
      ReadsEach (item :: rest) ("" :: texts)
  | cons {item : Datum} {rest : List Datum} {text : String} {texts : List String}
      (hundefined : item ≠ .undefined) (hnull : item ≠ .null) (hitem : Reads item text)
      (h : ReadsEach rest texts) : ReadsEach (item :: rest) (text :: texts)

end

/-- The value has this text when it is asked for it: a symbol its description, any other value the
text that it has anywhere. -/
inductive Says : Datum → String → Prop where
  | symbol (description : String) :
      Says (.primitive (.symbol description)) ("Symbol(" ++ description ++ ")")
  | reads {value : Datum} {text : String} (h : Reads value text) : Says value text

theorem answered?_eq_ok_iff {method : Option Datum} {text : String} :
    answered? method = some (.ok text) ↔ Gives method text := by
  constructor
  · intro h
    match method, h with
    | some (.function source (.ok (.primitive value))), h =>
      exact ⟨source, value, rfl, Primitive.text_eq_ok_iff.1 (Option.some.inj h)⟩
  · rintro ⟨source, value, rfl, hvalue⟩
    exact congrArg some (Primitive.text_eq_ok_iff.2 hvalue)

theorem answered?_eq_none_iff {method : Option Datum} :
    answered? method = none ↔ Mute method := by
  constructor
  · rintro h source answer rfl
    cases answer with
    | error thrown => cases h
    | ok value =>
      refine ⟨value, rfl, ?_⟩
      rintro p rfl
      cases h
  · intro h
    match method with
    | none => rfl
    | some (.primitive _) => rfl
    | some (.array _) => rfl
    | some (.object _) => rfl
    | some (.function source answer) =>
      obtain ⟨value, rfl, hvalue⟩ := h source answer rfl
      cases value with
      | primitive p => exact absurd rfl (hvalue p)
      | _ => rfl

theorem reads_object_iff {fields : List (String × Datum)} {text : String} :
    Reads (.object fields) text ↔
      fields.lookup "toString" = none ∧ text = "[object Object]" ∨
      Gives (fields.lookup "toString") text ∨
      fields.lookup "toString" ≠ none ∧ Mute (fields.lookup "toString") ∧
        Gives (fields.lookup "valueOf") text := by
  constructor
  · rintro (_ | _ | _ | h | h | ⟨hown, hmute, h⟩)
    · exact .inl ⟨h, rfl⟩
    · exact .inr (.inl h)
    · exact .inr (.inr ⟨hown, hmute, h⟩)
  · rintro (⟨h, rfl⟩ | h | ⟨hown, hmute, h⟩)
    · exact .plain h
    · exact .toString h
    · exact .valueOf hown hmute h

theorem objectText_eq_ok_iff {fields : List (String × Datum)} {text : String} :
    objectText fields = .ok text ↔ Reads (.object fields) text := by
  rw [reads_object_iff, ← answered?_eq_ok_iff, ← answered?_eq_ok_iff, ← answered?_eq_none_iff,
    objectText]
  cases hown : fields.lookup "toString" with
  | none => simp [answered?, eq_comm]
  | some method =>
    cases hanswered : answered? (some method) with
    | some result => simp [hanswered]
    | none => cases hvalue : answered? (fields.lookup "valueOf") <;> simp [hanswered]

theorem isAbsent_iff {value : Datum} : value.isAbsent ↔ value = .undefined ∨ value = .null := by
  constructor
  · intro h
    match value, h with
    | .primitive .undefined, _ => exact .inl rfl
    | .primitive .null, _ => exact .inr rfl
  · rintro (rfl | rfl) <;> rfl

mutual

theorem partText_eq_ok_iff : ∀ (value : Datum) (text : String),
    value.partText = .ok text ↔ value.Reads text
  | .primitive value, text => by
    rw [partText, Primitive.text_eq_ok_iff]
    exact ⟨.primitive, fun h => by cases h; assumption⟩
  | .function source answer, text => by
    rw [partText]
    exact ⟨fun h => by cases h; constructor, fun h => by cases h; rfl⟩
  | .array items, text => by
    simp only [partText, bind_eq_ok_iff, elementTexts_eq_ok_iff items]
    constructor
    · rintro ⟨texts, hitems, h⟩
      cases h
      exact .array hitems
    · intro h
      cases h with
      | array hitems => exact ⟨_, hitems, rfl⟩
  | .object fields, text => by rw [partText, objectText_eq_ok_iff]

theorem elementTexts_eq_ok_iff : ∀ (items : List Datum) (texts : List String),
    elementTexts items = .ok texts ↔ ReadsEach items texts
  | [], texts => by
    rw [elementTexts]
    exact ⟨fun h => by cases h; constructor, fun h => by cases h; rfl⟩
  | item :: rest, texts => by
    rw [elementTexts]
    by_cases habsent : item.isAbsent
    · simp only [habsent, if_true, bind_eq_ok_iff, elementTexts_eq_ok_iff rest, pure_eq_ok_iff]
      constructor
      · rintro ⟨more, hrest, rfl⟩
        exact .blank (isAbsent_iff.1 habsent) hrest
      · rintro (_ | ⟨_, hrest⟩ | ⟨hundefined, hnull, _, _⟩)
        · exact ⟨_, hrest, rfl⟩
        · exact absurd (isAbsent_iff.1 habsent) (not_or.2 ⟨hundefined, hnull⟩)
    · simp only [habsent, Bool.false_eq_true, if_false, bind_eq_ok_iff,
        elementTexts_eq_ok_iff rest, partText_eq_ok_iff item, pure_eq_ok_iff]
      obtain ⟨hundefined, hnull⟩ := not_or.1 (mt isAbsent_iff.2 habsent)
      constructor
      · rintro ⟨text, hitem, more, hrest, rfl⟩
        exact .cons hundefined hnull hitem hrest
      · rintro (_ | ⟨hitem, _⟩ | ⟨_, _, hitem, hrest⟩)
        · exact absurd hitem (not_or.2 ⟨hundefined, hnull⟩)
        · exact ⟨_, hitem, _, hrest, rfl⟩

end

theorem text_eq_ok_iff {value : Datum} {text : String} :
    value.text = .ok text ↔ value.Says text := by
  by_cases hsymbol : ∃ description, value = .primitive (.symbol description)
  · obtain ⟨description, rfl⟩ := hsymbol
    constructor
    · intro h
      cases h
      exact .symbol description
    · rintro (_ | ⟨⟨⟨⟩⟩⟩)
      rfl
  · have hpart : value.text = value.partText := by
      unfold Datum.text
      split
      · exact absurd ⟨_, rfl⟩ hsymbol
      · rfl
    rw [hpart, partText_eq_ok_iff]
    constructor
    · exact .reads
    · rintro (⟨description⟩ | h)
      · exact absurd ⟨_, rfl⟩ hsymbol
      · exact h

end Datum

namespace Thrown

/-- The code that an error carries as a text. The failures of this library are errors too, and the
name of their kind is their code. -/
inductive HasCode : Thrown → String → Prop where
  | error (message code : String) : HasCode (.error message (some code)) code
  | noCommand (message : String) (context : Option (List (String × Datum))) :
      HasCode (.failure ⟨.noCommand, message, context⟩) "NO_COMMAND"
  | commandNotFound (message : String) (context : Option (List (String × Datum))) :
      HasCode (.failure ⟨.commandNotFound, message, context⟩) "COMMAND_NOT_FOUND"
  | commandNotExecutable (message : String) (context : Option (List (String × Datum))) :
      HasCode (.failure ⟨.commandNotExecutable, message, context⟩) "COMMAND_NOT_EXECUTABLE"
  | helperUnavailable (message : String) (context : Option (List (String × Datum))) :
      HasCode (.failure ⟨.helperUnavailable, message, context⟩) "HELPER_UNAVAILABLE"

inductive Says : Thrown → String → Prop where
  | failure (f : Failure) : Says (.failure f) f.message
  | error (message : String) (errno : Option String) : Says (.error message errno) message
  | value {datum : Datum} {text : String} (h : datum.Says text) : Says (.value datum) text

/-- The reason why a command could not be started, and the exit code that goes with it. -/
inductive Explains (t : Thrown) : String → Nat → Prop where
  | missing (h : t.HasCode "ENOENT") : Explains t "command not found" 127
  | denied (h : t.HasCode "EACCES") : Explains t "Permission denied" 126
  | coded {code : String} (h : t.HasCode code) (hmissing : code ≠ "ENOENT")
      (hdenied : code ≠ "EACCES") : Explains t code 126
  | said {message : String} (hcode : ∀ code, ¬ t.HasCode code) (h : t.Says message) :
      Explains t message 126

theorem errno?_eq_some_iff {t : Thrown} {code : String} :
    t.errno? = some code ↔ t.HasCode code := by
  constructor
  · intro h
    match t, h with
    | .error message (some _), rfl => exact .error message _
    | .failure ⟨kind, message, context⟩, rfl => cases kind <;> constructor
  · rintro ⟨⟩ <;> rfl

theorem text_eq_ok_iff {t : Thrown} {message : String} : t.text = .ok message ↔ t.Says message := by
  constructor
  · intro h
    cases t with
    | failure f => cases h; exact .failure f
    | error message errno => cases h; exact .error message errno
    | value datum => exact .value (Datum.text_eq_ok_iff.1 h)
  · rintro (_ | _ | h)
    · rfl
    · rfl
    · exact Datum.text_eq_ok_iff.2 h

theorem toFailure_eq_ok_iff {t : Thrown} {file : String} {f : Failure} :
    t.toFailure file = .ok f ↔ ∃ cause, t.Says cause ∧ t.failureOf file cause = f := by
  simp only [toFailure, bind_eq_ok_iff, text_eq_ok_iff, pure_eq_ok_iff]

theorem toFailure_eq_error_iff {t escaped : Thrown} {file : String} :
    t.toFailure file = .error escaped ↔ t.text = .error escaped := by
  unfold toFailure
  cases t.text <;> simp [bind, Except.bind, pure, Except.pure]

theorem HasCode.says {t : Thrown} {code : String} (h : t.HasCode code) :
    ∃ message, t.Says message := by
  cases t with
  | failure f => exact ⟨_, .failure f⟩
  | error message errno => exact ⟨_, .error message errno⟩
  | value datum => cases h

theorem Explains.told {t : Thrown} {reason : String} {code : Nat} (h : t.Explains reason code) :
    ∃ cause, t.Says cause ∧ (t.told cause).2 = reason ∧ (t.told cause).1.exitCode = code := by
  cases h with
  | missing h =>
    obtain ⟨cause, hsays⟩ := h.says
    exact ⟨cause, hsays, by simp [Thrown.told, errno?_eq_some_iff.2 h, FailureKind.exitCode]⟩
  | denied h =>
    obtain ⟨cause, hsays⟩ := h.says
    exact ⟨cause, hsays, by simp [Thrown.told, errno?_eq_some_iff.2 h, FailureKind.exitCode]⟩
  | coded h hmissing hdenied =>
    obtain ⟨cause, hsays⟩ := h.says
    exact ⟨cause, hsays, by simp [Thrown.told, errno?_eq_some_iff.2 h, FailureKind.exitCode]⟩
  | said hcode h =>
    have hnone : t.errno? = none :=
      Option.eq_none_iff_forall_ne_some.2 fun code he => hcode code (errno?_eq_some_iff.1 he)
    exact ⟨reason, h, by simp [Thrown.told, hnone, FailureKind.exitCode]⟩

theorem Explains.toFailure {t : Thrown} {reason : String} {code : Nat} (h : t.Explains reason code)
    (file : String) : ∃ f, t.toFailure file = .ok f ∧ f.message = file ++ ": " ++ reason ∧
      f.exitCode = code := by
  obtain ⟨cause, hsays, hreason, hcode⟩ := h.told
  refine ⟨_, toFailure_eq_ok_iff.2 ⟨cause, hsays, rfl⟩, ?_, hcode⟩
  rw [failureOf, hreason]

/-- Everything but a value without a text explains why a command could not be started. -/
theorem explains_or_textless (t : Thrown) : (∃ reason code, t.Explains reason code) ∨
    ∃ datum escaped, t = .value datum ∧ datum.text = .error escaped := by
  cases hcode : t.errno? with
  | some code =>
    have h := errno?_eq_some_iff.1 hcode
    by_cases hmissing : code = "ENOENT"
    · exact .inl ⟨_, _, .missing (hmissing ▸ h)⟩
    · by_cases hdenied : code = "EACCES"
      · exact .inl ⟨_, _, .denied (hdenied ▸ h)⟩
      · exact .inl ⟨_, _, .coded h hmissing hdenied⟩
  | none =>
    have hnone (code : String) : ¬ t.HasCode code := by
      rw [← errno?_eq_some_iff, hcode]
      simp
    cases htext : t.text with
    | ok message => exact .inl ⟨_, _, .said hnone (text_eq_ok_iff.1 htext)⟩
    | error escaped =>
      cases t with
      | value datum => exact .inr ⟨datum, escaped, rfl, htext⟩
      | failure f => cases htext
      | error message errno => cases htext

end Thrown

end Elevation

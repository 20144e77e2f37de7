import Mathlib.Logic.Relation
import Elevation.Proofs.Yaml.FieldOrder
import Elevation.Yaml

/-! Where the objects in the value of a document come from. Each of them is the value of a map that
the evaluation of the document comes to, and it has the names that the entries of this map give, in
the order of an object. An object without fields apart, which stands for a value that contains
itself. -/

namespace Elevation.Yaml

/-- The document of a text, and the version of YAML by which it is read. -/
def documentOf (text : List Char) : Option (Version × Node) := do
  let parts ← parts (← tokens text)
  let reading ← parts.foldlM Reading.add Reading.start
  reading.document

theorem parse_cases {text : List Char} {value : Value} (h : parse text = some value) :
    value = .null ∨ ∃ version node, documentOf text = some (version, node) ∧
      node.toValue? version = some value := by
  simp only [parse, Option.bind_eq_bind, Option.bind_eq_some_iff] at h
  obtain ⟨tokens, htokens, parts, hparts, reading, hreading, hvalue⟩ := h
  have hdocument : documentOf text = reading.document := by
    simp [documentOf, htokens, hparts, hreading]
  rw [Reading.value?] at hvalue
  split at hvalue
  · split at hvalue
    · cases hvalue
    · exact .inl (Option.some.inj hvalue).symm
  next version node hsome => exact .inr ⟨version, node, hdocument.trans hsome, hvalue⟩

inductive Value.Everywhere (P : List (String × Value) → Prop) : Value → Prop where
  | null : Everywhere P .null
  | boolean {value : Bool} : Everywhere P (.boolean value)
  | number {value : Number} : Everywhere P (.number value)
  | string {value : String} : Everywhere P (.string value)
  | symbol {description : String} : Everywhere P (.symbol description)
  | date : Everywhere P .date
  | bytes {content : List UInt8} : Everywhere P (.bytes content)
  | array {items : List Value} (h : ∀ item ∈ items, Everywhere P item) : Everywhere P (.array items)
  | object {fields : List (String × Value)} (hfields : P fields)
      (h : ∀ field ∈ fields, Everywhere P field.2) : Everywhere P (.object fields)
  | map {entries : List (Value × Value)} (hkeys : ∀ entry ∈ entries, Everywhere P entry.1)
      (h : ∀ entry ∈ entries, Everywhere P entry.2) : Everywhere P (.map entries)
  | set {items : List Value} (h : ∀ item ∈ items, Everywhere P item) : Everywhere P (.set items)

namespace Node

variable (version : Version) (cycles : List Value)

def inside (a : Anchors) (node : Node) : Anchors :=
  match node.marks.anchor with
  | none => a
  | some name => a.begin name (cycles.getD a.met.length node.shape)

inductive Stage where
  | node (a : Anchors) (node : Node)
  | items (a : Anchors) (items : List Node)
  | entries (a : Anchors) (keysOnly : Bool) (entries : List (Node × Option Node))

/-- The evaluation of one part begins within that of another. The anchors that are known then are
those that the parts before it have left. -/
inductive Begins : Stage → Stage → Prop where
  | map {a : Anchors} {marks : Marks} {kind : MapKind} {entries : List (Node × Option Node)} :
      Begins (.node a (.map marks kind entries))
        (.entries (inside cycles a (.map marks kind entries)) (kind = .set) entries)
  | seq {a : Anchors} {marks : Marks} {items : List Node} :
      Begins (.node a (.seq marks items)) (.items (inside cycles a (.seq marks items)) items)
  | pairs {a : Anchors} {marks : Marks} {entries : List (Node × Option Node)} :
      Begins (.node a (.pairs marks entries))
        (.entries (inside cycles a (.pairs marks entries)) false entries)
  | item {a : Anchors} {item : Node} {rest : List Node} :
      Begins (.items a (item :: rest)) (.node a item)
  | items {a : Anchors} {item : Node} {rest : List Node} {first : Evaluated Value}
      (hfirst : eval version cycles a item = some first) :
      Begins (.items a (item :: rest)) (.items first.anchors rest)
  | key {a : Anchors} {keysOnly : Bool} {key : Node} {value : Option Node}
      {rest : List (Node × Option Node)} :
      Begins (.entries a keysOnly ((key, value) :: rest)) (.node a key)
  | value {a : Anchors} {key value : Node} {rest : List (Node × Option Node)} {k : Evaluated Value}
      (hkey : eval version cycles a key = some k) :
      Begins (.entries a false ((key, some value) :: rest)) (.node k.anchors value)
  | keys {a : Anchors} {key : Node} {value : Option Node} {rest : List (Node × Option Node)}
      {k : Evaluated Value} (hkey : eval version cycles a key = some k) :
      Begins (.entries a true ((key, value) :: rest)) (.entries k.anchors true rest)
  | entries {a : Anchors} {key : Node} {value : Option Node} {rest : List (Node × Option Node)}
      {k v : Evaluated Value} (hkey : eval version cycles a key = some k)
      (hvalue : evalOption version cycles k.anchors value = some v) :
      Begins (.entries a false ((key, value) :: rest)) (.entries v.anchors false rest)

abbrev Reaches := Relation.ReflTransGen (Begins version cycles)

/-- The names that the entries of a map give, in the order of the document. A merge gives the names
of the merged fields at its place. -/
inductive Gives : Anchors → List (Node × Option Node) → List String → Prop where
  | nil {a : Anchors} : Gives a [] []
  | field {a : Anchors} {key : Node} {value : Option Node} {rest : List (Node × Option Node)}
      {k v : Evaluated Value} {names : List String} (hkey : eval version cycles a key = some k)
      (hvalue : evalOption version cycles k.anchors value = some v)
      (hmerge : key.isMergeKey = false) (hrest : Gives v.anchors rest names) :
      Gives a ((key, value) :: rest) (fieldName version key k.value :: names)
  | merge {a : Anchors} {key : Node} {value : Option Node} {rest : List (Node × Option Node)}
      {k v : Evaluated Value} {merged : List (String × Value)} {names : List String}
      (hkey : eval version cycles a key = some k)
      (hvalue : evalOption version cycles k.anchors value = some v)
      (hmerge : key.isMergeKey = true) (hmerged : mergedFields v.value = some merged)
      (hrest : Gives v.anchors rest names) :
      Gives a ((key, value) :: rest) (merged.map (·.1) ++ names)

variable {version cycles}

/-! The names of the fields of a map. -/

theorem lookup_isSome_iff {fields : List (String × Value)} {name : String} :
    (fields.lookup name).isSome ↔ name ∈ fields.map (·.1) := by
  induction fields with
  | nil => simp
  | cons field rest ih =>
    obtain ⟨other, old⟩ := field
    rw [List.lookup_cons]
    by_cases he : name = other
    · simp [he]
    · rw [beq_eq_false_iff_ne.2 he, List.map_cons, List.mem_cons, or_iff_right he]
      exact ih

theorem listed_mergeField {given : List String} {fields : List (String × Value)}
    (h : Value.Listed given (fields.map (·.1))) (field : String × Value) :
    Value.Listed (given ++ [field.1]) ((mergeField fields field).map (·.1)) := by
  have hadd := h.add field.1
  rw [mergeField]
  by_cases hmem : field.1 ∈ fields.map (·.1)
  · rw [if_pos hmem] at hadd
    rwa [if_pos (lookup_isSome_iff.2 hmem)]
  · rw [if_neg hmem] at hadd
    rw [if_neg (mt lookup_isSome_iff.1 hmem), List.map_append]
    exact hadd

theorem listed_foldl_mergeField {given : List String} {fields merged : List (String × Value)}
    (h : Value.Listed given (fields.map (·.1))) :
    Value.Listed (given ++ merged.map (·.1)) ((merged.foldl mergeField fields).map (·.1)) := by
  induction merged generalizing given fields with
  | nil => simpa using h
  | cons field rest ih =>
    have hnext := ih (listed_mergeField h field)
    rwa [List.append_assoc] at hnext

theorem listed_setField {given : List String} {fields : List (String × Value)}
    (h : Value.Listed given (fields.map (·.1))) (name : String) (value : Value) :
    Value.Listed (given ++ [name]) ((Value.setField fields name value).map (·.1)) := by
  rw [Value.names_setField]
  exact h.add name

theorem evalFields_listed {a : Anchors} {before : List String} {fields : List (String × Value)}
    {makeup : Makeup} {entries : List (Node × Option Node)}
    {found : Evaluated (List (String × Value))} (hbefore : Value.Listed before (fields.map (·.1)))
    (h : evalFields version cycles a fields makeup entries = some found) :
    ∃ given, Gives version cycles a entries given ∧
      Value.Listed (before ++ given) (found.value.map (·.1)) := by
  -- On the entries: what is given before grows by the names of the first one.
  induction entries generalizing a before fields makeup with
  | nil =>
    rw [evalFields] at h
    cases h
    refine ⟨[], .nil, ?_⟩
    rwa [List.append_nil]
  | cons entry rest ih =>
    obtain ⟨key, value⟩ := entry
    simp only [evalFields, Option.bind_eq_bind, Option.bind_eq_some_iff] at h
    obtain ⟨k, hkey, v, hvalue, h⟩ := h
    split at h
    next hmerge =>
      obtain ⟨_, hfields, hrest⟩ := Option.bind_eq_some_iff.1 h
      obtain ⟨merged, hmerged, rfl⟩ := Option.map_eq_some_iff.1 hfields
      obtain ⟨given, hgives, hlisted⟩ := ih (listed_foldl_mergeField hbefore) hrest
      refine ⟨_, .merge hkey hvalue hmerge hmerged hgives, ?_⟩
      rwa [← List.append_assoc]
    next hmerge =>
      obtain ⟨given, hgives, hlisted⟩ := ih (listed_setField hbefore _ _) h
      refine ⟨_, .field hkey hvalue (Bool.eq_false_iff.2 hmerge) hgives, ?_⟩
      rwa [List.append_cons]

theorem Gives.unique {a : Anchors} {entries : List (Node × Option Node)}
    {names others : List String} (h : Gives version cycles a entries names)
    (k : Gives version cycles a entries others) : names = others := by
  induction h generalizing others with
  | nil =>
    cases k
    rfl
  | field hkey hvalue hmerge _ ih =>
    cases k with
    | field hkey' hvalue' _ hrest =>
      obtain rfl := Option.some.inj (hkey.symm.trans hkey')
      obtain rfl := Option.some.inj (hvalue.symm.trans hvalue')
      rw [ih hrest]
    | merge _ _ hmerge' _ _ => cases hmerge.symm.trans hmerge'
  | merge hkey hvalue hmerge hmerged _ ih =>
    cases k with
    | field _ _ hmerge' _ => cases hmerge.symm.trans hmerge'
    | merge hkey' hvalue' _ hmerged' hrest =>
      obtain rfl := Option.some.inj (hkey.symm.trans hkey')
      obtain rfl := Option.some.inj (hvalue.symm.trans hvalue')
      obtain rfl := Option.some.inj (hmerged.symm.trans hmerged')
      rw [ih hrest]

/-- What is left behind a collection, when its own anchor is given its value. -/
def settled (a : Anchors) (marks : Marks) (done : Evaluated Value) : Evaluated Value :=
  if marks.anchor.isNone then done
  else { done with anchors := done.anchors.settle a.met.length done.value done.makeup }

@[simp] theorem settled_value (a : Anchors) (marks : Marks) (done : Evaluated Value) :
    (settled a marks done).value = done.value := by
  unfold settled
  split <;> rfl

section

variable (version : Version) (cycles : List Value) (a : Anchors) (marks : Marks)
  (entries : List (Node × Option Node))

theorem eval_plain : eval version cycles a (.map marks .plain entries) =
    (evalFields version cycles (inside cycles a (.map marks .plain entries)) [] .nothing
      entries).map fun found =>
        settled a marks ⟨.object (Value.orderFields found.value), found.makeup, found.anchors⟩ := by
  rw [eval, Option.map_eq_bind]
  rfl

theorem eval_set : eval version cycles a (.map marks .set entries) =
    (evalEntries version cycles (inside cycles a (.map marks .set entries)) true entries).map
      fun found => settled a marks ⟨.set (found.value.map (·.1)), found.makeup, found.anchors⟩ := by
  rw [eval, Option.map_eq_bind]
  rfl

theorem eval_ordered : eval version cycles a (.map marks .ordered entries) =
    (evalEntries version cycles (inside cycles a (.map marks .ordered entries)) false entries).map
      fun found => settled a marks ⟨.map found.value, found.makeup, found.anchors⟩ := by
  rw [eval, Option.map_eq_bind]
  rfl

theorem eval_seq (items : List Node) : eval version cycles a (.seq marks items) =
    (evalItems version cycles (inside cycles a (.seq marks items)) items).map
      fun found => settled a marks ⟨.array found.value, found.makeup, found.anchors⟩ := by
  rw [eval, Option.map_eq_bind]
  cases hanchor : marks.anchor <;> simp only [inside, settled, Node.marks, hanchor] <;> rfl

theorem eval_pairs : eval version cycles a (.pairs marks entries) =
    (evalEntries version cycles (inside cycles a (.pairs marks entries)) false entries).map
      fun found => settled a marks
        ⟨.array (found.value.map fun _ => .object []), found.makeup, found.anchors⟩ := by
  rw [eval, Option.map_eq_bind]
  cases hanchor : marks.anchor <;> simp only [inside, settled, Node.marks, hanchor] <;> rfl

end

theorem follows_of_eval {a : Anchors} {marks : Marks} {entries : List (Node × Option Node)}
    {done : Evaluated Value} (h : eval version cycles a (.map marks .plain entries) = some done) :
    ∃ fields given, done.value = .object fields ∧
      Gives version cycles (inside cycles a (.map marks .plain entries)) entries given ∧
      Value.Follows given (fields.map (·.1)) := by
  rw [eval_plain] at h
  obtain ⟨found, hfound, rfl⟩ := Option.map_eq_some_iff.1 h
  have hnone : Value.Listed [] (([] : List (String × Value)).map (·.1)) := ⟨by simp, by simp⟩
  obtain ⟨given, hgives, hlisted⟩ := evalFields_listed hnone hfound
  exact ⟨_, given, settled_value _ _ _, hgives, Value.follows_orderFields hlisted⟩

/-! Every object of a value is found in its document. -/

end Node

variable {P : List (String × Value) → Prop}

structure Anchored.Everywhere (P : List (String × Value) → Prop) (entry : Anchored) : Prop where
  value : ∀ value, entry.value = some value → value.Everywhere P
  itself : entry.itself.Everywhere P

def Anchors.Everywhere (P : List (String × Value) → Prop) (a : Anchors) : Prop :=
  ∀ entry ∈ a.met, entry.Everywhere P

namespace Anchors

theorem Everywhere.empty : Anchors.empty.Everywhere P :=
  fun _ h => absurd h List.not_mem_nil

theorem Everywhere.begin {a : Anchors} (h : a.Everywhere P) (name : String) {itself : Value}
    (hitself : itself.Everywhere P) : (a.begin name itself).Everywhere P := by
  intro entry hentry
  rcases List.mem_append.1 hentry with hold | hnew
  · exact h entry hold
  · obtain rfl := List.mem_singleton.1 hnew
    exact ⟨fun value hvalue => (nomatch hvalue), hitself⟩

theorem Everywhere.set {a : Anchors} (h : a.Everywhere P) {number : Nat} {entry : Anchored}
    (hentry : entry.Everywhere P) {cyclic : Bool} :
    (Anchors.mk (a.met.set number entry) cyclic).Everywhere P := by
  intro other hother
  rcases List.mem_or_eq_of_mem_set hother with hold | rfl
  · exact h other hold
  · exact hentry

theorem Everywhere.settle {a : Anchors} (h : a.Everywhere P) (number : Nat) {value : Value}
    (hvalue : value.Everywhere P) (makeup : Makeup) :
    (a.settle number value makeup).Everywhere P := by
  rw [Anchors.settle]
  split
  next entry hentry =>
    apply h.set
    constructor
    · intro other hother
      obtain rfl := Option.some.inj hother
      exact hvalue
    · exact (h entry (List.mem_of_getElem? hentry)).itself
  · exact h

theorem Everywhere.use {a b : Anchors} (h : a.Everywhere P) {number : Nat} {value : Value}
    (huse : a.use number = some (value, b)) : value.Everywhere P ∧ b.Everywhere P := by
  simp only [Anchors.use, Option.bind_eq_bind, Option.bind_eq_some_iff,
    Option.ite_none_left_eq_some] at huse
  obtain ⟨entry, hentry, -, huse⟩ := huse
  obtain ⟨hvalue, hitself⟩ := h entry (List.mem_of_getElem? hentry)
  have hused : (Anchors.mk (a.met.set number { entry with uses := entry.uses + 1 })
      a.cyclic).Everywhere P := by
    apply h.set
    exact ⟨hvalue, hitself⟩
  split at huse
  next known hknown =>
    cases huse
    refine ⟨hvalue _ hknown, ?_⟩
    apply hused.set
    exact ⟨hvalue, hitself⟩
  · cases huse
    refine ⟨hitself, ?_⟩
    apply hused.set
    exact ⟨hvalue, hitself⟩

end Anchors

namespace Node

theorem everywhere_ofScalar (value : Scalar) : (ofScalar value).Everywhere P := by
  cases value <;> constructor

theorem everywhere_shape (h : P []) (node : Node) : node.shape.Everywhere P := by
  cases node with
  | map marks kind entries => cases kind <;> constructor <;> simp [h]
  | scalar => exact .null
  | reference => exact .null
  | seq => exact .array (by simp)
  | pairs => exact .array (by simp)

theorem exists_of_mem_mapM {α β : Type} {f : α → Option β} {items : List α} {parts : List β}
    (h : items.mapM f = some parts) {part : β} (hpart : part ∈ parts) :
    ∃ item ∈ items, f item = some part := by
  induction items generalizing parts with
  | nil =>
    obtain rfl : [] = parts := Option.some.inj h
    exact absurd hpart List.not_mem_nil
  | cons item rest ih =>
    rw [List.mapM_cons, Option.bind_eq_bind, Option.bind_eq_some_iff] at h
    obtain ⟨first, hfirst, h⟩ := h
    obtain ⟨more, hmore, hdone⟩ := Option.bind_eq_some_iff.1 h
    obtain rfl := Option.some.inj hdone
    rcases List.mem_cons.1 hpart with rfl | hrest
    · exact ⟨item, List.mem_cons_self, hfirst⟩
    · obtain ⟨other, hother, hsame⟩ := ih hmore hrest
      exact ⟨other, List.mem_cons_of_mem _ hother, hsame⟩

theorem everywhere_mergedFields {value : Value} {merged : List (String × Value)}
    (h : value.Everywhere P) (hmerged : mergedFields value = some merged) :
    ∀ field ∈ merged, field.2.Everywhere P := by
  cases h with
  | object hfields hvalues =>
    cases hmerged
    exact hvalues
  | array hitems =>
    obtain ⟨parts, hparts, rfl⟩ := Option.map_eq_some_iff.1 hmerged
    intro field hfield
    obtain ⟨fields, hfields, hmem⟩ := List.mem_flatten.1 hfield
    obtain ⟨item, hitem, hobject⟩ := exists_of_mem_mapM hparts hfields
    have heverywhere := hitems item hitem
    split at hobject
    · cases hobject
      cases heverywhere with
      | object _ hvalues => exact hvalues field hmem
    · cases hobject
  | _ => cases hmerged

theorem everywhere_foldl_mergeField {fields merged : List (String × Value)}
    (h : ∀ field ∈ fields, field.2.Everywhere P)
    (hmerged : ∀ field ∈ merged, field.2.Everywhere P) :
    ∀ field ∈ merged.foldl mergeField fields, field.2.Everywhere P := by
  induction merged generalizing fields with
  | nil => exact h
  | cons field rest ih =>
    refine ih ?_ fun other hother => hmerged other (List.mem_cons_of_mem _ hother)
    intro other hother
    rw [mergeField] at hother
    split at hother
    · exact h other hother
    · rcases List.mem_append.1 hother with hold | hnew
      · exact h other hold
      · obtain rfl := List.mem_singleton.1 hnew
        exact hmerged _ List.mem_cons_self

theorem everywhere_setField {fields : List (String × Value)}
    (h : ∀ field ∈ fields, field.2.Everywhere P) (name : String) {value : Value}
    (hvalue : value.Everywhere P) :
    ∀ field ∈ Value.setField fields name value, field.2.Everywhere P := by
  induction fields with
  | nil =>
    intro field hfield
    obtain rfl := List.mem_singleton.1 hfield
    exact hvalue
  | cons first rest ih =>
    obtain ⟨other, old⟩ := first
    intro field hfield
    rw [Value.setField] at hfield
    split at hfield
    · rcases List.mem_cons.1 hfield with rfl | hrest
      · exact hvalue
      · exact h field (List.mem_cons_of_mem _ hrest)
    · rcases List.mem_cons.1 hfield with rfl | hrest
      · exact h _ List.mem_cons_self
      · exact ih (fun other hother => h other (List.mem_cons_of_mem _ hother)) field hrest

/-- A kind of objects that has all objects of a document: the empty ones, and the values of the maps
that the evaluation comes to. -/
structure Covers (version : Version) (cycles : List Value) (start : Stage)
    (P : List (String × Value) → Prop) : Prop where
  empty : P []
  unfolded : ∀ value ∈ cycles, value.Everywhere P
  maps : ∀ {a marks entries done fields},
    Reaches version cycles start (.node a (.map marks .plain entries)) →
    eval version cycles a (.map marks .plain entries) = some done →
    done.value = .object fields → P fields

variable {start : Stage}

theorem Covers.everywhere_inside (h : Covers version cycles start P) {a : Anchors}
    (ha : a.Everywhere P) (node : Node) : (inside cycles a node).Everywhere P := by
  rw [Node.inside]
  split
  · exact ha
  · apply ha.begin
    rw [List.getD_eq_getElem?_getD]
    cases hcycle : cycles[a.met.length]? with
    | none => exact everywhere_shape h.empty node
    | some value => exact h.unfolded value (List.mem_of_getElem? hcycle)

theorem everywhere_settled {done : Evaluated Value} (hvalue : done.value.Everywhere P)
    (ha : done.anchors.Everywhere P) (a : Anchors) (marks : Marks) :
    (settled a marks done).value.Everywhere P ∧ (settled a marks done).anchors.Everywhere P := by
  rw [settled]
  split
  · exact ⟨hvalue, ha⟩
  · exact ⟨hvalue, ha.settle _ hvalue _⟩

-- By recursion on the nodes, as they are evaluated. The stages that are reached on the way say that
-- `Covers.maps` holds of each map, and the anchors carry what is known of the values of aliases.
mutual

theorem eval_everywhere (hP : Covers version cycles start P) {a : Anchors} {node : Node}
    {done : Evaluated Value} (hreach : Reaches version cycles start (.node a node))
    (ha : a.Everywhere P) (h : eval version cycles a node = some done) :
    done.value.Everywhere P ∧ done.anchors.Everywhere P := by
  cases node with
  | reference name =>
    simp only [eval, Option.bind_eq_bind, Option.bind_eq_some_iff] at h
    obtain ⟨number, -, ⟨value, b⟩, huse, hdone⟩ := h
    cases hdone
    exact ha.use huse
  | scalar marks style text value =>
    rw [eval] at h
    split at h
    · cases h
      exact ⟨everywhere_ofScalar value, ha⟩
    next name _ =>
      cases h
      have hvalue : (ofScalar value).Everywhere P := everywhere_ofScalar value
      exact ⟨hvalue, (ha.begin name hvalue).settle _ hvalue _⟩
  | map marks kind entries =>
    have hinside := hP.everywhere_inside ha (.map marks kind entries)
    have hentries := hreach.tail .map
    cases kind with
    | plain =>
      obtain ⟨fields, given, hobject, -⟩ := follows_of_eval h
      have hown := hP.maps hreach h hobject
      rw [eval_plain] at h
      obtain ⟨found, hfound, rfl⟩ := Option.map_eq_some_iff.1 h
      obtain ⟨hvalues, hafter⟩ := evalFields_everywhere hP hentries hinside (by simp) hfound
      rw [settled_value] at hobject
      refine everywhere_settled (.object ?_ ?_) hafter a marks
      · rw [Value.object.inj hobject]
        exact hown
      · intro field hfield
        exact hvalues field (Value.mem_orderFields.1 hfield)
    | set =>
      rw [eval_set] at h
      obtain ⟨found, hfound, rfl⟩ := Option.map_eq_some_iff.1 h
      obtain ⟨hkeys, -, hafter⟩ := evalEntries_everywhere hP hentries hinside hfound
      refine everywhere_settled (.set ?_) hafter a marks
      intro item hitem
      obtain ⟨entry, hentry, rfl⟩ := List.mem_map.1 hitem
      exact hkeys entry hentry
    | ordered =>
      rw [eval_ordered] at h
      obtain ⟨found, hfound, rfl⟩ := Option.map_eq_some_iff.1 h
      obtain ⟨hkeys, hvalues, hafter⟩ := evalEntries_everywhere hP hentries hinside hfound
      exact everywhere_settled (.map hkeys hvalues) hafter a marks
  | seq marks items =>
    have hinside := hP.everywhere_inside ha (.seq marks items)
    rw [eval_seq] at h
    obtain ⟨found, hfound, rfl⟩ := Option.map_eq_some_iff.1 h
    obtain ⟨hitems, hafter⟩ := evalItems_everywhere hP (hreach.tail .seq) hinside hfound
    exact everywhere_settled (.array hitems) hafter a marks
  | pairs marks entries =>
    have hinside := hP.everywhere_inside ha (.pairs marks entries)
    rw [eval_pairs] at h
    obtain ⟨found, hfound, rfl⟩ := Option.map_eq_some_iff.1 h
    obtain ⟨-, -, hafter⟩ := evalEntries_everywhere hP (hreach.tail .pairs) hinside hfound
    refine everywhere_settled (.array ?_) hafter a marks
    intro item hitem
    obtain ⟨entry, -, rfl⟩ := List.mem_map.1 hitem
    exact .object hP.empty (by simp)

theorem evalOption_everywhere (hP : Covers version cycles start P) {a : Anchors}
    {value : Option Node} {done : Evaluated Value}
    (hreach : ∀ node, value = some node → Reaches version cycles start (.node a node))
    (ha : a.Everywhere P) (h : evalOption version cycles a value = some done) :
    done.value.Everywhere P ∧ done.anchors.Everywhere P := by
  cases value with
  | none =>
    cases h
    exact ⟨.null, ha⟩
  | some node => exact eval_everywhere hP (hreach node rfl) ha h

theorem evalItems_everywhere (hP : Covers version cycles start P) {a : Anchors}
    {items : List Node} {found : Evaluated (List Value)}
    (hreach : Reaches version cycles start (.items a items)) (ha : a.Everywhere P)
    (h : evalItems version cycles a items = some found) :
    (∀ item ∈ found.value, item.Everywhere P) ∧ found.anchors.Everywhere P := by
  cases items with
  | nil =>
    cases h
    exact ⟨by simp, ha⟩
  | cons item rest =>
    simp only [evalItems, Option.bind_eq_bind, Option.bind_eq_some_iff] at h
    obtain ⟨first, hfirst, more, hmore, hdone⟩ := h
    cases hdone
    obtain ⟨hvalue, hbehind⟩ := eval_everywhere hP (hreach.tail .item) ha hfirst
    obtain ⟨hvalues, hafter⟩ :=
      evalItems_everywhere hP (hreach.tail (.items hfirst)) hbehind hmore
    exact ⟨List.forall_mem_cons.2 ⟨hvalue, hvalues⟩, hafter⟩

theorem evalEntries_everywhere (hP : Covers version cycles start P) {a : Anchors}
    {keysOnly : Bool} {entries : List (Node × Option Node)}
    {found : Evaluated (List (Value × Value))}
    (hreach : Reaches version cycles start (.entries a keysOnly entries)) (ha : a.Everywhere P)
    (h : evalEntries version cycles a keysOnly entries = some found) :
    (∀ entry ∈ found.value, entry.1.Everywhere P) ∧
      (∀ entry ∈ found.value, entry.2.Everywhere P) ∧ found.anchors.Everywhere P := by
  cases entries with
  | nil =>
    cases h
    exact ⟨by simp, by simp, ha⟩
  | cons entry rest =>
    obtain ⟨key, value⟩ := entry
    rw [evalEntries, Option.bind_eq_bind, Option.bind_eq_some_iff] at h
    obtain ⟨k, hkey, h⟩ := h
    obtain ⟨hk, hbehind⟩ := eval_everywhere hP (hreach.tail .key) ha hkey
    cases keysOnly with
    | true =>
      obtain ⟨more, hmore, hdone⟩ := Option.bind_eq_some_iff.1 h
      cases hdone
      obtain ⟨hkeys, hvalues, hafter⟩ :=
        evalEntries_everywhere hP (hreach.tail (.keys hkey)) hbehind hmore
      exact ⟨List.forall_mem_cons.2 ⟨hk, hkeys⟩, List.forall_mem_cons.2 ⟨.null, hvalues⟩, hafter⟩
    | false =>
      obtain ⟨v, hvalue, h⟩ := Option.bind_eq_some_iff.1 h
      obtain ⟨more, hmore, hdone⟩ := Option.bind_eq_some_iff.1 h
      cases hdone
      obtain ⟨hv, hbehind⟩ := evalOption_everywhere hP
        (fun node hnode => by subst hnode; exact hreach.tail (.value hkey)) hbehind hvalue
      obtain ⟨hkeys, hvalues, hafter⟩ :=
        evalEntries_everywhere hP (hreach.tail (.entries hkey hvalue)) hbehind hmore
      exact ⟨List.forall_mem_cons.2 ⟨hk, hkeys⟩, List.forall_mem_cons.2 ⟨hv, hvalues⟩, hafter⟩

theorem evalFields_everywhere (hP : Covers version cycles start P) {a : Anchors}
    {fields : List (String × Value)} {makeup : Makeup} {entries : List (Node × Option Node)}
    {found : Evaluated (List (String × Value))}
    (hreach : Reaches version cycles start (.entries a false entries)) (ha : a.Everywhere P)
    (hfields : ∀ field ∈ fields, field.2.Everywhere P)
    (h : evalFields version cycles a fields makeup entries = some found) :
    (∀ field ∈ found.value, field.2.Everywhere P) ∧ found.anchors.Everywhere P := by
  cases entries with
  | nil =>
    rw [evalFields] at h
    cases h
    exact ⟨hfields, ha⟩
  | cons entry rest =>
    obtain ⟨key, value⟩ := entry
    simp only [evalFields, Option.bind_eq_bind, Option.bind_eq_some_iff] at h
    obtain ⟨k, hkey, v, hvalue, h⟩ := h
    obtain ⟨hk, hbehind⟩ := eval_everywhere hP (hreach.tail .key) ha hkey
    obtain ⟨hv, hbehind⟩ := evalOption_everywhere hP
      (fun node hnode => by subst hnode; exact hreach.tail (.value hkey)) hbehind hvalue
    have hnext := hreach.tail (.entries hkey hvalue)
    split at h
    · obtain ⟨_, hmerge, hrest⟩ := Option.bind_eq_some_iff.1 h
      obtain ⟨merged, hmerged, rfl⟩ := Option.map_eq_some_iff.1 hmerge
      have hnew := everywhere_foldl_mergeField hfields (everywhere_mergedFields hv hmerged)
      exact evalFields_everywhere hP hnext hbehind hnew hrest
    · exact evalFields_everywhere hP hnext hbehind (everywhere_setField hfields _ hv) h

end

variable {document : Node}

/-- An evaluation of a document, by the values that are taken for aliases inside their own nodes:
none in the first one, and in the second one the values that the first one has found. -/
inductive Pass (version : Version) (document : Node) : List Value → Prop where
  | first : Pass version document []
  | second {done : Evaluated Value} (h : eval version [] .empty document = some done) :
      Pass version document (done.anchors.met.map fun entry => entry.value.getD .null)

/-- An object with these fields is the value of a map of a document, and the entries of this map
give these names in this order. -/
inductive ObjectOf (version : Version) (document : Node) (fields : List (String × Value))
    (given : List String) : Prop where
  | intro {cycles : List Value} {a : Anchors} {marks : Marks}
      {entries : List (Node × Option Node)} {done : Evaluated Value}
      (hpass : Pass version document cycles)
      (hreach : Reaches version cycles (.node .empty document)
        (.node a (.map marks .plain entries)))
      (heval : eval version cycles a (.map marks .plain entries) = some done)
      (hvalue : done.value = .object fields)
      (hgives : Gives version cycles (inside cycles a (.map marks .plain entries)) entries given)

theorem ObjectOf.follows {fields : List (String × Value)} {given : List String}
    (h : ObjectOf version document fields given) : Value.Follows given (fields.map (·.1)) := by
  obtain ⟨-, -, heval, hvalue, hgives⟩ := h
  obtain ⟨_, names, hobject, hnames, hfollows⟩ := follows_of_eval heval
  obtain rfl := Value.object.inj (hvalue.symm.trans hobject)
  rwa [hgives.unique hnames]

def FieldsOf (version : Version) (document : Node) (fields : List (String × Value)) : Prop :=
  fields = [] ∨ ∃ given, ObjectOf version document fields given

theorem fieldsOf_of_eval (hpass : Pass version document cycles) {a : Anchors} {marks : Marks}
    {entries : List (Node × Option Node)} {done : Evaluated Value}
    {fields : List (String × Value)}
    (hreach : Reaches version cycles (.node .empty document) (.node a (.map marks .plain entries)))
    (heval : eval version cycles a (.map marks .plain entries) = some done)
    (hvalue : done.value = .object fields) : FieldsOf version document fields := by
  obtain ⟨-, given, -, hgives, -⟩ := follows_of_eval heval
  exact .inr ⟨given, ⟨hpass, hreach, heval, hvalue, hgives⟩⟩

theorem Pass.covers (h : Pass version document cycles) :
    Covers version cycles (.node .empty document) (FieldsOf version document) := by
  refine ⟨.inl rfl, ?_, fieldsOf_of_eval h⟩
  cases h with
  | first => simp
  | second hfirst =>
    -- The values that are taken for aliases in the second evaluation come from the first one.
    have hcovers : Covers version [] (.node .empty document) (FieldsOf version document) :=
      ⟨.inl rfl, by simp, fieldsOf_of_eval .first⟩
    obtain ⟨-, hanchors⟩ := eval_everywhere hcovers .refl Anchors.Everywhere.empty hfirst
    intro value hvalue
    obtain ⟨entry, hentry, rfl⟩ := List.mem_map.1 hvalue
    cases hknown : entry.value with
    | none => exact .null
    | some known => exact (hanchors entry hentry).value known hknown

theorem Pass.everywhere (h : Pass version document cycles) {done : Evaluated Value}
    (hdone : eval version cycles .empty document = some done) :
    done.value.Everywhere (FieldsOf version document) :=
  (eval_everywhere h.covers .refl Anchors.Everywhere.empty hdone).1

/-- Every object in the value of a document that has fields is the value of a map of it. -/
theorem toValue?_everywhere {value : Value} (h : document.toValue? version = some value) :
    value.Everywhere (FieldsOf version document) := by
  rw [toValue?, Option.bind_eq_bind, Option.bind_eq_some_iff] at h
  obtain ⟨first, hfirst, h⟩ := h
  split at h
  · obtain ⟨second, hsecond, hdone⟩ := Option.bind_eq_some_iff.1 h
    obtain rfl := Option.some.inj hdone
    exact (Pass.second hfirst).everywhere hsecond
  · obtain rfl := Option.some.inj h
    exact Pass.first.everywhere hfirst

end Node

end Elevation.Yaml

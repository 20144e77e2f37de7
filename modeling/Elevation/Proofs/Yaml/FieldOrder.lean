import Mathlib.Data.List.Perm.Basic
import Mathlib.Data.List.Nodup
import Elevation.Yaml.Value

/-! The order of the fields of an object. Names that are written like an index come first, in
ascending order, and the others follow as they were given for the first time. There is only one such
order: two lists of the same names that both keep it are equal. -/

namespace Elevation.Yaml.Value

structure IsIndex (name : String) (index : Nat) : Prop where
  text : name = toString index
  small : index < 4294967295

/-- Of two names of an object the first one stands before the second. -/
inductive Precedes (given : List String) : String → String → Prop where
  | ascending {a b : String} {m n : Nat} (ha : IsIndex a m) (hb : IsIndex b n) (h : m < n) :
      Precedes given a b
  | indexFirst {a b : String} {m : Nat} (ha : IsIndex a m) (hb : ∀ n, ¬ IsIndex b n) :
      Precedes given a b
  | asGiven {a b : String} (ha : ∀ m, ¬ IsIndex a m) (hb : ∀ n, ¬ IsIndex b n)
      (h : given.idxOf a < given.idxOf b) : Precedes given a b

/-- The names are those that were given, each once and in the order of an object. -/
structure Follows (given names : List String) : Prop where
  mem_iff : ∀ name, name ∈ names ↔ name ∈ given
  ordered : names.Pairwise (Precedes given)

/-! Texts of indexes. -/

theorem toString_injective {m n : Nat} (h : toString m = toString n) : m = n := by
  have hdigits : Nat.toDigits 10 m = Nat.toDigits 10 n := by
    simpa [Nat.toString_eq_ofList_toDigits] using congrArg String.toList h
  calc m = Nat.ofDigitChars 10 (Nat.toDigits 10 m) 0 := Nat.ofDigitChars_ten_toDigits.symm
    _ = Nat.ofDigitChars 10 (Nat.toDigits 10 n) 0 := by rw [hdigits]
    _ = n := Nat.ofDigitChars_ten_toDigits

theorem IsIndex.unique {name : String} {m n : Nat} (hm : IsIndex name m) (hn : IsIndex name n) :
    m = n :=
  toString_injective (hm.text.symm.trans hn.text)

theorem digitChar_of_isDigit {c : Char} (h : c.isDigit) :
    c.toNat - 48 < 10 ∧ Nat.digitChar (c.toNat - 48) = c := by
  have hbounds : 48 ≤ c.toNat ∧ c.toNat ≤ 57 := by
    simpa [Char.isDigit, UInt32.le_iff_toNat_le] using h
  refine ⟨by omega, ?_⟩
  apply Char.toNat_inj.mp
  rw [Nat.toNat_digitChar_of_lt_ten (by omega)]
  omega

theorem toDigits_append {digits : List Char} (h : ∀ c ∈ digits, c.isDigit) {front : Nat}
    (hfront : 0 < front) :
    Nat.toDigits 10 front ++ digits = Nat.toDigits 10 (Nat.ofDigitChars 10 digits front) := by
  induction digits generalizing front with
  | nil => simp
  | cons c rest ih =>
    obtain ⟨hlt, hchar⟩ := digitChar_of_isDigit (h c List.mem_cons_self)
    have hstep := Nat.toDigits_append_toDigits (b := 10) (by decide) hfront hlt
    rw [Nat.toDigits_of_lt_base hlt, hchar] at hstep
    rw [Nat.ofDigitChars_cons, ← ih (fun d hd => h d (List.mem_cons_of_mem _ hd)) (by omega)]
    have hzero : '0'.toNat = 48 := rfl
    rw [hzero, ← hstep, List.append_assoc, List.singleton_append]

theorem toDigits_ofDigitChars {digits : List Char} (hne : digits ≠ [])
    (h : ∀ c ∈ digits, c.isDigit) (hzero : digits.head? = some '0' → digits.length ≤ 1) :
    Nat.toDigits 10 (Nat.ofDigitChars 10 digits 0) = digits := by
  cases digits with
  | nil => exact absurd rfl hne
  | cons c rest =>
    obtain ⟨hlt, hchar⟩ := digitChar_of_isDigit (h c List.mem_cons_self)
    have hstart : Nat.ofDigitChars 10 (c :: rest) 0 = Nat.ofDigitChars 10 rest (c.toNat - 48) := by
      rw [Nat.ofDigitChars_cons]
      simp
    rw [hstart]
    by_cases hc : c = '0'
    · have hrest : rest = [] := by simpa [hc] using hzero
      subst hc hrest
      rfl
    · have hpos : 0 < c.toNat - 48 := by
        rcases Nat.eq_zero_or_pos (c.toNat - 48) with he | hpos
        · rw [he] at hchar
          exact absurd hchar.symm hc
        · exact hpos
      rw [← toDigits_append (fun d hd => h d (List.mem_cons_of_mem _ hd)) hpos,
        Nat.toDigits_of_lt_base hlt, hchar, List.singleton_append]

theorem head?_toDigits {n : Nat} (h : 0 < n) : (Nat.toDigits 10 n).head? ≠ some '0' := by
  induction n using Nat.strongRecOn with
  | ind n ih =>
    rw [Nat.toDigits_eq_if (by decide)]
    split
    next hlt =>
      intro hhead
      have hvalue := congrArg Char.toNat (Option.some.inj hhead)
      rw [Nat.toNat_digitChar_of_lt_ten hlt] at hvalue
      exact absurd hvalue (by simp; omega)
    next hle =>
      have hquotient : 0 < n / 10 := by omega
      rw [List.head?_append_of_ne_nil _ Nat.toDigits_ne_nil]
      exact ih (n / 10) (by omega) hquotient

theorem foldl_digits (digits : List Char) :
    digits.foldl (fun n c => 10 * n + (c.toNat - 48)) 0 = Nat.ofDigitChars 10 digits 0 := by
  rw [Nat.ofDigitChars_eq_foldl]
  rfl

theorem isIndex_of_indexOf? {name : String} {index : Nat} (h : indexOf? name = some index) :
    IsIndex name index := by
  simp only [indexOf?, foldl_digits] at h
  split at h
  · cases h
  next hform =>
    split at h
    · cases h
    next hlead =>
      split at h
      next hsmall =>
        obtain rfl := Option.some.inj h
        simp only [not_or] at hform
        have hdigits : ∀ c ∈ name.toList, c.isDigit := by simpa using hform.2.2
        have hlength : name.toList.head? = some '0' → name.toList.length ≤ 1 := fun hhead =>
          Nat.le_of_not_lt fun hlong => hlead ⟨hhead, hlong⟩
        refine ⟨?_, hsmall⟩
        rw [Nat.toString_eq_ofList_toDigits, toDigits_ofDigitChars hform.1 hdigits hlength]
        simp
      · cases h

theorem indexOf?_of_isIndex {name : String} {index : Nat} (h : IsIndex name index) :
    indexOf? name = some index := by
  obtain ⟨rfl, hsmall⟩ := h
  have hlist : (toString index).toList = Nat.toDigits 10 index := by simp
  have hne : Nat.toDigits 10 index ≠ [] := Nat.toDigits_ne_nil
  have hlength : (Nat.toDigits 10 index).length ≤ 10 :=
    (Nat.length_toDigits_le_iff (by decide) (by decide)).2 (by omega)
  have hdigits : (Nat.toDigits 10 index).all Char.isDigit = true :=
    List.all_eq_true.2 fun c hc => Nat.isDigit_of_mem_toDigits (by decide) (by decide) hc
  have hlead : ¬ ((Nat.toDigits 10 index).head? = some '0' ∧
      1 < (Nat.toDigits 10 index).length) := by
    rintro ⟨hhead, hlong⟩
    rcases Nat.eq_zero_or_pos index with rfl | hpos
    · exact absurd hlong (by decide)
    · exact head?_toDigits hpos hhead
  simp only [indexOf?, foldl_digits]
  rw [hlist, if_neg (by simp [hne, hdigits, Nat.not_lt.2 hlength]), if_neg hlead,
    Nat.ofDigitChars_ten_toDigits, if_pos hsmall]

theorem indexOf?_eq_some_iff {name : String} {index : Nat} :
    indexOf? name = some index ↔ IsIndex name index :=
  ⟨isIndex_of_indexOf?, indexOf?_of_isIndex⟩

theorem indexOf?_eq_none_iff {name : String} :
    indexOf? name = none ↔ ∀ index, ¬ IsIndex name index := by
  rw [Option.eq_none_iff_forall_ne_some]
  exact forall_congr' fun index => not_congr indexOf?_eq_some_iff

/-! The order of two names. -/

theorem Precedes.asymm {given : List String} {a b : String} (h : Precedes given a b) :
    ¬ Precedes given b a := by
  intro k
  cases h with
  | ascending ha hb hlt =>
    cases k with
    | ascending hb' ha' hlt' =>
      obtain rfl := ha.unique ha'
      obtain rfl := hb.unique hb'
      exact Nat.lt_asymm hlt hlt'
    | indexFirst _ hnone => exact hnone _ ha
    | asGiven hnone _ _ => exact hnone _ hb
  | indexFirst ha hnone =>
    cases k with
    | ascending hb' _ _ => exact hnone _ hb'
    | indexFirst hb' _ => exact hnone _ hb'
    | asGiven _ hnone' _ => exact hnone' _ ha
  | asGiven hnone hnone' hlt =>
    cases k with
    | ascending _ ha' _ => exact hnone _ ha'
    | indexFirst hb' _ => exact hnone' _ hb'
    | asGiven _ _ hlt' => exact Nat.lt_asymm hlt hlt'

theorem nodup_of_ordered {before : String → String → Prop} {names : List String}
    (hasymm : ∀ {a b}, before a b → ¬ before b a) (h : names.Pairwise before) : names.Nodup := by
  refine h.imp fun hbefore => ?_
  rintro rfl
  exact hasymm hbefore hbefore

/-- Names in an order are determined by which names they are. -/
theorem eq_of_ordered {before : String → String → Prop} {names others : List String}
    (hasymm : ∀ {a b}, before a b → ¬ before b a) (h : names.Pairwise before)
    (k : others.Pairwise before) (hmem : ∀ name, name ∈ names ↔ name ∈ others) :
    names = others := by
  have hperm : names.Perm others :=
    (List.perm_ext_iff_of_nodup (nodup_of_ordered hasymm h) (nodup_of_ordered hasymm k)).2 hmem
  exact hperm.eq_of_pairwise (fun a b _ _ hab hba => absurd hba (hasymm hab)) h k

/-! How the fields of an object are ordered. -/

structure Listed (given names : List String) : Prop where
  mem_iff : ∀ name, name ∈ names ↔ name ∈ given
  ordered : names.Pairwise fun a b => given.idxOf a < given.idxOf b

theorem Listed.add {given names : List String} (h : Listed given names) (name : String) :
    Listed (given ++ [name]) (if name ∈ names then names else names ++ [name]) := by
  have hkept : names.Pairwise fun a b => (given ++ [name]).idxOf a < (given ++ [name]).idxOf b := by
    refine h.ordered.imp_of_mem fun {a b} ha hb hlt => ?_
    have hsame {other : String} (hother : other ∈ names) :
        (given ++ [name]).idxOf other = given.idxOf other :=
      List.idxOf_append_of_mem ((h.mem_iff other).1 hother)
    rwa [hsame ha, hsame hb]
  split
  next hmem =>
    refine ⟨fun other => ?_, hkept⟩
    rw [List.mem_append, List.mem_singleton, h.mem_iff]
    have hgiven := (h.mem_iff name).1 hmem
    constructor
    · exact .inl
    · rintro (hother | rfl)
      · exact hother
      · exact hgiven
  next hmem =>
    have hnot : name ∉ given := fun hgiven => hmem ((h.mem_iff name).2 hgiven)
    refine ⟨fun other => by simp [h.mem_iff], List.pairwise_append.2 ⟨hkept, by simp, ?_⟩⟩
    intro a ha b hb
    obtain rfl := List.mem_singleton.1 hb
    rw [List.idxOf_append_of_mem ((h.mem_iff a).1 ha), List.idxOf_append_of_notMem hnot]
    have hlt := List.idxOf_lt_length_iff.2 ((h.mem_iff a).1 ha)
    omega

theorem names_setField (fields : List (String × Value)) (name : String) (value : Value) :
    (setField fields name value).map (·.1) =
      if name ∈ fields.map (·.1) then fields.map (·.1) else fields.map (·.1) ++ [name] := by
  induction fields with
  | nil => rfl
  | cons field rest ih =>
    obtain ⟨other, old⟩ := field
    rw [setField]
    split
    next he => simp [he]
    next hne =>
      rw [List.map_cons, ih]
      by_cases hmem : name ∈ rest.map (·.1) <;> simp [hmem, Ne.symm hne]

theorem mem_insertIndexed {index : Nat} {field : String × Value}
    {sorted : List (Nat × String × Value)} {entry : Nat × String × Value} :
    entry ∈ insertIndexed index field sorted ↔ entry = (index, field) ∨ entry ∈ sorted := by
  induction sorted with
  | nil => simp [insertIndexed]
  | cons first rest ih =>
    rw [insertIndexed]
    split
    · simp
    · simp only [List.mem_cons, ih]
      exact or_left_comm

theorem insertIndexed_ordered {index : Nat} {sorted : List (Nat × String × Value)}
    (h : sorted.Pairwise fun a b => a.1 < b.1) (hnew : ∀ entry ∈ sorted, entry.1 ≠ index)
    (field : String × Value) :
    (insertIndexed index field sorted).Pairwise fun a b => a.1 < b.1 := by
  induction sorted with
  | nil => simp [insertIndexed]
  | cons first rest ih =>
    obtain ⟨hfirst, hrest⟩ := List.pairwise_cons.1 h
    have hne := hnew first List.mem_cons_self
    rw [insertIndexed]
    split
    next hlt =>
      refine List.pairwise_cons.2 ⟨fun entry hentry => ?_, h⟩
      rcases List.mem_cons.1 hentry with rfl | hentry
      · exact hlt
      · exact Nat.lt_trans hlt (hfirst entry hentry)
    next hge =>
      have hinserted := ih hrest fun entry hentry => hnew entry (List.mem_cons_of_mem _ hentry)
      refine List.pairwise_cons.2 ⟨fun entry hentry => ?_, hinserted⟩
      rcases mem_insertIndexed.1 hentry with rfl | hentry
      · exact Nat.lt_of_le_of_ne (Nat.le_of_not_lt hge) hne
      · exact hfirst entry hentry

def indexed (fields : List (String × Value)) : List (Nat × String × Value) :=
  fields.foldr (fun field sorted =>
    match indexOf? field.1 with
    | some index => insertIndexed index field sorted
    | none => sorted) []

theorem orderFields_eq_append (fields : List (String × Value)) : orderFields fields =
    (indexed fields).map (·.2) ++ fields.filter fun field => (indexOf? field.1).isNone := rfl

theorem indexed_cons (field : String × Value) (rest : List (String × Value)) :
    indexed (field :: rest) =
      match indexOf? field.1 with
      | some index => insertIndexed index field (indexed rest)
      | none => indexed rest := rfl

theorem mem_indexed {fields : List (String × Value)} {entry : Nat × String × Value} :
    entry ∈ indexed fields ↔ entry.2 ∈ fields ∧ IsIndex entry.2.1 entry.1 := by
  induction fields with
  | nil => simp [indexed]
  | cons field rest ih =>
    rw [indexed_cons]
    cases hindex : indexOf? field.1 with
    | none =>
      have hnone := indexOf?_eq_none_iff.1 hindex
      rw [ih, List.mem_cons]
      constructor
      · rintro ⟨hmem, hentry⟩
        exact ⟨.inr hmem, hentry⟩
      · rintro ⟨he | hmem, hentry⟩
        · exact absurd (he ▸ hentry) (hnone _)
        · exact ⟨hmem, hentry⟩
    | some index =>
      have hfield := indexOf?_eq_some_iff.1 hindex
      rw [mem_insertIndexed, ih, List.mem_cons]
      constructor
      · rintro (rfl | ⟨hmem, hentry⟩)
        · exact ⟨.inl rfl, hfield⟩
        · exact ⟨.inr hmem, hentry⟩
      · rintro ⟨he | hmem, hentry⟩
        · obtain ⟨n, pair⟩ := entry
          obtain rfl : pair = field := he
          obtain rfl : n = index := hentry.unique hfield
          exact .inl rfl
        · exact .inr ⟨hmem, hentry⟩

theorem indexed_ordered {fields : List (String × Value)} (h : (fields.map (·.1)).Nodup) :
    (indexed fields).Pairwise fun a b => a.1 < b.1 := by
  induction fields with
  | nil => exact List.Pairwise.nil
  | cons field rest ih =>
    obtain ⟨hnot, hrest⟩ := List.nodup_cons.1 h
    rw [indexed_cons]
    cases hindex : indexOf? field.1 with
    | none => exact ih hrest
    | some index =>
      apply insertIndexed_ordered (ih hrest)
      intro entry hentry he
      obtain ⟨hmem, hname⟩ := mem_indexed.1 hentry
      have hfield := indexOf?_eq_some_iff.1 hindex
      have hsame : entry.2.1 = field.1 := by rw [hname.text, hfield.text, he]
      exact hnot (List.mem_map.2 ⟨entry.2, hmem, hsame⟩)

theorem mem_orderFields {fields : List (String × Value)} {field : String × Value} :
    field ∈ orderFields fields ↔ field ∈ fields := by
  rw [orderFields_eq_append, List.mem_append, List.mem_map, List.mem_filter]
  constructor
  · rintro (⟨entry, hentry, rfl⟩ | ⟨hmem, -⟩)
    · exact (mem_indexed.1 hentry).1
    · exact hmem
  · intro hmem
    cases hindex : indexOf? field.1 with
    | none => exact .inr ⟨hmem, rfl⟩
    | some index =>
      exact .inl ⟨(index, field), mem_indexed.2 ⟨hmem, indexOf?_eq_some_iff.1 hindex⟩, rfl⟩

/-- An object has the names of its fields in its own order, whatever order they were given in. -/
theorem follows_orderFields {given : List String} {fields : List (String × Value)}
    (h : Listed given (fields.map (·.1))) : Follows given ((orderFields fields).map (·.1)) := by
  have hnodup : (fields.map (·.1)).Nodup := h.ordered.imp fun hlt he => by
    rw [he] at hlt
    exact Nat.lt_irrefl _ hlt
  constructor
  · intro name
    rw [← h.mem_iff]
    simp only [List.mem_map, mem_orderFields]
  · rw [orderFields_eq_append, List.map_append, List.map_map, List.pairwise_append]
    refine ⟨?_, ?_, ?_⟩
    · rw [List.pairwise_map]
      refine (indexed_ordered hnodup).imp_of_mem fun {a b} ha hb hlt => ?_
      exact .ascending (mem_indexed.1 ha).2 (mem_indexed.1 hb).2 hlt
    · have hordered := List.pairwise_map.1 h.ordered
      rw [List.pairwise_map]
      refine (hordered.filter _).imp_of_mem fun {a b} ha hb hlt => ?_
      have hnone {field : String × Value}
          (hfield : field ∈ fields.filter fun field => (indexOf? field.1).isNone) :
          ∀ index, ¬ IsIndex field.1 index :=
        indexOf?_eq_none_iff.1 (by simpa using (List.mem_filter.1 hfield).2)
      exact .asGiven (hnone ha) (hnone hb) hlt
    · intro a ha b hb
      obtain ⟨entry, hentry, rfl⟩ := List.mem_map.1 ha
      obtain ⟨field, hfield, rfl⟩ := List.mem_map.1 hb
      have hnone := indexOf?_eq_none_iff.1 (by simpa using (List.mem_filter.1 hfield).2)
      exact .indexFirst (mem_indexed.1 hentry).2 hnone

example : (orderFields [("b", .null), ("10", .null), ("02", .null), ("9", .null)]).map (·.1) =
    ["9", "10", "b", "02"] := by
  decide +kernel

end Elevation.Yaml.Value

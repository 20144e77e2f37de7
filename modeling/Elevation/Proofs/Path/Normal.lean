import Elevation.FileSystem

/-! What joining and normalizing do to the components of a path. Where every parent step stands
before the first name, nothing is cancelled: the normal form has the components that lead somewhere,
in their order, less the parent steps at the root. -/

namespace Elevation.Path

/-! Components of texts. -/

theorem not_mem_of_mem_splitOn {separator : Char} {text part : List Char}
    (h : part ∈ text.splitOn separator) : separator ∉ part := by
  induction text generalizing part with
  | nil => simp_all
  | cons c rest ih =>
    rw [List.splitOn_cons_eq_if_modifyHead] at h
    obtain ⟨first, more, hrest⟩ := List.exists_cons_of_ne_nil (List.splitOn_ne_nil separator rest)
    rw [hrest] at h ih
    by_cases hc : c = separator
    · simp only [hc, beq_self_eq_true, if_true, List.mem_cons] at h
      rcases h with rfl | h
      · exact List.not_mem_nil
      · exact ih (List.mem_cons.2 h)
    · simp only [beq_iff_eq, hc, if_false, List.modifyHead_cons, List.mem_cons] at h
      rcases h with rfl | h
      · simp [Ne.symm hc, ih (List.mem_cons_self ..)]
      · exact ih (List.mem_cons_of_mem _ h)

theorem mem_iff_mem_splitOn {separator c : Char} (hc : c ≠ separator) (text : List Char) :
    c ∈ text ↔ ∃ part ∈ text.splitOn separator, c ∈ part := by
  induction text with
  | nil => simp
  | cons d rest ih =>
    obtain ⟨first, more, hrest⟩ := List.exists_cons_of_ne_nil (List.splitOn_ne_nil separator rest)
    rw [List.splitOn_cons_eq_if_modifyHead, List.mem_cons, ih, hrest]
    by_cases hd : d = separator
    · simp [hd, hc]
    · simp [hd, or_assoc]

theorem slash_not_mem {path part : String} (h : part ∈ components path) : '/' ∉ part.toList := by
  obtain ⟨piece, hpiece, rfl⟩ := List.mem_map.1 h
  simpa using not_mem_of_mem_splitOn hpiece

theorem components_intercalate {parts : List String} (hne : parts ≠ [])
    (h : ∀ part ∈ parts, '/' ∉ part.toList) : components ("/".intercalate parts) = parts := by
  have hsplit : (['/'].intercalate (parts.map String.toList)).splitOn '/' =
      parts.map String.toList :=
    List.splitOn_intercalate '/' (by simpa using h) (by simpa using hne)
  have hslash : ("/" : String).toList = ['/'] := rfl
  rw [components, String.toList_intercalate, hslash, hsplit]
  simp [Function.comp_def]

theorem components_append (front back : String) :
    components (front ++ "/" ++ back) = components front ++ components back := by
  have hslash : ("/" : String).toList = ['/'] := rfl
  simp [components, String.toList_append, hslash, List.splitOn_append_cons_self]

theorem components_empty : components "" = [""] := by decide

theorem mem_toList_iff {path : String} {c : Char} (hc : c ≠ '/') :
    c ∈ path.toList ↔ ∃ part ∈ components path, c ∈ part.toList := by
  rw [mem_iff_mem_splitOn hc]
  constructor
  · rintro ⟨piece, hpiece, hmem⟩
    exact ⟨String.ofList piece, List.mem_map_of_mem hpiece, by simpa using hmem⟩
  · rintro ⟨part, hpart, hmem⟩
    obtain ⟨piece, hpiece, rfl⟩ := List.mem_map.1 hpart
    exact ⟨piece, hpiece, by simpa using hmem⟩

/-! Normal components. -/

def isStep (component : String) : Bool := component ≠ "" && component ≠ "."

def isUpward (component : String) : Bool := component = ".." || !isStep component

theorem eq_of_isUpward {component : String} (h : isUpward component) :
    component = "" ∨ component = "." ∨ component = ".." := by
  by_cases hempty : component = "" <;> by_cases hdot : component = "." <;>
    simp_all [isUpward, isStep]

/-- No parent step stands behind a name, so that none can be cancelled against it. -/
def AscendsFirst (parts : List String) : Prop := ".." ∉ parts.dropWhile isUpward

instance (parts : List String) : Decidable (AscendsFirst parts) :=
  inferInstanceAs (Decidable (_ ∉ _))

theorem pushComponent_of_not_isStep {absolute : Bool} {component : String}
    (h : isStep component = false) (normal : List String) :
    pushComponent absolute normal component = normal := by
  have hblank : component = "" ∨ component = "." := by
    by_cases he : component = "" <;> simp_all [isStep]
  simp [pushComponent, hblank]

theorem pushComponent_of_name {absolute : Bool} {component : String}
    (h : isUpward component = false) (normal : List String) :
    pushComponent absolute normal component = component :: normal := by
  simp_all [pushComponent, isUpward, isStep]

theorem foldl_pushComponent_names {absolute : Bool} {parts : List String} (h : ".." ∉ parts)
    (normal : List String) :
    parts.foldl (pushComponent absolute) normal = (parts.filter isStep).reverse ++ normal := by
  induction parts generalizing normal with
  | nil => rfl
  | cons part rest ih =>
    simp only [List.mem_cons, not_or] at h
    rw [List.foldl_cons, ih h.2]
    cases hstep : isStep part with
    | false => simp [pushComponent_of_not_isStep hstep, hstep]
    | true =>
      have hname : isUpward part = false := by simp [isUpward, hstep, Ne.symm h.1]
      simp [pushComponent_of_name hname, hstep]

theorem eq_parent_of_isUpward {part : String} (h : isUpward part) (hstep : isStep part) :
    part = ".." := by
  simpa [isUpward, hstep] using h

theorem filter_isStep_of_upward {parts : List String} (h : ∀ part ∈ parts, isUpward part) :
    parts.filter isStep = List.replicate (parts.filter isStep).length ".." := by
  refine List.eq_replicate_iff.2 ⟨rfl, fun part hpart => ?_⟩
  obtain ⟨hmem, hstep⟩ := List.mem_filter.1 hpart
  exact eq_parent_of_isUpward (h part hmem) hstep

theorem pushComponent_parent_root : pushComponent true [] ".." = [] := by
  simp [pushComponent]

theorem pushComponent_parent_relative (count : Nat) :
    pushComponent false (List.replicate count "..") ".." = List.replicate (count + 1) ".." := by
  cases count with
  | zero => simp [pushComponent]
  | succ count => simp [pushComponent, List.replicate_succ]

theorem foldl_pushComponent_root {parts : List String} (h : ∀ part ∈ parts, isUpward part) :
    parts.foldl (pushComponent true) [] = [] := by
  induction parts with
  | nil => rfl
  | cons part rest ih =>
    have hpush : pushComponent true [] part = [] := by
      cases hstep : isStep part with
      | false => exact pushComponent_of_not_isStep hstep []
      | true =>
        obtain rfl := eq_parent_of_isUpward (h part (List.mem_cons_self ..)) hstep
        exact pushComponent_parent_root
    rw [List.foldl_cons, hpush]
    exact ih fun other hother => h other (List.mem_cons_of_mem _ hother)

theorem foldl_pushComponent_relative {parts : List String} (h : ∀ part ∈ parts, isUpward part)
    (count : Nat) : parts.foldl (pushComponent false) (List.replicate count "..") =
      List.replicate (count + (parts.filter isStep).length) ".." := by
  induction parts generalizing count with
  | nil => rfl
  | cons part rest ih =>
    have hrest := fun other hother => h other (List.mem_cons_of_mem _ hother)
    rw [List.foldl_cons]
    cases hstep : isStep part with
    | false => simp [pushComponent_of_not_isStep hstep, ih hrest, hstep]
    | true =>
      obtain rfl := eq_parent_of_isUpward (h part (List.mem_cons_self ..)) hstep
      rw [pushComponent_parent_relative, ih hrest, List.filter_cons_of_pos hstep,
        List.length_cons]
      congr 1
      omega

theorem AscendsFirst.exists_split {parts : List String} (h : AscendsFirst parts) :
    ∃ lead names, parts = lead ++ names ∧ (∀ part ∈ lead, isUpward part) ∧ ".." ∉ names :=
  ⟨parts.takeWhile isUpward, parts.dropWhile isUpward, List.takeWhile_append_dropWhile.symm,
    List.all_eq_true.1 List.all_takeWhile, h⟩

section

variable {lead names : List String} (hlead : ∀ part ∈ lead, isUpward part) (hnames : ".." ∉ names)
include hlead hnames

theorem normalComponents_root : normalComponents true (lead ++ names) = names.filter isStep := by
  rw [normalComponents, List.foldl_append, foldl_pushComponent_root hlead,
    foldl_pushComponent_names hnames]
  simp

theorem normalComponents_relative :
    normalComponents false (lead ++ names) = (lead ++ names).filter isStep := by
  have hfold := foldl_pushComponent_relative hlead 0
  rw [Nat.zero_add, ← filter_isStep_of_upward hlead] at hfold
  rw [normalComponents, List.foldl_append, List.filter_append]
  change (names.foldl _ (lead.foldl _ (List.replicate 0 ".."))).reverse = _
  rw [hfold, foldl_pushComponent_names hnames, List.reverse_append, List.reverse_reverse]
  rw [filter_isStep_of_upward hlead, List.reverse_replicate]

end

/-! Normal forms of paths. -/

def EndsInName (path : String) : Prop := ∃ part ∈ (components path).getLast?, isUpward part = false

instance (path : String) : Decidable (EndsInName path) :=
  inferInstanceAs (Decidable (∃ part ∈ (components path).getLast?, isUpward part = false))

theorem EndsInName.ne_empty {path : String} (h : EndsInName path) : path ≠ "" := by
  rintro rfl
  obtain ⟨part, hpart, hname⟩ := h
  obtain rfl : "" = part := by simpa [components_empty] using hpart
  exact absurd hname (by decide)

theorem not_endsInSlash {path : String} (h : EndsInName path) : endsInSlash path = false := by
  rw [endsInSlash, decide_eq_false_iff_not]
  intro hslash
  obtain ⟨front, hfront⟩ := List.getLast?_eq_some_iff.1 hslash
  have hpath : path = String.ofList front ++ "/" ++ "" := by
    rw [← String.toList_inj, hfront]
    simp [String.toList_append]
  obtain ⟨part, hpart, hname⟩ := h
  rw [hpath, components_append, components_empty] at hpart
  obtain rfl : "" = part := by simpa using hpart
  exact absurd hname (by decide)

/-- The last component of a path that ends in a name stands behind all parent steps. -/
theorem getLast?_names {path : String} {lead names : List String} (h : EndsInName path)
    (hsplit : components path = lead ++ names) (hlead : ∀ part ∈ lead, isUpward part) :
    ∃ part ∈ names.getLast?, isUpward part = false := by
  obtain ⟨part, hpart, hname⟩ := h
  cases hlast : names.getLast? with
  | some last =>
    rw [hsplit, List.getLast?_append, hlast] at hpart
    exact ⟨part, by simpa using hpart, hname⟩
  | none =>
    rw [hsplit, List.getLast?_eq_none_iff.1 hlast, List.append_nil] at hpart
    exact absurd (hlead part (List.mem_of_getLast? hpart)) (by simp [hname])

theorem components_join {steps : List String} (hne : steps ≠ [])
    (h : ∀ part ∈ steps, isStep part ∧ '/' ∉ part.toList) :
    components ("/".intercalate steps) = steps ∧ "/".intercalate steps ≠ "" := by
  have hcomponents := components_intercalate hne fun part hpart => (h part hpart).2
  refine ⟨hcomponents, fun hempty => ?_⟩
  rw [hempty, components_empty] at hcomponents
  exact absurd (h "" (by simp [← hcomponents])).1 (by decide)

theorem components_of_isAbsolute {path : String} (h : isAbsolute path) :
    ∃ rest, components path = "" :: rest := by
  obtain ⟨rest, hrest⟩ : ∃ rest, path.toList = '/' :: rest := by
    rw [isAbsolute, decide_eq_true_eq] at h
    exact List.head?_eq_some_iff.1 h
  exact ⟨(rest.splitOn '/').map String.ofList,
    by simp [components, hrest, List.splitOn_cons_eq_if_modifyHead]⟩

section

variable {path : String} {lead names : List String} (h : EndsInName path)
  (hsplit : components path = lead ++ names) (hlead : ∀ part ∈ lead, isUpward part)
  (hnames : ".." ∉ names)
include h hsplit hlead hnames

/-- What makes a path absolute is kept in the normal form. -/
theorem normalize_eq : normalize path =
      (if isAbsolute path then "/" ++ "/".intercalate (names.filter isStep)
        else "/".intercalate ((lead ++ names).filter isStep)) ∧
    components ("/".intercalate (names.filter isStep)) = names.filter isStep ∧
    components ("/".intercalate ((lead ++ names).filter isStep)) =
      (lead ++ names).filter isStep := by
  have hsteps : ∀ part ∈ (lead ++ names).filter isStep, isStep part ∧ '/' ∉ part.toList := by
    intro part hpart
    obtain ⟨hmem, hstep⟩ := List.mem_filter.1 hpart
    rw [← hsplit] at hmem
    exact ⟨hstep, slash_not_mem hmem⟩
  obtain ⟨last, hlast, hname⟩ := getLast?_names h hsplit hlead
  have hmem : last ∈ names.filter isStep :=
    List.mem_filter.2 ⟨List.mem_of_getLast? hlast, by simp_all [isUpward]⟩
  obtain ⟨hroot, hroot_ne⟩ := components_join (List.ne_nil_of_mem hmem)
    fun part hpart => hsteps part (by
      rw [List.filter_append]
      exact List.mem_append_right _ hpart)
  have hmem' : last ∈ (lead ++ names).filter isStep := by
    rw [List.filter_append]
    exact List.mem_append_right _ hmem
  obtain ⟨hrelative, hrelative_ne⟩ := components_join (List.ne_nil_of_mem hmem') hsteps
  refine ⟨?_, hroot, hrelative⟩
  have hslash := not_endsInSlash h
  cases habsolute : isAbsolute path with
  | true =>
    simp [normalize, habsolute, hslash, hsplit, normalComponents_root hlead hnames, hroot_ne]
  | false =>
    simp only [normalize, habsolute, hslash, hsplit, normalComponents_relative hlead hnames,
      hrelative_ne]
    simp

theorem components_normalize : components (normalize path) =
    if isAbsolute path then "" :: names.filter isStep else (lead ++ names).filter isStep := by
  obtain ⟨hnormal, hroot, hrelative⟩ := normalize_eq h hsplit hlead hnames
  rw [hnormal]
  split
  · have hfront := components_append "" ("/".intercalate (names.filter isStep))
    rw [hroot, components_empty] at hfront
    simpa using hfront
  · exact hrelative

theorem isAbsolute_normalize : isAbsolute (normalize path) = isAbsolute path := by
  have hcomponents := components_normalize h hsplit hlead hnames
  cases habsolute : isAbsolute path with
  | true =>
    rw [(normalize_eq h hsplit hlead hnames).1, habsolute]
    simp [isAbsolute, String.toList_append]
  | false =>
    refine Bool.eq_false_iff.2 fun hne => ?_
    obtain ⟨rest, hrest⟩ := components_of_isAbsolute hne
    have hmem : "" ∈ (lead ++ names).filter isStep := by
      rw [habsolute, hrest, if_neg Bool.false_ne_true] at hcomponents
      exact hcomponents ▸ List.mem_cons_self ..
    exact absurd (List.mem_filter.1 hmem).2 (by decide)

theorem normalize_ne_empty : normalize path ≠ "" := by
  intro hempty
  have hcomponents := components_normalize h hsplit hlead hnames
  obtain ⟨last, hlast, hname⟩ := getLast?_names h hsplit hlead
  have hmem : last ∈ components (normalize path) := by
    have hkept : last ∈ names.filter isStep :=
      List.mem_filter.2 ⟨List.mem_of_getLast? hlast, by simp_all [isUpward]⟩
    rw [hcomponents]
    split
    · exact List.mem_cons_of_mem _ hkept
    · rw [List.filter_append]
      exact List.mem_append_right _ hkept
  rw [hempty, components_empty, List.mem_singleton] at hmem
  exact absurd (hmem ▸ hname) (by decide)

/-- Normalizing takes slashes and dots away, and nothing else. -/
theorem mem_normalize_iff {c : Char} (hslash : c ≠ '/') (hdot : c ≠ '.') :
    c ∈ (normalize path).toList ↔ c ∈ path.toList := by
  rw [mem_toList_iff hslash, mem_toList_iff hslash, hsplit,
    components_normalize h hsplit hlead hnames]
  have hdots : ∀ part, isUpward part → c ∉ part.toList := by
    intro part hpart
    obtain rfl | rfl | rfl := eq_of_isUpward hpart <;> simp [hdot]
  constructor
  · rintro ⟨part, hpart, hmem⟩
    split at hpart
    · rcases List.mem_cons.1 hpart with rfl | hkept
      · cases hmem
      · exact ⟨part, List.mem_append_right _ (List.mem_filter.1 hkept).1, hmem⟩
    · exact ⟨part, (List.mem_filter.1 hpart).1, hmem⟩
  · rintro ⟨part, hpart, hmem⟩
    have hname : isUpward part = false := Bool.eq_false_iff.2 fun hup => hdots part hup hmem
    have hstep : isStep part := by simp_all [isUpward]
    refine ⟨part, ?_, hmem⟩
    split
    · have hnamed : part ∈ names := by
        rcases List.mem_append.1 hpart with hin | hin
        · simp [hlead part hin] at hname
        · exact hin
      exact List.mem_cons_of_mem _ (List.mem_filter.2 ⟨hnamed, hstep⟩)
    · exact List.mem_filter.2 ⟨hpart, hstep⟩

end

end Elevation.Path

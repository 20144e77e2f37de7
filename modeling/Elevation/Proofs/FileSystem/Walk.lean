import Elevation.FileSystem

/-! Where a path leads, told step by step: from the directory that was reached, each component
stays, ascends, descends, or follows a symbolic link. A lookup finds what a path leads to through no
more links than the system follows, and fails on every other path, one with looping links included.
-/

namespace Elevation

def Object.IsLeaf : Object → Prop
  | .file _ _ => True
  | .device => True
  | .directory => False
  | .link _ => False

namespace FileSystem

structure IsName (component : String) : Prop where
  not_empty : component ≠ ""
  not_dot : component ≠ "."
  not_parent : component ≠ ".."
  short : component.utf8ByteSize ≤ nameLimit

/-- The components lead from a directory to a place, through so many symbolic links. -/
inductive Leads (fs : FileSystem) : Nat → Place → List String → Place → Prop where
  | arrive (here : Place) : Leads fs 0 here [] here
  | stay {links : Nat} {here place : Place} {component : String} {rest : List String}
      (hblank : component = "" ∨ component = ".") (h : Leads fs links here rest place) :
      Leads fs links here (component :: rest) place
  | ascend {links : Nat} {here place : Place} {rest : List String}
      (h : Leads fs links here.dropLast rest place) : Leads fs links here (".." :: rest) place
  | descend {links : Nat} {here place : Place} {name : String} {rest : List String}
      (hname : IsName name) (hobject : fs.object? (here ++ [name]) = some .directory)
      (h : Leads fs links (here ++ [name]) rest place) : Leads fs links here (name :: rest) place
  | follow {links : Nat} {here place : Place} {name target : String} {rest : List String}
      (hname : IsName name) (hobject : fs.object? (here ++ [name]) = some (.link target))
      (htarget : target ≠ "")
      (h : Leads fs links (if Path.isAbsolute target then [] else here)
        (Path.components target ++ rest) place) : Leads fs (links + 1) here (name :: rest) place
  | finish {here : Place} {name : String} {object : Object} (hname : IsName name)
      (hobject : fs.object? (here ++ [name]) = some object) (hleaf : object.IsLeaf) :
      Leads fs 0 here [name] (here ++ [name])

structure Names (fs : FileSystem) (path : String) (place : Place) : Prop where
  no_zero : '\x00' ∉ path.toList
  not_empty : path ≠ ""
  short : path.utf8ByteSize < pathLimit
  leads : ∃ links ≤ linkLimit,
    Leads fs links (if Path.isAbsolute path then [] else fs.current) (Path.components path) place

/-- The path names a regular file, links followed, and the user may execute it. -/
def Executable (fs : FileSystem) (path : String) : Prop :=
  ∃ place content mode, fs.Names path place ∧ fs.object? place = some (.file content mode) ∧
    ownerMayExecute mode = true

variable {fs : FileSystem} {follow : Place → List String → Except Errno Place} {place : Place}

theorem walkWith_of_blank {component : String} (h : component = "" ∨ component = ".")
    (here : Place) (rest : List String) :
    walkWith fs follow here (component :: rest) = walkWith fs follow here rest := by
  simp [walkWith, h]

theorem walkWith_of_parent (here : Place) (rest : List String) :
    walkWith fs follow here (".." :: rest) = walkWith fs follow here.dropLast rest := by
  simp [walkWith]

section

variable {name : String} (hname : IsName name) {here : Place}
include hname

theorem walkWith_of_none (h : fs.object? (here ++ [name]) = none) (rest : List String) :
    walkWith fs follow here (name :: rest) = .error .noEntry := by
  simp [walkWith, hname.not_empty, hname.not_dot, hname.not_parent, Nat.not_lt.2 hname.short, h]

theorem walkWith_of_directory (h : fs.object? (here ++ [name]) = some .directory)
    (rest : List String) :
    walkWith fs follow here (name :: rest) = walkWith fs follow (here ++ [name]) rest := by
  simp [walkWith, hname.not_empty, hname.not_dot, hname.not_parent, Nat.not_lt.2 hname.short, h]

theorem walkWith_of_link {target : String} (h : fs.object? (here ++ [name]) = some (.link target))
    (rest : List String) : walkWith fs follow here (name :: rest) =
      if target = "" then .error .noEntry
      else follow (if Path.isAbsolute target then [] else here)
        (Path.components target ++ rest) := by
  simp [walkWith, hname.not_empty, hname.not_dot, hname.not_parent, Nat.not_lt.2 hname.short, h]

theorem walkWith_of_leaf {object : Object} (h : fs.object? (here ++ [name]) = some object)
    (hleaf : object.IsLeaf) (rest : List String) : walkWith fs follow here (name :: rest) =
      if rest = [] then .ok (here ++ [name]) else .error .notDirectory := by
  cases object with
  | directory => cases hleaf
  | link target => cases hleaf
  | _ =>
    simp [walkWith, hname.not_empty, hname.not_dot, hname.not_parent, Nat.not_lt.2 hname.short, h]

end

theorem object_cases (object : Object) :
    object = .directory ∨ (∃ target, object = .link target) ∨ object.IsLeaf := by
  cases object with
  | directory => exact .inl rfl
  | link target => exact .inr (.inl ⟨target, rfl⟩)
  | file content mode => exact .inr (.inr trivial)
  | device => exact .inr (.inr trivial)

/-- A walk that arrives has a way to tell, if those behind its links have. -/
theorem leads_of_walkWith {bound : Nat}
    (hfollow : ∀ here parts, follow here parts = .ok place →
      ∃ links < bound, Leads fs links here parts place) {here : Place} {parts : List String}
    (h : walkWith fs follow here parts = .ok place) :
    ∃ links ≤ bound, Leads fs links here parts place := by
  induction parts generalizing here with
  | nil =>
    obtain rfl := Except.ok.inj h
    exact ⟨0, Nat.zero_le _, .arrive here⟩
  | cons component rest ih =>
    by_cases hblank : component = "" ∨ component = "."
    · rw [walkWith_of_blank hblank] at h
      obtain ⟨links, hle, hleads⟩ := ih h
      exact ⟨links, hle, .stay hblank hleads⟩
    by_cases hparent : component = ".."
    · subst hparent
      rw [walkWith_of_parent] at h
      obtain ⟨links, hle, hleads⟩ := ih h
      exact ⟨links, hle, .ascend hleads⟩
    by_cases hlong : nameLimit < component.utf8ByteSize
    · simp [walkWith, hblank, hparent, hlong] at h
    have hname : IsName component :=
      ⟨fun he => hblank (.inl he), fun he => hblank (.inr he), hparent, Nat.le_of_not_lt hlong⟩
    cases hobject : fs.object? (here ++ [component]) with
    | none =>
      rw [walkWith_of_none hname hobject] at h
      cases h
    | some object =>
      rcases object_cases object with rfl | ⟨target, rfl⟩ | hleaf
      · rw [walkWith_of_directory hname hobject] at h
        obtain ⟨links, hle, hleads⟩ := ih h
        exact ⟨links, hle, .descend hname hobject hleads⟩
      · rw [walkWith_of_link hname hobject] at h
        split at h
        · cases h
        next htarget =>
          obtain ⟨links, hlt, hleads⟩ := hfollow _ _ h
          exact ⟨links + 1, hlt, .follow hname hobject htarget hleads⟩
      · rw [walkWith_of_leaf hname hobject hleaf] at h
        split at h
        next hrest =>
          subst hrest
          obtain rfl := Except.ok.inj h
          exact ⟨0, Nat.zero_le _, .finish hname hobject hleaf⟩
        · cases h

theorem leads_of_walk {links : Nat} {here : Place} {parts : List String}
    (h : walk fs links here parts = .ok place) :
    ∃ passed ≤ links, Leads fs passed here parts place := by
  induction links generalizing here parts with
  | zero => exact leads_of_walkWith (fun _ _ hfollow => by cases hfollow) h
  | succ links ih =>
    refine leads_of_walkWith (fun _ _ hfollow => ?_) h
    obtain ⟨passed, hle, hleads⟩ := ih hfollow
    exact ⟨passed, Nat.lt_succ_of_le hle, hleads⟩

theorem walk_eq (fs : FileSystem) (links : Nat) : ∃ follow, walk fs links = walkWith fs follow := by
  cases links with
  | zero => exact ⟨_, by funext; rfl⟩
  | succ links => exact ⟨walk fs links, by funext; rfl⟩

theorem walk_of_leads {passed : Nat} {here : Place} {parts : List String}
    (h : Leads fs passed here parts place) {links : Nat} (hle : passed ≤ links) :
    walk fs links here parts = .ok place := by
  induction h generalizing links with
  | arrive here => cases links <;> rfl
  | stay hblank _ ih =>
    have hrest := ih hle
    obtain ⟨follow, hwalk⟩ := walk_eq fs links
    rw [hwalk] at hrest ⊢
    rw [walkWith_of_blank hblank, hrest]
  | ascend _ ih =>
    have hrest := ih hle
    obtain ⟨follow, hwalk⟩ := walk_eq fs links
    rw [hwalk] at hrest ⊢
    rw [walkWith_of_parent, hrest]
  | descend hname hobject _ ih =>
    have hrest := ih hle
    obtain ⟨follow, hwalk⟩ := walk_eq fs links
    rw [hwalk] at hrest ⊢
    rw [walkWith_of_directory hname hobject, hrest]
  | follow hname hobject htarget _ ih =>
    cases links with
    | zero => cases hle
    | succ fewer =>
      have hrest := ih (Nat.le_of_succ_le_succ hle)
      rw [walk, walkWith_of_link hname hobject, if_neg htarget, hrest]
  | finish hname hobject hleaf =>
    obtain ⟨follow, hwalk⟩ := walk_eq fs links
    rw [hwalk, walkWith_of_leaf hname hobject hleaf, if_pos rfl]

theorem walk_eq_ok_iff {links : Nat} {here : Place} {parts : List String} :
    walk fs links here parts = .ok place ↔ ∃ passed ≤ links, Leads fs passed here parts place :=
  ⟨leads_of_walk, fun ⟨_, hle, h⟩ => walk_of_leads h hle⟩

/-! What the text of a path names. -/

theorem resolve_eq_ok_iff {path : String} : fs.resolve path = .ok place ↔ fs.Names path place := by
  constructor
  · intro h
    unfold resolve at h
    split at h
    · cases h
    next hzero =>
      split at h
      · cases h
      next hempty =>
        split at h
        · cases h
        next hlong =>
          exact ⟨by simpa using hzero, hempty, Nat.lt_of_not_le hlong, walk_eq_ok_iff.1 h⟩
  · rintro ⟨hzero, hempty, hshort, hleads⟩
    simp [resolve, hzero, hempty, Nat.not_le.2 hshort, walk_eq_ok_iff.2 hleads]

theorem isExecutableFile_iff {path : String} :
    fs.isExecutableFile path = true ↔ fs.Executable path := by
  constructor
  · intro h
    unfold isExecutableFile status at h
    cases hplace : fs.resolve path with
    | error errno => simp [hplace, bind, Except.bind] at h
    | ok place =>
      cases hobject : fs.object? place with
      | none => simp [hplace, hobject, bind, Except.bind] at h
      | some object =>
        cases object with
        | file content mode =>
          refine ⟨place, content, mode, resolve_eq_ok_iff.1 hplace, hobject, ?_⟩
          simpa [hplace, hobject, bind, Except.bind] using h
        | _ => simp [hplace, hobject, bind, Except.bind] at h
  · rintro ⟨place, content, mode, hnames, hobject, hmode⟩
    have hplace := resolve_eq_ok_iff.2 hnames
    simp [isExecutableFile, status, hplace, hobject, hmode, bind, Except.bind]

instance (fs : FileSystem) (path : String) : Decidable (fs.Executable path) :=
  decidable_of_iff _ isExecutableFile_iff

end FileSystem

end Elevation

import Mathlib.Control.Monad.Basic
import Elevation.Proofs.Path.Normal
import Elevation.FileSystem

/-! Looking a helper up as the system does. `find` tries normalized paths and `locate` the paths as
they are written. Both name one object as long as no parent step stands behind a name, so that
normalizing cancels nothing, and the system's limit on the bytes of a path does not tell the two
apart; then both lookups stop at one entry. Where a parent step is cancelled against a name the two
part, since the system leaves the directory that was reached and not the one that was written. -/

namespace Elevation

namespace FileSystem

open Elevation.Path (isStep isUpward)

def EndsInStep (parts : List String) : Prop := ∀ last ∈ parts.getLast?, isStep last

theorem EndsInStep.of_cons {name : String} {rest : List String} (h : EndsInStep (name :: rest)) :
    EndsInStep rest := by
  intro last hlast
  exact h last (by simp [List.getLast?_cons, show rest.getLast? = some last from hlast])

theorem EndsInStep.append {front rest : List String} (h : EndsInStep rest) (hne : rest ≠ []) :
    EndsInStep (front ++ rest) := by
  intro last hlast
  cases hrest : rest.getLast? with
  | none => exact absurd (List.getLast?_eq_none_iff.1 hrest) hne
  | some other =>
    rw [List.getLast?_append, hrest] at hlast
    obtain rfl : other = last := by simpa using hlast
    exact h other hrest

theorem endsInStep_filter (parts : List String) : EndsInStep (parts.filter isStep) :=
  fun _ hlast => (List.mem_filter.1 (List.mem_of_getLast? hlast)).2

theorem filter_eq_nil_iff {parts : List String} (h : EndsInStep parts) :
    parts.filter isStep = [] ↔ parts = [] := by
  refine ⟨fun hnil => ?_, fun hnil => by rw [hnil]; rfl⟩
  cases hlast : parts.getLast? with
  | none => exact List.getLast?_eq_none_iff.1 hlast
  | some last =>
    have hmem : last ∈ parts.filter isStep :=
      List.mem_filter.2 ⟨List.mem_of_getLast? hlast, h last hlast⟩
    rw [hnil] at hmem
    cases hmem

variable {fs : FileSystem} {follow : Place → List String → Except Errno Place}

/-- A walk passes over the components that lead nowhere, if following a link does. -/
theorem walkWith_filter
    (hfollow : ∀ here target rest, EndsInStep rest →
      follow here (target ++ rest.filter isStep) = follow here (target ++ rest))
    (here : Place) {parts : List String} (h : EndsInStep parts) :
    walkWith fs follow here (parts.filter isStep) = walkWith fs follow here parts := by
  induction parts generalizing here with
  | nil => rfl
  | cons name rest ih =>
    have hrest := h.of_cons
    cases hstep : isStep name with
    | false =>
      have hblank : name = "" ∨ name = "." := by
        by_cases he : name = "" <;> simp_all [isStep]
      rw [List.filter_cons_of_neg (by simp [hstep]), ih here hrest]
      simp [walkWith, hblank]
    | true =>
      rw [List.filter_cons_of_pos hstep]
      simp only [walkWith, ih _ hrest, filter_eq_nil_iff hrest, hfollow _ _ _ hrest]

theorem walk_filter (fs : FileSystem) (links : Nat) (here : Place) {parts : List String}
    (h : EndsInStep parts) :
    walk fs links here (parts.filter isStep) = walk fs links here parts := by
  induction links generalizing here parts with
  | zero => exact walkWith_filter (fun _ _ _ _ => rfl) here h
  | succ links ih =>
    refine walkWith_filter (fun here target rest hrest => ?_) here h
    by_cases hne : rest = []
    · rw [hne, List.filter_nil]
    · have hkept := mt (filter_eq_nil_iff hrest).1 hne
      rw [← ih here (hrest.append hne), ← ih here ((endsInStep_filter rest).append hkept)]
      simp [List.filter_append, List.filter_filter]

theorem walk_root (fs : FileSystem) (links : Nat) {lead : List String}
    (h : ∀ part ∈ lead, isUpward part) (rest : List String) :
    walk fs links [] (lead ++ rest) = walk fs links [] rest := by
  induction lead with
  | nil => rfl
  | cons part lead ih =>
    have hlead := ih fun other hother => h other (List.mem_cons_of_mem _ hother)
    have hpart := Path.eq_of_isUpward (h part (List.mem_cons_self ..))
    cases links <;> rcases hpart with rfl | rfl | rfl <;> simpa [walk, walkWith] using hlead

/-- The path names one object, whether it is written as it is or in its normal form. -/
structure Faithful (path : String) : Prop where
  ascends_first : Path.AscendsFirst (Path.components path)
  ends_in_name : Path.EndsInName path
  within_limit : path.utf8ByteSize < pathLimit ↔ (Path.normalize path).utf8ByteSize < pathLimit

theorem faithful_iff {path : String} : Faithful path ↔
    Path.AscendsFirst (Path.components path) ∧ Path.EndsInName path ∧
      (path.utf8ByteSize < pathLimit ↔ (Path.normalize path).utf8ByteSize < pathLimit) :=
  ⟨fun h => ⟨h.1, h.2, h.3⟩, fun h => ⟨h.1, h.2.1, h.2.2⟩⟩

instance (path : String) : Decidable (Faithful path) := decidable_of_iff' _ faithful_iff

theorem resolve_normalize (fs : FileSystem) {path : String} (h : Faithful path) :
    fs.resolve (Path.normalize path) = fs.resolve path := by
  obtain ⟨lead, names, hsplit, hlead, hnames⟩ := h.ascends_first.exists_split
  have hzero := Path.mem_normalize_iff h.ends_in_name hsplit hlead hnames (c := '\x00')
    (by decide) (by decide)
  have hcomponents := Path.components_normalize h.ends_in_name hsplit hlead hnames
  have habsolute := Path.isAbsolute_normalize h.ends_in_name hsplit hlead hnames
  have hsize : pathLimit ≤ (Path.normalize path).utf8ByteSize ↔ pathLimit ≤ path.utf8ByteSize := by
    have := h.within_limit
    omega
  have hnames_end : EndsInStep names := by
    obtain ⟨last, hlast, hname⟩ := Path.getLast?_names h.ends_in_name hsplit hlead
    intro other hother
    obtain rfl : last = other := by simpa [show names.getLast? = some last from hlast] using hother
    simp_all [isUpward]
  have hall_end : EndsInStep (lead ++ names) := by
    obtain ⟨last, hlast, -⟩ := Path.getLast?_names h.ends_in_name hsplit hlead
    exact hnames_end.append (by rintro rfl; cases hlast)
  have hwalk : walk fs linkLimit (if Path.isAbsolute path then [] else fs.current)
      (Path.components (Path.normalize path)) =
        walk fs linkLimit (if Path.isAbsolute path then [] else fs.current)
          (Path.components path) := by
    rw [hcomponents, hsplit]
    split
    · have hroot : ∀ part ∈ [""], isUpward part := by decide
      calc walk fs linkLimit [] ([""] ++ names.filter isStep)
          = walk fs linkLimit [] (names.filter isStep) := walk_root fs _ hroot _
        _ = walk fs linkLimit [] names := walk_filter fs _ _ hnames_end
        _ = walk fs linkLimit [] (lead ++ names) := (walk_root fs _ hlead _).symm
    · exact walk_filter fs _ _ hall_end
  have hempty := Path.normalize_ne_empty h.ends_in_name hsplit hlead hnames
  simp only [resolve, List.contains_eq_mem, hzero, hsize, habsolute, hempty,
    h.ends_in_name.ne_empty, hwalk]

end FileSystem

namespace SearchPath

open FileSystem (Faithful resolve_normalize)

theorem normalize_dot {name : String} (hname : name ≠ "") (hslash : '/' ∉ name.toList) :
    Path.normalize ("." ++ "/" ++ name) = Path.normalize name := by
  have hdot : ("." ++ "/" ++ name).toList = '.' :: '/' :: name.toList := by
    simp [String.toList_append]
  have habsolute : Path.isAbsolute ("." ++ "/" ++ name) = Path.isAbsolute name := by
    have hhead : name.toList.head? ≠ some '/' := fun hhead => hslash (List.mem_of_head? hhead)
    simp only [Path.isAbsolute, hdot, hhead]
    rfl
  have hends : Path.endsInSlash ("." ++ "/" ++ name) = Path.endsInSlash name := by
    have hne : name.toList ≠ [] := by simpa using hname
    simp only [Path.endsInSlash, hdot, List.getLast?_cons, List.getLast?_eq_some_getLast hne]
    rfl
  have hnormal (absolute : Bool) :
      Path.normalComponents absolute (Path.components ("." ++ "/" ++ name)) =
        Path.normalComponents absolute (Path.components name) := by
    have hpush : Path.pushComponent absolute [] "." = [] :=
      Path.pushComponent_of_not_isStep rfl []
    rw [Path.components_append, show Path.components "." = ["."] by decide]
    simp only [Path.normalComponents, List.singleton_append, List.foldl_cons, hpush]
  simp only [Path.normalize, habsolute, hends, hnormal]

theorem candidate_eq_normalize {name : String} (hname : name ≠ "") (hslash : hasSlash name = false)
    (entry : String) : candidate name entry = Path.normalize (plainCandidate name entry) := by
  unfold candidate plainCandidate
  split
  · have hjoin : Path.join [".", name] = Path.normalize ("." ++ "/" ++ name) := by
      simp [Path.join, hname]
    rw [hjoin, normalize_dot hname (by simpa [hasSlash] using hslash)]
  next hentry => simp [Path.join, hname, hentry]

theorem isExecutableFile_candidate (fs : FileSystem) {name entry : String} (hname : name ≠ "")
    (hslash : hasSlash name = false) (h : Faithful (plainCandidate name entry)) :
    fs.isExecutableFile (candidate name entry) =
      fs.isExecutableFile (plainCandidate name entry) := by
  rw [FileSystem.isExecutableFile, FileSystem.isExecutableFile, FileSystem.status,
    FileSystem.status, candidate_eq_normalize hname hslash, resolve_normalize fs h]

theorem exists_place {fs : FileSystem} {path : String} (h : fs.isExecutableFile path) :
    ∃ place, fs.resolve path = .ok place := by
  cases hplace : fs.resolve path with
  | ok place => exact ⟨place, rfl⟩
  | error errno =>
    simp [FileSystem.isExecutableFile, FileSystem.status, hplace, bind, Except.bind] at h

/-- A lookup that tries a path for each entry stops at an entry: at no earlier one has it found an
executable file. -/
structure StopsAt (fs : FileSystem) (tried : String → String) (earlier : List String)
    (entry : String) : Prop where
  passes : ∀ other ∈ earlier, fs.isExecutableFile (tried other) = false
  finds : fs.isExecutableFile (tried entry) = true

theorem StopsAt.find?_eq {fs : FileSystem} {tried : String → String} {earlier : List String}
    {entry : String} (h : StopsAt fs tried earlier entry) (later : List String) :
    ((earlier ++ entry :: later).map tried).find? fs.isExecutableFile = some (tried entry) := by
  rw [List.map_append, List.map_cons, List.find?_eq_some_iff_append]
  refine ⟨h.finds, earlier.map tried, later.map tried, rfl, fun path hpath => ?_⟩
  obtain ⟨other, hother, rfl⟩ := List.mem_map.1 hpath
  simp [h.passes other hother]

/-- The entries at which both lookups arrive: those in front of the first one in which either of
them finds something, and that one. -/
def reached (fs : FileSystem) (name : String) : List String → List String
  | [] => []
  | entry :: rest =>
    if fs.isExecutableFile (candidate name entry) ∨ fs.isExecutableFile (plainCandidate name entry)
    then [entry]
    else entry :: reached fs name rest

theorem mem_reached_cons (fs : FileSystem) (name entry : String) (rest : List String) :
    entry ∈ reached fs name (entry :: rest) := by
  rw [reached]
  split <;> exact List.mem_cons_self ..

theorem stop_together (fs : FileSystem) {name : String} (hname : name ≠ "")
    (hslash : hasSlash name = false) {all : List String}
    (h : ∀ entry ∈ reached fs name all, Faithful (plainCandidate name entry)) :
    (∀ entry ∈ all, fs.isExecutableFile (candidate name entry) = false ∧
      fs.isExecutableFile (plainCandidate name entry) = false) ∨
    ∃ earlier entry later, all = earlier ++ entry :: later ∧
      Faithful (plainCandidate name entry) ∧
      StopsAt fs (candidate name) earlier entry ∧
      StopsAt fs (plainCandidate name) earlier entry := by
  induction all with
  | nil => exact .inl fun entry hentry => by cases hentry
  | cons first rest ih =>
    have hfaithful := h first (mem_reached_cons fs name first rest)
    have hagree := isExecutableFile_candidate fs hname hslash hfaithful
    cases hfinds : fs.isExecutableFile (plainCandidate name first) with
    | true =>
      have hnone (tried : String → String) :
          ∀ other ∈ ([] : List String), fs.isExecutableFile (tried other) = false := by simp
      exact .inr ⟨[], first, rest, rfl, hfaithful, ⟨hnone _, hagree.trans hfinds⟩,
        ⟨hnone _, hfinds⟩⟩
    | false =>
      have hmisses := hagree.trans hfinds
      have hrest : ∀ entry ∈ reached fs name rest, Faithful (plainCandidate name entry) :=
        fun entry hentry => h entry (by simp [reached, hmisses, hfinds, hentry])
      rcases ih hrest with hall | ⟨earlier, entry, later, rfl, hentry, htried, hwritten⟩
      · exact .inl (List.forall_mem_cons.2 ⟨⟨hmisses, hfinds⟩, hall⟩)
      · refine .inr ⟨first :: earlier, entry, later, rfl, hentry, ?_, ?_⟩
        · exact ⟨List.forall_mem_cons.2 ⟨hmisses, htried.passes⟩, htried.finds⟩
        · exact ⟨List.forall_mem_cons.2 ⟨hfinds, hwritten.passes⟩, hwritten.finds⟩

variable {name searchPath : String}

theorem find_eq_map (fs : FileSystem) (hname : name ≠ "") (hslash : hasSlash name = false)
    (hpath : searchPath ≠ "") : find fs name searchPath =
      ((entries searchPath).map (candidate name)).find? fs.isExecutableFile := by
  simp [find, hname, hslash, hpath]

/-- For a name without slashes and a search path that are not empty. If, up to the first entry in
which one of the lookups finds something, the path that the system tries is named faithfully by its
normal form, either both lookups find nothing, or both stop at one entry of the search path, and
what they try there is one object. -/
theorem find_follows_locate (fs : FileSystem) (hname : name ≠ "") (hslash : hasSlash name = false)
    (hpath : searchPath ≠ "")
    (hfaithful : ∀ entry ∈ reached fs name (entries searchPath),
      Faithful (plainCandidate name entry)) :
    (find fs name searchPath = none ∧ locate fs name searchPath = none) ∨
      ∃ earlier entry later place, entries searchPath = earlier ++ entry :: later ∧
        find fs name searchPath = some (candidate name entry) ∧
        locate fs name searchPath = some (plainCandidate name entry) ∧
        StopsAt fs (candidate name) earlier entry ∧
        StopsAt fs (plainCandidate name) earlier entry ∧
        fs.resolve (candidate name entry) = .ok place ∧
        fs.resolve (plainCandidate name entry) = .ok place := by
  rw [find_eq_map fs hname hslash hpath, locate]
  rcases stop_together fs hname hslash hfaithful with
    hnone | ⟨earlier, entry, later, hentries, hentry, htried, hwritten⟩
  · have hmisses (tried : String → String)
        (h : ∀ entry ∈ entries searchPath, fs.isExecutableFile (tried entry) = false) :
        ((entries searchPath).map tried).find? fs.isExecutableFile = none := by
      simpa using h
    exact .inl ⟨hmisses _ fun entry hentry => (hnone entry hentry).1,
      hmisses _ fun entry hentry => (hnone entry hentry).2⟩
  · obtain ⟨place, hplace⟩ := exists_place hwritten.finds
    refine .inr ⟨earlier, entry, later, place, hentries, ?_, ?_, htried, hwritten, ?_, hplace⟩
    · rw [hentries, htried.find?_eq later]
    · rw [hentries, hwritten.find?_eq later]
    · rw [candidate_eq_normalize hname hslash, resolve_normalize fs hentry, hplace]

theorem find_follows_locate_through_link :
    let fs : FileSystem := ⟨[(["opt"], .directory), (["opt", "bin"], .directory),
      (["opt", "bin", "sudo"], .file [] 0o755), (["home"], .directory),
      (["home", "tools"], .link "../opt//./bin")], ["home"]⟩
    let searchPath := "::../usr:./tools/.:/missing/../opt/bin"
    "sudo" ≠ "" ∧ hasSlash "sudo" = false ∧ searchPath ≠ "" ∧
      (∀ entry ∈ reached fs "sudo" (entries searchPath),
        Faithful (plainCandidate "sudo" entry)) ∧
      ¬ Faithful (plainCandidate "sudo" "/missing/../opt/bin") ∧
      find fs "sudo" searchPath = some "tools/sudo" ∧
      locate fs "sudo" searchPath = some "./tools/./sudo" ∧
      fs.resolve "tools/sudo" = .ok ["opt", "bin", "sudo"] ∧
      fs.resolve "./tools/./sudo" = .ok ["opt", "bin", "sudo"] := by
  intro fs searchPath
  have hslash : hasSlash "sudo" = false := by decide
  have hfaithful : ∀ entry ∈ reached fs "sudo" (entries searchPath),
      Faithful (plainCandidate "sudo" entry) := by
    decide +kernel
  have hbehind : ¬ Faithful (plainCandidate "sudo" "/missing/../opt/bin") := by decide +kernel
  have hfind : find fs "sudo" searchPath = some "tools/sudo" := by decide +kernel
  have hlocate : locate fs "sudo" searchPath = some "./tools/./sudo" := by decide +kernel
  have hplace : fs.resolve "./tools/./sudo" = .ok ["opt", "bin", "sudo"] := by decide +kernel
  refine ⟨by decide, hslash, by decide, hfaithful, hbehind, hfind, hlocate, ?_, hplace⟩
  rcases find_follows_locate fs (by decide) hslash (by decide) hfaithful with
    ⟨hnone, -⟩ | ⟨earlier, entry, later, place, -, hfound, hlocated, -, -, htried, hwritten⟩
  · rw [hfind] at hnone
    cases hnone
  · rw [← Option.some.inj (hlocate.symm.trans hlocated), hplace] at hwritten
    rw [Option.some.inj (hfind.symm.trans hfound), htried, hwritten]

/-- A dot for a name. Normalizing makes the file itself of it, which the system takes for a
directory. -/
example :
    let fs : FileSystem := ⟨[(["bin"], .directory), (["bin", "sudo"], .file [] 0o755)], []⟩
    find fs "." "/bin/sudo" = some "/bin/sudo" ∧ locate fs "." "/bin/sudo" = none := by
  decide +kernel

/-- An entry below a directory that does not exist. The helper is found in what normalizing makes of
the entry, but the system finds nothing there. -/
theorem find_below_missing_directory :
    let fs : FileSystem := ⟨[(["bin"], .directory), (["bin", "sudo"], .file [] 0o755)], []⟩
    find fs "sudo" "/missing/../bin" = some "/bin/sudo" ∧
      locate fs "sudo" "/missing/../bin" = none := by
  decide +kernel

/-- An entry with a parent step behind a link: both lookups find a file, but not the same. -/
example :
    let fs : FileSystem := ⟨[(["bin"], .directory), (["bin", "sudo"], .file [] 0o755),
      (["opt"], .directory), (["opt", "tools"], .directory), (["opt", "bin"], .directory),
      (["opt", "bin", "sudo"], .file [] 0o755), (["link"], .link "opt/tools")], []⟩
    find fs "sudo" "/link/../bin" = some "/bin/sudo" ∧
      fs.resolve "/bin/sudo" = .ok ["bin", "sudo"] ∧
      locate fs "sudo" "/link/../bin" = some "/link/../bin/sudo" ∧
      fs.resolve "/link/../bin/sudo" = .ok ["opt", "bin", "sudo"] := by
  decide +kernel

end SearchPath

end Elevation

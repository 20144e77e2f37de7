import Elevation.Proofs.FileSystem.Walk
import Elevation.Proofs.SearchPath.Resolution

/-! Which file a lookup answers. A name with a slash stands for itself. Any other name is tried in
the entries between the colons of the search path, one after the other, and the first path that
leads to an executable file is the answer; what is no such file is passed over. Searching two paths
one after the other is searching them joined. -/

namespace Elevation.SearchPath

/-- The entries stand between the colons of the search path. -/
structure Separates (parts : List String) (searchPath : String) : Prop where
  not_nil : parts ≠ []
  no_colon : ∀ entry ∈ parts, ':' ∉ entry.toList
  joined : ":".intercalate parts = searchPath

def directory (entry : String) : String := if entry = "" then "." else entry

/-- The name is an executable file in the entry at an index, and in no entry before it. -/
structure FirstIn (fs : FileSystem) (name : String) (parts : List String) (index : Nat)
    (path : String) : Prop where
  tried : ∃ entry, parts[index]? = some entry ∧ path = Path.join [directory entry, name]
  executable : fs.Executable path
  first : ∀ earlier < index, ∀ entry ∈ parts[earlier]?,
    ¬ fs.Executable (Path.join [directory entry, name])

theorem candidate_eq_join (name entry : String) :
    candidate name entry = Path.join [directory entry, name] := by
  by_cases h : entry = "" <;> simp [candidate, directory, h]

theorem hasSlash_iff {name : String} : hasSlash name = true ↔ '/' ∈ name.toList := by
  simp [hasSlash]

theorem hasSlash_eq_false {name : String} (h : '/' ∉ name.toList) : hasSlash name = false := by
  simpa [hasSlash] using h

/-! Entries and colons. -/

theorem separates_iff {parts : List String} {searchPath : String} :
    Separates parts searchPath ↔ parts = entries searchPath := by
  have hcolon : (":" : String).toList = [':'] := rfl
  constructor
  · rintro ⟨hne, hcolons, rfl⟩
    have hsplit : ([':'].intercalate (parts.map String.toList)).splitOn ':' =
        parts.map String.toList :=
      List.splitOn_intercalate ':' (by simpa using hcolons) (by simpa using hne)
    rw [entries, String.toList_intercalate, hcolon, hsplit]
    simp [Function.comp_def]
  · rintro rfl
    refine ⟨?_, ?_, ?_⟩
    · simp [entries, List.splitOn_ne_nil]
    · intro entry hentry
      obtain ⟨piece, hpiece, rfl⟩ := List.mem_map.1 hentry
      simpa using Path.not_mem_of_mem_splitOn hpiece
    · have hjoin : [':'].intercalate (searchPath.toList.splitOn ':') = searchPath.toList :=
        List.intercalate_splitOn ':'
      rw [← String.toList_inj, String.toList_intercalate, hcolon, ← hjoin, entries]
      simp [Function.comp_def]

theorem entries_append (front back : String) :
    entries (front ++ ":" ++ back) = entries front ++ entries back := by
  have hcolon : (":" : String).toList = [':'] := rfl
  simp [entries, String.toList_append, hcolon, List.splitOn_append_cons_self]

/-! The three ways to look a name up. -/

theorem find_of_slash (fs : FileSystem) {name : String} (hslash : '/' ∈ name.toList)
    (searchPath path : String) :
    find fs name searchPath = some path ↔ path = name ∧ fs.Executable name := by
  have hne : name ≠ "" := by
    rintro rfl
    cases hslash
  rw [find, if_neg hne, if_pos (hasSlash_iff.2 hslash), ← FileSystem.isExecutableFile_iff]
  by_cases hfile : fs.isExecutableFile name = true
  · simp [hfile, eq_comm]
  · simp [hfile]

theorem find_of_empty (fs : FileSystem) {name searchPath : String} (hslash : '/' ∉ name.toList)
    (h : name = "" ∨ searchPath = "") : find fs name searchPath = none := by
  rcases h with rfl | rfl
  · rfl
  · simp [find, hasSlash_eq_false hslash]

variable {name searchPath : String}

theorem find_eq_some_iff (fs : FileSystem) (hname : name ≠ "") (hslash : '/' ∉ name.toList)
    (hpath : searchPath ≠ "") (path : String) : find fs name searchPath = some path ↔
      ∃ index, FirstIn fs name (entries searchPath) index path := by
  rw [find_eq_map fs hname (hasSlash_eq_false hslash) hpath, List.find?_eq_some_iff_getElem]
  simp only [List.getElem_map, List.length_map, Bool.not_eq_eq_eq_not, Bool.not_true,
    candidate_eq_join]
  constructor
  · rintro ⟨hfile, index, hlt, rfl, hfirst⟩
    refine ⟨index, ⟨_, List.getElem?_eq_getElem hlt, rfl⟩, FileSystem.isExecutableFile_iff.1 hfile,
      fun earlier hearlier entry hentry => ?_⟩
    obtain ⟨-, rfl⟩ := List.getElem?_eq_some_iff.1 hentry
    rw [← FileSystem.isExecutableFile_iff, hfirst earlier hearlier]
    exact Bool.false_ne_true
  · rintro ⟨index, ⟨entry, hentry, rfl⟩, hfile, hfirst⟩
    obtain ⟨hlt, rfl⟩ := List.getElem?_eq_some_iff.1 hentry
    refine ⟨FileSystem.isExecutableFile_iff.2 hfile, index, hlt, rfl, fun earlier hearlier => ?_⟩
    have hnot := hfirst earlier hearlier _ (List.getElem?_eq_getElem (Nat.lt_trans hearlier hlt))
    rw [← FileSystem.isExecutableFile_iff] at hnot
    exact Bool.not_eq_true _ ▸ hnot

theorem find_eq_none_iff (fs : FileSystem) (hname : name ≠ "") (hslash : '/' ∉ name.toList)
    (hpath : searchPath ≠ "") : find fs name searchPath = none ↔
      ∀ entry ∈ entries searchPath, ¬ fs.Executable (Path.join [directory entry, name]) := by
  rw [find_eq_map fs hname (hasSlash_eq_false hslash) hpath, List.find?_eq_none]
  simp only [List.mem_map, forall_exists_index, and_imp, forall_apply_eq_imp_iff₂,
    candidate_eq_join, FileSystem.isExecutableFile_iff]

theorem find_append (fs : FileSystem) (hslash : '/' ∉ name.toList) {front back : String}
    (hfront : front ≠ "") (hback : back ≠ "") :
    find fs name (front ++ ":" ++ back) = (find fs name front).or (find fs name back) := by
  by_cases hname : name = ""
  · subst hname
    rfl
  have hno := hasSlash_eq_false hslash
  have hjoined : front ++ ":" ++ back ≠ "" := by simp [hfront]
  rw [find_eq_map fs hname hno hjoined, find_eq_map fs hname hno hfront,
    find_eq_map fs hname hno hback, entries_append, List.map_append, List.find?_append]

/-- For every file system, name and search path. A name with a slash is its own answer if it leads
to an executable file, and otherwise nothing is found, whatever the search path. An empty name, and
any name in an empty search path, is not found. Any other answer is the name joined to the first
entry in which it leads to an executable file, and there is none only if no entry has one. -/
theorem find_first_executable (fs : FileSystem) (name searchPath : String) :
    ('/' ∈ name.toList → ∀ path,
      find fs name searchPath = some path ↔ path = name ∧ fs.Executable name) ∧
    ('/' ∉ name.toList → name = "" ∨ searchPath = "" → find fs name searchPath = none) ∧
    ('/' ∉ name.toList → name ≠ "" → searchPath ≠ "" →
      ∃ parts, Separates parts searchPath ∧
        (∀ others, Separates others searchPath → others = parts) ∧
        (∀ path, find fs name searchPath = some path ↔ ∃ index, FirstIn fs name parts index path) ∧
        (find fs name searchPath = none ↔
          ∀ entry ∈ parts, ¬ fs.Executable (Path.join [directory entry, name]))) ∧
    ('/' ∉ name.toList → ∀ front back, front ≠ "" → back ≠ "" →
      find fs name (front ++ ":" ++ back) = (find fs name front).or (find fs name back)) := by
  refine ⟨fun hslash => find_of_slash fs hslash searchPath, find_of_empty fs, ?_, ?_⟩
  · intro hslash hname hpath
    refine ⟨entries searchPath, separates_iff.2 rfl, fun others => separates_iff.1, ?_, ?_⟩
    · exact find_eq_some_iff fs hname hslash hpath
    · exact find_eq_none_iff fs hname hslash hpath
  · intro hslash front back hfront hback
    exact find_append fs hslash hfront hback

/-- In the current directory the file may not be executed, the next entry is a link to itself, and
in the one behind it there is a directory of that name. Two links lead from the fourth entry to the
file that is found. -/
theorem find_first_executable_through_links :
    let fs : FileSystem := ⟨[(["home"], .directory), (["home", "sudo"], .file [] 0o644),
      (["loop"], .link "loop"), (["opt"], .directory), (["opt", "sudo"], .directory),
      (["bin"], .directory), (["bin", "sudo"], .link "../etc/sudo"), (["etc"], .directory),
      (["etc", "sudo"], .link "/usr/sudo"), (["usr"], .directory),
      (["usr", "sudo"], .file [] 0o755)], ["home"]⟩
    '/' ∉ "sudo".toList ∧ find fs "sudo" ":/loop:/opt:/bin/:/usr" = some "/bin/sudo" := by
  intro fs
  have hslash : '/' ∉ "sudo".toList := by decide
  refine ⟨hslash, ?_⟩
  have hfind := find_first_executable fs "sudo" ":/loop:/opt:/bin/:/usr"
  obtain ⟨parts, -, hunique, hsome, -⟩ := hfind.2.2.1 hslash (by decide) (by decide)
  obtain rfl : ["", "/loop", "/opt", "/bin/", "/usr"] = parts :=
    hunique _ ⟨by decide, by decide, by decide⟩
  refine (hsome _).2 ⟨3, ⟨"/bin/", rfl, by decide +kernel⟩, by decide +kernel, ?_⟩
  decide +kernel

end Elevation.SearchPath

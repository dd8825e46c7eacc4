import Hexabus.Hbc.Syntax
import Hexabus.Lib.Search

/-!
# Include files

`include_handling.cpp`, and the loop of `hbcomp.cpp` over the files. The list of files grows
while the loop goes along it. A relative name is looked for in the directory of the main
file and then in the directories above it, and a file that is on the list is not added
again. The walk is a breadth-first search over the include statements.
-/

namespace Hexabus.Hbc

open Lib.Search

/-! ## Files -/

/-- An absolute path: its elements behind the root directory. -/
abbrev AbsolutePath := List Text

/-- `fs::path`. -/
inductive FilePath
  | absolute (path : AbsolutePath)
  | relative (elements : List Text)
  deriving DecidableEq

/-- `include_doc`. -/
structure IncludeDoc where
  lineno : Nat
  filename : Text
  readFromFile : Text
  deriving DecidableEq

/-- What comes of a file: it cannot be opened, it does not parse, or it has these include
statements in it. -/
inductive FileContents
  | cannotOpen
  | notParsed
  | parsed (includes : List IncludeDoc)

/-- The file system, and the parser on its files. `fs::exists` can make an exception. -/
structure SourceFiles where
  path : Text → FilePath
  string : AbsolutePath → Text
  initialPath : AbsolutePath
  fsExists : AbsolutePath → Option Bool
  read : AbsolutePath → FileContents

def dot : Text := ['.']

def dotDot : Text := ['.', '.']

/-- One element of `normalize`; `..` takes a name away, and stays where there is none. -/
def normalizeStep (done : AbsolutePath) (element : Text) : AbsolutePath :=
  if element = dot then done
  else if element = dotDot then
    match done.getLast? with
    | none => done ++ [element]
    | some name => if name = dotDot then done ++ [element] else done.dropLast
  else done ++ [element]

/-- `fs::path::normalize`, for a path that does not end in a dot. -/
def normalize (path : AbsolutePath) : AbsolutePath := path.foldl normalizeStep []

/-! ## The list of files -/

/-- Where the search for a file ends. -/
inductive Located
  | found (path : AbsolutePath)
  | notFound
  | filesystemError
  deriving DecidableEq

/-- Why the compiler stops. -/
inductive IncludeError
  | fileNotFound (file : Text) (lineno : Nat) (filename : Text)
  | filesystemError
  | couldNotOpen (file : Text)
  | parsingFailed (file : Text)

structure IncludeHandling where
  filenames : List AbsolutePath
  baseDir : AbsolutePath

variable (files : SourceFiles)

/-- The loop that ascends in the directory tree. -/
def searchUp (includepath : List Text) : Nat → AbsolutePath → Option Located
  | 0, _ => none
  | fuel + 1, searchDir =>
    match files.fsExists (searchDir ++ includepath) with
    | none => some .filesystemError
    | some true => some (.found (searchDir ++ includepath))
    | some false =>
      if searchDir = [] then some .notFound
      else searchUp includepath fuel (normalize (searchDir ++ [dotDot]))

/-- The first part of `addFileName`. -/
def locate (fuel : Nat) (baseDir : AbsolutePath) (filename : Text) : Option Located :=
  match files.path filename with
  | .absolute path =>
    match files.fsExists path with
    | none => some .filesystemError
    | some true => some (.found path)
    | some false => some .notFound
  | .relative includepath => searchUp files includepath fuel baseDir

/-- The constructor of `IncludeHandling`. -/
def IncludeHandling.main (mainFileName : Text) : IncludeHandling :=
  let main := match files.path mainFileName with
    | .absolute path => path
    | .relative elements => files.initialPath ++ elements
  ⟨[main], main.dropLast⟩

def IncludeHandling.addFileName (fuel : Nat) (handling : IncludeHandling) (incl : IncludeDoc) :
    Option (Except IncludeError IncludeHandling) :=
  match locate files fuel handling.baseDir incl.filename with
  | none => none
  | some .filesystemError => some (.error .filesystemError)
  | some .notFound => some (.error (.fileNotFound incl.readFromFile incl.lineno incl.filename))
  | some (.found fileToAdd) =>
    some (.ok { handling with filenames := insertNew handling.filenames fileToAdd })

def IncludeHandling.addFileNames (fuel : Nat) (handling : IncludeHandling) :
    List IncludeDoc → Option (Except IncludeError IncludeHandling)
  | [] => some (.ok handling)
  | incl :: rest =>
    match handling.addFileName files fuel incl with
    | none => none
    | some (.error e) => some (.error e)
    | some (.ok handling) => handling.addFileNames fuel rest

/-! ## The loop -/

/-- `FilenameAnnotation`, on include statements. -/
def annotate (file : Text) (blocks : List IncludeDoc) : List IncludeDoc :=
  blocks.map fun incl => if incl.readFromFile = [] then { incl with readFromFile := file } else incl

/-- The loop of `main` before its next turn; `parsed` lists the files that were parsed. -/
structure IncludeLoop where
  f : Nat
  includes : IncludeHandling
  ast : List IncludeDoc
  parsed : List AbsolutePath

structure IncludeRun where
  parsed : List AbsolutePath
  error : Option IncludeError

/-- The loop over the files; the fuel bounds its turns, and the search for one file. -/
def includeLoop (searchFuel : Nat) : Nat → IncludeLoop → Option IncludeRun
  | 0, _ => none
  | fuel + 1, s =>
    match s.includes.filenames[s.f]? with
    | none => some ⟨s.parsed, none⟩
    | some file =>
      match files.read file with
      | .cannotOpen => some ⟨s.parsed, some (.couldNotOpen (files.string file))⟩
      | .notParsed => some ⟨s.parsed ++ [file], some (.parsingFailed (files.string file))⟩
      | .parsed blocks =>
        let ast := annotate (files.string file) (s.ast ++ blocks)
        match s.includes.addFileNames files searchFuel ast with
        | none => none
        | some (.error e) => some ⟨s.parsed ++ [file], some e⟩
        | some (.ok includes) =>
          includeLoop searchFuel fuel ⟨s.f + 1, includes, ast, s.parsed ++ [file]⟩

/-- `main`, up to the end of the loop. -/
def processIncludes (fuel : Nat) (mainFileName : Text) : Option IncludeRun :=
  includeLoop files fuel fuel ⟨0, IncludeHandling.main files mainFileName, [], []⟩

/-! ## What the files say -/

/-- The directories from a directory upwards. -/
def upwards (baseDir : AbsolutePath) : Nat → AbsolutePath
  | 0 => baseDir
  | n + 1 => normalize (upwards baseDir n ++ [dotDot])

/-- The file that a name stands for: an absolute one itself, a relative one in the first
directory upwards that has it. -/
def Finds (baseDir : AbsolutePath) (filename : Text) (path : AbsolutePath) : Prop :=
  files.fsExists path = some true ∧
    (files.path filename = .absolute path ∨
      ∃ includepath n, files.path filename = .relative includepath ∧
        path = upwards baseDir n ++ includepath ∧
        ∀ k < n, files.fsExists (upwards baseDir k ++ includepath) = some false ∧
          upwards baseDir k ≠ [])

/-- A file that parses has a statement that includes the other. -/
def Includes (baseDir path path' : AbsolutePath) : Prop :=
  ∃ blocks incl, files.read path = .parsed blocks ∧ incl ∈ blocks ∧
    Finds files baseDir incl.filename path'

/-- The main file, as the list of files begins with it. -/
def mainFile (mainFileName : Text) : AbsolutePath :=
  ((IncludeHandling.main files mainFileName).filenames.head?).getD []

/-- The directory of the main file. -/
def mainDir (mainFileName : Text) : AbsolutePath :=
  (IncludeHandling.main files mainFileName).baseDir

/-- Includes lead from the main file to this one. -/
def FileReachable (mainFileName : Text) (path : AbsolutePath) : Prop :=
  Relation.ReflTransGen (Includes files (mainDir files mainFileName)) (mainFile files mainFileName)
    path

/-- The file parses, and every file that it includes is found. -/
def Sound (baseDir path : AbsolutePath) : Prop :=
  ∃ blocks, files.read path = .parsed blocks ∧
    ∀ incl ∈ blocks, ∃ path', Finds files baseDir incl.filename path'

/-! ## Normal paths -/

/-- Some `..` and then names. -/
structure NormalPath (up : Nat) (names path : AbsolutePath) : Prop where
  split : path = List.replicate up dotDot ++ names
  plain : ∀ name ∈ names, name ≠ dot ∧ name ≠ dotDot

theorem normalizeStep_name {done : AbsolutePath} {name : Text} (h : name ≠ dot ∧ name ≠ dotDot) :
    normalizeStep done name = done ++ [name] := by
  unfold normalizeStep
  rw [if_neg h.1, if_neg h.2]

theorem normalizeStep_up {done : AbsolutePath} {name : Text} (h : name ≠ dotDot) :
    normalizeStep (done ++ [name]) dotDot = done := by
  unfold normalizeStep
  rw [if_neg (by decide), if_pos rfl, List.getLast?_concat]
  simp only [h, if_false, List.dropLast_concat]

/-- At the root, or behind other `..`, there is no name to take away. -/
theorem normalizeStep_stay (up : Nat) :
    normalizeStep (List.replicate up dotDot) dotDot = List.replicate (up + 1) dotDot := by
  unfold normalizeStep
  rw [if_neg (by decide), if_pos rfl]
  cases up with
  | zero => rfl
  | succ up =>
    rw [List.replicate_succ', List.getLast?_concat]
    simp only [if_true]
    rw [← List.replicate_succ', ← List.replicate_succ']

theorem normalPath_step {up : Nat} {names path : AbsolutePath} (h : NormalPath up names path)
    (element : Text) : ∃ up' names', NormalPath up' names' (normalizeStep path element) ∧
      names'.length ≤ names.length + 1 := by
  obtain ⟨rfl, hplain⟩ := h
  by_cases hdot : element = dot
  · refine ⟨up, names, ⟨?_, hplain⟩, Nat.le_succ _⟩
    unfold normalizeStep
    rw [if_pos hdot]
  · by_cases hup : element = dotDot
    · subst hup
      rcases List.eq_nil_or_concat names with rfl | ⟨front, name, rfl⟩
      · refine ⟨up + 1, [], ⟨?_, hplain⟩, Nat.zero_le _⟩
        rw [List.append_nil, normalizeStep_stay, List.append_nil]
      · rw [List.concat_eq_append] at hplain ⊢
        have hname := hplain name (List.mem_append_right _ List.mem_cons_self)
        refine ⟨up, front, ⟨?_, fun n hn => hplain n (List.mem_append_left _ hn)⟩, ?_⟩
        · rw [← List.append_assoc, normalizeStep_up hname.2]
        · rw [List.length_append]
          omega
    · refine ⟨up, names ++ [element], ⟨?_, fun n hn => ?_⟩, ?_⟩
      · rw [normalizeStep_name ⟨hdot, hup⟩, List.append_assoc]
      · rcases List.mem_append.mp hn with hn | hn
        · exact hplain n hn
        · rw [List.mem_singleton.mp hn]
          exact ⟨hdot, hup⟩
      · rw [List.length_append, List.length_singleton]

theorem normalPath_foldl {up : Nat} {names path : AbsolutePath} (h : NormalPath up names path)
    (elements : AbsolutePath) : ∃ up' names', NormalPath up' names'
      (elements.foldl normalizeStep path) ∧ names'.length ≤ names.length + elements.length := by
  induction elements generalizing up names path with
  | nil => exact ⟨up, names, h, Nat.le_refl _⟩
  | cons element elements ih =>
    obtain ⟨up₁, names₁, h₁, hle₁⟩ := normalPath_step h element
    obtain ⟨up₂, names₂, h₂, hle₂⟩ := ih h₁
    refine ⟨up₂, names₂, h₂, ?_⟩
    rw [List.length_cons]
    omega

theorem normalPath_normalize (path : AbsolutePath) : ∃ up names,
    NormalPath up names (normalize path) ∧ names.length ≤ path.length := by
  have hempty : NormalPath 0 [] [] := ⟨rfl, fun name hname => absurd hname List.not_mem_nil⟩
  obtain ⟨up, names, h, hle⟩ := normalPath_foldl hempty path
  exact ⟨up, names, h, by simpa using hle⟩

theorem normalize_replicate (up : Nat) :
    normalize (List.replicate up dotDot) = List.replicate up dotDot := by
  unfold normalize
  induction up with
  | zero => rfl
  | succ up ih =>
    rw [List.replicate_succ', List.foldl_append, ih, List.foldl_cons, List.foldl_nil,
      normalizeStep_stay, List.replicate_succ']

theorem NormalPath.normalize {up : Nat} {names path : AbsolutePath}
    (h : NormalPath up names path) : normalize path = path := by
  obtain ⟨rfl, hplain⟩ := h
  induction names using List.reverseRecOn with
  | nil => rw [List.append_nil, normalize_replicate]
  | append_singleton names name ih =>
    have hname := hplain name (List.mem_append_right _ List.mem_cons_self)
    have hfront := ih fun n hn => hplain n (List.mem_append_left _ hn)
    unfold Hbc.normalize at hfront ⊢
    rw [← List.append_assoc, List.foldl_append, hfront]
    exact normalizeStep_name hname

/-- One directory up. -/
theorem normalize_up (path : AbsolutePath) :
    Hbc.normalize (path ++ [dotDot]) = normalizeStep (Hbc.normalize path) dotDot := by
  unfold Hbc.normalize
  rw [List.foldl_append]
  rfl

/-! ## The search for a file -/

section

variable {files} {includepath : List Text} {limit : Nat}

/-- From a normal path the search ends: a name goes away each time, or the path grows until
it is too long for the file system. -/
theorem isSome_searchUp_normal (hlimit : ∀ p, limit < p.length → files.fsExists p = none)
    (fuel : Nat) {up : Nat} {names path : AbsolutePath} (h : NormalPath up names path)
    (hfuel : names.length + (limit + 1 - up) < fuel) :
    (searchUp files includepath fuel path).isSome := by
  induction fuel generalizing up names path with
  | zero => omega
  | succ fuel ih =>
    unfold searchUp
    cases hexists : files.fsExists (path ++ includepath) with
    | none => rfl
    | some found =>
      cases found with
      | true => rfl
      | false =>
        simp only
        by_cases hroot : path = []
        · rw [if_pos hroot]
          rfl
        · rw [if_neg hroot, normalize_up, h.normalize]
          obtain ⟨hsplit, hplain⟩ := h
          rcases List.eq_nil_or_concat names with rfl | ⟨front, name, rfl⟩
          · -- no names are left: the path is longer now
            rw [List.append_nil] at hsplit
            have hshort : up ≤ limit := by
              refine Nat.le_of_not_lt fun hlt => ?_
              rw [hlimit (path ++ includepath) ?_] at hexists
              · cases hexists
              · rw [hsplit, List.length_append, List.length_replicate]
                omega
            rw [hsplit, normalizeStep_stay]
            have hnormal : NormalPath (up + 1) [] (List.replicate (up + 1) dotDot) :=
              ⟨(List.append_nil _).symm, hplain⟩
            refine ih hnormal ?_
            rw [List.length_nil] at hfuel ⊢
            omega
          · rw [List.concat_eq_append] at hsplit hplain hfuel
            have hname := hplain name (List.mem_append_right _ List.mem_cons_self)
            rw [hsplit, ← List.append_assoc, normalizeStep_up hname.2]
            refine ih ⟨rfl, fun n hn => hplain n (List.mem_append_left _ hn)⟩ ?_
            rw [List.length_append, List.length_singleton] at hfuel
            omega

theorem isSome_searchUp (hlimit : ∀ p, limit < p.length → files.fsExists p = none)
    {fuel : Nat} {baseDir : AbsolutePath} (hfuel : baseDir.length + limit + 3 < fuel) :
    (searchUp files includepath fuel baseDir).isSome := by
  obtain ⟨fuel, rfl⟩ := Nat.exists_eq_succ_of_ne_zero (by omega : fuel ≠ 0)
  unfold searchUp
  split
  · rfl
  · rfl
  · split
    · rfl
    · obtain ⟨up, names, hnormal, hle⟩ := normalPath_normalize (baseDir ++ [dotDot])
      rw [List.length_append, List.length_singleton] at hle
      exact isSome_searchUp_normal hlimit fuel hnormal (by omega)

/-- What the search has said it says with more fuel. -/
theorem searchUp_mono {fuel fuel' : Nat} (hle : fuel ≤ fuel') {path : AbsolutePath} {r : Located}
    (h : searchUp files includepath fuel path = some r) :
    searchUp files includepath fuel' path = some r := by
  induction fuel generalizing fuel' path with
  | zero => cases h
  | succ fuel ih =>
    obtain ⟨fuel', rfl⟩ := Nat.exists_eq_succ_of_ne_zero (by omega : fuel' ≠ 0)
    unfold searchUp at h ⊢
    split at h
    · exact h
    · exact h
    · split at h
      · next hroot =>
        rw [if_pos hroot]
        exact h
      · next hroot =>
        rw [if_neg hroot]
        exact ih (by omega) h

/-- What the search says, when the directories below have been looked through. -/
theorem searchUp_spec {fuel n : Nat} {baseDir : AbsolutePath} {r : Located}
    (hbelow : ∀ k < n, files.fsExists (upwards baseDir k ++ includepath) = some false ∧
      upwards baseDir k ≠ [])
    (h : searchUp files includepath fuel (upwards baseDir n) = some r) (path : AbsolutePath) :
    r = .found path ↔ files.fsExists path = some true ∧ ∃ m,
      path = upwards baseDir m ++ includepath ∧
      ∀ k < m, files.fsExists (upwards baseDir k ++ includepath) = some false ∧
        upwards baseDir k ≠ [] := by
  induction fuel generalizing n with
  | zero => cases h
  | succ fuel ih =>
    unfold searchUp at h
    -- the search never passes the directory that it stops at
    have hstop : ∀ m, (∀ k < m, files.fsExists (upwards baseDir k ++ includepath) = some false ∧
        upwards baseDir k ≠ []) → files.fsExists (upwards baseDir m ++ includepath) = some true →
        ¬ (files.fsExists (upwards baseDir n ++ includepath) = some false ∧
          upwards baseDir n ≠ []) → m = n := by
      intro m hm hfound hn
      rcases Nat.lt_trichotomy m n with hlt | heq | hgt
      · rw [(hbelow m hlt).1] at hfound
        cases hfound
      · exact heq
      · exact absurd (hm n hgt) hn
    cases hexists : files.fsExists (upwards baseDir n ++ includepath) with
    | none =>
      rw [hexists] at h hstop
      obtain rfl := Option.some.inj h
      refine ⟨fun hr => (nomatch hr), ?_⟩
      rintro ⟨hfound, m, rfl, hm⟩
      obtain rfl := hstop m hm hfound (fun hn => nomatch hn.1)
      rw [hexists] at hfound
      cases hfound
    | some found =>
      cases found with
      | true =>
        rw [hexists] at h hstop
        obtain rfl := Option.some.inj h
        constructor
        · rintro hr
          cases hr
          exact ⟨hexists, n, rfl, hbelow⟩
        · rintro ⟨hfound, m, rfl, hm⟩
          obtain rfl := hstop m hm hfound (fun hn => nomatch hn.1)
          rfl
      | false =>
        rw [hexists] at h
        simp only at h
        by_cases hroot : upwards baseDir n = []
        · rw [if_pos hroot] at h
          obtain rfl := Option.some.inj h
          refine ⟨fun hr => (nomatch hr), ?_⟩
          rintro ⟨hfound, m, rfl, hm⟩
          obtain rfl := hstop m hm hfound (fun hn => hn.2 hroot)
          rw [hexists] at hfound
          cases hfound
        · rw [if_neg hroot] at h
          refine ih (n := n + 1) (fun k hk => ?_) h
          rcases Nat.lt_succ_iff_lt_or_eq.mp hk with hk | rfl
          · exact hbelow k hk
          · exact ⟨hexists, hroot⟩

end

/-- Fuel that is enough to find a file from this directory. -/
def searchBound (limit : Nat) (baseDir : AbsolutePath) : Nat := baseDir.length + limit + 4

section

variable {files} {limit : Nat} {baseDir : AbsolutePath} {filename : Text}

variable (filename) in
theorem isSome_locate (hlimit : ∀ p, limit < p.length → files.fsExists p = none) {fuel : Nat}
    (hfuel : searchBound limit baseDir ≤ fuel) : (locate files fuel baseDir filename).isSome := by
  unfold searchBound at hfuel
  unfold locate
  split
  · split <;> rfl
  · exact isSome_searchUp hlimit (by omega)

theorem locate_mono {fuel fuel' : Nat} (hle : fuel ≤ fuel') {r : Located}
    (h : locate files fuel baseDir filename = some r) :
    locate files fuel' baseDir filename = some r := by
  unfold locate at h ⊢
  split
  · next hpath => simpa only [hpath] using h
  · next hpath =>
    simp only [hpath] at h
    exact searchUp_mono hle h

/-- **The search for a file** finds the one that the name stands for. -/
theorem locate_spec {fuel : Nat} {r : Located} (h : locate files fuel baseDir filename = some r)
    (path : AbsolutePath) : r = .found path ↔ Finds files baseDir filename path := by
  unfold locate at h
  unfold Finds
  cases hpath : files.path filename with
  | absolute absolutePath =>
    rw [hpath] at h
    simp only [FilePath.absolute.injEq, reduceCtorEq, false_and, exists_false, or_false]
    cases hexists : files.fsExists absolutePath with
    | none =>
      simp only [hexists] at h
      obtain rfl := Option.some.inj h
      refine ⟨fun hr => (nomatch hr), ?_⟩
      rintro ⟨hfound, rfl⟩
      rw [hexists] at hfound
      cases hfound
    | some found =>
      cases found with
      | true =>
        simp only [hexists] at h
        obtain rfl := Option.some.inj h
        constructor
        · intro hr
          cases hr
          exact ⟨hexists, rfl⟩
        · rintro ⟨-, rfl⟩
          rfl
      | false =>
        simp only [hexists] at h
        obtain rfl := Option.some.inj h
        refine ⟨fun hr => (nomatch hr), ?_⟩
        rintro ⟨hfound, rfl⟩
        rw [hexists] at hfound
        cases hfound
  | relative includepath =>
    rw [hpath] at h
    have hspec := searchUp_spec (n := 0) (fun k hk => absurd hk (Nat.not_lt_zero k)) h path
    rw [hspec]
    simp

end

/-! ## Adding the files of a list -/

/-- The file that a name stands for, if there is one. -/
def located (limit : Nat) (baseDir : AbsolutePath) (filename : Text) : Option AbsolutePath :=
  match locate files (searchBound limit baseDir) baseDir filename with
  | some (.found path) => some path
  | _ => none

/-- The files that a file includes. -/
def includedFiles (limit : Nat) (baseDir path : AbsolutePath) : List AbsolutePath :=
  match files.read path with
  | .parsed blocks => blocks.filterMap fun incl => located files limit baseDir incl.filename
  | _ => []

section

variable {files} {limit : Nat} {baseDir : AbsolutePath}

theorem located_eq_some (hlimit : ∀ p, limit < p.length → files.fsExists p = none)
    {filename : Text} {path : AbsolutePath} : located files limit baseDir filename = some path ↔
      Finds files baseDir filename path := by
  obtain ⟨r, hr⟩ := Option.isSome_iff_exists.mp
    (isSome_locate filename hlimit (Nat.le_refl (searchBound limit baseDir)))
  rw [← locate_spec hr path]
  unfold located
  rw [hr]
  cases r <;> simp

theorem mem_includedFiles (hlimit : ∀ p, limit < p.length → files.fsExists p = none)
    {path path' : AbsolutePath} :
    path' ∈ includedFiles files limit baseDir path ↔ Includes files baseDir path path' := by
  unfold includedFiles Includes
  cases hread : files.read path with
  | cannotOpen => simp
  | notParsed => simp
  | parsed blocks => simp [List.mem_filterMap, located_eq_some hlimit]

theorem addFileNames_ok (hlimit : ∀ p, limit < p.length → files.fsExists p = none) {fuel : Nat}
    (hfuel : searchBound limit baseDir ≤ fuel) (incls : List IncludeDoc)
    (names : List AbsolutePath)
    (hall : ∀ incl ∈ incls, ∃ path, Finds files baseDir incl.filename path) :
    IncludeHandling.addFileNames files fuel ⟨names, baseDir⟩ incls =
      some (.ok ⟨(incls.filterMap fun incl => located files limit baseDir incl.filename).foldl
        insertNew names, baseDir⟩) := by
  induction incls generalizing names with
  | nil => rfl
  | cons incl incls ih =>
    obtain ⟨path, hpath⟩ := hall incl List.mem_cons_self
    have hlocated := (located_eq_some hlimit).mpr hpath
    have hlocate : locate files fuel baseDir incl.filename = some (.found path) := by
      obtain ⟨r, hr⟩ := Option.isSome_iff_exists.mp
        (isSome_locate incl.filename hlimit hfuel)
      rw [hr, (locate_spec hr path).mpr hpath]
    have hadd : IncludeHandling.addFileName files fuel ⟨names, baseDir⟩ incl =
        some (.ok ⟨insertNew names path, baseDir⟩) := by
      unfold IncludeHandling.addFileName
      rw [hlocate]
    have hmap : (incl :: incls).filterMap (fun incl => located files limit baseDir incl.filename)
        = path :: incls.filterMap fun incl => located files limit baseDir incl.filename :=
      List.filterMap_cons_some hlocated
    rw [IncludeHandling.addFileNames, hadd, hmap, List.foldl_cons]
    exact ih _ fun i hi => hall i (List.mem_cons_of_mem _ hi)

theorem addFileNames_error (hlimit : ∀ p, limit < p.length → files.fsExists p = none)
    {fuel : Nat} (hfuel : searchBound limit baseDir ≤ fuel) (incls : List IncludeDoc)
    (names : List AbsolutePath)
    (hnot : ¬ ∀ incl ∈ incls, ∃ path, Finds files baseDir incl.filename path) :
    ∃ e, IncludeHandling.addFileNames files fuel ⟨names, baseDir⟩ incls = some (.error e) := by
  induction incls generalizing names with
  | nil => exact absurd (fun incl hincl => absurd hincl List.not_mem_nil) hnot
  | cons incl incls ih =>
    obtain ⟨r, hr⟩ := Option.isSome_iff_exists.mp
      (isSome_locate incl.filename hlimit hfuel)
    rw [IncludeHandling.addFileNames, IncludeHandling.addFileName]
    simp only [hr]
    cases r with
    | found path =>
      refine ih _ fun hall => hnot fun i hi => ?_
      rcases List.mem_cons.mp hi with rfl | hi
      · exact ⟨path, (locate_spec hr path).mp rfl⟩
      · exact hall i hi
    | notFound => exact ⟨_, rfl⟩
    | filesystemError => exact ⟨_, rfl⟩

theorem addFileNames_mono {fuel fuel' : Nat} (hle : fuel ≤ fuel') {handling : IncludeHandling}
    {incls : List IncludeDoc} {r : Except IncludeError IncludeHandling}
    (h : handling.addFileNames files fuel incls = some r) :
    handling.addFileNames files fuel' incls = some r := by
  induction incls generalizing handling with
  | nil => exact h
  | cons incl incls ih =>
    rw [IncludeHandling.addFileNames, IncludeHandling.addFileName] at h ⊢
    cases hlocate : locate files fuel handling.baseDir incl.filename with
    | none =>
      rw [hlocate] at h
      cases h
    | some located =>
      rw [hlocate] at h
      rw [locate_mono hle hlocate]
      cases located with
      | found path => exact ih h
      | notFound => exact h
      | filesystemError => exact h

theorem filterMap_annotate (f : Text → Option AbsolutePath) (file : Text)
    (incls : List IncludeDoc) : (annotate file incls).filterMap (fun incl => f incl.filename) =
      incls.filterMap fun incl => f incl.filename := by
  unfold annotate
  rw [List.filterMap_map]
  refine List.filterMap_congr fun incl _ => ?_
  simp only [Function.comp_apply]
  split <;> rfl

theorem forall_annotate (P : Text → Prop) (file : Text) (incls : List IncludeDoc) :
    (∀ incl ∈ annotate file incls, P incl.filename) ↔ ∀ incl ∈ incls, P incl.filename := by
  unfold annotate
  rw [List.forall_mem_map]
  refine forall₂_congr fun incl _ => ?_
  split <;> rfl

/-! ## The walk over the files -/

variable (files limit) in
/-- The loop is a search over the include statements, and everything behind it is sound. -/
structure IncludeWalk (main baseDir : AbsolutePath) (tree : List (AbsolutePath × AbsolutePath))
    (s : IncludeLoop) : Prop where
  base : s.includes.baseDir = baseDir
  count : s.f = s.parsed.length
  names : s.includes.filenames = members main tree
  search : Invariant (includedFiles files limit baseDir) main s.parsed
    ⟨s.includes.filenames.drop s.f, tree⟩
  ast : ∀ incl ∈ s.ast, ∃ path ∈ s.includes.filenames, Finds files baseDir incl.filename path
  sound : ∀ path ∈ s.parsed, Sound files baseDir path

variable (files) in
/-- What a run of the loop comes to. -/
structure RunSpec (main baseDir : AbsolutePath) (run : IncludeRun) : Prop where
  nodup : run.parsed.Nodup
  reachable : ∀ path ∈ run.parsed, Relation.ReflTransGen (Includes files baseDir) main path
  complete : run.error = none → ∀ path, Relation.ReflTransGen (Includes files baseDir) main path →
    path ∈ run.parsed ∧ Sound files baseDir path
  failed : run.error ≠ none → ∃ path, Relation.ReflTransGen (Includes files baseDir) main path ∧
    ¬ Sound files baseDir path

variable {main : AbsolutePath} {tree : List (AbsolutePath × AbsolutePath)} {s : IncludeLoop}

theorem reachable_iff (hlimit : ∀ p, limit < p.length → files.fsExists p = none)
    (path : AbsolutePath) :
    Relation.ReflTransGen (Step (includedFiles files limit baseDir)) main path ↔
      Relation.ReflTransGen (Includes files baseDir) main path := by
  have hsame : Step (includedFiles files limit baseDir) = Includes files baseDir := by
    funext p q
    exact propext (mem_includedFiles hlimit)
  rw [hsame]

theorem IncludeWalk.reachable (hlimit : ∀ p, limit < p.length → files.fsExists p = none)
    (h : IncludeWalk files limit main baseDir tree s) {path : AbsolutePath}
    (hmem : path ∈ s.includes.filenames) :
    Relation.ReflTransGen (Includes files baseDir) main path := by
  rw [h.names] at hmem
  exact (reachable_iff hlimit path).mp (h.search.rooted.reachable hmem)

/-- At the end of the list everything reachable has been parsed. -/
theorem IncludeWalk.finish (hlimit : ∀ p, limit < p.length → files.fsExists p = none)
    (h : IncludeWalk files limit main baseDir tree s) (hend : s.includes.filenames[s.f]? = none) :
    RunSpec files main baseDir ⟨s.parsed, none⟩ := by
  have hqueue : s.includes.filenames.drop s.f = [] :=
    List.drop_eq_nil_of_le (List.getElem?_eq_none_iff.mp hend)
  have hall := h.search.split
  have hmem := h.search.mem_discovered_iff hqueue
  simp only [SearchState.discovered] at hall hmem
  rw [hqueue, List.append_nil] at hall
  have hnodup := h.search.rooted.nodup
  rw [hall] at hnodup hmem
  constructor
  · exact hnodup
  · exact fun path hpath => (reachable_iff hlimit path).mp ((hmem path).mp hpath)
  · intro _ path hreach
    have hpath := (hmem path).mpr ((reachable_iff hlimit path).mpr hreach)
    exact ⟨hpath, h.sound path hpath⟩
  · exact fun herror => absurd rfl herror

/-- A file that is next on the list is parsed for the first time. -/
theorem IncludeWalk.fail (hlimit : ∀ p, limit < p.length → files.fsExists p = none)
    (h : IncludeWalk files limit main baseDir tree s) {file : AbsolutePath}
    (hfile : s.includes.filenames[s.f]? = some file) (hbad : ¬ Sound files baseDir file)
    (parsed : List AbsolutePath) (hparsed : parsed = s.parsed ∨ parsed = s.parsed ++ [file])
    (e : IncludeError) : RunSpec files main baseDir ⟨parsed, some e⟩ := by
  obtain ⟨hlt, hget⟩ := List.getElem?_eq_some_iff.mp hfile
  have hreach := h.reachable hlimit (List.mem_of_getElem? hfile)
  have hall := h.search.split
  simp only [SearchState.discovered] at hall
  rw [List.drop_eq_getElem_cons hlt, hget] at hall
  have hnodup := h.search.rooted.nodup
  have hsub : parsed.Sublist (members main tree) := by
    rw [hall]
    rcases hparsed with rfl | rfl
    · exact List.sublist_append_left _ _
    · rw [List.append_cons s.parsed file (s.includes.filenames.drop (s.f + 1))]
      exact List.sublist_append_left _ _
  constructor
  · exact hnodup.sublist hsub
  · exact fun path hpath => h.reachable hlimit (h.names ▸ hsub.subset hpath)
  · exact fun hnone => nomatch hnone
  · exact fun _ => ⟨file, hreach, hbad⟩

/-- One turn of the loop, on a file with nothing wrong. -/
theorem IncludeWalk.step (hlimit : ∀ p, limit < p.length → files.fsExists p = none)
    (h : IncludeWalk files limit main baseDir tree s) {file : AbsolutePath} {blocks : List IncludeDoc}
    (hfile : s.includes.filenames[s.f]? = some file) (hread : files.read file = .parsed blocks)
    (hfound : ∀ incl ∈ blocks, ∃ path, Finds files baseDir incl.filename path) {fuel : Nat}
    (hfuel : searchBound limit baseDir ≤ fuel) :
    ∃ includes tree', s.includes.addFileNames files fuel
        (annotate (files.string file) (s.ast ++ blocks)) = some (.ok includes) ∧
      IncludeWalk files limit main baseDir tree' ⟨s.f + 1, includes,
        annotate (files.string file) (s.ast ++ blocks), s.parsed ++ [file]⟩ := by
  obtain ⟨f, ⟨filenames, base⟩, ast, parsed⟩ := s
  obtain ⟨rfl, hcount, hnames, hsearch, hast, hsound⟩ := h
  simp only at hcount hnames hsearch hast hsound hfile ⊢
  obtain ⟨hlt, hget⟩ := List.getElem?_eq_some_iff.mp hfile
  have hqueue : filenames.drop f = file :: filenames.drop (f + 1) := by
    rw [List.drop_eq_getElem_cons hlt, hget]
  have hall : ∀ incl ∈ ast ++ blocks, ∃ path, Finds files base incl.filename path := by
    intro incl hincl
    rcases List.mem_append.mp hincl with hincl | hincl
    · obtain ⟨path, -, hpath⟩ := hast incl hincl
      exact ⟨path, hpath⟩
    · exact hfound incl hincl
  have hadd := addFileNames_ok hlimit hfuel (annotate (files.string file) (ast ++ blocks)) filenames
    ((forall_annotate (fun name => ∃ path, Finds files base name path) _ _).mpr hall)
  -- the files of earlier statements are on the list already
  have hold : ∀ path ∈ ast.filterMap (fun incl => located files limit base incl.filename),
      path ∈ filenames := by
    intro path hpath
    obtain ⟨incl, hincl, hlocated⟩ := List.mem_filterMap.mp hpath
    obtain ⟨path', hmem, hpath'⟩ := hast incl hincl
    rw [(located_eq_some hlimit).mpr hpath'] at hlocated
    rwa [← Option.some.inj hlocated]
  have hnew : blocks.filterMap (fun incl => located files limit base incl.filename) =
      includedFiles files limit base file := by
    unfold includedFiles
    rw [hread]
  rw [filterMap_annotate, List.filterMap_append, List.foldl_append,
    foldl_insertNew_of_mem _ _ hold, hnew] at hadd
  have hvisit := hsearch.visit hqueue
  have hdiscovered := discovered_foldl_examine main file
    (includedFiles files limit base file) ⟨filenames.drop (f + 1), tree⟩
  have hnames' : (includedFiles files limit base file).foldl insertNew filenames =
      (visit (includedFiles files limit base) main file
        ⟨filenames.drop (f + 1), tree⟩).discovered main := by
    rw [visit, hdiscovered, hnames]
    rfl
  refine ⟨_, (visit (includedFiles files limit base) main file
    ⟨filenames.drop (f + 1), tree⟩).tree, hadd, rfl, ?_, hnames', ?_, ?_, ?_⟩
  · rw [List.length_append, List.length_singleton, hcount]
  · have hrest : ((includedFiles files limit base file).foldl insertNew filenames).drop (f + 1) =
        (visit (includedFiles files limit base) main file
          ⟨filenames.drop (f + 1), tree⟩).queue := by
      rw [hnames', hvisit.split]
      refine List.drop_left' ?_
      rw [List.length_append, List.length_singleton, hcount]
    simp only [hrest]
    exact hvisit
  · refine (forall_annotate (fun name => ∃ path ∈ _, Finds files base name path) _ _).mpr ?_
    intro incl hincl
    rcases List.mem_append.mp hincl with hincl | hincl
    · obtain ⟨path, hmem, hpath⟩ := hast incl hincl
      exact ⟨path, (mem_foldl_insertNew _ _ _).mpr (.inl hmem), hpath⟩
    · obtain ⟨path, hpath⟩ := hfound incl hincl
      refine ⟨path, (mem_foldl_insertNew _ _ _).mpr (.inr ?_), hpath⟩
      exact (mem_includedFiles hlimit).mpr ⟨blocks, incl, hread, hincl, hpath⟩
  · intro path hpath
    rcases List.mem_append.mp hpath with hpath | hpath
    · exact hsound path hpath
    · rw [List.mem_singleton.mp hpath]
      exact ⟨blocks, hread, hfound⟩

end

section

variable {files} {limit : Nat} {baseDir main : AbsolutePath}
  {tree : List (AbsolutePath × AbsolutePath)} {s : IncludeLoop}

/-- **The loop** from a turn on: with every statement from a list, it ends once it has made a
turn for each file that they can stand for. -/
theorem IncludeWalk.run (hlimit : ∀ p, limit < p.length → files.fsExists p = none)
    {stmts : List IncludeDoc} (hstmts : ∀ p blocks, files.read p = .parsed blocks →
      ∀ incl ∈ blocks, incl ∈ stmts) {searchFuel : Nat}
    (hsearch : searchBound limit baseDir ≤ searchFuel) (fuel : Nat)
    (h : IncludeWalk files limit main baseDir tree s)
    (hfuel : stmts.length + 1 < s.parsed.length + fuel) :
    ∃ run, includeLoop files searchFuel fuel s = some run ∧ RunSpec files main baseDir run := by
  induction fuel generalizing s tree with
  | zero =>
    -- more files cannot have been parsed than there are names
    have hclosed : ∀ p ∈ main :: stmts.filterMap fun incl =>
        located files limit baseDir incl.filename, ∀ q ∈ includedFiles files limit baseDir p,
        q ∈ main :: stmts.filterMap fun incl => located files limit baseDir incl.filename := by
      intro p _ q hq
      obtain ⟨blocks, incl, hread, hincl, hfinds⟩ := (mem_includedFiles hlimit).mp hq
      exact List.mem_cons_of_mem _ (List.mem_filterMap.mpr
        ⟨incl, hstmts p blocks hread incl hincl, (located_eq_some hlimit).mpr hfinds⟩)
    have hsub := h.search.rooted.subset List.mem_cons_self hclosed
    have hle := (List.subperm_of_subset h.search.rooted.nodup hsub).length_le
    have hall := congrArg List.length h.search.split
    have hmap := List.length_filterMap_le
      (fun incl : IncludeDoc => located files limit baseDir incl.filename) stmts
    simp only [SearchState.discovered, List.length_append, List.length_cons] at hall hle
    omega
  | succ fuel ih =>
    unfold includeLoop
    cases hfile : s.includes.filenames[s.f]? with
    | none => exact ⟨_, rfl, h.finish hlimit hfile⟩
    | some file =>
      cases hread : files.read file with
      | cannotOpen =>
        simp only [hread]
        refine ⟨_, rfl, h.fail hlimit hfile ?_ _ (.inl rfl) _⟩
        rintro ⟨blocks, hblocks, -⟩
        rw [hread] at hblocks
        cases hblocks
      | notParsed =>
        simp only [hread]
        refine ⟨_, rfl, h.fail hlimit hfile ?_ _ (.inr rfl) _⟩
        rintro ⟨blocks, hblocks, -⟩
        rw [hread] at hblocks
        cases hblocks
      | parsed blocks =>
        by_cases hfound : ∀ incl ∈ blocks, ∃ path, Finds files baseDir incl.filename path
        · obtain ⟨includes, tree', hadd, hwalk⟩ := h.step hlimit hfile hread hfound hsearch
          simp only [hread, hadd]
          refine ih hwalk ?_
          rw [List.length_append, List.length_singleton]
          omega
        · have hnot : ¬ ∀ incl ∈ annotate (files.string file) (s.ast ++ blocks),
              ∃ path, Finds files baseDir incl.filename path := by
            intro hall
            have hall' := (forall_annotate (fun name => ∃ path, Finds files baseDir name path)
              _ _).mp hall
            exact hfound fun incl hincl => hall' incl (List.mem_append_right _ hincl)
          obtain ⟨e, he⟩ := addFileNames_error hlimit hsearch _ s.includes.filenames hnot
          have hadd : s.includes.addFileNames files searchFuel
              (annotate (files.string file) (s.ast ++ blocks)) = some (.error e) := by
            rw [← he, ← h.base]
          simp only [hread, hadd]
          refine ⟨_, rfl, h.fail hlimit hfile ?_ _ (.inr rfl) _⟩
          rintro ⟨blocks', hblocks', hall⟩
          rw [hread] at hblocks'
          cases hblocks'
          exact hfound hall

end

/-- A run that has come to its end is the same with more fuel. -/
theorem includeLoop_mono {files : SourceFiles} {searchFuel searchFuel' fuel fuel' : Nat}
    (hsearch : searchFuel ≤ searchFuel') (hfuel : fuel ≤ fuel') {s : IncludeLoop}
    {run : IncludeRun} (h : includeLoop files searchFuel fuel s = some run) :
    includeLoop files searchFuel' fuel' s = some run := by
  induction fuel generalizing fuel' s with
  | zero => cases h
  | succ fuel ih =>
    obtain ⟨fuel', rfl⟩ := Nat.exists_eq_succ_of_ne_zero (by omega : fuel' ≠ 0)
    unfold includeLoop at h ⊢
    split at h
    · exact h
    · next file _ =>
      cases hread : files.read file with
      | cannotOpen =>
        simp only [hread] at h ⊢
        exact h
      | notParsed =>
        simp only [hread] at h ⊢
        exact h
      | parsed blocks =>
        simp only [hread] at h ⊢
        cases hadd : s.includes.addFileNames files searchFuel
            (annotate (files.string file) (s.ast ++ blocks)) with
        | none =>
          rw [hadd] at h
          cases h
        | some r =>
          rw [addFileNames_mono hsearch hadd]
          rw [hadd] at h
          cases r with
          | error e => exact h
          | ok includes => exact ih (by omega) h

/-! ## Every set of files -/

/-- **The include loop** ends, whatever includes what. It parses no file twice and only files
that includes lead to, it parses all of these unless it fails, and it fails exactly if one
of them does not parse or includes a file that is not found. -/
theorem processIncludes_spec (limit : Nat)
    (hlimit : ∀ p, limit < p.length → files.fsExists p = none) (stmts : List IncludeDoc)
    (hstmts : ∀ p blocks, files.read p = .parsed blocks → ∀ incl ∈ blocks, incl ∈ stmts)
    (mainFileName : Text) :
    ∃ n run, (∀ fuel, n ≤ fuel → processIncludes files fuel mainFileName = some run) ∧
      run.parsed.Nodup ∧ (∀ p ∈ run.parsed, FileReachable files mainFileName p) ∧
      (run.error = none → ∀ p, FileReachable files mainFileName p → p ∈ run.parsed) ∧
      (run.error ≠ none ↔ ∃ p, FileReachable files mainFileName p ∧
        ¬ Sound files (mainDir files mainFileName) p) := by
  have hinit : IncludeWalk files limit (mainFile files mainFileName) (mainDir files mainFileName) []
      ⟨0, IncludeHandling.main files mainFileName, [], []⟩ := by
    refine ⟨rfl, rfl, rfl, invariant_start _ _, fun incl hincl => absurd hincl List.not_mem_nil,
      fun path hpath => absurd hpath List.not_mem_nil⟩
  have hbound := Nat.le_add_right (searchBound limit (mainDir files mainFileName))
    (stmts.length + 2)
  obtain ⟨run, hrun, hspec⟩ := hinit.run hlimit hstmts hbound
    (searchBound limit (mainDir files mainFileName) + (stmts.length + 2))
    (by simp only [List.length_nil]; omega)
  refine ⟨_, run, fun fuel hfuel => includeLoop_mono hfuel hfuel hrun, hspec.nodup,
    hspec.reachable, fun hnone p hp => (hspec.complete hnone p hp).1, hspec.failed, ?_⟩
  rintro ⟨p, hp, hbad⟩ hnone
  exact hbad (hspec.complete hnone p hp).2

/-- Files in one directory; the names in include statements are relative. -/
def filesIn (directory : Text) (contents : Text → FileContents) (names : List Text) :
    SourceFiles where
  path name := .relative [name]
  string path := path.flatten
  initialPath := [directory]
  fsExists path := if 8 < path.length then none else
    some (decide (∃ name ∈ names, path = [directory, name]))
  read path :=
    match path with
    | [_, name] => if name ∈ names then contents name else .cannotOpen
    | _ => .cannotOpen

def mainName : Text := "main".toList

def lampsName : Text := "lamps".toList

def doorsName : Text := "doors".toList

/-- Three files that include each other and themselves. -/
def cyclicFiles : SourceFiles :=
  filesIn "src".toList (fun name =>
    .parsed (if name = mainName then [⟨1, mainName, []⟩, ⟨2, lampsName, []⟩, ⟨3, doorsName, []⟩]
      else [⟨1, doorsName, []⟩, ⟨2, mainName, []⟩])) [mainName, lampsName, doorsName]

def cyclicStatements : List IncludeDoc :=
  [⟨1, mainName, []⟩, ⟨2, lampsName, []⟩, ⟨3, doorsName, []⟩, ⟨1, doorsName, []⟩,
    ⟨2, mainName, []⟩]

theorem cyclicFiles_limit (p : AbsolutePath) (hp : 8 < p.length) :
    cyclicFiles.fsExists p = none :=
  if_pos hp

theorem cyclicFiles_statements (p : AbsolutePath) (blocks : List IncludeDoc)
    (h : cyclicFiles.read p = .parsed blocks) : ∀ incl ∈ blocks, incl ∈ cyclicStatements := by
  unfold cyclicFiles filesIn at h
  simp only at h
  split at h
  · split at h
    · cases h
      split <;> decide
    · cases h
  · cases h

/-- The theorem at these files. -/
theorem cyclicFiles_processed :
    ∃ n run, (∀ fuel, n ≤ fuel → processIncludes cyclicFiles fuel mainName = some run) ∧
      run.parsed.Nodup ∧ (∀ p ∈ run.parsed, FileReachable cyclicFiles mainName p) ∧
      (run.error = none → ∀ p, FileReachable cyclicFiles mainName p → p ∈ run.parsed) ∧
      (run.error ≠ none ↔ ∃ p, FileReachable cyclicFiles mainName p ∧
        ¬ Sound cyclicFiles (mainDir cyclicFiles mainName) p) :=
  processIncludes_spec cyclicFiles 8 cyclicFiles_limit cyclicStatements cyclicFiles_statements
    mainName

/-- The main file includes two others, and the first one does not parse. -/
def brokenFiles : SourceFiles :=
  filesIn "src".toList (fun name =>
    if name = mainName then .parsed [⟨1, lampsName, []⟩, ⟨2, doorsName, []⟩]
    else if name = lampsName then .notParsed else .parsed []) [mainName, lampsName, doorsName]

/-- **Not every file is parsed** once one of them has failed. -/
theorem brokenFiles_not_all_parsed :
    ∃ run, (∀ fuel, 12 ≤ fuel → processIncludes brokenFiles fuel mainName = some run) ∧
      run.error ≠ none ∧ FileReachable brokenFiles mainName ["src".toList, doorsName] ∧
      ["src".toList, doorsName] ∉ run.parsed := by
  refine ⟨⟨[["src".toList, mainName], ["src".toList, lampsName]],
    some (.parsingFailed ("src".toList ++ lampsName))⟩, fun fuel hfuel => ?_, nofun, ?_, by decide⟩
  · exact includeLoop_mono hfuel hfuel rfl
  · refine .single ⟨_, ⟨2, doorsName, []⟩, rfl, by decide, by decide, .inr ⟨[doorsName], 0, rfl, rfl,
      fun k hk => absurd hk (Nat.not_lt_zero k)⟩⟩

end Hexabus.Hbc

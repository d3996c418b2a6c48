import Mathlib.Data.List.Sort
import SchemaLang.Files
import SchemaLang.Proofs.Path

/-!
# Loading files

All files are read before anything is loaded. When one of them cannot be read, the load
gives the error of the first such path and the registry stays as it is; otherwise it is
the load of the texts that were read, under their canonical paths. A directory is loaded
like the sorted list of its definition files (`loads_of_files`).
-/

namespace SchemaLang

namespace Files

variable {files : Files} {paths : List String} {path : String}

/-! ## Reading -/

/-- A source that is what a file holds: its text under its canonical path. -/
structure Holds (files : Files) (path : String) (source : Source) : Prop where
  text : files.read path = .ok source.text
  path : source.path = some (files.canonicalPath path)

/-- The first path of a list that cannot be read, and the reason. -/
def FirstUnreadable (files : Files) (paths : List String) (path : String)
    (error : ReadError) : Prop :=
  ∃ before after, paths = before ++ path :: after ∧
    (∀ earlier ∈ before, ∃ text, files.read earlier = .ok text) ∧
    files.read path = .error error

theorem source_cases (files : Files) (path : String) :
    (∃ source, files.Holds path source ∧ files.source path = .ok source) ∨
      ∃ error, files.read path = .error error ∧
        files.source path = .error (.io path error) := by
  unfold source
  cases hread : files.read path with
  | ok text => exact Or.inl ⟨⟨text, some (files.canonicalPath path)⟩, ⟨hread, rfl⟩, rfl⟩
  | error error => exact Or.inr ⟨error, rfl, rfl⟩

/-- Reading several files gives what they hold, or stops at the first that cannot be read. -/
theorem mapM_source_cases (files : Files) (paths : List String) :
    (∃ sources, List.Forall₂ files.Holds paths sources ∧
      paths.mapM files.source = .ok sources) ∨
    ∃ path error, files.FirstUnreadable paths path error ∧
      paths.mapM files.source = .error (.io path error) := by
  induction paths with
  | nil => exact Or.inl ⟨[], .nil, rfl⟩
  | cons path rest ih =>
    rw [List.mapM_cons]
    rcases files.source_cases path with ⟨source, hholds, hsource⟩ | ⟨error, hread, hsource⟩
    · rw [hsource]
      rcases ih with ⟨sources, hrest, hok⟩ | ⟨later, error, hfirst, herror⟩
      · exact Or.inl ⟨source :: sources, .cons hholds hrest, by rw [hok]; rfl⟩
      · obtain ⟨before, after, rfl, hbefore, hlater⟩ := hfirst
        refine Or.inr ⟨later, error, ⟨path :: before, after, rfl, ?_, hlater⟩, by rw [herror]; rfl⟩
        exact List.forall_mem_cons.mpr ⟨⟨_, hholds.text⟩, hbefore⟩
    · rw [hsource]
      exact Or.inr ⟨path, error, ⟨[], rest, rfl, by simp, hread⟩, rfl⟩

/-- Reading in turn comes to the same, behind what has been read already. -/
theorem readInTurn_eq_mapM (files : Files) (sources : List Source) (paths : List String) :
    files.readInTurn sources paths = (paths.mapM files.source).map (sources ++ ·) := by
  induction paths generalizing sources with
  | nil => simp [readInTurn, Except.map, pure, Except.pure]
  | cons path rest ih =>
    rw [readInTurn, List.mapM_cons]
    cases files.source path with
    | error error => rfl
    | ok source =>
      dsimp only
      rw [ih]
      cases rest.mapM files.source with
      | error error => rfl
      | ok others => simp [Except.map, bind, Except.bind, pure, Except.pure]

theorem readable_of_holds {sources : List Source} (h : List.Forall₂ files.Holds paths sources) :
    ∀ path ∈ paths, ∃ text, files.read path = .ok text := by
  induction h with
  | nil => simp
  | cons hhead _ ih => exact List.forall_mem_cons.mpr ⟨⟨_, hhead.text⟩, ih⟩

theorem FirstUnreadable.mem {error : ReadError} (h : files.FirstUnreadable paths path error) :
    path ∈ paths := by
  obtain ⟨before, after, rfl, -, -⟩ := h
  exact List.mem_append_right _ List.mem_cons_self

theorem FirstUnreadable.read {error : ReadError} (h : files.FirstUnreadable paths path error) :
    files.read path = .error error := by
  obtain ⟨before, after, -, -, hread⟩ := h
  exact hread

/-! ## Directories -/

/-- Two listings of one directory: the same names in any order, or the same error. -/
inductive SameListing : Except ReadError (List String) → Except ReadError (List String) → Prop where
  | names {names names' : List String} (h : names.Perm names') :
    SameListing (.ok names) (.ok names')
  | error (error : ReadError) : SameListing (.error error) (.error error)

theorem mergeSort_eq_of_perm {names names' : List String} (h : names.Perm names') :
    names.mergeSort (fun a b => a ≤ b) = names'.mergeSort fun a b => a ≤ b := by
  refine List.Perm.eq_of_pairwise (fun a b _ _ => le_antisymm)
    List.sortedLE_mergeSort.pairwise List.sortedLE_mergeSort.pairwise ?_
  exact (List.mergeSort_perm _ _).trans (h.trans (List.mergeSort_perm _ _).symm)

/-- The definition files of a directory are its regular files with one of the extensions, in
the order of their paths. -/
theorem definitions_of_names {config : Config} {directory : String} {names : List String}
    (h : files.list directory = .ok names) :
    ∃ paths, files.definitions config directory = .ok paths ∧
      paths.Perm ((names.map fun name => Path.join directory name).filter fun path =>
        files.isFile path && config.matchesExtension path) ∧
      ((∀ name ∈ names, Path.IsName name) → paths.Pairwise Path.NotAfter) := by
  unfold definitions
  rw [h]
  refine ⟨_, rfl, ((List.mergeSort_perm _ _).map _).filter _, fun hnames => ?_⟩
  refine List.Pairwise.filter _ (List.pairwise_map.mpr ?_)
  refine List.sortedLE_mergeSort.pairwise.imp_of_mem fun {a b} ha hb hle => ?_
  exact Path.notAfter_join directory (hnames a (List.mem_mergeSort.mp ha))
    (hnames b (List.mem_mergeSort.mp hb)) hle

/-- In which order a directory lists its names does not matter. -/
theorem definitions_relisted {config : Config} {directory : String}
    {list' : String → Except ReadError (List String)}
    (h : SameListing (files.list directory) (list' directory)) :
    { files with list := list' }.definitions config directory =
      files.definitions config directory := by
  unfold definitions
  dsimp only
  generalize files.list directory = listed at h ⊢
  generalize list' directory = listed' at h ⊢
  cases h with
  | error error => rfl
  | names hperm =>
    dsimp only
    rw [mergeSort_eq_of_perm hperm]

end Files

namespace Registry

variable (r : Registry) (files : Files)

theorem loadAllFilesAsync_eq (paths : List String) :
    r.loadAllFilesAsync files paths = r.loadAllFiles files paths := by
  rw [loadAllFilesAsync, loadAllFiles, files.readInTurn_eq_mapM]
  cases paths.mapM files.source <;> rfl

theorem loadAllFiles_cases (paths : List String) :
    (∃ sources, List.Forall₂ files.Holds paths sources ∧
      r.loadAllFiles files paths = r.loadAllSources sources) ∨
    ∃ path error, files.FirstUnreadable paths path error ∧
      r.loadAllFiles files paths = (r, .error (.io path error)) := by
  unfold loadAllFiles
  rcases files.mapM_source_cases paths with ⟨sources, hholds, hok⟩ | ⟨path, error, hfirst, herror⟩
  · exact Or.inl ⟨sources, hholds, by rw [hok]; rfl⟩
  · exact Or.inr ⟨path, error, hfirst, by rw [herror]; rfl⟩

theorem loadFile_of_read {path text : String} (h : files.read path = .ok text) :
    r.loadFile files path = r.loadSource ⟨text, some (files.canonicalPath path)⟩ := by
  rw [loadFile, Files.source, h]
  rfl

theorem loadFile_of_unreadable {path : String} {error : ReadError}
    (h : files.read path = .error error) :
    r.loadFile files path = (r, .error (.io path error)) := by
  rw [loadFile, Files.source, h]
  rfl

/-- Loads of files are loads of what is read. When a file cannot be read, the error is that of
the first such path in the list, and the registry stays as it is. A directory is loaded like
the sorted list of its definition files, in whatever order it lists them. -/
theorem loads_of_files (r : Registry) (files : Files) :
    (∀ paths,
      ((∃ path ∈ paths, ∃ error, files.read path = .error error) →
        ∃ path error, files.FirstUnreadable paths path error ∧
          r.loadAllFiles files paths = (r, .error (.io path error)) ∧
          r.loadAllFilesAsync files paths = (r, .error (.io path error))) ∧
      ((∀ path ∈ paths, ∃ text, files.read path = .ok text) →
        ∃ sources, List.Forall₂ files.Holds paths sources ∧
          r.loadAllFiles files paths = r.loadAllSources sources ∧
          r.loadAllFilesAsync files paths = r.loadAllSources sources)) ∧
    (∀ path,
      (∀ error, files.read path = .error error →
        r.loadFile files path = (r, .error (.io path error)) ∧
        r.loadFileAsync files path = (r, .error (.io path error))) ∧
      ∀ text, files.read path = .ok text →
        r.loadFile files path = r.loadSource ⟨text, some (files.canonicalPath path)⟩ ∧
        r.loadFileAsync files path = r.loadSource ⟨text, some (files.canonicalPath path)⟩) ∧
    ∀ directory,
      (∀ error, files.list directory = .error error →
        r.loadDir files directory = (r, .error (.io directory error))) ∧
      (∀ names, files.list directory = .ok names →
        ∃ paths, paths.Perm ((names.map fun name => Path.join directory name).filter fun path =>
            files.isFile path && r.config.matchesExtension path) ∧
          ((∀ name ∈ names, Path.IsName name) → paths.Pairwise Path.NotAfter) ∧
          r.loadDir files directory =
            ((r.loadAllFiles files paths).1, (r.loadAllFiles files paths).2.map fun _ => paths)) ∧
      ∀ list', Files.SameListing (files.list directory) (list' directory) →
        r.loadDir { files with list := list' } directory = r.loadDir files directory := by
  refine ⟨fun paths => ⟨?_, ?_⟩, fun path => ⟨fun error hread => ?_, fun text hread => ?_⟩,
    fun directory => ⟨fun error hlist => ?_, fun names hlist => ?_, fun list' hsame => ?_⟩⟩
  · rintro ⟨unreadable, hmem, error, hread⟩
    rcases r.loadAllFiles_cases files paths with ⟨sources, hholds, -⟩ | ⟨path, error, hfirst, hload⟩
    · obtain ⟨text, htext⟩ := Files.readable_of_holds hholds unreadable hmem
      rw [hread] at htext
      cases htext
    · exact ⟨path, error, hfirst, hload, by rw [loadAllFilesAsync_eq, hload]⟩
  · intro hreadable
    rcases r.loadAllFiles_cases files paths with ⟨sources, hholds, hload⟩ | ⟨path, error, hfirst, -⟩
    · exact ⟨sources, hholds, hload, by rw [loadAllFilesAsync_eq, hload]⟩
    · obtain ⟨text, htext⟩ := hreadable path hfirst.mem
      rw [hfirst.read] at htext
      cases htext
  · exact ⟨r.loadFile_of_unreadable files hread, r.loadFile_of_unreadable files hread⟩
  · exact ⟨r.loadFile_of_read files hread, r.loadFile_of_read files hread⟩
  · rw [loadDir, Files.definitions, hlist]
  · obtain ⟨paths, hpaths, hperm, hsorted⟩ := files.definitions_of_names hlist
    exact ⟨paths, hperm, hsorted, by rw [loadDir, hpaths]⟩
  · rw [loadDir, Files.definitions_relisted hsame, loadDir]
    rfl

/-- A directory with two definition files, which it lists in reverse. -/
def twoDefinitions : Files where
  read path :=
    if path = "d/a.mdl" then .ok "enum A \x7b X \x7d"
    else if path = "d/b.mdl" then .ok "typedef B A"
    else .error .notFound
  isFile path := path = "d/a.mdl" || path = "d/b.mdl"
  canonical? _ := none
  list directory := if directory = "d" then .ok ["b.mdl", "a.mdl"] else .error .notFound
  paths := ["d/a.mdl", "d/b.mdl"]
  canonical_mem path h := by simpa using h

/-- A third file is missing, so nothing is loaded; without it both texts are. -/
theorem loads_of_files_twoDefinitions :
    (∃ path error, twoDefinitions.FirstUnreadable ["d/a.mdl", "d/c.mdl", "d/b.mdl"] path error ∧
      (Registry.new ⟨0⟩ .standard .none).loadAllFiles twoDefinitions
          ["d/a.mdl", "d/c.mdl", "d/b.mdl"] =
        (Registry.new ⟨0⟩ .standard .none, .error (.io path error))) ∧
    (∃ sources, List.Forall₂ twoDefinitions.Holds ["d/a.mdl", "d/b.mdl"] sources ∧
      (Registry.new ⟨0⟩ .standard .none).loadAllFilesAsync twoDefinitions ["d/a.mdl", "d/b.mdl"] =
        (Registry.new ⟨0⟩ .standard .none).loadAllSources sources) ∧
    ∃ paths, paths.Perm ["d/b.mdl", "d/a.mdl"] ∧ paths.Pairwise Path.NotAfter ∧
      (Registry.new ⟨0⟩ .standard .none).loadDir twoDefinitions "d" =
        (((Registry.new ⟨0⟩ .standard .none).loadAllFiles twoDefinitions paths).1,
          ((Registry.new ⟨0⟩ .standard .none).loadAllFiles twoDefinitions paths).2.map
            fun _ => paths) := by
  obtain ⟨hlists, -, hdirectories⟩ :=
    loads_of_files (Registry.new ⟨0⟩ .standard .none) twoDefinitions
  have hmissing : twoDefinitions.read "d/c.mdl" = .error .notFound := by decide
  have hreadable : ∀ path ∈ ["d/a.mdl", "d/b.mdl"],
      ∃ text, twoDefinitions.read path = .ok text := by
    simp only [List.forall_mem_cons, List.not_mem_nil, false_imp_iff, implies_true, and_true]
    exact ⟨⟨_, rfl⟩, ⟨_, rfl⟩⟩
  have hnames : ∀ name ∈ ["b.mdl", "a.mdl"], Path.IsName name := by
    simp only [List.forall_mem_cons, List.not_mem_nil, false_imp_iff, implies_true, and_true]
    exact ⟨⟨by decide, by decide, by decide, by decide⟩,
      ⟨by decide, by decide, by decide, by decide⟩⟩
  have hfiles : ((["b.mdl", "a.mdl"].map fun name => Path.join "d" name).filter fun path =>
      twoDefinitions.isFile path && Config.standard.matchesExtension path) =
        ["d/b.mdl", "d/a.mdl"] := by
    decide
  refine ⟨?_, ?_, ?_⟩
  · obtain ⟨path, error, hfirst, hload, -⟩ :=
      (hlists _).1 ⟨"d/c.mdl", List.mem_cons_of_mem _ List.mem_cons_self, _, hmissing⟩
    exact ⟨path, error, hfirst, hload⟩
  · obtain ⟨sources, hholds, -, hload⟩ := (hlists _).2 hreadable
    exact ⟨sources, hholds, hload⟩
  · obtain ⟨paths, hperm, hsorted, hload⟩ := (hdirectories "d").2.1 ["b.mdl", "a.mdl"] rfl
    exact ⟨paths, hfiles ▸ hperm, hsorted hnames, hload⟩

end Registry

end SchemaLang

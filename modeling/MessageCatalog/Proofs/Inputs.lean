import MessageCatalog.Project.Load
import MessageCatalog.Proofs.Contexts
import MessageCatalog.Proofs.Files
import MessageCatalog.Proofs.Sorting

/-! From files to runs. Each file is an extern, a source or set aside; the order in which the files
are given does not matter, and a file that is set aside does nothing but to be reported. -/

namespace MessageCatalog

abbrev Loaded := Except Unreadable Source

namespace Loaded

def source? : Loaded → Option Source
  | .ok source => some source
  | .error _ => none

def unreadable? : Loaded → Option Unreadable
  | .ok _ => none
  | .error u => some u

def isSource (file : Loaded) : Bool := file.source?.isSome

def path : Loaded → String
  | .ok source => source.path
  | .error u => u.path

end Loaded

def loadText (file : String × String) : Loaded := Source.parse file.1 file.2

def loadPath (fs : FileSystem) (path : String) : Loaded :=
  match fs.readText path with
  | .ok text => Source.parse path text
  | .error fault => .error ⟨path, s!"Failed to read file: {fault.text}"⟩

namespace Compilation

def paths (c : Compilation) : List String :=
  c.externs.map Source.path ++ c.sources.map Source.path ++ c.unreadable.map Unreadable.path

/-- The files that can be loaded are there in the order of their paths, and all others are set
aside. -/
structure ConsistsOf (c : Compilation) (es ss : List Loaded) : Prop where
  externs : c.externs.Perm (es.filterMap Loaded.source?)
  sources : c.sources.Perm (ss.filterMap Loaded.source?)
  unreadable : c.unreadable.Perm ((es ++ ss).filterMap Loaded.unreadable?)
  sortedExterns : c.externs.Pairwise fun a b => (byPath Source.path a b).isLE
  sortedSources : c.sources.Pairwise fun a b => (byPath Source.path a b).isLE

inductive MadeFrom : Compilation → List Loaded → List Loaded → Prop
  | ofFiles (externs sources : List (String × String)) :
      MadeFrom (ofFiles externs sources) (externs.map loadText) (sources.map loadText)
  | compile (fs : FileSystem) (project : Project) :
      MadeFrom (project.compile fs).1 (project.externs.map (loadPath fs))
        (project.files.map (loadPath fs))

end Compilation

theorem path_loadText (file : String × String) : (loadText file).path = file.1 := by
  unfold loadText Source.parse
  dsimp only
  split <;> rfl

namespace Compilation

theorem parseAll_eq (files : List (String × String)) :
    parseAll files =
      ((files.mergeSort pathOrder).filterMap fun file => (loadText file).source?,
        (files.mergeSort pathOrder).filterMap fun file => (loadText file).unreadable?) := by
  unfold parseAll
  induction files.mergeSort pathOrder with
  | nil => rfl
  | cons file rest ih =>
    obtain ⟨path, code⟩ := file
    rw [List.foldr_cons, ih]
    cases h : Source.parse path code <;>
      simp [h, loadText, Loaded.source?, Loaded.unreadable?]

theorem ofFiles_of_parse {path code : String} {source : Source}
    (h : Source.parse path code = .ok source) : ofFiles [] [(path, code)] = ⟨[], [source], []⟩ := by
  simp [ofFiles, parseAll, h]

theorem parseAll_perm (files : List (String × String)) :
    (parseAll files).1.Perm ((files.map loadText).filterMap Loaded.source?) ∧
      (parseAll files).2.Perm ((files.map loadText).filterMap Loaded.unreadable?) := by
  rw [parseAll_eq, List.filterMap_map, List.filterMap_map]
  have hperm := List.mergeSort_perm files pathOrder
  exact ⟨hperm.filterMap _, hperm.filterMap _⟩

theorem parseAll_sorted (files : List (String × String)) :
    (parseAll files).1.Pairwise fun a b => (byPath Source.path a b).isLE := by
  have hsorted : (files.mergeSort pathOrder).Pairwise fun a b => (byPath Prod.fst a b).isLE :=
    List.pairwise_mergeSort isLE_trans isLE_total files
  have hpath : ∀ file source, (loadText file).source? = some source → source.path = file.1 := by
    intro file source h
    rw [← path_loadText file]
    cases hload : loadText file with
    | ok source' =>
      rw [hload] at h
      cases h
      rfl
    | error u =>
      rw [hload] at h
      cases h
  rw [parseAll_eq]
  refine hsorted.filterMap _ fun file file' hle source h source' h' => ?_
  unfold byPath at hle ⊢
  rw [hpath file source h, hpath file' source' h']
  exact hle

theorem consistsOf_ofFiles (externs sources : List (String × String)) :
    (ofFiles externs sources).ConsistsOf (externs.map loadText) (sources.map loadText) where
  externs := (parseAll_perm externs).1
  sources := (parseAll_perm sources).1
  unreadable := by
    rw [List.filterMap_append]
    exact (parseAll_perm externs).2.append (parseAll_perm sources).2
  sortedExterns := parseAll_sorted externs
  sortedSources := parseAll_sorted sources

end Compilation

namespace Project

def setAside : String × FileFault → Unreadable
  | (path, fault) => ⟨path, s!"Failed to read file: {fault.text}"⟩

section ReadAll
variable (fs : FileSystem) (path : String) (paths : List String)

theorem readAll_cons_ok {text : String} (h : fs.readText path = .ok text) :
    readAll fs (path :: paths) = ((path, text) :: (readAll fs paths).1, (readAll fs paths).2) ∧
      loadPath fs path = loadText (path, text) := by
  simp [readAll, loadPath, loadText, h]

theorem readAll_cons_error {fault : FileFault} (h : fs.readText path = .error fault) :
    readAll fs (path :: paths) = ((readAll fs paths).1, (path, fault) :: (readAll fs paths).2) ∧
      loadPath fs path = .error (setAside (path, fault)) := by
  simp [readAll, loadPath, setAside, h]

theorem readAll_source :
    ((readAll fs paths).1.map loadText).filterMap Loaded.source? =
      (paths.map (loadPath fs)).filterMap Loaded.source? := by
  induction paths with
  | nil => rfl
  | cons path rest ih =>
    cases h : fs.readText path with
    | ok text =>
      obtain ⟨hread, hload⟩ := readAll_cons_ok fs path rest h
      rw [hread, List.map_cons, List.map_cons, hload, List.filterMap_cons, List.filterMap_cons, ih]
    | error fault =>
      obtain ⟨hread, hload⟩ := readAll_cons_error fs path rest h
      rw [hread, List.map_cons, hload, List.filterMap_cons_none rfl, ih]

theorem readAll_unreadable :
    ((readAll fs paths).2.map setAside ++
      ((readAll fs paths).1.map loadText).filterMap Loaded.unreadable?).Perm
        ((paths.map (loadPath fs)).filterMap Loaded.unreadable?) := by
  induction paths with
  | nil => exact .refl _
  | cons path rest ih =>
    cases h : fs.readText path with
    | ok text =>
      obtain ⟨hread, hload⟩ := readAll_cons_ok fs path rest h
      rw [hread, List.map_cons, List.map_cons, hload]
      cases hu : (loadText (path, text)).unreadable? with
      | none =>
        rw [List.filterMap_cons_none hu, List.filterMap_cons_none hu]
        exact ih
      | some u =>
        rw [List.filterMap_cons_some hu, List.filterMap_cons_some hu]
        exact List.perm_middle.trans (ih.cons u)
    | error fault =>
      obtain ⟨hread, hload⟩ := readAll_cons_error fs path rest h
      rw [hread, List.map_cons, List.map_cons, hload]
      exact ih.cons _

end ReadAll

theorem consistsOf_compile (fs : FileSystem) (p : Project) :
    (p.compile fs).1.ConsistsOf (p.externs.map (loadPath fs)) (p.files.map (loadPath fs)) := by
  have hparsed := Compilation.consistsOf_ofFiles (readAll fs p.externs).1 (readAll fs p.files).1
  constructor
  · rw [← readAll_source]
    exact hparsed.externs
  · rw [← readAll_source]
    exact hparsed.sources
  · refine (List.mergeSort_perm _ _).trans ?_
    rw [List.filterMap_append]
    have hread := (readAll_unreadable fs p.externs).append (readAll_unreadable fs p.files)
    refine List.Perm.trans ?_ hread
    refine List.Perm.trans (List.Perm.append_left _ hparsed.unreadable) ?_
    change (((readAll fs p.externs).2 ++ (readAll fs p.files).2).map setAside ++ _).Perm _
    rw [List.map_append, List.filterMap_append, List.append_assoc, List.append_assoc]
    exact List.Perm.append_left _ (List.perm_append_comm_assoc _ _ _)
  · exact hparsed.sortedExterns
  · exact hparsed.sortedSources

end Project

namespace Compilation

variable {c c' : Compilation} {es ss es' ss' : List Loaded}

theorem MadeFrom.consistsOf (h : c.MadeFrom es ss) : c.ConsistsOf es ss := by
  cases h with
  | ofFiles externs sources => exact consistsOf_ofFiles externs sources
  | compile fs project => exact Project.consistsOf_compile fs project

theorem MadeFrom.exists_parse (h : c.MadeFrom es ss) {s : Source} (hs : s ∈ c.sources) :
    ∃ path code, Source.parse path code = .ok s := by
  cases h with
  | ofFiles externs sources => exact Definition.exists_parse_of_mem_ofFiles hs
  | compile fs project =>
    have hs : s ∈ (Compilation.ofFiles (Project.readAll fs project.externs).1
      (Project.readAll fs project.files).1).sources := hs
    exact Definition.exists_parse_of_mem_ofFiles hs

theorem MadeFrom.exists_filter (h : c.MadeFrom es ss) :
    ∃ c' : Compilation, c'.MadeFrom (es.filter Loaded.isSource) (ss.filter Loaded.isSource) := by
  cases h with
  | ofFiles externs sources =>
    rw [List.filter_map, List.filter_map]
    exact ⟨_, .ofFiles _ _⟩
  | compile fs project =>
    rw [List.filter_map, List.filter_map]
    let readable (paths : List String) := paths.filter (Loaded.isSource ∘ loadPath fs)
    exact ⟨_, .compile fs
      { project with externs := readable project.externs, files := readable project.files }⟩

theorem paths_perm (files : List Loaded) :
    ((files.filterMap Loaded.source?).map Source.path ++
      (files.filterMap Loaded.unreadable?).map Unreadable.path).Perm (files.map Loaded.path) := by
  induction files with
  | nil => exact .refl _
  | cons file rest ih =>
    cases file with
    | ok source => exact ih.cons source.path
    | error u => exact List.perm_middle.trans (ih.cons u.path)

namespace ConsistsOf

variable (h : c.ConsistsOf es ss)
include h

theorem paths : c.paths.Perm ((es ++ ss).map Loaded.path) := by
  have hunreadable := h.unreadable.map Unreadable.path
  rw [List.filterMap_append, List.map_append] at hunreadable
  refine (((h.externs.map _).append (h.sources.map _)).append hunreadable).trans ?_
  rw [List.map_append]
  refine List.Perm.trans ?_ ((paths_perm es).append (paths_perm ss))
  rw [List.append_assoc, List.append_assoc]
  exact List.Perm.append_left _ (List.perm_append_comm_assoc _ _ _)

theorem nodup (distinct : ((es ++ ss).map Loaded.path).Nodup) :
    (c.externs.map Source.path).Nodup ∧ (c.sources.map Source.path).Nodup ∧
      (c.unreadable.map Unreadable.path).Nodup := by
  have hall := h.paths.nodup_iff.2 distinct
  unfold Compilation.paths at hall
  rw [List.nodup_append, List.nodup_append] at hall
  exact ⟨hall.1.1, hall.1.2.1, hall.2.1⟩

theorem unique (distinct : ((es ++ ss).map Loaded.path).Nodup) (h' : c'.ConsistsOf es' ss')
    (hexterns : (es'.filterMap Loaded.source?).Perm (es.filterMap Loaded.source?))
    (hsources : (ss'.filterMap Loaded.source?).Perm (ss.filterMap Loaded.source?)) :
    c'.externs = c.externs ∧ c'.sources = c.sources := by
  obtain ⟨hnodup, hnodup', -⟩ := h.nodup distinct
  constructor
  · exact (eq_of_sortedByPath (h.externs.trans (hexterns.symm.trans h'.externs.symm))
      h.sortedExterns h'.sortedExterns hnodup).symm
  · exact (eq_of_sortedByPath (h.sources.trans (hsources.symm.trans h'.sources.symm))
      h.sortedSources h'.sortedSources hnodup').symm

end ConsistsOf

end Compilation

namespace Definition

variable {settings : Settings} {c c' : Compilation}

theorem run_congr (hexterns : c'.externs = c.externs) (hsources : c'.sources = c.sources) :
    run settings c' = run settings c := by
  unfold run globalNames
  rw [hexterns, hsources]

theorem rule_of_mem_run {i : Issue} (h : i ∈ Event.issues (run settings c)) :
    i.rule ≠ .unreadable := by
  obtain ⟨file, source, -, span, hspan⟩ := shows_of_mem_run h
  intro hrule
  cases i with
  | unreadable path reason => cases hspan
  | _ => cases hrule

theorem filter_reported (settings : Settings) (c : Compilation) :
    (reported c (run settings c)).filter (·.rule = .unreadable) =
        Issue.sorted (c.unreadable.map Unreadable.issue) ∧
      (reported c (run settings c)).filter (·.rule ≠ .unreadable) =
        Issue.sorted (Event.issues (run settings c)) := by
  have hunreadable : ∀ i ∈ c.unreadable.map Unreadable.issue, i.rule = .unreadable := by
    intro i hi
    obtain ⟨u, -, rfl⟩ := List.mem_map.1 hi
    rfl
  have hissues : ∀ i ∈ Event.issues (run settings c), i.rule ≠ .unreadable :=
    fun i => rule_of_mem_run
  unfold reported
  rw [Issue.filter_sorted, Issue.filter_sorted, List.filter_append, List.filter_append]
  constructor
  · rw [List.filter_eq_self.2 (by simpa using hunreadable),
      List.filter_eq_nil_iff.2 (by simpa using hissues), List.append_nil]
  · rw [List.filter_eq_nil_iff.2 (by simpa using hunreadable),
      List.filter_eq_self.2 (by simpa using hissues), List.nil_append]

theorem rule_eq_of_order {a b : Issue} (hab : (a.order b).isLE) (hba : (b.order a).isLE) :
    a.rule = .unreadable ↔ b.rule = .unreadable := by
  have hrank := (Issue.eq_of_order_eq (Std.OrientedCmp.isLE_antisymm hab hba)).2
  have hunreadable : ∀ r : Rule, r = .unreadable ↔ r.rank = 9 := by
    intro r
    cases r <;> decide
  rw [hunreadable, hunreadable, hrank]

theorem sorted_unreadable {us us' : List Unreadable} (hperm : us.Perm us')
    (distinct : (us.map Unreadable.path).Nodup) :
    Issue.sorted (us.map Unreadable.issue) = Issue.sorted (us'.map Unreadable.issue) := by
  have hissues : (Issue.sorted (us.map Unreadable.issue)).Perm
      (Issue.sorted (us'.map Unreadable.issue)) :=
    (List.mergeSort_perm _ _).trans ((hperm.map _).trans (List.mergeSort_perm _ _).symm)
  refine List.Perm.eq_of_pairwise (fun a b ha hb hab hba => ?_) (Issue.pairwise_sorted _)
    (Issue.pairwise_sorted _) hissues
  obtain ⟨u, hu, rfl⟩ := List.mem_map.1 ((List.mergeSort_perm _ _).subset ha)
  obtain ⟨v, hv, rfl⟩ := List.mem_map.1 ((List.mergeSort_perm _ _).subset (hissues.mem_iff.2 hb))
  have hpath : u.path = v.path :=
    (Issue.eq_of_order_eq (Std.OrientedCmp.isLE_antisymm hab hba)).1
  rw [List.inj_on_of_nodup_map distinct hu hv hpath]

theorem reported_congr (hexterns : c'.externs = c.externs) (hsources : c'.sources = c.sources)
    (hunreadable : c.unreadable.Perm c'.unreadable)
    (distinct : (c.unreadable.map Unreadable.path).Nodup) :
    reported c' (run settings c') = reported c (run settings c) := by
  obtain ⟨hyes, hno⟩ := filter_reported settings c
  obtain ⟨hyes', hno'⟩ := filter_reported settings c'
  refine eq_of_filter_eq (p := (·.rule = .unreadable)) (Issue.pairwise_sorted _)
    (Issue.pairwise_sorted _) (fun a b hab hba => ?_) ?_ ?_
  · rw [decide_eq_decide]
    exact rule_eq_of_order hab hba
  · rw [hyes, hyes', sorted_unreadable hunreadable distinct]
  · simp only [← decide_not]
    rw [hno, hno', run_congr hexterns hsources]

end Definition

namespace Definition

variable {settings : Settings} {c c' : Compilation} {es ss es' ss' : List Loaded}

theorem run_perm (h : c.ConsistsOf es ss) (h' : c'.ConsistsOf es' ss')
    (distinct : ((es ++ ss).map Loaded.path).Nodup) (hes : es'.Perm es) (hss : ss'.Perm ss) :
    c'.externs = c.externs ∧ c'.sources = c.sources ∧
      run settings c' = run settings c ∧
      reported c' (run settings c') = reported c (run settings c) := by
  obtain ⟨hexterns, hsources⟩ :=
    h.unique distinct h' (hes.filterMap Loaded.source?) (hss.filterMap Loaded.source?)
  have hunreadable : c.unreadable.Perm c'.unreadable :=
    h.unreadable.trans (((hes.append hss).filterMap _).symm.trans h'.unreadable.symm)
  exact ⟨hexterns, hsources, run_congr hexterns hsources,
    reported_congr hexterns hsources hunreadable (h.nodup distinct).2.2⟩

theorem filterMap_filter_isSource (files : List Loaded) :
    (files.filter Loaded.isSource).filterMap Loaded.source? = files.filterMap Loaded.source? ∧
      (files.filter Loaded.isSource).filterMap Loaded.unreadable? = [] := by
  induction files with
  | nil => exact ⟨rfl, rfl⟩
  | cons file rest ih =>
    cases file with
    | ok source => exact ⟨congrArg (source :: ·) ih.1, ih.2⟩
    | error u => exact ih

theorem run_filter (h : c.ConsistsOf es ss)
    (h' : c'.ConsistsOf (es.filter Loaded.isSource) (ss.filter Loaded.isSource))
    (distinct : ((es ++ ss).map Loaded.path).Nodup) :
    run settings c' = run settings c ∧
      (reported c (run settings c)).filter (·.rule ≠ .unreadable) =
        reported c' (run settings c') := by
  obtain ⟨hes, -⟩ := filterMap_filter_isSource es
  obtain ⟨hss, -⟩ := filterMap_filter_isSource ss
  obtain ⟨hexterns, hsources⟩ := h.unique distinct h' (hes ▸ .refl _) (hss ▸ .refl _)
  have hnone : c'.unreadable = [] := by
    have hperm := h'.unreadable
    rw [← List.filter_append, (filterMap_filter_isSource (es ++ ss)).2] at hperm
    exact hperm.eq_nil
  have hrun : run settings c' = run settings c := run_congr hexterns hsources
  refine ⟨hrun, ?_⟩
  rw [(filter_reported settings c).2, ← hrun]
  unfold reported
  rw [hnone, List.map_nil, List.nil_append]

theorem reported_unreadable (h : c.ConsistsOf es ss) :
    ((reported c (run settings c)).filter (·.rule = .unreadable)).Perm
      (((es ++ ss).filterMap Loaded.unreadable?).map Unreadable.issue) := by
  rw [(filter_reported settings c).1]
  exact (List.mergeSort_perm _ _).trans (h.unreadable.map _)

/-- Every file has one place, in which order the files are given does not matter, and a file that is
set aside does nothing but to be reported once. -/
theorem inputs_run (settings : Settings) (h : c.MadeFrom es ss)
    (distinct : ((es ++ ss).map Loaded.path).Nodup) :
    (c.ConsistsOf es ss ∧ c.paths.Perm ((es ++ ss).map Loaded.path) ∧ c.paths.Nodup) ∧
    (∀ c' es' ss', c'.MadeFrom es' ss' → es'.Perm es → ss'.Perm ss →
      c'.externs = c.externs ∧ c'.sources = c.sources ∧
        run settings c' = run settings c ∧
        reported c' (run settings c') = reported c (run settings c)) ∧
    (∃ c' : Compilation, c'.MadeFrom (es.filter Loaded.isSource) (ss.filter Loaded.isSource)) ∧
    ∀ c' : Compilation, c'.MadeFrom (es.filter Loaded.isSource) (ss.filter Loaded.isSource) →
      run settings c' = run settings c ∧
        (reported c (run settings c)).filter (·.rule ≠ .unreadable) =
          reported c' (run settings c') ∧
        ((reported c (run settings c)).filter (·.rule = .unreadable)).Perm
          (((es ++ ss).filterMap Loaded.unreadable?).map Unreadable.issue) := by
  have hfiles := h.consistsOf
  refine ⟨⟨hfiles, hfiles.paths, hfiles.paths.nodup_iff.2 distinct⟩, ?_, h.exists_filter, ?_⟩
  · intro c' es' ss' h' hes hss
    exact run_perm hfiles h'.consistsOf distinct hes hss
  · intro c' h'
    obtain ⟨hrun, hissues⟩ := run_filter hfiles h'.consistsOf distinct
    exact ⟨hrun, hissues, reported_unreadable hfiles⟩

theorem inputs_run_broken :
    let files := [("b.js", "x;"), ("a.js", "(")]
    (((files.map loadText).map Loaded.path).Nodup ∧
      (Compilation.ofFiles [] files).MadeFrom [] (files.map loadText)) ∧
    reported (.ofFiles [] files.reverse) (run {} (.ofFiles [] files.reverse)) =
        reported (.ofFiles [] files) (run {} (.ofFiles [] files)) ∧
      run {} (.ofFiles [] [("b.js", "x;")]) = run {} (.ofFiles [] files) := by
  intro files
  have hpaths : ((files.map loadText).map Loaded.path).Nodup := by
    have hpath : Loaded.path ∘ loadText = Prod.fst := funext path_loadText
    rw [List.map_map, hpath]
    decide
  have hmade : (Compilation.ofFiles [] files).MadeFrom [] (files.map loadText) := .ofFiles [] files
  have hkept : (files.map loadText).filter Loaded.isSource = [("b.js", "x;")].map loadText := by
    rw [List.filter_map]
    have hbroken : files.filter (Loaded.isSource ∘ loadText) = [("b.js", "x;")] := by
      decide +kernel
    rw [hbroken]
  obtain ⟨-, hperm, -, hbroken⟩ := inputs_run {} hmade hpaths
  refine ⟨⟨hpaths, hmade⟩, ?_, ?_⟩
  · exact (hperm _ _ _ (.ofFiles [] files.reverse) (.refl _)
      (files.reverse_perm.map loadText)).2.2.2
  · exact (hbroken _ (hkept ▸ .ofFiles [] [("b.js", "x;")])).1

end Definition

end MessageCatalog

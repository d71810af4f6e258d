import MessageCatalog.Proofs.FileRoles

/-! What is excluded is not entered. A scan finds what one finds that enters everything, and leaves
out the sources with something excluded on the way to them. -/

namespace MessageCatalog

namespace Project

variable {fs : FileSystem} {base start path : String} {includes ignores : List String}
  {ignoreTestFiles : Bool}

inductive Excluded (base : String) (ignores : List String) (ignoreTestFiles : Bool)
    (path : String) : Prop
  | place (ignore : String) :
    ignore ∈ ignores → ¬ Glob.hasWildcard ignore →
    Path.components (Path.join base ignore).toList <+: Path.components path.toList →
    Excluded base ignores ignoreTestFiles path
  | pattern (ignore : String) (pieces : List Glob.Piece) :
    ignore ∈ ignores → Glob.hasWildcard ignore → Glob.parse ignore = .ok pieces →
    Glob.matchesText pieces path.toList → Excluded base ignores ignoreTestFiles path
  | test (pattern : String) (pieces : List Glob.Piece) :
    ignoreTestFiles → pattern ∈ testPatterns → Glob.parse pattern = .ok pieces →
    Glob.matchesText pieces path.toList → Excluded base ignores ignoreTestFiles path

theorem mem_places {place : String} :
    place ∈ (Filter.ofIgnores base ignores ignoreTestFiles).places ↔
      ∃ ignore ∈ ignores, ¬ Glob.hasWildcard ignore ∧ Path.join base ignore = place := by
  simp [Filter.ofIgnores, and_assoc]

theorem mem_patterns {pieces : List Glob.Piece} :
    pieces ∈ (Filter.ofIgnores base ignores ignoreTestFiles).patterns ↔
      (∃ ignore ∈ ignores, Glob.hasWildcard ignore ∧ Glob.parse ignore = .ok pieces) ∨
        ∃ pattern ∈ testPatterns, ignoreTestFiles ∧ Glob.parse pattern = .ok pieces := by
  have hparsed : ∀ pattern, (Glob.parse pattern).toOption = some pieces ↔
      Glob.parse pattern = .ok pieces := by
    intro pattern
    cases Glob.parse pattern <;> simp [Except.toOption]
  simp only [Filter.ofIgnores, List.mem_filterMap, List.mem_append, List.mem_filter, hparsed]
  constructor
  · rintro ⟨pattern, ⟨hignore, hwildcard⟩ | htest, hpieces⟩
    · exact .inl ⟨pattern, hignore, hwildcard, hpieces⟩
    · split_ifs at htest with hflag
      · exact .inr ⟨pattern, htest, hflag, hpieces⟩
      · cases htest
  · rintro (⟨pattern, hignore, hwildcard, hpieces⟩ | ⟨pattern, htest, hflag, hpieces⟩)
    · exact ⟨pattern, .inl ⟨hignore, hwildcard⟩, hpieces⟩
    · exact ⟨pattern, .inr (by rwa [if_pos hflag]), hpieces⟩

theorem excludes_ofIgnores :
    (Filter.ofIgnores base ignores ignoreTestFiles).excludes path ↔
      Excluded base ignores ignoreTestFiles path := by
  simp only [Filter.excludes, Bool.or_eq_true, List.any_eq_true]
  constructor
  · rintro (⟨place, hplace, hwithin⟩ | ⟨pieces, hpieces, hmatches⟩)
    · obtain ⟨ignore, hignore, hwildcard, rfl⟩ := mem_places.1 hplace
      exact .place ignore hignore hwildcard (List.isPrefixOf_iff_prefix.1 hwithin)
    · rcases mem_patterns.1 hpieces with
        ⟨ignore, hignore, hwildcard, hparse⟩ | ⟨pattern, htest, hflag, hparse⟩
      · exact .pattern ignore pieces hignore hwildcard hparse hmatches
      · exact .test pattern pieces hflag htest hparse hmatches
  · rintro (⟨ignore, hignore, hwildcard, hwithin⟩ |
      ⟨ignore, pieces, hignore, hwildcard, hparse, hmatches⟩ |
      ⟨pattern, pieces, hflag, htest, hparse, hmatches⟩)
    · exact .inl ⟨_, mem_places.2 ⟨ignore, hignore, hwildcard, rfl⟩,
        List.isPrefixOf_iff_prefix.2 hwithin⟩
    · exact .inr ⟨pieces, mem_patterns.2 (.inl ⟨ignore, hignore, hwildcard, hparse⟩), hmatches⟩
    · exact .inr ⟨pieces, mem_patterns.2 (.inr ⟨pattern, htest, hflag, hparse⟩), hmatches⟩

theorem Excluded.congr {ignores' : List String}
    (h : ∀ ignore, ignore ∈ ignores' ↔ ignore ∈ ignores) :
    Excluded base ignores' ignoreTestFiles path ↔ Excluded base ignores ignoreTestFiles path := by
  rw [← excludes_ofIgnores, ← excludes_ofIgnores]
  simp only [Filter.excludes, Bool.or_eq_true, List.any_eq_true, mem_places, mem_patterns, h]

theorem reaches_iff {f : Filter} {names : List String} :
    Reaches f start names ↔ ∀ outer, outer <+: names → ¬ f.excludes (Path.joinAll start outer) := by
  constructor
  · intro h outer houter
    rw [List.prefix_iff_eq_take.1 houter]
    exact h _ houter.length_le
  · intro h n _
    exact h _ (List.take_prefix n names)

structure SourceBelow (fs : FileSystem) (start : String) (names : List String) (path : String) :
    Prop where
  contains : fs.contains start
  isName : ∀ name ∈ names, Path.IsName name
  eq_joinAll : path = Path.joinAll start names
  isFile : fs.isFile path
  isSource : isSource path

theorem mem_walk_of_entry (hfs : fs.root.IsTree) {f : Filter} {e : Entry}
    (he : fs.entry start = .ok e) :
    path ∈ walk f start e ↔ ∃ names, SourceBelow fs start names path ∧ Reaches f start names := by
  obtain ⟨place, hleads⟩ := FileSystem.entry_eq_ok.1 he
  have htree : e.IsTree := hfs.at? hleads.at?
  rw [mem_walk htree]
  constructor
  · rintro ⟨names, bytes, hat, rfl, hsource, hreaches⟩
    have hnames := htree.isName_of_at? hat
    have hfile := (hleads.joinAll hnames hat).entry
    exact ⟨names, ⟨FileSystem.contains_iff.2 ⟨e, he⟩, hnames, rfl,
      FileSystem.isFile_iff.2 ⟨bytes, hfile⟩, hsource⟩, hreaches⟩
  · rintro ⟨names, ⟨-, hnames, rfl, hfile, hsource⟩, hreaches⟩
    obtain ⟨bytes, hbytes⟩ := FileSystem.isFile_iff.1 hfile
    obtain ⟨inner, hinner⟩ := FileSystem.entry_eq_ok.1 hbytes
    have hstart : start ≠ "" := FileSystem.locate_ne_empty hleads.locate
    obtain ⟨outer, e', houter, hat⟩ := hinner.of_joinAll hstart hnames
    obtain ⟨-, rfl⟩ := hleads.unique houter
    exact ⟨names, bytes, hat, rfl, hsource, hreaches⟩

theorem mem_files_scan_iff (hfs : fs.root.IsTree) :
    path ∈ (scan fs base includes ignores ignoreTestFiles).files ↔
      ∃ start ∈ (roots fs base includes).1, ∃ names, SourceBelow fs start names path ∧
        ∀ outer, outer <+: names →
          ¬ Excluded base ignores ignoreTestFiles (Path.joinAll start outer) := by
  rw [mem_files_scan]
  refine exists_congr fun start => and_congr_right fun _ => ?_
  simp only [← excludes_ofIgnores, ← reaches_iff]
  constructor
  · rintro ⟨e, he, hpath⟩
    exact (mem_walk_of_entry hfs he).1 hpath
  · rintro ⟨names, hsource, hreaches⟩
    obtain ⟨e, he⟩ := FileSystem.contains_iff.1 hsource.contains
    exact ⟨e, he, (mem_walk_of_entry hfs he).2 ⟨names, hsource, hreaches⟩⟩

section
variable {includes' ignores' : List String}

theorem eq_nil_congr (h : ∀ entry, entry ∈ includes' ↔ entry ∈ includes) :
    includes' = [] ↔ includes = [] := by
  simp only [List.eq_nil_iff_forall_not_mem, h]

theorem mem_roots_congr (h : ∀ entry, entry ∈ includes' ↔ entry ∈ includes) :
    start ∈ (roots fs base includes').1 ↔ start ∈ (roots fs base includes).1 := by
  by_cases hnil : includes = []
  · rw [(eq_nil_congr h).2 hnil, hnil]
  · rw [mem_roots hnil, mem_roots (mt (eq_nil_congr h).1 hnil)]
    simp only [h]

theorem contains_of_mem_roots (hincludes : includes ≠ [])
    (h : start ∈ (roots fs base includes).1) : fs.contains start := by
  obtain ⟨entry, -, paths, hpaths, hmem⟩ := (mem_roots hincludes).1 h
  by_cases hwildcard : Glob.hasWildcard entry
  · rw [rootsOf, if_neg (by simpa using hwildcard)] at hpaths
    cases hexpand : expandPattern fs (Path.join base entry) with
    | error => simp [hexpand] at hpaths
    | ok expanded =>
      simp only [hexpand, Except.ok.injEq] at hpaths
      subst hpaths
      have hdirectory : fs.isDirectory start := (List.mem_filter.1 hmem).2
      rw [FileSystem.isDirectory] at hdirectory
      rw [FileSystem.contains]
      cases hentry : fs.entry start with
      | ok => rfl
      | error => simp [hentry] at hdirectory
  · obtain ⟨hcontains, rfl⟩ := (rootsOf_eq_ok hwildcard).1 hpaths
    rwa [List.mem_singleton.1 hmem]

theorem skipped_scan (hincludes : includes ≠ []) :
    (scan fs base includes ignores ignoreTestFiles).skipped = 0 := by
  rw [scan]
  refine List.length_eq_zero_iff.2 (List.filterMap_eq_nil_iff.2 fun start hstart => ?_)
  obtain ⟨e, he⟩ := FileSystem.contains_iff.1 (contains_of_mem_roots hincludes hstart)
  simp only [he]

theorem skipped_scan_congr (hincludes : ∀ entry, entry ∈ includes' ↔ entry ∈ includes) :
    (scan fs base includes' ignores' ignoreTestFiles).skipped =
      (scan fs base includes ignores ignoreTestFiles).skipped := by
  by_cases hnil : includes = []
  · rw [(eq_nil_congr hincludes).2 hnil, hnil]
    rfl
  · rw [skipped_scan hnil, skipped_scan (mt (eq_nil_congr hincludes).1 hnil)]

theorem files_scan_congr
    (h : ∀ path, path ∈ (scan fs base includes' ignores' ignoreTestFiles).files ↔
      path ∈ (scan fs base includes ignores ignoreTestFiles).files) :
    (scan fs base includes' ignores' ignoreTestFiles).files =
      (scan fs base includes ignores ignoreTestFiles).files := by
  have hperm := (List.perm_ext_iff_of_nodup (nodup_eraseDups _) (nodup_eraseDups _)).2 h
  have hsorted : ∀ includes ignores, (scan fs base includes ignores ignoreTestFiles).files.Pairwise
      fun a b => (byPath id a b).isLE := fun includes ignores =>
    (sorted_files_scan includes ignores ignoreTestFiles).imp fun hlt => by
      rw [byPath, id, id, hlt]
      rfl
  refine eq_of_sortedByPath hperm (hsorted _ _) (hsorted _ _) ?_
  rw [List.map_id]
  exact nodup_eraseDups _

end

/-- A scan finds the sources at or below the places to start for which nothing on the way, the place
to start and the source itself included, is excluded. Its result depends neither on the order nor
on repetitions of the includes and the ignores. -/
theorem scan_filtered (hfs : fs.root.IsTree) :
    (∀ path, path ∈ (scan fs base includes ignores ignoreTestFiles).files ↔
      ∃ start ∈ (roots fs base includes).1, ∃ names, SourceBelow fs start names path ∧
        ∀ outer, outer <+: names →
          ¬ Excluded base ignores ignoreTestFiles (Path.joinAll start outer)) ∧
      ∀ includes' ignores' : List String, (∀ entry, entry ∈ includes' ↔ entry ∈ includes) →
        (∀ entry, entry ∈ ignores' ↔ entry ∈ ignores) →
          (scan fs base includes' ignores' ignoreTestFiles).files =
              (scan fs base includes ignores ignoreTestFiles).files ∧
            (scan fs base includes' ignores' ignoreTestFiles).skipped =
              (scan fs base includes ignores ignoreTestFiles).skipped := by
  refine ⟨fun path => mem_files_scan_iff hfs, fun includes' ignores' hincludes hignores => ?_⟩
  refine ⟨files_scan_congr fun path => ?_, skipped_scan_congr hincludes⟩
  rw [mem_files_scan_iff hfs, mem_files_scan_iff hfs]
  simp only [mem_roots_congr hincludes, Excluded.congr hignores]

theorem scan_filtered_sample :
    ∃ fs : FileSystem, fs.root.IsTree ∧
      "./src/a.js" ∈ (scan fs "." ["src"] ["src/lib"] true).files ∧
      "./src/lib/b.js" ∉ (scan fs "." ["src"] ["src/lib"] true).files ∧
        (scan fs "." ["src", "src"] ["src/lib", "src/lib"] true).files =
          (scan fs "." ["src"] ["src/lib"] true).files := by
  obtain ⟨hmem, hsame⟩ :=
    @scan_filtered (sample "") "." ["src"] ["src/lib"] true (sample_isTree "")
  refine ⟨sample "", sample_isTree "", (hmem _).2 ?_, ?_, ?_⟩
  · refine ⟨"./src", by decide +kernel, ["a.js"], ⟨by decide +kernel, by decide +kernel,
      by decide +kernel, by decide +kernel, by decide +kernel⟩, ?_⟩
    simp only [← excludes_ofIgnores, ← reaches_iff, reaches_cons, reaches_nil]
    decide +kernel
  · rw [mem_files_iff_mem_found]
    decide +kernel
  · exact (hsame _ _ (by simp) (by simp)).1

end Project

end MessageCatalog

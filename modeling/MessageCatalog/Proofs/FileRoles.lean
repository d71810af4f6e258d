import MessageCatalog.Proofs.Scanning

/-! Which files a project is made of: as paths the sources and the externs are told apart, and so
are the files themselves as long as the configuration spells their directories alike. -/

namespace MessageCatalog

namespace Project

variable {f : Filter} {fs : FileSystem} {base root path start : String}

theorem mem_roots {includes : List String} (hincludes : includes ≠ []) :
    start ∈ (roots fs base includes).1 ↔
      ∃ entry ∈ includes, ∃ paths, rootsOf fs base entry = .ok paths ∧ start ∈ paths := by
  rw [roots, if_neg (by simpa using hincludes)]
  clear hincludes
  induction includes with
  | nil => simp
  | cons entry rest ih =>
    rw [List.foldr_cons]
    cases hroots : rootsOf fs base entry <;> simp [hroots, ih]

theorem rootsOf_eq_ok {entry : String} {paths : List String} (h : ¬ Glob.hasWildcard entry) :
    rootsOf fs base entry = .ok paths ↔
      fs.contains (Path.join base entry) ∧ paths = [Path.join base entry] := by
  rw [rootsOf, if_pos (by simpa using h)]
  split_ifs with hcontains <;> simp [hcontains, eq_comm]

theorem exists_names_of_mem_roots {includes : List String}
    (h : ∀ entry ∈ includes, ¬ Glob.hasWildcard entry ∧ Path.IsPlain entry)
    (hstart : start ∈ (roots fs root includes).1) :
    ∃ names, (∀ name ∈ names, Path.IsName name) ∧ start = Path.joinAll root names := by
  by_cases hincludes : includes = []
  · rw [hincludes] at hstart
    exact ⟨[], by simp, List.mem_singleton.1 hstart⟩
  · obtain ⟨entry, hentry, paths, hpaths, hmem⟩ := (mem_roots hincludes).1 hstart
    obtain ⟨hwildcard, hplain⟩ := h entry hentry
    obtain ⟨-, rfl⟩ := (rootsOf_eq_ok hwildcard).1 hpaths
    rw [List.mem_singleton.1 hmem]
    exact hplain.exists_join root

def SpelledAlike (fs : FileSystem) (starts paths : List String) : Prop :=
  ∀ start ∈ starts, ∀ path ∈ paths, ∀ place names, fs.locate start = .ok place →
    fs.locate path = .ok (place ++ names) → path = Path.joinAll start names

theorem SpelledAlike.of_names {starts paths : List String}
    (hstarts : ∀ start ∈ starts,
      ∃ names, (∀ name ∈ names, Path.IsName name) ∧ start = Path.joinAll root names)
    (hpaths : ∀ path ∈ paths,
      ∃ names, (∀ name ∈ names, Path.IsName name) ∧ path = Path.joinAll root names) :
    SpelledAlike fs starts paths := by
  intro start hstart path hpath place names hplace hbelow
  obtain ⟨origin, horigin⟩ := fs.exists_origin root
  obtain ⟨xs, hxs, rfl⟩ := hstarts start hstart
  obtain ⟨ys, hys, rfl⟩ := hpaths path hpath
  obtain rfl := horigin xs place hxs hplace
  have hnames := horigin ys _ hys hbelow
  rw [List.append_assoc, List.append_cancel_left_eq] at hnames
  rw [← hnames, Path.joinAll_append]

theorem load_eq_ok {overrides : Overrides} {p : Project} (h : load fs root overrides = .ok p) :
    p.files =
        (scan fs root p.config.includes p.config.ignores p.config.ignoreTestFiles).files.filter
          (!p.externs.contains ·) ∧
      p.externs = p.config.externs.map (Path.join root) := by
  unfold load at h
  cases hconfig : Config.load fs root with
  | error => simp [hconfig, bind, Except.bind] at h
  | ok config =>
    simp only [hconfig, bind, Except.bind, pure, Except.pure, Except.ok.injEq] at h
    subst h
    exact ⟨rfl, rfl⟩

theorem exists_start_of_mem_files (hfs : fs.root.IsTree) {includes ignores : List String}
    {ignoreTestFiles : Bool} (h : path ∈ (scan fs base includes ignores ignoreTestFiles).files) :
    ∃ start ∈ (roots fs base includes).1, ∃ place names bytes, fs.locate start = .ok place ∧
      path = Path.joinAll start names ∧ fs.locate path = .ok (place ++ names) ∧
        fs.root.at? (place ++ names) = some (.file bytes) := by
  obtain ⟨start, hstart, e, he, hpath⟩ := mem_files_scan.1 h
  obtain ⟨place, hleads⟩ := FileSystem.entry_eq_ok.1 he
  have htree : e.IsTree := hfs.at? hleads.at?
  obtain ⟨names, bytes, hnames, rfl, -, -⟩ := (mem_walk htree).1 hpath
  have hfile := hleads.joinAll (htree.isName_of_at? hnames) hnames
  exact ⟨start, hstart, place, names, bytes, hleads.locate, rfl, hfile.locate, hfile.at?⟩

theorem SpelledAlike.eq_of_locate {starts : List String} (h : SpelledAlike fs starts starts)
    {s t : String} (hs : s ∈ starts) (ht : t ∈ starts) {place place' names names' : List String}
    (hplace : fs.locate s = .ok place) (hplace' : fs.locate t = .ok place')
    (heq : place ++ names = place' ++ names') : Path.joinAll s names = Path.joinAll t names' := by
  rcases List.append_eq_append_iff.1 heq with ⟨rest, rfl, rfl⟩ | ⟨rest, rfl, rfl⟩
  · rw [h s hs t ht place rest hplace hplace', Path.joinAll_append]
  · rw [h t ht s hs place' rest hplace' hplace, Path.joinAll_append]

def starts (fs : FileSystem) (root : String) (p : Project) : List String :=
  (roots fs root p.config.includes).1

theorem starts_spelledAlike {p : Project}
    (hexterns : p.externs = p.config.externs.map (Path.join root))
    (hincludes : ∀ entry ∈ p.config.includes, ¬ Glob.hasWildcard entry ∧ Path.IsPlain entry)
    (hplain : ∀ entry ∈ p.config.externs, Path.IsPlain entry) :
    SpelledAlike fs (p.starts fs root) (p.starts fs root ++ p.externs) := by
  have hstarts : ∀ start ∈ p.starts fs root,
      ∃ names, (∀ name ∈ names, Path.IsName name) ∧ start = Path.joinAll root names :=
    fun start hstart => exists_names_of_mem_roots hincludes hstart
  refine SpelledAlike.of_names hstarts fun path hpath => ?_
  rcases List.mem_append.1 hpath with hpath | hpath
  · exact hstarts path hpath
  · rw [hexterns, List.mem_map] at hpath
    obtain ⟨entry, hentry, rfl⟩ := hpath
    exact (hplain entry hentry).exists_join root

/-- The sources of a project are files that come in the order of their paths, each path once, and
none is the path of an extern. If the places to start and the externs are spelled alike, no file
comes twice, and none is an extern. They are if their entries have no wildcards and are spelled
plainly. -/
theorem files_of_load {overrides : Overrides} {p : Project} (hfs : fs.root.IsTree)
    (h : load fs root overrides = .ok p) :
    p.files.Pairwise (fun a b => Text.compareBytes a.toList b.toList = .lt) ∧
      (∀ path ∈ p.files, fs.isFile path ∧ path ∉ p.externs) ∧
      (SpelledAlike fs (p.starts fs root) (p.starts fs root ++ p.externs) → ∀ a ∈ p.files,
        (∀ b ∈ p.files, fs.locate a = fs.locate b → a = b) ∧
          ∀ x ∈ p.externs, fs.locate a ≠ fs.locate x) ∧
      ((∀ entry ∈ p.config.includes, ¬ Glob.hasWildcard entry ∧ Path.IsPlain entry) →
        (∀ entry ∈ p.config.externs, Path.IsPlain entry) →
          SpelledAlike fs (p.starts fs root) (p.starts fs root ++ p.externs)) := by
  obtain ⟨hfiles, hexterns⟩ := load_eq_ok h
  have hkept : ∀ path ∈ p.files,
      path ∈ (scan fs root p.config.includes p.config.ignores p.config.ignoreTestFiles).files ∧
        path ∉ p.externs := by
    intro path hpath
    simpa [hfiles] using hpath
  have hfound := fun path hpath => exists_start_of_mem_files hfs (hkept path hpath).1
  refine ⟨?_, fun path hpath => ⟨?_, (hkept path hpath).2⟩, fun hspelled a ha => ?_,
    starts_spelledAlike hexterns⟩
  · rw [hfiles]
    exact (sorted_files_scan _ _ _).filter _
  · obtain ⟨-, -, place, names, bytes, -, -, hlocate, hfile⟩ := hfound path hpath
    rw [FileSystem.isFile, FileSystem.entry_eq_ok.2 ⟨_, hlocate, hfile⟩]
    rfl
  · obtain ⟨s, hs, place, names, -, hplace, rfl, ha', -⟩ := hfound a ha
    refine ⟨fun b hb hsame => ?_, fun x hx hsame => ?_⟩
    · obtain ⟨t, ht, place', names', -, hplace', rfl, hb', -⟩ := hfound b hb
      rw [ha', hb', Except.ok.injEq] at hsame
      have hstarts : SpelledAlike fs (p.starts fs root) (p.starts fs root) :=
        fun s hs t ht => hspelled s hs t (List.mem_append_left _ ht)
      exact hstarts.eq_of_locate hs ht hplace hplace' hsame
    · have hx' : x = Path.joinAll s names :=
        hspelled s hs x (List.mem_append_right _ hx) place names hplace (hsame ▸ ha')
      exact (hkept _ ha).2 (hx' ▸ hx)

section Sample

-- A project with a configuration, two sources and a file of externs.

def sampleSources : Entry :=
  .directory [("a.js", .file "".toUTF8), ("e.js", .file "".toUTF8),
    ("lib", .directory [("b.js", .file "".toUTF8)])]

def sample (config : String) : FileSystem where
  root := .directory
    [("p", .directory [(".jsmsgrc.json", .file config.toUTF8), ("src", sampleSources)])]
  current := ["p"]

theorem sample_isTree (config : String) : (sample config).root.IsTree := by
  have hlibrary : (Entry.directory [("b.js", .file "".toUTF8)]).IsTree :=
    .of_entries (by decide) (by simp [Entry.IsTree.file]) (by simp)
  have hsources : sampleSources.IsTree :=
    .of_entries (by decide) (by simpa [Entry.IsTree.file] using hlibrary) (by simp)
  have hproject : (Entry.directory
      [(".jsmsgrc.json", .file config.toUTF8), ("src", sampleSources)]).IsTree :=
    .of_entries (by simp; decide) (by simpa [Entry.IsTree.file] using hsources) (by simp)
  exact .of_entries (by simp; decide) (by simpa using hproject) (by simp)

theorem load_sample {text : String} {config : Config}
    (hparse : (Json.parse? text).bind Config.ofJson? = some config)
    (hfault : config.fault? = none) :
    ∃ p, load (sample text) "." {} = .ok p ∧ p.config = config := by
  have hfind : Config.find? (sample text) "." = some "./.jsmsgrc.json" := rfl
  have hentry : (sample text).entry "./.jsmsgrc.json" = .ok (.file text.toUTF8) := rfl
  have hbytes : String.fromUTF8? text.toUTF8 = some text := by
    have hvalid : text.toUTF8.IsValidUTF8 := text.isValidUTF8
    rw [String.fromUTF8?, dif_pos hvalid]
    rfl
  have htext : (sample text).readText "./.jsmsgrc.json" = .ok text := by
    simp only [FileSystem.readText, hentry, hbytes, bind, Except.bind, pure, Except.pure]
  have hload : Config.load (sample text) "." = .ok config := by
    simp [Config.load, hfind, htext, hparse, hfault]
  rw [load, hload]
  exact ⟨_, rfl, rfl⟩

theorem mem_files_sample {text : String} {config : Config} {p : Project}
    (hload : load (sample text) "." {} = .ok p) (hconfig : p.config = config) :
    path ∈ p.files ↔ path ∉ config.externs.map (Path.join ".") ∧
      path ∈ found (sample text) "." config.includes config.ignores config.ignoreTestFiles := by
  obtain ⟨hfiles, hexterns⟩ := load_eq_ok hload
  rw [hfiles, hexterns, hconfig, List.mem_filter, mem_files_iff_mem_found, and_comm]
  simp

theorem files_of_load_sample :
    ∃ text p, load (sample text) "." {} = .ok p ∧ "./src/lib/b.js" ∈ p.files ∧
      p.externs = ["./src/e.js"] ∧ ∀ a ∈ p.files,
        (∀ b ∈ p.files, (sample text).locate a = (sample text).locate b → a = b) ∧
          ∀ x ∈ p.externs, (sample text).locate a ≠ (sample text).locate x := by
  let text := "\x7b\"includes\": [\"src\", \"src/lib\"], \"externs\": [\"src/e.js\"]\x7d"
  let config : Config := { includes := ["src", "src/lib"], externs := ["src/e.js"] }
  have hparse : (Json.parse? text).bind Config.ofJson? = some config := by decide +kernel
  obtain ⟨p, hload, hconfig⟩ := load_sample hparse (by decide +kernel)
  have hfile : "./src/lib/b.js" ∈ p.files :=
    (mem_files_sample hload hconfig).2 (by decide +kernel)
  have hexterns : p.externs = ["./src/e.js"] := by
    rw [(load_eq_ok hload).2, hconfig]
    decide +kernel
  have hnames : ∀ names ∈ [["src"], ["src", "lib"], ["src", "e.js"]],
      ∀ name ∈ names, Path.IsName name := by decide +kernel
  have hsource : Path.IsPlain "src" := ⟨["src"], by simp, hnames _ (by simp), by decide +kernel⟩
  have hlibrary : Path.IsPlain "src/lib" :=
    ⟨["src", "lib"], by simp, hnames _ (by simp), by decide +kernel⟩
  have hextern : Path.IsPlain "src/e.js" :=
    ⟨["src", "e.js"], by simp, hnames _ (by simp), by decide +kernel⟩
  obtain ⟨-, -, hunique, hspelled⟩ := files_of_load (sample_isTree text) hload
  refine ⟨text, p, hload, hfile, hexterns, hunique (hspelled ?_ ?_)⟩
  · rw [hconfig]
    simp only [config, List.forall_mem_cons]
    exact ⟨⟨by decide, hsource⟩, ⟨by decide, hlibrary⟩, by simp⟩
  · rw [hconfig]
    simpa [config] using hextern

/-- With a dot in front of one of them, two entries for a directory give its files twice, and an
extern is not told from a source. -/
theorem not_files_of_load_sample :
    ∃ text p, load (sample text) "." {} = .ok p ∧
      (∃ a ∈ p.files, ∃ b ∈ p.files, a ≠ b ∧ (sample text).locate a = (sample text).locate b) ∧
        ∃ a ∈ p.files, ∃ x ∈ p.externs, (sample text).locate a = (sample text).locate x := by
  let text := "\x7b\"includes\": [\"src\", \"./src\"], \"externs\": [\"./src/e.js\"]\x7d"
  let config : Config := { includes := ["src", "./src"], externs := ["./src/e.js"] }
  have hparse : (Json.parse? text).bind Config.ofJson? = some config := by decide +kernel
  obtain ⟨p, hload, hconfig⟩ := load_sample hparse (by decide +kernel)
  have hsource : "./src/a.js" ∈ p.files := (mem_files_sample hload hconfig).2 (by decide +kernel)
  have hagain : "././src/a.js" ∈ p.files := (mem_files_sample hload hconfig).2 (by decide +kernel)
  have hkept : "./src/e.js" ∈ p.files := (mem_files_sample hload hconfig).2 (by decide +kernel)
  have hextern : "././src/e.js" ∈ p.externs := by
    rw [(load_eq_ok hload).2, hconfig]
    decide +kernel
  exact ⟨text, p, hload, ⟨_, hsource, _, hagain, by decide, by decide +kernel⟩,
    _, hkept, _, hextern, by decide +kernel⟩

end Sample

end Project

end MessageCatalog

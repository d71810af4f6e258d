import MessageCatalog.Proofs.Expansion
import MessageCatalog.Proofs.FileRoles

/-! A scan from another place. Where the source root is, and by which path it is reached, does not
matter to entries that do not lead upwards and to patterns that do not say where they start, as long
as these do not match the root itself. -/

namespace MessageCatalog

namespace FileSystem
variable {fs fs' : FileSystem} {place place' : List String}

theorem step_moved {piece : List Char} {p : List String}
    (hat : fs.root.at? place = fs'.root.at? place') (hup : piece ≠ ['.', '.'])
    (hstep : fs.step place piece = .ok p) :
    p = place ++ Path.namesIn [piece] ∧
      fs'.step place' piece = .ok (place' ++ Path.namesIn [piece]) := by
  unfold step at hstep ⊢
  rw [← hat]
  cases he : fs.root.at? place with
  | none => simp [he] at hstep
  | some e =>
    cases e with
    | file => simp [he] at hstep
    | directory entries =>
      simp only [he] at hstep ⊢
      by_cases hdot : piece = [] ∨ piece = ['.']
      · have hcomponent : Path.isComponent false piece = false := by
          rcases hdot with rfl | rfl <;> rfl
        have hskip : (decide (piece = []) || decide (piece = ['.'])) = true := by
          simpa using hdot
        rw [if_pos hskip, Except.ok.injEq] at hstep
        simp [Path.namesIn, hcomponent, hskip, hstep]
      · rw [not_or] at hdot
        have hcomponent : Path.isComponent false piece = true := by
          simp [Path.isComponent, hdot]
        simp only [hdot, hup, decide_false, Bool.or_self, Bool.false_eq_true, if_false] at hstep ⊢
        cases hget : Table.get (String.ofList piece) entries with
        | none => simp [hget] at hstep
        | some child =>
          simp only [hget, Except.ok.injEq] at hstep
          simp [Path.namesIn, hcomponent, hstep]

theorem foldlM_step_moved {pieces : List (List Char)} {p : List String}
    (hat : fs.root.at? place = fs'.root.at? place') (hup : ['.', '.'] ∉ pieces)
    (hfold : pieces.foldlM fs.step place = .ok p) :
    p = place ++ Path.namesIn pieces ∧
      pieces.foldlM fs'.step place' = .ok (place' ++ Path.namesIn pieces) := by
  induction pieces generalizing place place' with
  | nil =>
    cases hfold
    exact ⟨(List.append_nil _).symm, congrArg Except.ok (List.append_nil _).symm⟩
  | cons piece pieces ih =>
    rw [List.mem_cons, not_or] at hup
    rw [List.foldlM_cons] at hfold ⊢
    cases hq : fs.step place piece with
    | error => simp [hq, bind, Except.bind] at hfold
    | ok q =>
      obtain ⟨rfl, hq'⟩ := step_moved hat (Ne.symm hup.1) hq
      have hbelow : ∀ names, fs.root.at? (place ++ names) = fs'.root.at? (place' ++ names) := by
        intro names
        rw [Entry.at?_append, Entry.at?_append, hat]
      rw [hq] at hfold
      obtain ⟨rfl, hrest⟩ := ih (hbelow _) hup.2 hfold
      rw [hq', Path.namesIn_cons piece pieces, ← List.append_assoc, ← List.append_assoc]
      exact ⟨rfl, hrest⟩

theorem Leads.join_moved {base base' inner : String} {e e' : Entry} {p : List String}
    (hbase : fs.Leads base place e) (hbase' : fs'.Leads base' place' e)
    (hinner : Path.IsRelative inner) (hup : ['.', '.'] ∉ Text.splitAt '/' inner.toList)
    (h : fs.Leads (Path.join base inner) p e') :
    p = place ++ Path.names inner ∧
      fs'.Leads (Path.join base' inner) (place' ++ Path.names inner) e' := by
  have hat : fs.root.at? place = fs'.root.at? place' := by rw [hbase.at?, hbase'.at?]
  have hfold := h.locate
  rw [locate_join (locate_ne_empty hbase.locate) hinner, hbase.locate] at hfold
  obtain ⟨rfl, hfold'⟩ := foldlM_step_moved hat hup hfold
  refine ⟨rfl, ?_, ?_⟩
  · rw [locate_join (locate_ne_empty hbase'.locate) hinner, hbase'.locate]
    exact hfold'
  · rw [Entry.at?_append, ← hat, ← Entry.at?_append]
    exact h.at?

end FileSystem

namespace Project
variable {fs fs' : FileSystem} {base base' path : String} {place place' : List String} {e : Entry}

/-- What paths are below the root: they are joined to it, or are the root, or, if paths may be
`bare`, have no root in front. -/
inductive Seen (bare : Prop) (base : String) : String → String → Prop
  | root : Seen bare base "" base
  | below {inner : String} : Path.IsRelative inner → Seen bare base inner (Path.join base inner)
  | bare {inner : String} : bare → Path.IsRelative inner → inner ≠ "" → Seen bare base inner inner

theorem Seen.join {bare : Prop} {inner name : String} (h : Seen bare base inner path)
    (hname : Path.IsName name) :
    Seen bare base (Path.join inner name) (Path.join path name) := by
  cases h with
  | root =>
    rw [Path.empty_join]
    exact .below hname.isRelative
  | below hinner =>
    rw [Path.join_join hinner hname.isRelative]
    exact .below (hinner.join hname.isRelative)
  | bare hbare hinner hne =>
    exact .bare hbare (hinner.join hname.isRelative) (Path.join_ne_empty hne hname.isRelative)

theorem Seen.joinAll {bare : Prop} {inner : String} {names : List String}
    (h : Seen bare base inner path) (hnames : ∀ name ∈ names, Path.IsName name) :
    Seen bare base (Path.joinAll inner names) (Path.joinAll path names) := by
  induction names generalizing inner path with
  | nil => exact h
  | cons name names ih =>
    obtain ⟨hname, hrest⟩ := List.forall_mem_cons.1 hnames
    exact ih (h.join hname) hrest

theorem seen_pathAt {names : List String} (hground : IsGround base)
    (hnames : ∀ name ∈ names, Path.IsName name) :
    Seen (base = ".") base (Path.joinAll "" names) (pathAt base names) := by
  by_cases hne : names = []
  · rw [hne]
    exact .root
  have hrelative : Path.IsRelative (Path.joinAll "" names) := Path.IsRelative.empty.joinAll hnames
  obtain ⟨hbase, rfl | hcomponents⟩ := hground
  · rw [pathAt_dot hne hnames]
    refine .bare rfl hrelative ?_
    obtain ⟨name, names, rfl⟩ := List.exists_cons_of_ne_nil hne
    obtain ⟨hname, hrest⟩ := List.forall_mem_cons.1 hnames
    rw [Path.joinAll_cons, Path.empty_join]
    exact Path.joinAll_ne_empty hname.ne_empty hrest
  · have hjoin : Path.join base (Path.joinAll "" names) = Path.joinAll base names :=
      Path.join_joinAll_empty hnames hne
    rw [pathAt_of_ne hbase hcomponents hnames, ← hjoin]
    exact .below hrelative

theorem Seen.isSource_eq {bare : Prop} {inner : String} (hbase : base ≠ "")
    (h : Seen bare base inner path) (hnames : Path.names inner ≠ []) :
    isSource path = isSource inner := by
  cases h with
  | root => simp at hnames
  | below hinner =>
    rw [isSource, isSource, Path.extension?, Path.extension?,
      Path.fileName?_join hbase hinner hnames]
  | bare => rfl

def Filter.IsOpen (f : Filter) (base : String) : Prop :=
  ∀ ps ∈ f.patterns,
    ¬ Glob.matchesText ps base.toList ∧ ¬ Glob.matchesText ps (Path.join base "").toList

def IsMovable (entry : String) : Prop :=
  ¬ Glob.hasWildcard entry ∧ Path.IsRelative entry ∨ Glob.Anywhere entry

def excludesBelow (ignores : List String) (ignoreTestFiles : Bool) (inner : String) : Bool :=
  (ignores.filter (!Glob.hasWildcard ·)).any
      (fun entry => (Path.names entry).isPrefixOf (Path.names inner)) ||
    inner ≠ "" &&
      (Filter.ofIgnores "" ignores ignoreTestFiles).patterns.any (Glob.matchesText · inner.toList)

theorem anywhere_of_mem_testPatterns {pattern : String} (h : pattern ∈ testPatterns) :
    Glob.Anywhere pattern := by
  simp only [testPatterns, List.mem_cons, List.not_mem_nil, or_false] at h
  rcases h with rfl | rfl | rfl | rfl | rfl | rfl
  · exact ⟨"_test.js".toList, by decide, by decide, .inr (by decide)⟩
  · exact ⟨".test.js".toList, by decide, by decide, .inr (by decide)⟩
  · exact ⟨".test.ts".toList, by decide, by decide, .inr (by decide)⟩
  · exact ⟨".spec.js".toList, by decide, by decide, .inr (by decide)⟩
  · exact ⟨".spec.ts".toList, by decide, by decide, .inr (by decide)⟩
  · exact ⟨"__tests__".toList, by decide, by decide, .inl (by decide)⟩

theorem hasWildcard_of_anywhere {pattern : String} (h : Glob.Anywhere pattern) :
    Glob.hasWildcard pattern := by
  obtain ⟨word, -, -, hpattern | hpattern⟩ := h <;> simp [Glob.hasWildcard, hpattern]

theorem IsMovable.isRelative {entry : String} (h : IsMovable entry)
    (hplain : ¬ Glob.hasWildcard entry) : Path.IsRelative entry :=
  h.elim And.right fun hanywhere => absurd (hasWildcard_of_anywhere hanywhere) hplain

theorem Filter.exists_anywhere {ignores : List String} {ignoreTestFiles : Bool}
    (hignores : ∀ entry ∈ ignores, IsMovable entry) {ps : List Glob.Piece}
    (hps : ps ∈ (Filter.ofIgnores base ignores ignoreTestFiles).patterns) :
    ∃ pattern, Glob.Anywhere pattern ∧ Glob.parse pattern = .ok ps := by
  obtain ⟨pattern, hpattern, hparse⟩ := List.mem_filterMap.1 hps
  refine ⟨pattern, ?_, ?_⟩
  · rcases List.mem_append.1 hpattern with hmem | hmem
    · obtain ⟨hmem, hwildcard⟩ := List.mem_filter.1 hmem
      exact (hignores pattern hmem).resolve_left fun h => h.1 hwildcard
    · cases ignoreTestFiles with
      | true => exact anywhere_of_mem_testPatterns hmem
      | false => cases hmem
  · cases hresult : Glob.parse pattern with
    | error => simp [hresult, Except.toOption] at hparse
    | ok ps' => simpa [hresult, Except.toOption] using hparse

theorem Filter.excludes_of_seen {ignores : List String} {ignoreTestFiles : Bool} {bare : Prop}
    {inner : String} (hignores : ∀ entry ∈ ignores, IsMovable entry) (hbase : base ≠ "")
    (hopen : (Filter.ofIgnores base ignores ignoreTestFiles).IsOpen base)
    (hbare : bare → ∀ entry ∈ ignores, Glob.hasWildcard entry) (h : Seen bare base inner path) :
    (Filter.ofIgnores base ignores ignoreTestFiles).excludes path =
      excludesBelow ignores ignoreTestFiles inner := by
  have hplaces : (Filter.ofIgnores base ignores ignoreTestFiles).places.any
      (fun place => Path.isWithin place.toList path.toList) =
        (ignores.filter (!Glob.hasWildcard ·)).any fun entry =>
          (Path.names entry).isPrefixOf (Path.names inner) := by
    rw [Filter.ofIgnores, List.any_map, Bool.eq_iff_iff, List.any_eq_true, List.any_eq_true]
    refine exists_congr fun entry => and_congr_right fun hentry => ?_
    obtain ⟨hmem, hplain⟩ := List.mem_filter.1 hentry
    have hplain : ¬ Glob.hasWildcard entry := by simpa using hplain
    have hrelative := (hignores entry hmem).isRelative hplain
    rw [Function.comp_apply]
    cases h with
    | root =>
      have hroot : Path.components base.toList =
          Path.components base.toList ++ (Path.names "").map String.toList := by simp
      rw [Path.isWithin_join hbase hrelative hroot]
    | below hinner =>
      rw [Path.isWithin_join hbase hrelative (Path.components_join hbase hinner)]
    | bare hbare' => exact absurd (hbare hbare' entry hmem) hplain
  have hpatterns : (Filter.ofIgnores base ignores ignoreTestFiles).patterns.any
      (Glob.matchesText · path.toList) =
        (inner ≠ "" && (Filter.ofIgnores "" ignores ignoreTestFiles).patterns.any
          (Glob.matchesText · inner.toList)) := by
    cases h with
    | root =>
      rw [decide_eq_false (by simp), Bool.false_and, List.any_eq_false]
      exact fun ps hps => (hopen ps hps).1
    | below hinner =>
      by_cases hne : inner = ""
      · rw [hne, decide_eq_false (by simp), Bool.false_and, List.any_eq_false]
        exact fun ps hps => (hopen ps hps).2
      · rw [decide_eq_true hne, Bool.true_and, Bool.eq_iff_iff, List.any_eq_true, List.any_eq_true]
        refine exists_congr fun ps => and_congr_right fun hps => ?_
        obtain ⟨pattern, hanywhere, hparse⟩ := Filter.exists_anywhere hignores hps
        rw [hanywhere.matchesText_join hparse hbase hinner (hopen ps hps).2]
    | bare _ _ hne =>
      rw [decide_eq_true hne, Bool.true_and]
      rfl
  rw [Filter.excludes, hplaces, hpatterns, excludesBelow]

def StaysBelow (entry : String) : Prop :=
  Path.IsRelative entry ∧
    if Glob.hasWildcard entry then
      ∀ cs, Component.ofPattern entry.toList = .ok cs → ∀ c ∈ cs, c.Stays
    else ['.', '.'] ∉ Text.splitAt '/' entry.toList

structure Suits (base : String) (includes ignores : List String) (ignoreTestFiles : Bool) :
    Prop where
  isOpen : (Filter.ofIgnores base ignores ignoreTestFiles).IsOpen base
  isPlainRoot : (∃ entry ∈ includes, Glob.hasWildcard entry) → IsPlainRoot base
  hasWildcard : base = "." → (∃ entry ∈ includes, Glob.hasWildcard entry) →
    ∀ entry ∈ ignores, Glob.hasWildcard entry

def MayBeBare (base : String) (includes : List String) : Prop :=
  base = "." ∧ ∃ entry ∈ includes, Glob.hasWildcard entry

section
variable {includes ignores : List String} {ignoreTestFiles : Bool}

theorem Seen.imp {bare bare' : Prop} {inner : String} (h : Seen bare base inner path)
    (himp : bare → bare') : Seen bare' base inner path := by
  cases h with
  | root => exact .root
  | below hinner => exact .below hinner
  | bare hbare hinner hne => exact .bare (himp hbare) hinner hne

theorem rootsOf_wildcard_eq_ok {entry : String} {paths : List String} (h : Glob.hasWildcard entry) :
    rootsOf fs base entry = .ok paths ↔
      ∃ ps, expandPattern fs (Path.join base entry) = .ok ps ∧
        paths = ps.filter fs.isDirectory := by
  rw [rootsOf, if_neg (by simpa using h)]
  cases expandPattern fs (Path.join base entry) <;> simp [eq_comm]

theorem exists_gets_moved {entry start : String} {paths p : List String} {e' : Entry}
    (htree : e.IsTree) (hdirectory : e.isDirectory) (hbase : fs.Leads base place e)
    (hbase' : fs'.Leads base' place' e) (hplain : IsPlainRoot base) (hplain' : IsPlainRoot base')
    (hentry : StaysBelow entry) (hwildcard : Glob.hasWildcard entry)
    (hpaths : rootsOf fs base entry = .ok paths) (hstart : start ∈ paths)
    (hleads : fs.Leads start p e') :
    ∃ names, Gets fs base place names start e' ∧ ∃ paths', rootsOf fs' base' entry = .ok paths' ∧
      ∃ start' ∈ paths', Gets fs' base' place' names start' e' := by
  obtain ⟨hrelative, hstays⟩ := hentry
  rw [if_pos hwildcard] at hstays
  obtain ⟨ps, hps, rfl⟩ := (rootsOf_wildcard_eq_ok hwildcard).1 hpaths
  obtain ⟨hparse, cs, hcs, rfl⟩ := (expandPattern_eq_ok hplain hbase hdirectory hrelative).1 hps
  obtain ⟨hstart, hdirectory'⟩ := List.mem_filter.1 hstart
  have halike : Alike fs fs' base base' place place' base base' e :=
    ⟨[], .root hplain.isGround hbase htree, .root hplain'.isGround hbase' htree⟩
  obtain ⟨start', hstart', e'', names, hgets, hgets'⟩ :=
    exists_alike_of_mem_expand (hstays cs hcs) halike hstart
  obtain ⟨-, rfl⟩ := hleads.unique hgets.leads
  have hps' : expandPattern fs' (Path.join base' entry) = .ok (expand fs' cs base') :=
    (expandPattern_eq_ok hplain' hbase' hdirectory hrelative).2 ⟨hparse, cs, hcs, rfl⟩
  refine ⟨names, hgets, _, (rootsOf_wildcard_eq_ok hwildcard).2 ⟨_, hps', rfl⟩, start', ?_, hgets'⟩
  refine List.mem_filter.2 ⟨hstart', ?_⟩
  rw [hgets'.leads.isDirectory, ← hleads.isDirectory, hdirectory']

theorem exists_start_moved {start : String} {p : List String} {e' : Entry} (htree : e.IsTree)
    (hdirectory : e.isDirectory) (hbase : fs.Leads base place e) (hbase' : fs'.Leads base' place' e)
    (hincludes : ∀ entry ∈ includes, StaysBelow entry)
    (hplain : (∃ entry ∈ includes, Glob.hasWildcard entry) → IsPlainRoot base ∧ IsPlainRoot base')
    (hstart : start ∈ (roots fs base includes).1) (hleads : fs.Leads start p e') :
    ∃ start' ∈ (roots fs' base' includes).1, ∃ inner,
      Seen (MayBeBare base includes) base inner start ∧
        Seen (MayBeBare base' includes) base' inner start' ∧
          p = place ++ Path.names inner ∧ fs'.Leads start' (place' ++ Path.names inner) e' := by
  by_cases hempty : includes = []
  · rw [hempty] at hstart ⊢
    obtain rfl : start = base := List.mem_singleton.1 hstart
    refine ⟨base', List.mem_singleton_self _, "", .root, .root, ?_⟩
    obtain ⟨rfl, rfl⟩ := hleads.unique hbase
    rw [Path.names_empty, List.append_nil, List.append_nil]
    exact ⟨rfl, hbase'⟩
  obtain ⟨entry, hmem, paths, hpaths, hstart⟩ := (mem_roots hempty).1 hstart
  by_cases hwildcard : Glob.hasWildcard entry
  · obtain ⟨hplain, hplain'⟩ := hplain ⟨entry, hmem, hwildcard⟩
    obtain ⟨names, hgets, paths', hroots, start', hstart', hgets'⟩ := exists_gets_moved htree
      hdirectory hbase hbase' hplain hplain' (hincludes entry hmem) hwildcard hpaths hstart hleads
    obtain ⟨rfl, -⟩ := hleads.unique hgets.leads
    have hnames : Path.names (Path.joinAll "" names) = names := by
      rw [Path.names_joinAll hgets.isName, Path.names_empty, List.nil_append]
    have hbare : ∀ {b : String}, b = "." → MayBeBare b includes := fun hdot =>
      ⟨hdot, entry, hmem, hwildcard⟩
    refine ⟨start', (mem_roots hempty).2 ⟨entry, hmem, paths', hroots, hstart'⟩,
      Path.joinAll "" names, ?_, ?_, ?_⟩
    · rw [hgets.eq_pathAt]
      exact (seen_pathAt hplain.isGround hgets.isName).imp hbare
    · rw [hgets'.eq_pathAt]
      exact (seen_pathAt hplain'.isGround hgets.isName).imp hbare
    · rw [hnames]
      exact ⟨rfl, hgets'.leads⟩
  · obtain ⟨hrelative, hstays⟩ := hincludes entry hmem
    rw [if_neg hwildcard] at hstays
    obtain ⟨-, rfl⟩ := (rootsOf_eq_ok hwildcard).1 hpaths
    obtain rfl := List.mem_singleton.1 hstart
    obtain ⟨hplace, hleads'⟩ := hbase.join_moved hbase' hrelative hstays hleads
    have hroots : rootsOf fs' base' entry = .ok [Path.join base' entry] :=
      (rootsOf_eq_ok hwildcard).2 ⟨hleads'.contains, rfl⟩
    exact ⟨_, (mem_roots hempty).2 ⟨entry, hmem, _, hroots, List.mem_singleton_self _⟩, entry,
      .below hrelative, .below hrelative, hplace, hleads'⟩

def scanned (fs : FileSystem) (base : String) (includes ignores : List String)
    (ignoreTestFiles : Bool) : Set (List String) :=
  {names | ∃ path ∈ (scan fs base includes ignores ignoreTestFiles).files, ∃ place,
    fs.locate base = .ok place ∧ fs.locate path = .ok (place ++ names)}

theorem exists_file_moved (htree : e.IsTree) (hdirectory : e.isDirectory)
    (hbase : fs.Leads base place e) (hbase' : fs'.Leads base' place' e)
    (hincludes : ∀ entry ∈ includes, StaysBelow entry)
    (hignores : ∀ entry ∈ ignores, IsMovable entry)
    (hsuits : Suits base includes ignores ignoreTestFiles)
    (hsuits' : Suits base' includes ignores ignoreTestFiles)
    (hpath : path ∈ (scan fs base includes ignores ignoreTestFiles).files) :
    ∃ path' ∈ (scan fs' base' includes ignores ignoreTestFiles).files, ∃ names,
      fs.locate path = .ok (place ++ names) ∧ fs'.locate path' = .ok (place' ++ names) := by
  obtain ⟨start, hstart, e', hentry, hpath⟩ := mem_files_scan.1 hpath
  obtain ⟨p, hleads⟩ := FileSystem.entry_eq_ok.1 hentry
  obtain ⟨start', hstart', inner, hseen, hseen', rfl, hleads'⟩ :=
    exists_start_moved htree hdirectory hbase hbase' hincludes
      (fun hwildcard => ⟨hsuits.isPlainRoot hwildcard, hsuits'.isPlainRoot hwildcard⟩) hstart hleads
  have hat : e.at? (Path.names inner) = some e' := by
    have hbelow := hleads.at?
    rwa [Entry.at?_append, hbase.at?] at hbelow
  have htree' : e'.IsTree := htree.at? hat
  obtain ⟨names, bytes, hfile, rfl, hsource, hreaches⟩ := (mem_walk htree').1 hpath
  have hnames := htree'.isName_of_at? hfile
  -- The root is a directory, so what is found has a name.
  have hne : Path.names (Path.joinAll inner names) ≠ [] := by
    intro hempty
    rw [Path.names_joinAll hnames, List.append_eq_nil_iff] at hempty
    rw [hempty.1] at hat
    rw [hempty.2] at hfile
    cases hat
    cases hfile
    cases hdirectory
  have hsource' : isSource (Path.joinAll start' names) := by
    rw [(hseen'.joinAll hnames).isSource_eq (FileSystem.locate_ne_empty hbase'.locate) hne,
      ← (hseen.joinAll hnames).isSource_eq (FileSystem.locate_ne_empty hbase.locate) hne]
    exact hsource
  have hreaches' : Reaches (Filter.ofIgnores base' ignores ignoreTestFiles) start' names := by
    intro n hn
    have htake : ∀ name ∈ names.take n, Path.IsName name := fun name hname =>
      hnames name (List.mem_of_mem_take hname)
    rw [Filter.excludes_of_seen hignores (FileSystem.locate_ne_empty hbase'.locate) hsuits'.isOpen
        (fun hbare => hsuits'.hasWildcard hbare.1 hbare.2) (hseen'.joinAll htake),
      ← Filter.excludes_of_seen hignores (FileSystem.locate_ne_empty hbase.locate) hsuits.isOpen
        (fun hbare => hsuits.hasWildcard hbare.1 hbare.2) (hseen.joinAll htake)]
    exact hreaches n hn
  refine ⟨Path.joinAll start' names, ?_, Path.names inner ++ names, ?_, ?_⟩
  · exact mem_files_scan.2 ⟨start', hstart', e', hleads'.entry,
      (mem_walk htree').2 ⟨names, bytes, hfile, rfl, hsource', hreaches'⟩⟩
  · rw [← List.append_assoc]
    exact (hleads.joinAll hnames hfile).locate
  · rw [← List.append_assoc]
    exact (hleads'.joinAll hnames hfile).locate

/-- A directory is scanned alike wherever it is, and by whichever path it is reached. All that a
scan finds lies in it. -/
theorem scanned_moved (htree : e.IsTree) (hdirectory : e.isDirectory)
    (hbase : fs.entry base = .ok e) (hbase' : fs'.entry base' = .ok e)
    (hincludes : ∀ entry ∈ includes, StaysBelow entry)
    (hignores : ∀ entry ∈ ignores, IsMovable entry)
    (hsuits : Suits base includes ignores ignoreTestFiles)
    (hsuits' : Suits base' includes ignores ignoreTestFiles) :
    scanned fs base includes ignores ignoreTestFiles =
        scanned fs' base' includes ignores ignoreTestFiles ∧
      ∀ path ∈ (scan fs base includes ignores ignoreTestFiles).files, ∃ place names,
        fs.locate base = .ok place ∧ fs.locate path = .ok (place ++ names) ∧
          names ∈ scanned fs base includes ignores ignoreTestFiles := by
  obtain ⟨place, hbase⟩ := FileSystem.entry_eq_ok.1 hbase
  obtain ⟨place', hbase'⟩ := FileSystem.entry_eq_ok.1 hbase'
  have hsubset : ∀ {fs fs' : FileSystem} {base base' place place'}, fs.Leads base place e →
      fs'.Leads base' place' e → Suits base includes ignores ignoreTestFiles →
        Suits base' includes ignores ignoreTestFiles →
          scanned fs base includes ignores ignoreTestFiles ⊆
            scanned fs' base' includes ignores ignoreTestFiles := by
    intro fs fs' base base' place place' hbase hbase' hsuits hsuits'
    rintro names ⟨path, hpath, p, hp, hnames⟩
    obtain ⟨path', hpath', names', hlocate, hlocate'⟩ :=
      exists_file_moved htree hdirectory hbase hbase' hincludes hignores hsuits hsuits' hpath
    obtain rfl : p = place := Except.ok.inj (hp.symm.trans hbase.locate)
    rw [hnames, Except.ok.injEq, List.append_cancel_left_eq] at hlocate
    exact ⟨path', hpath', place', hbase'.locate, hlocate ▸ hlocate'⟩
  refine ⟨(hsubset hbase hbase' hsuits hsuits').antisymm (hsubset hbase' hbase hsuits' hsuits),
    fun path hpath => ?_⟩
  obtain ⟨-, -, names, hlocate, -⟩ :=
    exists_file_moved htree hdirectory hbase hbase hincludes hignores hsuits hsuits hpath
  exact ⟨place, names, hbase.locate, hlocate, path, hpath, place, hbase.locate, hlocate⟩

end

section Sample

-- A project with packages, an app, and what is left out by default.

def packages : Entry :=
  .directory [
    ("app", .directory [("main.ts", .file "".toUTF8),
      ("node_modules", .directory [("lib.js", .file "".toUTF8)])]),
    ("packages", .directory [("gen", .directory [("a.js", .file "".toUTF8),
      ("a.test.js", .file "".toUTF8)])])]

def packagesAt : FileSystem where
  root := .directory [("home", .directory [("p", packages)])]
  current := ["home", "p"]

theorem packages_isTree : packages.IsTree := by
  have hfile : ∀ name, Path.IsName name → (Entry.directory [(name, .file "".toUTF8)]).IsTree :=
    fun name hname => .of_entries (by simpa using hname) (by simp [Entry.IsTree.file]) (by simp)
  have happ : (Entry.directory [("main.ts", .file "".toUTF8),
      ("node_modules", .directory [("lib.js", .file "".toUTF8)])]).IsTree :=
    .of_entries (by decide) (by simpa [Entry.IsTree.file] using hfile "lib.js" (by decide))
      (by simp)
  have hgen : (Entry.directory [("a.js", .file "".toUTF8),
      ("a.test.js", .file "".toUTF8)]).IsTree :=
    .of_entries (by decide) (by simp [Entry.IsTree.file]) (by simp)
  have hpackages : (Entry.directory [("gen", .directory [("a.js", .file "".toUTF8),
      ("a.test.js", .file "".toUTF8)])]).IsTree :=
    .of_entries (by simp; decide) (by simpa using hgen) (by simp)
  exact .of_entries (by simp; decide) (by simpa using ⟨happ, hpackages⟩) (by simp)

theorem packagesAt_entry :
    packagesAt.entry "." = .ok packages ∧ packagesAt.entry "/home/p" = .ok packages := ⟨rfl, rfl⟩

theorem scanned_moved_packages :
    scanned packagesAt "." ["packages/*", "./app"] ["**/node_modules/**"] true =
        scanned packagesAt "/home/p" ["packages/*", "./app"] ["**/node_modules/**"] true ∧
      ["packages", "gen", "a.js"] ∈
        scanned packagesAt "." ["packages/*", "./app"] ["**/node_modules/**"] true := by
  have hincludes : ∀ entry ∈ ["packages/*", "./app"], StaysBelow entry := by
    have hpattern : Component.ofPattern "packages/*".toList =
        .ok [Component.ofName "packages", ⟨[.anyText]⟩] := by decide +kernel
    have hpackages : StaysBelow "packages/*" := by
      refine ⟨by decide, fun cs hcs => ?_⟩
      obtain rfl := Except.ok.inj (hpattern.symm.trans hcs)
      have hname : (Component.ofName "packages").Stays := by
        rw [Component.Stays, Component.literal?_ofName]
        decide
      have hstar : Component.Stays ⟨[.anyText]⟩ := by
        show ¬ _
        decide
      simpa using ⟨hname, hstar⟩
    have happ : StaysBelow "./app" := by
      refine ⟨by decide, ?_⟩
      rw [if_neg (by decide)]
      decide
    simpa using ⟨hpackages, happ⟩
  have hignores : ∀ entry ∈ ["**/node_modules/**"], IsMovable entry := by
    have hanywhere : Glob.Anywhere "**/node_modules/**" :=
      ⟨"node_modules".toList, by decide, by decide, .inl (by decide)⟩
    exact List.forall_mem_singleton.2 (.inr hanywhere)
  have hopen : ∀ base ∈ [".", "/home/p"],
      (Filter.ofIgnores base ["**/node_modules/**"] true).IsOpen base := by
    unfold Filter.IsOpen
    decide +kernel
  have hwildcards : ∀ entry ∈ ["**/node_modules/**"], Glob.hasWildcard entry := by decide
  have hdot : IsPlainRoot "." := ⟨[], by simp, .inl rfl⟩
  have hhome : IsPlainRoot "/home/p" := ⟨["home", "p"], by decide, .inr (by decide)⟩
  have hmoved := scanned_moved packages_isTree rfl packagesAt_entry.1 packagesAt_entry.2 hincludes
    hignores ⟨hopen "." (by simp), fun _ => hdot, fun _ _ => hwildcards⟩
    ⟨hopen "/home/p" (by simp), fun _ => hhome, fun _ _ => hwildcards⟩
  refine ⟨hmoved.1, "packages/gen/a.js", ?_, ["home", "p"], by decide +kernel, by decide +kernel⟩
  exact mem_files_iff_mem_found.2 (by decide +kernel)

/-- From the current directory a pattern of the includes leads past what the ignores name. -/
theorem not_scanned_moved_packages :
    packages.IsTree ∧ packagesAt.entry "." = .ok packages ∧
      packagesAt.entry "/home/p" = .ok packages ∧
        (∀ entry ∈ ["packages/*", "packages/gen"], Path.IsRelative entry) ∧
          scanned packagesAt "." ["packages/*"] ["packages/gen"] false ≠
            scanned packagesAt "/home/p" ["packages/*"] ["packages/gen"] false := by
  have hfound : "packages/gen/a.js" ∈
      (scan packagesAt "." ["packages/*"] ["packages/gen"] false).files :=
    mem_files_iff_mem_found.2 (by decide +kernel)
  have hnone : found packagesAt "/home/p" ["packages/*"] ["packages/gen"] false = [] := by
    decide +kernel
  refine ⟨packages_isTree, packagesAt_entry.1, packagesAt_entry.2, by decide, fun heq => ?_⟩
  have hmem : ["packages", "gen", "a.js"] ∈
      scanned packagesAt "." ["packages/*"] ["packages/gen"] false :=
    ⟨_, hfound, ["home", "p"], by decide +kernel, by decide +kernel⟩
  rw [heq] at hmem
  obtain ⟨path, hpath, -⟩ := hmem
  rw [mem_files_iff_mem_found, hnone] at hpath
  exact List.not_mem_nil hpath

end Sample

end Project

end MessageCatalog

import MessageCatalog.Proofs.MovedRoots

/-! Where the project file is found. The search goes through the directories that the text of the
source root names, which are those at and above the source root as long as the text does not lead
upwards, and of these only the ones that do not lie above the directory where the path starts. -/

namespace MessageCatalog

namespace Path

variable {text piece : List Char} {pieces : List (List Char)} {first : Bool}

theorem beginnings_eq_map (before : List Char) (first : Bool) (pieces : List (List Char)) :
    beginnings before first pieces = (beginnings [] first pieces).map (before ++ ·) := by
  induction pieces generalizing before first with
  | nil => rfl
  | cons piece rest ih =>
    rw [beginnings, beginnings, ih, ih ([] ++ piece ++ ['/'])]
    split_ifs <;> simp [Function.comp_def]

theorem beginnings_cons (first : Bool) (piece : List Char) (rest : List (List Char)) :
    beginnings [] first (piece :: rest) =
      (if isComponent first piece then [piece] else []) ++
        (beginnings [] false rest).map (piece ++ '/' :: ·) := by
  rw [beginnings, beginnings_eq_map]
  split_ifs <;> simp

theorem splitAt_cons_slash (hpiece : '/' ∉ piece) (text : List Char) :
    Text.splitAt '/' (piece ++ '/' :: text) = piece :: Text.splitAt '/' text := by
  rw [Text.splitAt_append, Text.splitAt_of_not_mem hpiece]
  rfl

theorem splitAt_of_mem_beginnings (hpieces : ∀ piece ∈ pieces, '/' ∉ piece)
    (h : text ∈ beginnings [] first pieces) : Text.splitAt '/' text <+: pieces := by
  induction pieces generalizing first text with
  | nil => cases h
  | cons piece rest ih =>
    obtain ⟨hpiece, hrest⟩ := List.forall_mem_cons.1 hpieces
    rw [beginnings_cons, List.mem_append, List.mem_map] at h
    rcases h with h | ⟨longer, hlonger, rfl⟩
    · split_ifs at h
      · rw [List.mem_singleton.1 h, Text.splitAt_of_not_mem hpiece]
        exact ⟨rest, rfl⟩
      · cases h
    · rw [splitAt_cons_slash hpiece]
      exact List.prefix_cons_inj piece |>.2 (ih hrest hlonger)

theorem pairwise_beginnings (hpieces : ∀ piece ∈ pieces, '/' ∉ piece) (first : Bool) :
    (beginnings [] first pieces).Pairwise fun a b =>
      Text.splitAt '/' a <+: Text.splitAt '/' b := by
  induction pieces generalizing first with
  | nil => exact .nil
  | cons piece rest ih =>
    obtain ⟨hpiece, hrest⟩ := List.forall_mem_cons.1 hpieces
    have hlonger : ((beginnings [] false rest).map (piece ++ '/' :: ·)).Pairwise fun a b =>
        Text.splitAt '/' a <+: Text.splitAt '/' b := by
      rw [List.pairwise_map]
      simpa only [splitAt_cons_slash hpiece, List.prefix_cons_inj] using ih hrest false
    rw [beginnings_cons]
    split_ifs
    · refine List.pairwise_cons.2 ⟨fun b hb => ?_, hlonger⟩
      obtain ⟨longer, -, rfl⟩ := List.mem_map.1 hb
      rw [Text.splitAt_of_not_mem hpiece, splitAt_cons_slash hpiece]
      exact ⟨_, rfl⟩
    · exact hlonger

theorem exists_mem_beginnings (hpieces : ∀ piece ∈ pieces, '/' ∉ piece) (first : Bool)
    {ns : List String} (hne : ns ≠ []) (hns : ns <+: namesIn pieces) :
    ∃ text ∈ beginnings [] first pieces, namesIn (Text.splitAt '/' text) = ns := by
  induction pieces generalizing first ns with
  | nil => exact absurd (List.prefix_nil.1 hns) hne
  | cons piece rest ih =>
    obtain ⟨hpiece, hrest⟩ := List.forall_mem_cons.1 hpieces
    have hlonger : ∀ ns, ns ≠ [] → ns <+: namesIn rest →
        ∃ text ∈ beginnings [] first (piece :: rest),
          namesIn (Text.splitAt '/' text) = namesIn [piece] ++ ns := by
      intro ns hne hns
      obtain ⟨text, htext, hnames⟩ := ih hrest false hne hns
      refine ⟨piece ++ '/' :: text, ?_, ?_⟩
      · rw [beginnings_cons]
        exact List.mem_append_right _ (List.mem_map_of_mem htext)
      · rw [splitAt_cons_slash hpiece, namesIn_cons, hnames]
    rw [namesIn_cons] at hns
    by_cases hname : isComponent false piece
    · have hsingle : namesIn [piece] = [String.ofList piece] := by simp [namesIn, hname]
      obtain ⟨n, ns, rfl⟩ := List.exists_cons_of_ne_nil hne
      rw [hsingle, List.singleton_append, List.cons_prefix_cons] at hns
      obtain ⟨rfl, hns⟩ := hns
      by_cases hnil : ns = []
      · refine ⟨piece, ?_, by rw [Text.splitAt_of_not_mem hpiece, hsingle, hnil]⟩
        have hfirst : isComponent first piece := by
          cases first with
          | false => exact hname
          | true =>
            rw [isComponent, Bool.and_eq_true] at hname
            rw [isComponent, hname.1]
            rfl
        rw [beginnings_cons, if_pos hfirst]
        exact List.mem_append_left _ (List.mem_singleton.2 rfl)
      · obtain ⟨text, htext, hnames⟩ := hlonger ns hnil hns
        exact ⟨text, htext, by rw [hnames, hsingle]; rfl⟩
    · have hnone : namesIn [piece] = [] := by simp [namesIn, hname]
      rw [hnone, List.nil_append] at hns
      obtain ⟨text, htext, hnames⟩ := hlonger ns hne hns
      exact ⟨text, htext, by rw [hnames, hnone]; rfl⟩

theorem no_slash_of_mem_splitAt (text : List Char) :
    ∀ piece ∈ Text.splitAt '/' text, '/' ∉ piece := by
  induction text with
  | nil => simp [Text.splitAt]
  | cons c cs ih =>
    obtain ⟨w, ws, hsplit⟩ := List.exists_cons_of_ne_nil (Text.splitAt_ne_nil '/' cs)
    rw [hsplit, List.forall_mem_cons] at ih
    rw [Text.splitAt, hsplit]
    split_ifs with hc
    · simpa using ih
    · simpa [Ne.symm hc] using ih

theorem isAbsolute_append {text : List Char} (h : text ≠ []) (rest : List Char) :
    isAbsolute (text ++ rest) = isAbsolute text := by
  cases text with
  | nil => exact absurd rfl h
  | cons c cs => rfl

theorem isAbsolute_of_mem_beginnings {path : List Char}
    (h : text ∈ beginnings [] true (Text.splitAt '/' path)) :
    isAbsolute text = isAbsolute path := by
  by_cases hslash : '/' ∈ path
  · obtain ⟨piece, rest, rfl, hpiece⟩ := List.eq_append_cons_of_mem hslash
    rw [splitAt_cons_slash hpiece, beginnings_cons, List.mem_append, List.mem_map] at h
    rcases h with h | ⟨longer, -, rfl⟩
    · split_ifs at h with hcomponent
      · have hne : piece ≠ [] := by
          rintro rfl
          cases hcomponent
        rw [List.mem_singleton.1 h, isAbsolute_append hne]
      · cases h
    · cases piece <;> rfl
  · rw [Text.splitAt_of_not_mem hslash, beginnings_cons] at h
    split_ifs at h
    · rw [List.mem_singleton.1 h]
    · cases h

def Outer (a b : List Char) : Prop :=
  namesIn (Text.splitAt '/' b) <+: namesIn (Text.splitAt '/' a)

theorem namesIn_prefix {xs ys : List (List Char)} (h : xs <+: ys) : namesIn xs <+: namesIn ys := by
  obtain ⟨rest, rfl⟩ := h
  exact ⟨namesIn rest, (namesIn_append xs rest).symm⟩

def origin (path : List Char) : List Char := if isAbsolute path then ['/'] else []

theorem namesIn_origin (path : List Char) : namesIn (Text.splitAt '/' (origin path)) = [] := by
  rw [origin]
  split_ifs <;> rfl

theorem isAbsolute_origin (path : List Char) : isAbsolute (origin path) = isAbsolute path := by
  rw [origin]
  split_ifs with h
  · rw [h]
    rfl
  · rw [Bool.not_eq_true] at h
    rw [h]
    rfl

theorem ancestors_eq (path : List Char) :
    (beginnings [] true (Text.splitAt '/' path) = [] ∧ ancestors path = [path]) ∨
      ∃ shorter longest, beginnings [] true (Text.splitAt '/' path) = shorter ++ [longest] ∧
        ancestors path = path :: shorter.reverse ++ [origin path] := by
  rw [ancestors]
  cases hreverse : (beginnings [] true (Text.splitAt '/' path)).reverse with
  | nil => exact .inl ⟨List.reverse_eq_nil_iff.1 hreverse, rfl⟩
  | cons longest outer =>
    refine .inr ⟨outer.reverse, longest, ?_, ?_⟩
    · rw [← List.reverse_inj, hreverse]
      simp
    · rw [List.reverse_reverse, origin]

theorem mem_ancestors {path : List Char} (h : text ∈ ancestors path) :
    isAbsolute text = isAbsolute path ∧ Outer path text ∧
      (['.', '.'] ∉ Text.splitAt '/' path → ['.', '.'] ∉ Text.splitAt '/' text) := by
  have hpath : isAbsolute path = isAbsolute path ∧ Outer path path ∧
      (['.', '.'] ∉ Text.splitAt '/' path → ['.', '.'] ∉ Text.splitAt '/' path) :=
    ⟨rfl, List.prefix_refl _, id⟩
  rcases ancestors_eq path with ⟨-, heq⟩ | ⟨shorter, longest, hbeginnings, heq⟩
  · rw [heq] at h
    rwa [List.mem_singleton.1 h]
  · rw [heq, List.cons_append, List.mem_cons, List.mem_append, List.mem_reverse,
      List.mem_singleton] at h
    rcases h with rfl | h | rfl
    · exact hpath
    · have hmem : text ∈ beginnings [] true (Text.splitAt '/' path) := by
        rw [hbeginnings]
        exact List.mem_append_left _ h
      have hbegins := splitAt_of_mem_beginnings (no_slash_of_mem_splitAt path) hmem
      exact ⟨isAbsolute_of_mem_beginnings hmem, namesIn_prefix hbegins,
        fun hdots hmem => hdots (hbegins.subset hmem)⟩
    · refine ⟨isAbsolute_origin path, ?_, fun _ => ?_⟩
      · rw [Outer, namesIn_origin]
        exact List.nil_prefix
      · rw [origin]
        split_ifs <;> decide

theorem pairwise_ancestors (path : List Char) : (ancestors path).Pairwise Outer := by
  rcases ancestors_eq path with ⟨-, heq⟩ | ⟨shorter, longest, hbeginnings, heq⟩
  · rw [heq]
    exact List.pairwise_singleton _ _
  · have hall := fun text (htext : text ∈ ancestors path) => mem_ancestors htext
    have hpairwise := pairwise_beginnings (no_slash_of_mem_splitAt path) true
    rw [hbeginnings, List.pairwise_append] at hpairwise
    rw [heq] at hall ⊢
    rw [List.cons_append, List.pairwise_cons, List.pairwise_append, List.pairwise_reverse]
    refine ⟨fun text htext => (hall text (List.mem_cons_of_mem _ htext)).2.1, ?_,
      List.pairwise_singleton _ _, fun a _ b hb => ?_⟩
    · exact hpairwise.1.imp namesIn_prefix
    · rw [List.mem_singleton.1 hb, Outer, namesIn_origin]
      exact List.nil_prefix

theorem exists_mem_ancestors {path : List Char} {ns : List String}
    (hns : ns <+: namesIn (Text.splitAt '/' path)) :
    ∃ text ∈ ancestors path, namesIn (Text.splitAt '/' text) = ns := by
  have hpieces := no_slash_of_mem_splitAt path
  rcases ancestors_eq path with ⟨hbeginnings, heq⟩ | ⟨shorter, longest, hbeginnings, heq⟩
  · have hnone : namesIn (Text.splitAt '/' path) = [] := by
      by_contra hne
      obtain ⟨text, htext, -⟩ :=
        exists_mem_beginnings hpieces true hne (List.prefix_refl _)
      rw [hbeginnings] at htext
      cases htext
    rw [hnone, List.prefix_nil] at hns
    exact ⟨path, by rw [heq]; exact List.mem_singleton.2 rfl, hnone.trans hns.symm⟩
  · by_cases hnil : ns = []
    · refine ⟨origin path, ?_, hnil ▸ namesIn_origin path⟩
      rw [heq]
      simp
    obtain ⟨text, htext, hnames⟩ := exists_mem_beginnings hpieces true hnil hns
    rw [hbeginnings, List.mem_append, List.mem_singleton] at htext
    rcases htext with htext | rfl
    · refine ⟨text, ?_, hnames⟩
      rw [heq]
      simp [htext]
    -- The longest beginning names all of what the path names.
    · refine ⟨path, by rw [heq]; simp, ?_⟩
      have hne : namesIn (Text.splitAt '/' path) ≠ [] := fun hnone => by
        rw [hnone, List.prefix_nil] at hns
        exact hnil hns
      obtain ⟨whole, hwhole, hall⟩ :=
        exists_mem_beginnings hpieces true hne (List.prefix_refl _)
      have hpairwise := pairwise_beginnings hpieces true
      rw [hbeginnings, List.pairwise_append] at hpairwise
      rw [hbeginnings, List.mem_append, List.mem_singleton] at hwhole
      rcases hwhole with hwhole | rfl
      · have hbegins := namesIn_prefix (hpairwise.2.2 whole hwhole text (by simp))
        rw [hall, hnames] at hbegins
        exact (hns.eq_of_length_le hbegins.length_le).symm
      · rw [← hall, hnames]

end Path

namespace FileSystem

variable {fs : FileSystem} {place : List String} {base name : String}

theorem exists_directory_of_isSome {names : List String} (hnames : names ≠ [])
    (h : (fs.root.at? (place ++ names)).isSome) :
    ∃ entries, fs.root.at? place = some (.directory entries) := by
  obtain ⟨name, rest, rfl⟩ := List.exists_cons_of_ne_nil hnames
  rw [Entry.at?_append] at h
  cases hat : fs.root.at? place with
  | none => simp [hat] at h
  | some e =>
    cases e with
    | file bytes => simp [hat] at h
    | directory entries => exact ⟨entries, rfl⟩

theorem step_of_isSome {piece : List Char} (hup : piece ≠ ['.', '.']) {names : List String}
    (hnames : names ≠ []) (h : (fs.root.at? (place ++ (Path.namesIn [piece] ++ names))).isSome) :
    fs.step place piece = .ok (place ++ Path.namesIn [piece]) := by
  obtain ⟨entries, hentries⟩ := exists_directory_of_isSome (by simp [hnames]) h
  simp only [step, hentries]
  by_cases hdot : piece = [] ∨ piece = ['.']
  · have hskip : (decide (piece = []) || decide (piece = ['.'])) = true := by simpa using hdot
    have hnone : Path.namesIn [piece] = [] := by rcases hdot with rfl | rfl <;> rfl
    rw [if_pos hskip, hnone, List.append_nil]
  · rw [not_or] at hdot
    have hsingle : Path.namesIn [piece] = [String.ofList piece] := by
      simp [Path.namesIn, Path.isComponent, hdot]
    rw [hsingle] at h ⊢
    rw [Entry.at?_append, hentries, Option.bind_some, List.singleton_append,
      Entry.at?_directory_cons] at h
    obtain ⟨child, hchild⟩ := Option.isSome_iff_exists.1 (Option.isSome_of_isSome_bind h)
    simp [hdot, hup, hchild]

theorem foldlM_step_of_isSome {pieces : List (List Char)} (hup : ['.', '.'] ∉ pieces)
    {names : List String} (hnames : names ≠ [])
    (h : (fs.root.at? (place ++ (Path.namesIn pieces ++ names))).isSome) :
    pieces.foldlM fs.step place = .ok (place ++ Path.namesIn pieces) := by
  induction pieces generalizing place with
  | nil => exact congrArg Except.ok (List.append_nil _).symm
  | cons piece pieces ih =>
    rw [List.mem_cons, not_or] at hup
    rw [Path.namesIn_cons, List.append_assoc] at h
    have hstep := step_of_isSome (Ne.symm hup.1) (by simp [hnames]) h
    rw [← List.append_assoc] at h
    rw [List.foldlM_cons, hstep, Path.namesIn_cons piece pieces, ← List.append_assoc]
    exact ih hup.2 h

def placeOf (fs : FileSystem) (path : String) : List String := fs.start path ++ Path.names path

theorem eq_placeOf_of_locate (hup : ['.', '.'] ∉ Text.splitAt '/' base.toList)
    (h : fs.locate base = .ok place) : place = fs.placeOf base := by
  rw [locate, if_neg (locate_ne_empty h)] at h
  exact (foldlM_step_moved rfl hup h).1

theorem locate_join_iff (hup : ['.', '.'] ∉ Text.splitAt '/' base.toList)
    (hname : Path.IsName name) :
    fs.locate (Path.join base name) = .ok place ↔
      (fs.root.at? (fs.placeOf base ++ [name])).isSome ∧ place = fs.placeOf base ++ [name] := by
  by_cases hbase : base = ""
  · have hstart : fs.start name = fs.current := by
      rw [start, if_neg (by simpa [Path.IsRelative] using hname.isRelative)]
    have hplace : fs.placeOf base = fs.current := by
      rw [placeOf, hbase]
      exact List.append_nil _
    have hlocate : fs.locate name = fs.step fs.current name.toList := by
      rw [locate, if_neg hname.ne_empty, hname.splitAt, hstart]
      exact bind_pure _
    rw [hplace, hbase, Path.empty_join, hlocate, step_name_eq_ok hname]
  · rw [locate_join_name hbase hname]
    constructor
    · rintro ⟨outer, houter, hsome, rfl⟩
      rw [← eq_placeOf_of_locate hup houter]
      exact ⟨hsome, rfl⟩
    · rintro ⟨hsome, rfl⟩
      refine ⟨fs.placeOf base, ?_, hsome, rfl⟩
      rw [locate, if_neg hbase]
      rw [placeOf, List.append_assoc] at hsome
      exact foldlM_step_of_isSome hup (by simp) hsome

theorem entry_join (hup : ['.', '.'] ∉ Text.splitAt '/' base.toList) (hname : Path.IsName name)
    {e : Entry} : fs.entry (Path.join base name) = .ok e ↔
      fs.root.at? (fs.placeOf base ++ [name]) = some e := by
  rw [entry_eq_ok]
  constructor
  · rintro ⟨place, hleads⟩
    obtain ⟨-, rfl⟩ := (locate_join_iff hup hname).1 hleads.locate
    exact hleads.at?
  · intro hat
    exact ⟨_, (locate_join_iff hup hname).2 ⟨by rw [hat]; rfl, rfl⟩, hat⟩

end FileSystem

namespace Config

variable {fs : FileSystem} {place directory : List String} {start path : String}

def HasConfig (fs : FileSystem) (place : List String) : Prop :=
  ∃ bytes, fs.root.at? (place ++ [fileName]) = some (.file bytes)

def HasRepository (fs : FileSystem) (place : List String) : Prop :=
  ∃ e, fs.root.at? (place ++ [".git"]) = some e

/-- Of the directories at and above a place, the innermost that has a project file, with no
repository in any of those before it. -/
structure Nearest (fs : FileSystem) (place directory : List String) : Prop where
  above : directory <+: place
  hasConfig : HasConfig fs directory
  first : ∀ inner, inner <+: place → directory <+: inner → inner ≠ directory →
    ¬ HasConfig fs inner ∧ ¬ HasRepository fs inner

theorem Nearest.unique {directory' : List String} (h : Nearest fs place directory)
    (h' : Nearest fs place directory') : directory = directory' := by
  by_contra hne
  rcases List.prefix_or_prefix_of_prefix h.above h'.above with hle | hle
  · exact (h.first directory' h'.above hle (Ne.symm hne)).1 h'.hasConfig
  · exact (h'.first directory h.above hle hne).1 h.hasConfig

theorem isName_fileName : Path.IsName fileName := by decide

theorem isFile_join_fileName (hup : ['.', '.'] ∉ Text.splitAt '/' start.toList) :
    fs.isFile (Path.join start fileName) ↔ HasConfig fs (fs.placeOf start) := by
  rw [FileSystem.isFile_iff]
  exact exists_congr fun bytes => FileSystem.entry_join hup isName_fileName

theorem contains_join_git (hup : ['.', '.'] ∉ Text.splitAt '/' start.toList) :
    fs.contains (Path.join start ".git") ↔ HasRepository fs (fs.placeOf start) := by
  have hname : Path.IsName ".git" := by decide
  rw [FileSystem.contains_iff]
  exact exists_congr fun e => FileSystem.entry_join hup hname

theorem firstOf_eq_some {directories : List String} :
    firstOf fs directories = some path ↔
      ∃ before d after, directories = before ++ d :: after ∧ path = Path.join d fileName ∧
        fs.isFile path ∧ ∀ b ∈ before,
          ¬ fs.isFile (Path.join b fileName) ∧ ¬ fs.contains (Path.join b ".git") := by
  induction directories with
  | nil => simp [firstOf]
  | cons directory outer ih =>
    rw [firstOf]
    constructor
    · intro h
      split_ifs at h with hfile hgit
      · cases h
        exact ⟨[], directory, outer, rfl, rfl, hfile, by simp⟩
      · obtain ⟨before, d, after, rfl, rfl, hfound, hbefore⟩ := ih.1 h
        exact ⟨directory :: before, d, after, rfl, rfl, hfound,
          List.forall_mem_cons.2 ⟨⟨hfile, hgit⟩, hbefore⟩⟩
    · rintro ⟨before, d, after, heq, rfl, hfound, hbefore⟩
      cases before with
      | nil =>
        cases heq
        rw [if_pos hfound]
      | cons b before =>
        cases heq
        obtain ⟨⟨hfile, hgit⟩, hbefore⟩ := List.forall_mem_cons.1 hbefore
        rw [if_neg hfile, if_neg hgit]
        exact ih.2 ⟨before, d, after, rfl, rfl, hfound, hbefore⟩

theorem exists_repository_of_firstOf {directories : List String} {d : String}
    (h : firstOf fs directories = none) (hd : d ∈ directories)
    (hfile : fs.isFile (Path.join d fileName)) :
    ∃ before e after, directories = before ++ e :: after ∧ d ∈ after ∧
      ¬ fs.isFile (Path.join e fileName) ∧ fs.contains (Path.join e ".git") := by
  induction directories with
  | nil => cases hd
  | cons directory outer ih =>
    rw [firstOf] at h
    split_ifs at h with hhere hgit
    all_goals
      have hne : d ≠ directory := by
        rintro rfl
        exact hhere hfile
      have houter : d ∈ outer := List.mem_of_ne_of_mem hne hd
    · exact ⟨[], directory, outer, rfl, houter, hhere, hgit⟩
    · obtain ⟨before, e, after, rfl, hafter, hmissing, hrepository⟩ := ih h houter
      exact ⟨directory :: before, e, after, rfl, hafter, hmissing, hrepository⟩

def searched (start : String) : List String := (Path.ancestors start.toList).map String.ofList

theorem mem_searched (fs : FileSystem) (hup : ['.', '.'] ∉ Text.splitAt '/' start.toList)
    {d : String} (h : d ∈ searched start) :
    ['.', '.'] ∉ Text.splitAt '/' d.toList ∧ fs.placeOf d = fs.start start ++ Path.names d ∧
      Path.names d <+: Path.names start := by
  obtain ⟨text, htext, rfl⟩ := List.mem_map.1 h
  obtain ⟨habsolute, houter, hdots⟩ := Path.mem_ancestors htext
  rw [FileSystem.placeOf, FileSystem.start, FileSystem.start, Path.names, String.toList_ofList,
    habsolute]
  exact ⟨hdots hup, rfl, houter⟩

theorem pairwise_searched (start : String) :
    (searched start).Pairwise fun a b => Path.names b <+: Path.names a := by
  rw [searched, List.pairwise_map]
  refine (Path.pairwise_ancestors start.toList).imp fun {a b} h => ?_
  rw [Path.names, Path.names, String.toList_ofList, String.toList_ofList]
  exact h

theorem exists_mem_searched {ns : List String} (h : ns <+: Path.names start) :
    ∃ d ∈ searched start, Path.names d = ns := by
  obtain ⟨text, htext, hnames⟩ := Path.exists_mem_ancestors h
  refine ⟨_, List.mem_map_of_mem htext, ?_⟩
  rw [Path.names, String.toList_ofList, hnames]

theorem nearest_of_find? (hup : ['.', '.'] ∉ Text.splitAt '/' start.toList)
    (h : find? fs start = some path) :
    ∃ directory, Nearest fs (fs.placeOf start) directory ∧ fs.start start <+: directory ∧
      fs.locate path = .ok (directory ++ [fileName]) := by
  obtain ⟨before, d, after, hsplit, rfl, hfile, hbefore⟩ := firstOf_eq_some.1 h
  replace hsplit : searched start = before ++ d :: after := hsplit
  have hd : d ∈ searched start := by simp [hsplit]
  obtain ⟨hdots, hplace, hnames⟩ := mem_searched fs hup hd
  have hconfig : HasConfig fs (fs.start start ++ Path.names d) := by
    rw [← hplace]
    exact (isFile_join_fileName hdots).1 hfile
  have hlocate : fs.locate (Path.join d fileName) =
      .ok (fs.start start ++ Path.names d ++ [fileName]) := by
    obtain ⟨bytes, hat⟩ := hconfig
    rw [← hplace] at hat ⊢
    exact (FileSystem.locate_join_iff hdots isName_fileName).2 ⟨by rw [hat]; rfl, rfl⟩
  refine ⟨_, ⟨(List.prefix_append_right_inj _).2 hnames, hconfig, fun inner habove hle hne => ?_⟩,
    List.prefix_append _ _, hlocate⟩
  obtain ⟨ns, rfl⟩ := (List.prefix_append _ _).trans hle
  rw [FileSystem.placeOf, List.prefix_append_right_inj] at habove
  rw [List.prefix_append_right_inj] at hle
  -- What names more than the directory that is found comes before it.
  obtain ⟨b, hb, rfl⟩ := exists_mem_searched habove
  have hmem : b ∈ before := by
    have hpairwise := pairwise_searched start
    rw [hsplit, List.pairwise_append, List.pairwise_cons] at hpairwise
    rw [hsplit, List.mem_append, List.mem_cons] at hb
    rcases hb with hb | rfl | hb
    · exact hb
    · exact absurd rfl hne
    · have hge := hpairwise.2.1.1 b hb
      exact absurd (congrArg _ (hge.eq_of_length_le hle.length_le)) hne
  obtain ⟨hdots', hplace', -⟩ := mem_searched fs hup (d := b) (by simp [hsplit, hmem])
  rw [← hplace', ← isFile_join_fileName hdots', ← contains_join_git hdots']
  exact hbefore b hmem

theorem find?_ne_none_of_nearest (hup : ['.', '.'] ∉ Text.splitAt '/' start.toList)
    (h : Nearest fs (fs.placeOf start) directory) (hstart : fs.start start <+: directory) :
    find? fs start ≠ none := by
  intro hnone
  obtain ⟨ns, rfl⟩ := hstart
  have hns : ns <+: Path.names start := (List.prefix_append_right_inj _).1 h.above
  obtain ⟨d, hd, rfl⟩ := exists_mem_searched hns
  obtain ⟨hdots, hplace, -⟩ := mem_searched fs hup hd
  have hfile : fs.isFile (Path.join d fileName) := by
    rw [isFile_join_fileName hdots, hplace]
    exact h.hasConfig
  obtain ⟨before, e, after, hsplit, hafter, hmissing, hgit⟩ :=
    exists_repository_of_firstOf hnone hd hfile
  replace hsplit : searched start = before ++ e :: after := hsplit
  obtain ⟨hdots', hplace', hnames⟩ := mem_searched fs hup (d := e) (by simp [hsplit])
  rw [isFile_join_fileName hdots', hplace'] at hmissing
  rw [contains_join_git hdots', hplace'] at hgit
  have hpairwise := pairwise_searched start
  rw [hsplit, List.pairwise_append, List.pairwise_cons] at hpairwise
  have hle : Path.names d <+: Path.names e := hpairwise.2.1.1 d hafter
  by_cases heq : Path.names e = Path.names d
  · rw [heq] at hmissing
    exact hmissing h.hasConfig
  · have hfirst := h.first (fs.start start ++ Path.names e)
      ((List.prefix_append_right_inj _).2 hnames) ((List.prefix_append_right_inj _).2 hle)
      (mt List.append_cancel_left heq)
    exact hfirst.2 hgit

/-- The search finds the project file of the innermost directory at or above the source root that
has one, with no repository before it, if the path of the source root does not lead upwards. It
does not look above the directory where the path starts: the current one for a relative path. -/
theorem find?_nearest (hup : ['.', '.'] ∉ Text.splitAt '/' start.toList) :
    (∀ place, fs.locate start = .ok place → place = fs.placeOf start) ∧
      (∀ directory, (∃ path, find? fs start = some path ∧
          fs.locate path = .ok (directory ++ [fileName])) ↔
        Nearest fs (fs.placeOf start) directory ∧ fs.start start <+: directory) ∧
      (find? fs start = none ↔
        ¬ ∃ directory, Nearest fs (fs.placeOf start) directory ∧
          fs.start start <+: directory) := by
  refine ⟨fun place => FileSystem.eq_placeOf_of_locate hup, fun directory => ⟨?_, ?_⟩, ?_, ?_⟩
  · rintro ⟨path, hfind, hlocate⟩
    obtain ⟨directory', hnearest, hstart, hlocate'⟩ := nearest_of_find? hup hfind
    obtain rfl : directory = directory' := by simpa [hlocate] using hlocate'
    exact ⟨hnearest, hstart⟩
  · rintro ⟨hnearest, hstart⟩
    have hsome := find?_ne_none_of_nearest hup hnearest hstart
    obtain ⟨path, hfind⟩ := Option.ne_none_iff_exists'.1 hsome
    obtain ⟨directory', hnearest', -, hlocate⟩ := nearest_of_find? hup hfind
    exact ⟨path, hfind, hnearest.unique hnearest' ▸ hlocate⟩
  · rintro hnone ⟨directory, hnearest, hstart⟩
    exact find?_ne_none_of_nearest hup hnearest hstart hnone
  · intro hnone
    by_contra hfind
    obtain ⟨path, hfind⟩ := Option.ne_none_iff_exists'.1 hfind
    obtain ⟨directory, hnearest, hstart, -⟩ := nearest_of_find? hup hfind
    exact hnone ⟨directory, hnearest, hstart⟩

section Sample

def nested (current : List String) : FileSystem where
  root := .directory [(fileName, .file "".toUTF8),
    ("a", .directory [("b", .directory [(fileName, .file "".toUTF8)])])]
  current := current

theorem nested_isTree (current : List String) : (nested current).root.IsTree := by
  have hinner : (Entry.directory [(fileName, .file "".toUTF8)]).IsTree :=
    .of_entries (by decide) (by simp [Entry.IsTree.file]) (by simp)
  have hmiddle : (Entry.directory [("b", .directory [(fileName, .file "".toUTF8)])]).IsTree :=
    .of_entries (by decide) (by simpa using hinner) (by simp)
  exact .of_entries (by decide) (by simpa [Entry.IsTree.file] using hmiddle) (by decide)

theorem find?_nearest_nested :
    ['.', '.'] ∉ Text.splitAt '/' "/a/./".toList ∧
      Nearest (nested ["a", "b"]) ((nested ["a", "b"]).placeOf "/a/./") [] := by
  have hup : ['.', '.'] ∉ Text.splitAt '/' "/a/./".toList := by decide
  obtain ⟨-, hfound, -⟩ := @find?_nearest (nested ["a", "b"]) "/a/./" hup
  exact ⟨hup, ((hfound []).1 ⟨"/.jsmsgrc.json", by decide +kernel, by decide +kernel⟩).1⟩

theorem nearest_nested (current : List String) : Nearest (nested current) ["a"] [] := by
  refine ⟨List.nil_prefix, ⟨_, rfl⟩, fun inner habove _ hne => ?_⟩
  have hfile : (nested current).root.at? (["a"] ++ [fileName]) = none := rfl
  have hgit : (nested current).root.at? (["a"] ++ [".git"]) = none := rfl
  rcases List.prefix_cons_iff.1 habove with rfl | ⟨rest, rfl, hrest⟩
  · exact absurd rfl hne
  · rw [List.prefix_nil.1 hrest]
    constructor
    · rintro ⟨bytes, hat⟩
      cases hat.symm.trans hfile
    · rintro ⟨e, hat⟩
      cases hat.symm.trans hgit

/-- A relative path does not lead the search above the current directory, and one that leads
upwards makes it go through directories that are not above. -/
theorem not_nearest_of_find? :
    (∃ fs : FileSystem, fs.root.IsTree ∧ fs.locate "." = .ok ["a"] ∧ Nearest fs ["a"] [] ∧
      find? fs "." = none) ∧
    ∃ fs : FileSystem, fs.root.IsTree ∧ fs.locate "a/b/.." = .ok ["a"] ∧ Nearest fs ["a"] [] ∧
      find? fs "a/b/.." = some "a/b/.jsmsgrc.json" ∧
        fs.locate "a/b/.jsmsgrc.json" = .ok ["a", "b", fileName] :=
  ⟨⟨nested ["a"], nested_isTree _, by decide +kernel, nearest_nested _, by decide +kernel⟩,
    nested [], nested_isTree _, by decide +kernel, nearest_nested _, by decide +kernel,
    by decide +kernel⟩

end Sample

end Config

end MessageCatalog

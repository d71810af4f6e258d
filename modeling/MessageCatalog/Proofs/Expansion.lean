import MessageCatalog.Proofs.Patterns
import MessageCatalog.Proofs.Scanning

/-! Where the patterns of the includes lead. From two roots that hold the same entries a pattern
leads to the same ones, unless it leads upwards or a root does not stand for itself in it. -/

namespace MessageCatalog

namespace Project
variable {fs : FileSystem} {path name : String} {place : List String} {e e' : Entry}

def IsGround (path : String) : Prop :=
  path ≠ "" ∧ (path = "." ∨ Path.components path.toList ≠ [['.']])

theorem pathBelow_dot (name : String) : pathBelow "." name = name := rfl

theorem pathBelow_of_ne (h : Path.components path.toList ≠ [['.']]) :
    pathBelow path name = Path.join path name := if_neg h

theorem pathBelow_ne_empty (h : IsGround path) (hname : Path.IsName name) :
    pathBelow path name ≠ "" := by
  obtain ⟨hne, rfl | hcomponents⟩ := h
  · exact hname.ne_empty
  · rw [pathBelow_of_ne hcomponents]
    exact Path.join_ne_empty hne hname.isRelative

theorem components_pathBelow_ne (h : IsGround path) (hname : Path.IsName name) :
    Path.components (pathBelow path name).toList ≠ [['.']] := by
  have hdot : name.toList ≠ ['.'] := fun hdot => hname.ne_dot (String.toList_inj.1 hdot)
  obtain ⟨hne, rfl | hcomponents⟩ := h
  · rw [pathBelow_dot, Path.components, hname.splitAt, hname.isRelative]
    simp only [Bool.false_eq_true, if_false, List.filter_nil, List.append_nil,
      List.filter_singleton]
    cases Path.isComponent true name.toList <;> simp [hdot]
  · intro heq
    rw [pathBelow_of_ne hcomponents, Path.components_join hne hname.isRelative, hname.names] at heq
    have hlast := congrArg List.getLast? heq
    simp [hdot] at hlast

theorem IsGround.pathBelow (h : IsGround path) (hname : Path.IsName name) :
    IsGround (pathBelow path name) :=
  ⟨pathBelow_ne_empty h hname, .inr (components_pathBelow_ne h hname)⟩

theorem locate_pathBelow (hground : IsGround path) (h : fs.Leads path place e)
    (hname : Path.IsName name) :
    fs.locate (pathBelow path name) = fs.step place name.toList := by
  have hstep : ∀ p, [name.toList].foldlM fs.step p = fs.step p name.toList := fun p => bind_pure _
  obtain ⟨hne, rfl | hcomponents⟩ := hground
  · have hplace : fs.step fs.current ['.'] = .ok place := by
      have hdot : fs.locate "." = fs.step fs.current ['.'] := bind_pure _
      rw [← hdot, h.locate]
    have hcurrent : place = fs.current := by
      unfold FileSystem.step at hplace
      split at hplace <;> simp_all
    have hstart : fs.start name = fs.current := by
      have hrelative : Path.isAbsolute name.toList = false := hname.isRelative
      rw [FileSystem.start, hrelative, if_neg Bool.false_ne_true]
    rw [pathBelow_dot, FileSystem.locate, if_neg hname.ne_empty, hname.splitAt, hstart, hcurrent,
      hstep]
  · rw [pathBelow_of_ne hcomponents, FileSystem.locate_join hne hname.isRelative, hname.splitAt,
      h.locate]
    exact hstep place

theorem leads_pathBelow (hground : IsGround path) (h : fs.Leads path place e)
    (hname : Path.IsName name) {p : List String} :
    fs.Leads (pathBelow path name) p e' ↔ p = place ++ [name] ∧ e.child? name = some e' := by
  have hat : fs.root.at? (place ++ [name]) = e.child? name := by
    rw [Entry.at?_append, h.at?]
    show e.at? [name] = _
    rw [Entry.at?]
    cases e.child? name <;> rfl
  constructor
  · rintro ⟨hlocate, hentry⟩
    rw [locate_pathBelow hground h hname, FileSystem.step_name_eq_ok hname] at hlocate
    obtain ⟨-, rfl⟩ := hlocate
    exact ⟨rfl, hat ▸ hentry⟩
  · rintro ⟨rfl, hchild⟩
    refine ⟨?_, hat.trans hchild⟩
    rw [locate_pathBelow hground h hname, FileSystem.step_name_eq_ok hname, hat, hchild]
    exact ⟨rfl, rfl⟩

theorem contains_pathBelow (hground : IsGround path) (h : fs.Leads path place e)
    (hname : Path.IsName name) : fs.contains (pathBelow path name) ↔ (e.child? name).isSome := by
  have hiff : fs.contains (pathBelow path name) ↔ ∃ e' p, fs.Leads (pathBelow path name) p e' := by
    simp only [← FileSystem.entry_eq_ok, FileSystem.contains]
    cases fs.entry (pathBelow path name) <;> simp
  rw [hiff, Option.isSome_iff_exists]
  simp [leads_pathBelow hground h hname]

def pathAt (base : String) (names : List String) : String := names.foldl pathBelow base

@[simp] theorem pathAt_nil (base : String) : pathAt base [] = base := rfl

@[simp] theorem pathAt_concat (base : String) (names : List String) (name : String) :
    pathAt base (names ++ [name]) = pathBelow (pathAt base names) name := by
  simp [pathAt, List.foldl_append]

@[simp] theorem pathAt_cons (base name : String) (names : List String) :
    pathAt base (name :: names) = pathAt (pathBelow base name) names := rfl

theorem IsGround.pathAt {names : List String} (h : IsGround path)
    (hnames : ∀ name ∈ names, Path.IsName name) : IsGround (pathAt path names) := by
  induction names generalizing path with
  | nil => exact h
  | cons name names ih =>
    obtain ⟨hname, hrest⟩ := List.forall_mem_cons.1 hnames
    exact ih (h.pathBelow hname) hrest

theorem pathAt_of_ne {names : List String} (hne : path ≠ "")
    (h : Path.components path.toList ≠ [['.']]) (hnames : ∀ name ∈ names, Path.IsName name) :
    pathAt path names = Path.joinAll path names := by
  induction names generalizing path with
  | nil => rfl
  | cons name names ih =>
    obtain ⟨hname, hrest⟩ := List.forall_mem_cons.1 hnames
    have hground : IsGround path := ⟨hne, .inr h⟩
    rw [pathAt_cons, ih (pathBelow_ne_empty hground hname) (components_pathBelow_ne hground hname)
      hrest, pathBelow_of_ne h, Path.joinAll_cons]

theorem pathAt_dot {names : List String} (hne : names ≠ [])
    (hnames : ∀ name ∈ names, Path.IsName name) : pathAt "." names = Path.joinAll "" names := by
  obtain ⟨name, names, rfl⟩ := List.exists_cons_of_ne_nil hne
  obtain ⟨hname, hrest⟩ := List.forall_mem_cons.1 hnames
  have hground : IsGround "." := ⟨by decide, .inl rfl⟩
  rw [pathAt_cons, pathAt_of_ne (pathBelow_ne_empty hground hname)
    (components_pathBelow_ne hground hname) hrest, pathBelow_dot, Path.joinAll_cons,
    Path.empty_join]

/-- An expansion from the root gets to the entry by these names. -/
structure Gets (fs : FileSystem) (base : String) (place names : List String) (path : String)
    (e : Entry) : Prop where
  eq_pathAt : path = pathAt base names
  leads : fs.Leads path (place ++ names) e
  ground : IsGround path
  isName : ∀ name ∈ names, Path.IsName name
  tree : e.IsTree

theorem Gets.root {base : String} (hground : IsGround base) (h : fs.Leads base place e)
    (htree : e.IsTree) : Gets fs base place [] base e :=
  ⟨rfl, by simpa using h, hground, by simp, htree⟩

section
variable {base : String} {names : List String} {entries : List (String × Entry)}

theorem Gets.step (h : Gets fs base place names path (.directory entries))
    (hmem : (name, e) ∈ entries) :
    Gets fs base place (names ++ [name]) (pathBelow path name) e := by
  cases h.tree with
  | directory hnames htrees hnodup =>
    have hname := hnames name e hmem
    refine ⟨?_, ?_, h.ground.pathBelow hname, ?_, htrees name e hmem⟩
    · rw [pathAt_concat, ← h.eq_pathAt]
    · rw [← List.append_assoc, leads_pathBelow h.ground h.leads hname]
      exact ⟨rfl, Table.get_of_mem hnodup hmem⟩
    · exact List.forall_mem_append.2 ⟨h.isName, by simpa using hname⟩

end

section
variable {fs' : FileSystem} {base base' : String} {place' : List String} {path' : String}

def Alike (fs fs' : FileSystem) (base base' : String) (place place' : List String)
    (path path' : String) (e : Entry) : Prop :=
  ∃ names, Gets fs base place names path e ∧ Gets fs' base' place' names path' e

theorem Alike.step {entries : List (String × Entry)}
    (h : Alike fs fs' base base' place place' path path' (.directory entries))
    (hmem : (name, e) ∈ entries) :
    Alike fs fs' base base' place place' (pathBelow path name) (pathBelow path' name) e := by
  obtain ⟨names, hgets, hgets'⟩ := h
  exact ⟨names ++ [name], hgets.step hmem, hgets'.step hmem⟩

theorem mem_belowIn {directory : String} {entries : List (String × Entry)} {f : Found} :
    f ∈ belowIn directory entries ↔ ∃ name e, (name, e) ∈ entries ∧
      (f = ⟨pathBelow directory name, name, e⟩ ∨ f ∈ below (pathBelow directory name) e) := by
  induction entries with
  | nil => simp [belowIn]
  | cons entry rest ih =>
    obtain ⟨name, e⟩ := entry
    rw [belowIn]
    simp only [List.cons_append, List.mem_cons, List.mem_append, ih]
    constructor
    · rintro (h | h | ⟨name', e', hmem, h⟩)
      · exact ⟨name, e, .inl rfl, .inl h⟩
      · exact ⟨name, e, .inl rfl, .inr h⟩
      · exact ⟨name', e', .inr hmem, h⟩
    · rintro ⟨name', e', heq | hmem, h⟩
      · cases heq
        exact h.elim .inl fun h => .inr (.inl h)
      · exact .inr (.inr ⟨name', e', hmem, h⟩)

theorem exists_alike_of_mem_below {f : Found} (htree : e.IsTree)
    (h : Alike fs fs' base base' place place' path path' e) (hf : f ∈ below path e) :
    ∃ path'', ⟨path'', f.name, f.entry⟩ ∈ below path' e ∧
      Alike fs fs' base base' place place' f.path path'' f.entry := by
  induction htree generalizing path path' with
  | file bytes => simp [below] at hf
  | @directory entries hnames htrees hnodup ih =>
    rw [below, mem_belowIn] at hf
    obtain ⟨name, e, hmem, rfl | hf⟩ := hf
    · refine ⟨pathBelow path' name, ?_, h.step hmem⟩
      rw [below, mem_belowIn]
      exact ⟨name, e, hmem, .inl rfl⟩
    · obtain ⟨path'', hpath'', halike⟩ := ih name e hmem (h.step hmem) hf
      refine ⟨path'', ?_, halike⟩
      rw [below, mem_belowIn]
      exact ⟨name, e, hmem, .inr hpath''⟩

def Component.Stays (c : Component) : Prop :=
  match c.literal? with
  | some name => Path.IsName name
  | none => ¬ c.startsWithDot

theorem mem_expandOne {c : Component} (hstays : c.Stays) (hground : IsGround path)
    (hleads : fs.Leads path place e) (htree : e.IsTree) {p : String} :
    p ∈ expand.expandOne fs c path ↔
      ∃ name e', (name, e') ∈ e.entries ∧ p = pathBelow path name ∧
        match c.literal? with
        | some literal => name = literal
        | none => c.holds name := by
  unfold expand.expandOne
  unfold Component.Stays at hstays
  cases hliteral : c.literal? with
  | some literal =>
    rw [hliteral] at hstays
    have hname : Path.IsName literal := hstays
    have hthere : fs.contains (pathBelow path literal) ↔ ∃ e', (literal, e') ∈ e.entries := by
      rw [contains_pathBelow hground hleads hname, Option.isSome_iff_exists]
      refine exists_congr fun e' => ⟨fun h => Table.mem_of_get h, fun hmem => ?_⟩
      cases htree with
      | file => cases hmem
      | directory hnames htrees hnodup => exact Table.get_of_mem hnodup hmem
    simp only [hname.ne_dot, hname.ne_dots, decide_false, Bool.or_self, Bool.false_eq_true,
      if_false]
    split_ifs with h
    · obtain ⟨e', he'⟩ := hthere.1 h
      rw [List.mem_singleton]
      exact ⟨fun hp => ⟨literal, e', he', hp, rfl⟩, fun ⟨name, e', _, hp, hname⟩ => hname ▸ hp⟩
    · refine iff_of_false List.not_mem_nil ?_
      rintro ⟨_, e', he', -, rfl⟩
      exact h (hthere.2 ⟨e', he'⟩)
  | none =>
    rw [hliteral] at hstays
    have hdot : c.startsWithDot = false := by simpa using hstays
    rw [hleads.entry]
    cases e with
    | file => simp [Entry.entries]
    | directory entries =>
      simp only [hdot, Bool.false_eq_true, if_false, List.map_nil, List.append_nil, List.mem_map,
        List.mem_filter, Entry.entries]
      constructor
      · rintro ⟨name, ⟨⟨⟨_, e'⟩, hmem, rfl⟩, hholds⟩, rfl⟩
        exact ⟨_, e', hmem, rfl, hholds⟩
      · rintro ⟨name, e', hmem, rfl, hholds⟩
        exact ⟨name, ⟨⟨_, hmem, rfl⟩, hholds⟩, rfl⟩

theorem exists_alike_of_mem_expandOne {c : Component} (hstays : c.Stays)
    (h : Alike fs fs' base base' place place' path path' e) {p : String}
    (hp : p ∈ expand.expandOne fs c path) :
    ∃ p' ∈ expand.expandOne fs' c path', ∃ e', Alike fs fs' base base' place place' p p' e' := by
  obtain ⟨names, hgets, hgets'⟩ := h
  obtain ⟨name, e', hmem, rfl, hholds⟩ :=
    (mem_expandOne hstays hgets.ground hgets.leads hgets.tree).1 hp
  refine ⟨pathBelow path' name, ?_, e', ?_⟩
  · exact (mem_expandOne hstays hgets'.ground hgets'.leads hgets'.tree).2
      ⟨name, e', hmem, rfl, hholds⟩
  · cases e with
    | file => cases hmem
    | directory entries => exact Alike.step ⟨names, hgets, hgets'⟩ hmem

theorem exists_alike_of_mem_expand {p : String} : ∀ {cs : List Component} {path path' : String}
    {e : Entry}, (∀ c ∈ cs, c.Stays) → Alike fs fs' base base' place place' path path' e →
      p ∈ expand fs cs path →
        ∃ p' ∈ expand fs' cs path', ∃ e', Alike fs fs' base base' place place' p p' e'
  | [], path, path', e, _, h, hp => by
    rw [expand, List.mem_singleton] at hp
    exact ⟨path', by simp [expand], e, hp ▸ h⟩
  | [c], path, path', e, hstays, h, hp => by
    obtain ⟨names, hgets, hgets'⟩ := id h
    rw [expand] at hp ⊢
    split_ifs at hp ⊢ with hrecursive
    · rw [hgets.leads.entry] at hp
      obtain ⟨f, hf, rfl⟩ := List.mem_map.1 hp
      obtain ⟨hf, hdirectory⟩ := List.mem_filter.1 hf
      obtain ⟨p', hp', halike⟩ := exists_alike_of_mem_below hgets.tree h hf
      refine ⟨p', ?_, _, halike⟩
      rw [hgets'.leads.entry]
      exact List.mem_map.2 ⟨_, List.mem_filter.2 ⟨hp', hdirectory⟩, rfl⟩
    · exact exists_alike_of_mem_expandOne (hstays c (by simp)) h hp
  | c :: next :: rest, path, path', e, hstays, h, hp => by
    -- A recursive component takes the next one along.
    obtain ⟨names, hgets, hgets'⟩ := id h
    have hrest : ∀ d ∈ rest, d.Stays := fun d hd => hstays d (by simp [hd])
    have htail : ∀ d ∈ next :: rest, d.Stays := fun d hd => hstays d (List.mem_cons_of_mem c hd)
    rw [expand] at hp ⊢
    split_ifs at hp ⊢ with hrecursive
    · rw [hgets.leads.entry] at hp
      obtain ⟨f, hf, hp⟩ := List.mem_flatMap.1 hp
      obtain ⟨hf, hholds⟩ := List.mem_filter.1 hf
      obtain ⟨path'', hpath'', halike⟩ := exists_alike_of_mem_below hgets.tree h hf
      obtain ⟨p', hp', halike⟩ := exists_alike_of_mem_expand hrest halike hp
      refine ⟨p', ?_, halike⟩
      rw [hgets'.leads.entry]
      exact List.mem_flatMap.2 ⟨_, List.mem_filter.2 ⟨hpath'', hholds⟩, hp'⟩
    · obtain ⟨q, hq, hp⟩ := List.mem_flatMap.1 hp
      obtain ⟨q', hq', e', halike⟩ := exists_alike_of_mem_expandOne (hstays c (by simp)) h hq
      obtain ⟨p', hp', halike⟩ := exists_alike_of_mem_expand htail halike hp
      exact ⟨p', List.mem_flatMap.2 ⟨q', hq', hp'⟩, halike⟩

end

def behind (names : List String) (text : List Char) : List Char :=
  names.foldr (fun name rest => name.toList ++ '/' :: rest) text

@[simp] theorem behind_nil (text : List Char) : behind [] text = text := rfl

@[simp] theorem behind_cons (name : String) (names : List String) (text : List Char) :
    behind (name :: names) text = name.toList ++ '/' :: behind names text := rfl

theorem toList_join_joinAll {entry : String} {names : List String} (hne : path ≠ "")
    (hlast : path.toList.getLast? ≠ some '/') (hnames : ∀ name ∈ names, Path.IsName name)
    (hentry : Path.IsRelative entry) :
    (Path.join (Path.joinAll path names) entry).toList =
      path.toList ++ '/' :: behind names entry.toList := by
  induction names generalizing path with
  | nil => simp [Path.join_of_not_slash hne hentry hlast]
  | cons name names ih =>
    obtain ⟨hname, hrest⟩ := List.forall_mem_cons.1 hnames
    have hjoin : Path.join path name = path ++ "/" ++ name :=
      Path.join_of_not_slash hne hname.isRelative hlast
    have hlast' : (Path.join path name).toList.getLast? ≠ some '/' := by
      have hempty : name.toList ≠ [] := fun hnil => hname.ne_empty (String.toList_eq_nil_iff.1 hnil)
      rw [hjoin, String.toList_append, List.getLast?_append_of_ne_nil _ hempty]
      exact fun h => hname.no_slash (List.mem_of_getLast? h)
    rw [Path.joinAll_cons, ih (Path.join_ne_empty hne hname.isRelative) hlast' hrest, hjoin]
    simp

def Component.ofName (name : String) : Component := ⟨name.toList.map .char⟩

theorem Component.literal?_ofName (name : String) : (ofName name).literal? = some name := by
  have hchars : ∀ (f : Glob.Piece → Option Char), (∀ c, f (.char c) = some c) →
      ∀ cs : List Char, (cs.map Glob.Piece.char).mapM f = some cs := by
    intro f hf cs
    induction cs with
    | nil => rfl
    | cons c cs ih => simp [hf, ih]
  rw [literal?, ofName, hchars _ fun _ => rfl]
  simp

theorem Component.isRecursive_ofName (name : String) : (ofName name).isRecursive = false := by
  rw [isRecursive, ofName]
  cases name.toList <;> simp

def componentTexts (pattern : List Char) : List (List Char) :=
  let texts := Text.splitAt '/' pattern
  if texts.getLast? = some [] then texts.dropLast else texts

theorem componentTexts_name_slash {name text : List Char} (hname : '/' ∉ name) :
    componentTexts (name ++ '/' :: text) = name :: componentTexts text := by
  have hne := Text.splitAt_ne_nil '/' text
  rw [componentTexts, componentTexts, Text.splitAt_append, Text.splitAt_of_not_mem hname,
    List.singleton_append, List.getLast?_cons_of_ne_nil hne, List.dropLast_cons_of_ne_nil hne]
  split_ifs <;> rfl

def collapse (components : List Component) : List Component :=
  components.foldr
    (fun c rest => if c.isRecursive && rest.head?.any (·.isRecursive) then rest else c :: rest) []

def Component.ofText (text : List Char) : Except Glob.Malformed Component :=
  return ⟨← Glob.parse (String.ofList text)⟩

theorem Component.ofPattern_eq (pattern : List Char) :
    ofPattern pattern = ((componentTexts pattern).mapM ofText).map collapse := by
  have hbind : ofPattern pattern =
      (componentTexts pattern).mapM ofText >>= fun components => return collapse components := rfl
  rw [hbind]
  cases (componentTexts pattern).mapM ofText <;> rfl

theorem Component.ofText_name {name : String} (hword : Glob.IsWord name.toList) :
    ofText name.toList = .ok (ofName name) := by
  have hchars := Glob.parseFrom_word hword 0 true []
  rw [List.append_nil] at hchars
  rw [ofText, Glob.parse, String.toList_ofList, hchars]
  simp [Glob.parseFrom, Except.map, ofName, pure, Except.pure, bind, Except.bind]

theorem Component.ofPattern_name_slash {name : String} {text : List Char}
    (hword : Glob.IsWord name.toList) :
    ofPattern (name.toList ++ '/' :: text) = (ofPattern text).map (ofName name :: ·) := by
  have hcollapse : ∀ cs, collapse (ofName name :: cs) = ofName name :: collapse cs := by
    intro cs
    rw [collapse, List.foldr_cons, isRecursive_ofName]
    rfl
  rw [ofPattern_eq, ofPattern_eq, componentTexts_name_slash hword.no_slash, List.mapM_cons,
    ofText_name hword]
  cases (componentTexts text).mapM ofText with
  | error => rfl
  | ok components => exact congrArg Except.ok (hcollapse components)

theorem Component.ofPattern_behind {names : List String} {text : List Char}
    (hwords : ∀ name ∈ names, Glob.IsWord name.toList) :
    ofPattern (behind names text) = (ofPattern text).map (names.map ofName ++ ·) := by
  induction names with
  | nil =>
    rw [behind_nil]
    cases ofPattern text <;> rfl
  | cons name names ih =>
    obtain ⟨hword, hrest⟩ := List.forall_mem_cons.1 hwords
    rw [behind_cons, ofPattern_name_slash hword, ih hrest]
    cases ofPattern text <;> rfl

theorem isSome_parse_behind {names : List String} {text : List Char}
    (hwords : ∀ name ∈ names, Glob.IsWord name.toList) (position : Nat) :
    (Glob.parseFrom position true (behind names text)).toOption.isSome =
      (Glob.parseFrom 0 true text).toOption.isSome := by
  induction names generalizing position with
  | nil => rw [behind_nil, Glob.toOption_parseFrom 0 position]
  | cons name names ih =>
    obtain ⟨hword, hrest⟩ := List.forall_mem_cons.1 hwords
    rw [behind_cons, Glob.parseFrom_word hword, Glob.toOption_map, Option.isSome_map,
      Glob.parseFrom_char (by decide) (by decide) (by decide), Glob.toOption_map, Option.isSome_map]
    exact ih hrest _

theorem expand_cons {c : Component} (hc : c.isRecursive = false) (cs : List Component) :
    expand fs (c :: cs) path = (expand.expandOne fs c path).flatMap (expand fs cs) := by
  cases cs with
  | nil =>
    have hsingle : expand fs [] = fun p => [p] := funext fun p => by rw [expand]
    rw [expand, hc, hsingle, List.flatMap_singleton']
    rfl
  | cons next rest =>
    rw [expand, hc]
    rfl

theorem expand_names {names : List String} (hground : IsGround path)
    (hnames : ∀ name ∈ names, Path.IsName name) (hleads : fs.Leads (pathAt path names) place e)
    (cs : List Component) :
    expand fs (names.map Component.ofName ++ cs) path = expand fs cs (pathAt path names) := by
  induction names generalizing path with
  | nil => rfl
  | cons name names ih =>
    obtain ⟨hname, hrest⟩ := List.forall_mem_cons.1 hnames
    have hne := pathBelow_ne_empty hground hname
    have hcontains : fs.contains (pathBelow path name) := by
      have hpath := pathAt_of_ne hne (components_pathBelow_ne hground hname) hrest
      rw [pathAt_cons, hpath] at hleads
      obtain ⟨outer, e', hleads, -⟩ := FileSystem.Leads.of_joinAll hne hrest hleads
      exact hleads.contains
    have hone : expand.expandOne fs (Component.ofName name) path = [pathBelow path name] := by
      rw [expand.expandOne, Component.literal?_ofName]
      simp [hname.ne_dot, hname.ne_dots, hcontains]
    rw [List.map_cons, List.cons_append, expand_cons (Component.isRecursive_ofName name), hone,
      List.flatMap_singleton, ih (hground.pathBelow hname) hrest hleads, pathAt_cons]

/-- The root is the current directory or the top one, or a path that leads from there by names
which stand for themselves in a pattern. -/
def IsPlainRoot (base : String) : Prop :=
  ∃ names, (∀ name ∈ names, Path.IsName name ∧ Glob.IsWord name.toList) ∧
    (base = pathAt "." names ∨ base = pathAt "/" names)

theorem isGround_dot : IsGround "." := ⟨by decide, .inl rfl⟩

theorem isGround_slash : IsGround "/" := ⟨by decide, .inr (by decide)⟩

theorem IsPlainRoot.isGround {base : String} (h : IsPlainRoot base) : IsGround base := by
  obtain ⟨names, hnames, rfl | rfl⟩ := h
  · exact isGround_dot.pathAt fun name hname => (hnames name hname).1
  · exact isGround_slash.pathAt fun name hname => (hnames name hname).1

theorem toList_join_of_isPlainRoot {base entry : String} (hbase : IsPlainRoot base)
    (hentry : Path.IsRelative entry) :
    ∃ names, (∀ name ∈ names, Glob.IsWord name.toList) ∧
      ((base = "." ∧ names = ["."] ∨ base = pathAt "." names ∧ names ≠ [] ∧
          ∀ name ∈ names, Path.IsName name) ∧
        (Path.join base entry).toList = behind names entry.toList ∨
      (base = pathAt "/" names ∧ ∀ name ∈ names, Path.IsName name) ∧
        (Path.join base entry).toList = '/' :: behind names entry.toList) := by
  obtain ⟨names, hnames, hpath⟩ := hbase
  have hvalid : ∀ name ∈ names, Path.IsName name := fun name hname => (hnames name hname).1
  have hwords : ∀ name ∈ names, Glob.IsWord name.toList := fun name hname => (hnames name hname).2
  have hends : ∀ {name : String}, Path.IsName name → ∀ before : List Char,
      (before ++ name.toList).getLast? ≠ some '/' := by
    intro name hname before h
    have hempty : name.toList ≠ [] := fun hnil => hname.ne_empty (String.toList_eq_nil_iff.1 hnil)
    rw [List.getLast?_append_of_ne_nil _ hempty] at h
    exact hname.no_slash (List.mem_of_getLast? h)
  cases names with
  | nil =>
    -- The dot of the current directory is a component of its own, the top directory is none.
    rcases hpath with rfl | rfl
    · refine ⟨["."], by decide, .inl ⟨.inl ⟨rfl, rfl⟩, ?_⟩⟩
      rw [pathAt_nil, Path.join_of_not_slash (by decide) hentry (by decide)]
      simp
    · refine ⟨[], by simp, .inr ⟨⟨rfl, by simp⟩, ?_⟩⟩
      rw [pathAt_nil, Path.join_of_slash hentry (by decide)]
      simp
  | cons name names =>
    obtain ⟨hname, hrest⟩ := List.forall_mem_cons.1 hvalid
    refine ⟨name :: names, hwords, ?_⟩
    rcases hpath with rfl | rfl
    · refine .inl ⟨.inr ⟨rfl, by simp, hvalid⟩, ?_⟩
      rw [pathAt_dot (by simp) hvalid, Path.joinAll_cons, Path.empty_join,
        toList_join_joinAll hname.ne_empty (hends hname []) hrest hentry, behind_cons]
    · refine .inr ⟨⟨rfl, hvalid⟩, ?_⟩
      have hjoin : Path.join "/" name = "/" ++ name :=
        Path.join_of_slash hname.isRelative (by decide)
      have hlast : ("/" ++ name).toList.getLast? ≠ some '/' := by
        rw [String.toList_append]
        exact hends hname _
      rw [pathAt_of_ne (by decide) (by decide) hvalid, Path.joinAll_cons, hjoin,
        toList_join_joinAll (by simp) hlast hrest hentry, behind_cons]
      simp

theorem expandPattern_of_relative {pattern : String} {paths : List String}
    (h : pattern.toList.head? ≠ some '/') :
    expandPattern fs pattern = .ok paths ↔ (Glob.parse pattern).toOption.isSome ∧
      ∃ cs, Component.ofPattern pattern.toList = .ok cs ∧ paths = expand fs cs "." := by
  unfold expandPattern
  split
  · rename_i inner hinner
    simp [hinner] at h
  · cases Glob.parse pattern with
    | error => simp [bind, Except.bind, Except.toOption]
    | ok =>
      cases Component.ofPattern pattern.toList <;>
        simp [bind, Except.bind, pure, Except.pure, Except.toOption, eq_comm]

theorem expandPattern_of_absolute {pattern : String} {inner : List Char} {paths : List String}
    (h : pattern.toList = '/' :: inner) :
    expandPattern fs pattern = .ok paths ↔ (Glob.parse pattern).toOption.isSome ∧
      ∃ cs, Component.ofPattern inner = .ok cs ∧ paths = expand fs cs "/" := by
  unfold expandPattern
  rw [h]
  cases Glob.parse pattern with
  | error => simp [bind, Except.bind, Except.toOption]
  | ok =>
    cases hcs : Component.ofPattern inner <;>
      simp [hcs, bind, Except.bind, pure, Except.pure, Except.toOption, eq_comm]

theorem expandPattern_eq_ok {base entry : String} {paths : List String} (hbase : IsPlainRoot base)
    (hleads : fs.Leads base place e) (hdirectory : e.isDirectory) (hentry : Path.IsRelative entry) :
    expandPattern fs (Path.join base entry) = .ok paths ↔
      (Glob.parse entry).toOption.isSome ∧
        ∃ cs, Component.ofPattern entry.toList = .ok cs ∧ paths = expand fs cs base := by
  have hbehind : ∀ {start : String} {names : List String},
      (∀ cs, expand fs (names.map Component.ofName ++ cs) start = expand fs cs base) →
        ((∃ cs, (Component.ofPattern entry.toList).map (names.map Component.ofName ++ ·) = .ok cs ∧
            paths = expand fs cs start) ↔
          ∃ cs, Component.ofPattern entry.toList = .ok cs ∧ paths = expand fs cs base) := by
    intro start names hexpand
    cases Component.ofPattern entry.toList <;> simp [Except.map, hexpand]
  obtain ⟨names, hwords, ⟨hnames, htext⟩ | ⟨⟨rfl, hnames⟩, htext⟩⟩ :=
    toList_join_of_isPlainRoot hbase hentry
  · have hrelative : Path.IsRelative base := by
      rcases hnames with ⟨rfl, -⟩ | ⟨rfl, hne, hnames⟩
      · rfl
      · rw [pathAt_dot hne hnames]
        exact Path.IsRelative.empty.joinAll hnames
    have hhead : (Path.join base entry).toList.head? ≠ some '/' :=
      of_decide_eq_false (hrelative.join hentry)
    have hexpand : ∀ cs, expand fs (names.map Component.ofName ++ cs) "." = expand fs cs base := by
      intro cs
      rcases hnames with ⟨rfl, rfl⟩ | ⟨rfl, -, hnames⟩
      · have hthere : fs.isDirectory "." := by
          rw [FileSystem.isDirectory, hleads.entry]
          exact hdirectory
        have hdot : expand.expandOne fs (Component.ofName ".") "." = ["."] := by
          rw [expand.expandOne, Component.literal?_ofName]
          simp [hthere, pathBelow_dot]
        rw [List.map_singleton, List.singleton_append,
          expand_cons (Component.isRecursive_ofName "."), hdot, List.flatMap_singleton]
      · exact expand_names isGround_dot hnames hleads cs
    rw [expandPattern_of_relative hhead, Glob.parse, htext, isSome_parse_behind hwords,
      Component.ofPattern_behind hwords, hbehind hexpand, Glob.parse]
  · rw [expandPattern_of_absolute htext, Glob.parse, htext, Component.ofPattern_behind hwords,
      Glob.parseFrom_char (by decide) (by decide) (by decide), Glob.toOption_map, Option.isSome_map,
      decide_eq_true rfl, isSome_parse_behind hwords,
      hbehind (expand_names isGround_slash hnames hleads), Glob.parse]

end Project

end MessageCatalog

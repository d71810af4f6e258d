import Mathlib.Data.List.Basic
import Mathlib.Data.List.TakeWhile
import MessageCatalog.FileSystem
import MessageCatalog.Proofs.Words

/-! Where paths lead: a path joined to a directory leads where it leads from there, and names lead
to the entries that have them. -/

namespace MessageCatalog

namespace Path

def IsRelative (path : String) : Prop := isAbsolute path.toList = false

instance (path : String) : Decidable (IsRelative path) :=
  inferInstanceAs (Decidable (isAbsolute path.toList = false))

structure IsName (name : String) : Prop where
  ne_empty : name ≠ ""
  no_slash : '/' ∉ name.toList
  ne_dot : name ≠ "."
  ne_dots : name ≠ ".."

instance (name : String) : Decidable (IsName name) :=
  decidable_of_iff (name ≠ "" ∧ '/' ∉ name.toList ∧ name ≠ "." ∧ name ≠ "..")
    ⟨fun ⟨h₁, h₂, h₃, h₄⟩ => ⟨h₁, h₂, h₃, h₄⟩, fun ⟨h₁, h₂, h₃, h₄⟩ => ⟨h₁, h₂, h₃, h₄⟩⟩

theorem IsRelative.empty : IsRelative "" := rfl

theorem IsName.isRelative {name : String} (h : IsName name) : IsRelative name := by
  refine decide_eq_false fun hhead => ?_
  exact h.no_slash (List.mem_of_head? hhead)

theorem IsName.splitAt {name : String} (h : IsName name) :
    Text.splitAt '/' name.toList = [name.toList] :=
  Text.splitAt_of_not_mem h.no_slash

variable {base inner : String}

theorem join_of_slash (hinner : IsRelative inner) (hlast : base.toList.getLast? = some '/') :
    join base inner = base ++ inner := by
  have hbase : base ≠ "" := by
    rintro rfl
    cases hlast
  have hinner : isAbsolute inner.toList = false := hinner
  simp [join, hinner, hbase, hlast]

theorem join_of_not_slash (hbase : base ≠ "") (hinner : IsRelative inner)
    (hlast : base.toList.getLast? ≠ some '/') : join base inner = base ++ "/" ++ inner := by
  have hinner : isAbsolute inner.toList = false := hinner
  simp [join, hinner, hbase, hlast]

@[simp] theorem empty_join (inner : String) : join "" inner = inner := by simp [join]

theorem join_eq_append (hbase : base ≠ "") (hinner : IsRelative inner) :
    join base inner = join base "" ++ inner := by
  by_cases hlast : base.toList.getLast? = some '/'
  · rw [join_of_slash hinner hlast, join_of_slash .empty hlast, String.append_empty]
  · rw [join_of_not_slash hbase hinner hlast, join_of_not_slash hbase .empty hlast,
      String.append_empty]

theorem getLast_join_empty (hbase : base ≠ "") : (join base "").toList.getLast? = some '/' := by
  by_cases hlast : base.toList.getLast? = some '/'
  · rw [join_of_slash .empty hlast, String.append_empty, hlast]
  · rw [join_of_not_slash hbase .empty hlast]
    simp

theorem join_ne_empty (hbase : base ≠ "") (hinner : IsRelative inner) : join base inner ≠ "" := by
  intro h
  have hlast := getLast_join_empty hbase
  rw [join_eq_append hbase hinner, String.append_eq_empty_iff] at h
  rw [h.1] at hlast
  cases hlast

theorem exists_toList_join (hbase : base ≠ "") :
    ∃ before, (base.toList = before ∨ base.toList = before ++ ['/']) ∧
      ∀ inner, IsRelative inner → (join base inner).toList = before ++ '/' :: inner.toList := by
  by_cases hlast : base.toList.getLast? = some '/'
  · obtain ⟨before, hbefore⟩ := List.getLast?_eq_some_iff.1 hlast
    refine ⟨before, .inr hbefore, fun inner hinner => ?_⟩
    simp [join_of_slash hinner hlast, hbefore]
  · refine ⟨base.toList, .inl rfl, fun inner hinner => ?_⟩
    simp [join_of_not_slash hbase hinner hlast]

theorem isAbsolute_join (hbase : base ≠ "") (hinner : IsRelative inner) :
    isAbsolute (join base inner).toList = isAbsolute base.toList := by
  obtain ⟨before, hbefore, hjoin⟩ := exists_toList_join hbase
  rw [hjoin inner hinner]
  cases before with
  | cons c cs => rcases hbefore with h | h <;> simp [isAbsolute, h]
  | nil =>
    rcases hbefore with h | h
    · exact absurd (String.toList_eq_nil_iff.1 h) hbase
    · simp [isAbsolute, h]

theorem IsRelative.join {a b : String} (ha : IsRelative a) (hb : IsRelative b) :
    IsRelative (join a b) := by
  by_cases hempty : a = ""
  · rwa [hempty, empty_join]
  · exact (isAbsolute_join hempty hb).trans ha

theorem join_join {a b : String} (ha : IsRelative a) (hb : IsRelative b) :
    join (join base a) b = join base (join a b) := by
  by_cases hbase : base = ""
  · rw [hbase, empty_join, empty_join]
  by_cases hempty : a = ""
  · rw [hempty, empty_join, join_of_slash hb (getLast_join_empty hbase),
      ← join_eq_append hbase hb]
  have hlast : (Path.join base a).toList.getLast? = a.toList.getLast? := by
    rw [join_eq_append hbase ha, String.toList_append, List.getLast?_append]
    cases hlast : a.toList.getLast? with
    | none => exact absurd (String.toList_eq_nil_iff.1 (List.getLast?_eq_none_iff.1 hlast)) hempty
    | some c => rfl
  have hjoin : Path.join (Path.join base a) "" = Path.join base "" ++ Path.join a "" := by
    by_cases hslash : a.toList.getLast? = some '/'
    · rw [join_of_slash .empty (hlast.trans hslash), join_of_slash .empty hslash,
        join_eq_append hbase ha, String.append_assoc]
    · rw [join_of_not_slash (join_ne_empty hbase ha) .empty (hlast ▸ hslash),
        join_of_not_slash hempty .empty hslash, join_eq_append hbase ha]
      simp only [String.append_assoc]
  rw [join_eq_append (join_ne_empty hbase ha) hb, hjoin, join_eq_append hbase (ha.join hb),
    join_eq_append hempty hb, String.append_assoc]

def joinAll (base : String) (names : List String) : String := names.foldl join base

@[simp] theorem joinAll_nil (base : String) : joinAll base [] = base := rfl

@[simp] theorem joinAll_cons (base name : String) (names : List String) :
    joinAll base (name :: names) = joinAll (join base name) names := rfl

theorem joinAll_append (base : String) (xs ys : List String) :
    joinAll base (xs ++ ys) = joinAll (joinAll base xs) ys := List.foldl_append

theorem joinAll_ne_empty {names : List String} (hbase : base ≠ "")
    (hnames : ∀ name ∈ names, IsName name) : joinAll base names ≠ "" := by
  induction names generalizing base with
  | nil => exact hbase
  | cons name names ih =>
    obtain ⟨hname, hrest⟩ := List.forall_mem_cons.1 hnames
    exact ih (join_ne_empty hbase hname.isRelative) hrest

theorem IsRelative.joinAll {a : String} {names : List String} (ha : IsRelative a)
    (hnames : ∀ name ∈ names, IsName name) : IsRelative (joinAll a names) := by
  induction names generalizing a with
  | nil => exact ha
  | cons name names ih =>
    obtain ⟨hname, hrest⟩ := List.forall_mem_cons.1 hnames
    exact ih (ha.join hname.isRelative) hrest

theorem join_joinAll {a : String} {names : List String} (ha : IsRelative a)
    (hnames : ∀ name ∈ names, IsName name) :
    join base (joinAll a names) = joinAll (join base a) names := by
  induction names generalizing a with
  | nil => rfl
  | cons name names ih =>
    obtain ⟨hname, hrest⟩ := List.forall_mem_cons.1 hnames
    rw [joinAll_cons, ih (ha.join hname.isRelative) hrest, joinAll_cons,
      join_join ha hname.isRelative]

/-- A relative path that is spelled plainly: names with a slash between each and the next. -/
def IsPlain (path : String) : Prop :=
  ∃ names, names ≠ [] ∧ (∀ name ∈ names, IsName name) ∧ path = joinAll "" names

theorem join_joinAll_empty {names : List String} (hnames : ∀ name ∈ names, IsName name)
    (hne : names ≠ []) : join base (joinAll "" names) = joinAll base names := by
  obtain ⟨name, rest, rfl⟩ := List.exists_cons_of_ne_nil hne
  obtain ⟨hname, hrest⟩ := List.forall_mem_cons.1 hnames
  rw [joinAll_cons, empty_join, join_joinAll hname.isRelative hrest, joinAll_cons]

theorem IsPlain.exists_join {path : String} (h : IsPlain path) (base : String) :
    ∃ names, (∀ name ∈ names, IsName name) ∧ join base path = joinAll base names := by
  obtain ⟨names, hne, hnames, rfl⟩ := h
  exact ⟨names, hnames, join_joinAll_empty hnames hne⟩

end Path

namespace Path
variable {base inner : String}

def namesIn (pieces : List (List Char)) : List String :=
  (pieces.filter (isComponent false)).map String.ofList

def names (path : String) : List String := namesIn (Text.splitAt '/' path.toList)

theorem namesIn_append (xs ys : List (List Char)) :
    namesIn (xs ++ ys) = namesIn xs ++ namesIn ys := by
  rw [namesIn, List.filter_append, List.map_append, namesIn, namesIn]

theorem namesIn_cons (x : List Char) (xs : List (List Char)) :
    namesIn (x :: xs) = namesIn [x] ++ namesIn xs := namesIn_append [x] xs

@[simp] theorem names_empty : names "" = [] := rfl

theorem map_toList_names (path : String) :
    (names path).map String.toList = (Text.splitAt '/' path.toList).filter (isComponent false) := by
  simp [names, namesIn, Function.comp_def]

theorem IsName.isComponent {name : String} (h : IsName name) : isComponent false name.toList := by
  have hempty : name.toList ≠ [] := fun hnil => h.ne_empty (String.toList_eq_nil_iff.1 hnil)
  have hdot : name.toList ≠ ['.'] := fun hnil => h.ne_dot (String.toList_inj.1 hnil)
  simp [Path.isComponent, hempty, hdot]

@[simp] theorem IsName.names {name : String} (h : IsName name) : names name = [name] := by
  rw [Path.names, h.splitAt, namesIn, List.filter_singleton, h.isComponent]
  simp

theorem splitAt_join (hbase : base ≠ "") :
    ∃ pieces, (Text.splitAt '/' base.toList = pieces ∨
        Text.splitAt '/' base.toList = pieces ++ [[]]) ∧
      pieces ≠ [] ∧ ∀ inner, IsRelative inner →
        Text.splitAt '/' (join base inner).toList = pieces ++ Text.splitAt '/' inner.toList := by
  obtain ⟨before, hbefore, hjoin⟩ := exists_toList_join hbase
  refine ⟨Text.splitAt '/' before, ?_, Text.splitAt_ne_nil _ _, fun inner hinner => ?_⟩
  · rcases hbefore with h | h
    · exact .inl (by rw [h])
    · exact .inr (by rw [h, Text.splitAt_append]; rfl)
  · rw [hjoin inner hinner, Text.splitAt_append]

theorem names_join (hinner : IsRelative inner) :
    names (join base inner) = names base ++ names inner := by
  by_cases hbase : base = ""
  · rw [hbase, empty_join, names_empty, List.nil_append]
  obtain ⟨pieces, hpieces, -, hsplit⟩ := splitAt_join hbase
  have hempty : namesIn [[]] = [] := rfl
  rw [names, hsplit inner hinner, namesIn_append, names, names]
  rcases hpieces with h | h
  · rw [h]
  · rw [h, namesIn_append, hempty, List.append_nil]

theorem names_joinAll {xs : List String} (hxs : ∀ name ∈ xs, IsName name) :
    names (joinAll base xs) = names base ++ xs := by
  induction xs generalizing base with
  | nil => simp
  | cons x xs ih =>
    obtain ⟨hx, hrest⟩ := List.forall_mem_cons.1 hxs
    rw [joinAll_cons, ih hrest, names_join hx.isRelative, hx.names, List.append_assoc]
    rfl

theorem components_join (hbase : base ≠ "") (hinner : IsRelative inner) :
    components (join base inner).toList =
      components base.toList ++ (names inner).map String.toList := by
  obtain ⟨pieces, hpieces, hne, hsplit⟩ := splitAt_join hbase
  obtain ⟨first, rest, rfl⟩ := List.exists_cons_of_ne_nil hne
  have hempty : [[]].filter (isComponent false) = [] := rfl
  rw [components, hsplit inner hinner, components, isAbsolute_join hbase hinner, map_toList_names]
  rcases hpieces with hpieces | hpieces
  · rw [hpieces]
    simp only [List.cons_append, List.filter_append, List.append_assoc]
  · rw [hpieces]
    simp only [List.cons_append, List.filter_append, List.append_assoc, hempty, List.append_nil]

theorem isWithin_join {outer path : String} {xs : List String} (hbase : base ≠ "")
    (houter : IsRelative outer)
    (hpath : components path.toList = components base.toList ++ xs.map String.toList) :
    isWithin (join base outer).toList path.toList = (names outer).isPrefixOf xs := by
  have hinjective : Function.Injective String.toList := fun _ _ => String.toList_inj.1
  rw [isWithin, components_join hbase houter, hpath, Bool.eq_iff_iff, List.isPrefixOf_iff_prefix,
    List.isPrefixOf_iff_prefix, List.prefix_append_right_inj]
  exact List.prefix_map_iff_of_injective hinjective

theorem fileName?_join {base inner : String} (hbase : base ≠ "") (hinner : IsRelative inner)
    (hnames : names inner ≠ []) :
    fileName? (join base inner).toList = fileName? inner.toList := by
  obtain ⟨before, -, hjoin⟩ := exists_toList_join hbase
  have hlast : (pieces inner.toList).reverse.dropWhile (· = ['.']) ≠ [] := by
    rw [Ne, List.dropWhile_eq_nil_iff]
    intro hdots
    apply hnames
    rw [names, namesIn, List.map_eq_nil_iff, List.filter_eq_nil_iff]
    intro piece hpiece hcomponent
    rw [isComponent, Bool.false_or, Bool.and_eq_true, decide_eq_true_iff] at hcomponent
    have hmem : piece ∈ pieces inner.toList := List.mem_filter.2 ⟨hpiece, hcomponent.1⟩
    exact hcomponent.2 (by simpa using hdots piece (List.mem_reverse.2 hmem))
  have hpieces : pieces (join base inner).toList = pieces before ++ pieces inner.toList := by
    rw [pieces, hjoin inner hinner, Text.splitAt_append, List.filter_append]
    rfl
  have hempty : ((pieces inner.toList).reverse.dropWhile (· = ['.'])).isEmpty = false := by
    simpa using hlast
  rw [fileName?, fileName?, hpieces, List.reverse_append, List.dropWhile_append, hempty,
    if_neg Bool.false_ne_true]
  obtain ⟨last, rest, hcons⟩ := List.exists_cons_of_ne_nil hlast
  rw [hcons, List.cons_append]

end Path

namespace Table
variable {κ α : Type} [DecidableEq κ] {key : κ} {value : α} {entries : List (κ × α)}

theorem mem_of_get (h : get key entries = some value) : (key, value) ∈ entries := by
  induction entries with
  | nil => cases h
  | cons entry rest ih =>
    obtain ⟨k, v⟩ := entry
    rw [get] at h
    split_ifs at h with hk
    · cases h
      exact hk ▸ List.mem_cons_self
    · exact List.mem_cons_of_mem _ (ih h)

theorem get_of_mem (hnodup : (entries.map Prod.fst).Nodup) (h : (key, value) ∈ entries) :
    get key entries = some value := by
  induction entries with
  | nil => cases h
  | cons entry rest ih =>
    obtain ⟨k, v⟩ := entry
    rw [List.map_cons, List.nodup_cons] at hnodup
    rw [get]
    rcases List.mem_cons.1 h with heq | hmem
    · cases heq
      rw [if_pos rfl]
    · have hkey : key ∈ rest.map Prod.fst := List.mem_map.2 ⟨_, hmem, rfl⟩
      have hk : k ≠ key := ne_of_mem_of_not_mem hkey hnodup.1 |>.symm
      rw [if_neg hk, ih hnodup.2 hmem]

end Table

namespace Entry

inductive IsTree : Entry → Prop
  | file (bytes : ByteArray) : IsTree (.file bytes)
  | directory {entries : List (String × Entry)} :
    (∀ name e, (name, e) ∈ entries → Path.IsName name) →
    (∀ name e, (name, e) ∈ entries → IsTree e) →
    (entries.map Prod.fst).Nodup → IsTree (.directory entries)

theorem IsTree.of_entries {entries : List (String × Entry)}
    (hnames : ∀ name ∈ entries.map Prod.fst, Path.IsName name)
    (htrees : ∀ e ∈ entries.map Prod.snd, e.IsTree) (hnodup : (entries.map Prod.fst).Nodup) :
    (Entry.directory entries).IsTree :=
  .directory (fun name e hmem => hnames name (List.mem_map.2 ⟨(name, e), hmem, rfl⟩))
    (fun name e hmem => htrees e (List.mem_map.2 ⟨(name, e), hmem, rfl⟩)) hnodup

theorem at?_append (e : Entry) (xs ys : List String) :
    e.at? (xs ++ ys) = (e.at? xs).bind (·.at? ys) := by
  induction xs generalizing e with
  | nil => rfl
  | cons x xs ih =>
    rw [List.cons_append, at?, at?]
    cases e.child? x with
    | none => rfl
    | some child => exact ih child

@[simp] theorem at?_file_cons (bytes : ByteArray) (name : String) (names : List String) :
    (file bytes).at? (name :: names) = none := rfl

theorem at?_directory_cons {entries : List (String × Entry)} {name : String} {names : List String} :
    (directory entries).at? (name :: names) = (Table.get name entries).bind (·.at? names) := by
  rw [at?, child?, Entry.entries]
  cases Table.get name entries <;> rfl

theorem IsTree.isName_of_at? {e e' : Entry} (h : e.IsTree) {names : List String}
    (hat : e.at? names = some e') : ∀ name ∈ names, Path.IsName name := by
  induction h generalizing names with
  | file bytes =>
    cases names with
    | nil => simp
    | cons name names => simp at hat
  | @directory entries hnames htrees hnodup ih =>
    cases names with
    | nil => simp
    | cons name names =>
      rw [at?_directory_cons, Option.bind_eq_some_iff] at hat
      obtain ⟨child, hchild, hat⟩ := hat
      have hmem := Table.mem_of_get hchild
      exact List.forall_mem_cons.2 ⟨hnames name child hmem, ih name child hmem hat⟩

theorem IsTree.at? {e e' : Entry} (h : e.IsTree) {names : List String}
    (hat : e.at? names = some e') : e'.IsTree := by
  induction h generalizing names with
  | file bytes =>
    cases names with
    | nil =>
      cases hat
      exact .file bytes
    | cons name names => simp at hat
  | @directory entries hnames htrees hnodup ih =>
    cases names with
    | nil =>
      cases hat
      exact .directory hnames htrees hnodup
    | cons name names =>
      rw [at?_directory_cons, Option.bind_eq_some_iff] at hat
      obtain ⟨child, hchild, hat⟩ := hat
      exact ih name child (Table.mem_of_get hchild) hat

end Entry

namespace FileSystem
variable {fs : FileSystem} {base inner : String} {place : List String}

structure Leads (fs : FileSystem) (path : String) (place : List String) (e : Entry) : Prop where
  locate : fs.locate path = .ok place
  at? : fs.root.at? place = some e

theorem entry_eq_ok {e : Entry} : fs.entry base = .ok e ↔ ∃ place, fs.Leads base place e := by
  have hleads : (∃ place, fs.Leads base place e) ↔
      ∃ place, fs.locate base = .ok place ∧ fs.root.at? place = some e :=
    ⟨fun ⟨place, h⟩ => ⟨place, h.locate, h.at?⟩, fun ⟨place, h, hat⟩ => ⟨place, h, hat⟩⟩
  rw [hleads, entry]
  cases fs.locate base with
  | error => simp [bind, Except.bind]
  | ok place =>
    simp only [bind, Except.bind]
    cases hat : fs.root.at? place <;> simp [hat, pure, Except.pure]

theorem locate_ne_empty (h : fs.locate base = .ok place) : base ≠ "" := by
  rintro rfl
  cases h

theorem step_nil_bind (fs : FileSystem) (place : List String) (piece : List Char) :
    (fs.step place [] >>= fun p => fs.step p piece) = fs.step place piece := by
  unfold step
  cases h : fs.root.at? place with
  | none => rfl
  | some e =>
    cases e with
    | file => rfl
    | directory entries => simp [h, bind, Except.bind]

/-- A path joined to a directory leads where its pieces lead from there. -/
theorem locate_join (hbase : base ≠ "") (hinner : Path.IsRelative inner) :
    fs.locate (Path.join base inner) =
      fs.locate base >>= (Text.splitAt '/' inner.toList).foldlM fs.step := by
  obtain ⟨before, hbefore, hjoin⟩ := Path.exists_toList_join hbase
  have hstart : fs.start (Path.join base inner) = fs.start base := by
    rw [start, start, Path.isAbsolute_join hbase hinner]
  rw [locate, if_neg (Path.join_ne_empty hbase hinner), locate, if_neg hbase, hstart,
    hjoin inner hinner, Text.splitAt_append, List.foldlM_append]
  rcases hbefore with hbefore | hbefore
  · rw [hbefore]
  -- With a slash at its end the base has an empty last piece.
  · rw [hbefore, Text.splitAt_append, List.foldlM_append, bind_assoc]
    congr 1
    funext p
    obtain ⟨piece, pieces, hpieces⟩ :=
      List.exists_cons_of_ne_nil (Text.splitAt_ne_nil '/' inner.toList)
    have hlast : (Text.splitAt '/' []).foldlM fs.step p = fs.step p [] := bind_pure _
    rw [hpieces, hlast]
    simp only [List.foldlM_cons]
    rw [← step_nil_bind fs p piece, bind_assoc]

theorem step_name_eq_ok {name : String} (h : Path.IsName name) {place place' : List String} :
    fs.step place name.toList = .ok place' ↔
      (fs.root.at? (place ++ [name])).isSome ∧ place' = place ++ [name] := by
  have hempty : name.toList ≠ [] := fun hnil => h.ne_empty (String.toList_eq_nil_iff.1 hnil)
  have hdot : name.toList ≠ ['.'] := fun hnil => h.ne_dot (String.toList_inj.1 hnil)
  have hdots : name.toList ≠ ['.', '.'] := fun hnil => h.ne_dots (String.toList_inj.1 hnil)
  have hat : fs.root.at? (place ++ [name]) =
      (fs.root.at? place).bind fun e => e.child? name := by
    rw [Entry.at?_append]
    congr 1
    funext e
    rw [Entry.at?]
    cases e.child? name <;> rfl
  rw [step, hat]
  cases fs.root.at? place with
  | none => simp
  | some e =>
    cases e with
    | file => simp [Entry.child?, Entry.entries, Table.get]
    | directory entries =>
      simp only [hempty, hdot, hdots, decide_false, Bool.or_self, Bool.false_eq_true, if_false,
        String.ofList_toList, Option.bind_some, Entry.child?, Entry.entries]
      cases Table.get name entries <;> simp [eq_comm]

theorem locate_join_name {name : String} (hbase : base ≠ "") (hname : Path.IsName name) :
    fs.locate (Path.join base name) = .ok place ↔
      ∃ outer, fs.locate base = .ok outer ∧ (fs.root.at? (outer ++ [name])).isSome ∧
        place = outer ++ [name] := by
  rw [locate_join hbase hname.isRelative, hname.splitAt]
  cases fs.locate base with
  | error => simp [bind, Except.bind]
  | ok outer =>
    have hstep : [name.toList].foldlM fs.step outer = fs.step outer name.toList := bind_pure _
    show [name.toList].foldlM fs.step outer = .ok place ↔ _
    rw [hstep, step_name_eq_ok hname]
    simp

theorem locate_joinAll {names : List String} (hbase : base ≠ "")
    (hnames : ∀ name ∈ names, Path.IsName name)
    (hlocate : fs.locate (Path.joinAll base names) = .ok place) :
    ∃ outer, fs.locate base = .ok outer ∧ place = outer ++ names := by
  induction names generalizing base with
  | nil => exact ⟨place, hlocate, by simp⟩
  | cons name names ih =>
    obtain ⟨hname, hrest⟩ := List.forall_mem_cons.1 hnames
    obtain ⟨inner, hinner, rfl⟩ := ih (Path.join_ne_empty hbase hname.isRelative) hrest hlocate
    obtain ⟨outer, houter, -, rfl⟩ := (locate_join_name hbase hname).1 hinner
    exact ⟨outer, houter, by simp⟩

theorem exists_origin (fs : FileSystem) (base : String) :
    ∃ origin, ∀ names place, (∀ name ∈ names, Path.IsName name) →
      fs.locate (Path.joinAll base names) = .ok place → place = origin ++ names := by
  by_cases hbase : base = ""
  · refine ⟨fs.current, fun names place hnames hlocate => ?_⟩
    cases names with
    | nil => simp [hbase, locate] at hlocate
    | cons name names =>
      obtain ⟨hname, hrest⟩ := List.forall_mem_cons.1 hnames
      rw [Path.joinAll_cons, hbase, Path.empty_join] at hlocate
      obtain ⟨outer, houter, rfl⟩ := locate_joinAll hname.ne_empty hrest hlocate
      have hstart : fs.start name = fs.current := by
        have hrelative : Path.isAbsolute name.toList = false := hname.isRelative
        rw [start, hrelative, if_neg Bool.false_ne_true]
      rw [locate, if_neg hname.ne_empty, hname.splitAt, hstart] at houter
      have hstep : fs.step fs.current name.toList = .ok outer := by simpa using houter
      simp [((step_name_eq_ok hname).1 hstep).2]
  · cases houter : fs.locate base with
    | error =>
      refine ⟨[], fun names place hnames hlocate => ?_⟩
      obtain ⟨outer, hok, -⟩ := locate_joinAll hbase hnames hlocate
      simp [houter] at hok
    | ok outer =>
      refine ⟨outer, fun names place hnames hlocate => ?_⟩
      obtain ⟨outer', hok, rfl⟩ := locate_joinAll hbase hnames hlocate
      rw [houter] at hok
      cases hok
      rfl

theorem locate_joinAll_of_isSome {names : List String} (hbase : fs.locate base = .ok place)
    (hnames : ∀ name ∈ names, Path.IsName name) (hsome : (fs.root.at? (place ++ names)).isSome) :
    fs.locate (Path.joinAll base names) = .ok (place ++ names) := by
  induction names generalizing base place with
  | nil => simpa using hbase
  | cons name names ih =>
    obtain ⟨hname, hrest⟩ := List.forall_mem_cons.1 hnames
    have hsplit : place ++ name :: names = (place ++ [name]) ++ names := by simp
    rw [hsplit] at hsome ⊢
    have hnext : (fs.root.at? (place ++ [name])).isSome := by
      rw [Entry.at?_append] at hsome
      exact Option.isSome_of_isSome_bind hsome
    have hjoin := (locate_join_name (locate_ne_empty hbase) hname).2 ⟨place, hbase, hnext, rfl⟩
    exact ih hjoin hrest hsome

variable {path : String} {e e' : Entry}

theorem contains_iff : fs.contains path ↔ ∃ e, fs.entry path = .ok e := by
  rw [contains]
  cases fs.entry path <;> simp

theorem isFile_iff : fs.isFile path ↔ ∃ bytes, fs.entry path = .ok (.file bytes) := by
  rw [isFile]
  cases fs.entry path with
  | error => simp
  | ok e => cases e <;> simp [Entry.isDirectory]

theorem Leads.entry (h : fs.Leads path place e) : fs.entry path = .ok e :=
  entry_eq_ok.2 ⟨place, h⟩

theorem Leads.unique {place' : List String} (h : fs.Leads path place e)
    (h' : fs.Leads path place' e') : place = place' ∧ e = e' := by
  obtain rfl : place = place' := Except.ok.inj (h.locate.symm.trans h'.locate)
  exact ⟨rfl, Option.some.inj (h.at?.symm.trans h'.at?)⟩

theorem Leads.isDirectory (h : fs.Leads path place e) : fs.isDirectory path = e.isDirectory := by
  rw [FileSystem.isDirectory, h.entry]

theorem Leads.contains (h : fs.Leads path place e) : fs.contains path := by
  rw [FileSystem.contains, h.entry]

theorem Leads.joinAll {names : List String} (h : fs.Leads path place e)
    (hnames : ∀ name ∈ names, Path.IsName name) (hat : e.at? names = some e') :
    fs.Leads (Path.joinAll path names) (place ++ names) e' := by
  have hbelow : fs.root.at? (place ++ names) = some e' := by
    rw [Entry.at?_append, h.at?]
    exact hat
  exact ⟨locate_joinAll_of_isSome h.locate hnames (by rw [hbelow]; rfl), hbelow⟩

theorem Leads.of_joinAll {names : List String} (hpath : path ≠ "")
    (hnames : ∀ name ∈ names, Path.IsName name)
    (h : fs.Leads (Path.joinAll path names) place e) :
    ∃ outer e', fs.Leads path outer e' ∧ e'.at? names = some e := by
  obtain ⟨outer, houter, rfl⟩ := locate_joinAll hpath hnames h.locate
  have hat := h.at?
  rw [Entry.at?_append, Option.bind_eq_some_iff] at hat
  obtain ⟨e', he', hat⟩ := hat
  exact ⟨outer, e', ⟨houter, he'⟩, hat⟩

end FileSystem

end MessageCatalog

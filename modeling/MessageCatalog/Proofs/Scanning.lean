import MessageCatalog.Project.Load
import MessageCatalog.Proofs.Places
import MessageCatalog.Proofs.Sorting

/-! What a scan finds: below each place to start, the sources that the filter reaches. -/

namespace MessageCatalog

section
variable {α : Type} [DecidableEq α]

theorem eraseDups_induction {P : List α → Prop} (nil : P [])
    (cons : ∀ a as, P (as.filter fun b => !b == a) → P (a :: as)) (l : List α) : P l := by
  induction hn : l.length using Nat.strong_induction_on generalizing l with
  | _ n ih =>
    cases l with
    | nil => exact nil
    | cons a as =>
      have hlt : (as.filter fun b => !b == a).length < n :=
        hn ▸ Nat.lt_succ_of_le (List.length_filter_le _ as)
      exact cons a as (ih _ hlt _ rfl)

theorem nodup_eraseDups (l : List α) : l.eraseDups.Nodup := by
  induction l using eraseDups_induction with
  | nil => simp
  | cons a as ih =>
    rw [List.eraseDups_cons, List.nodup_cons]
    exact ⟨by simp, ih⟩

theorem eraseDups_sublist (l : List α) : List.Sublist l.eraseDups l := by
  induction l using eraseDups_induction with
  | nil => simp
  | cons a as ih =>
    rw [List.eraseDups_cons]
    exact (ih.trans List.filter_sublist).cons_cons a

end

namespace Project

variable {f : Filter} {fs : FileSystem} {base path start : String}

theorem mem_walkIn {entries : List (String × Entry)} :
    path ∈ walkIn f start entries ↔
      ∃ name e, (name, e) ∈ entries ∧ path ∈ walk f (Path.join start name) e := by
  induction entries with
  | nil => simp [walkIn]
  | cons entry rest ih =>
    obtain ⟨name, e⟩ := entry
    rw [walkIn, List.mem_append, ih]
    constructor
    · rintro (h | ⟨name', e', hmem, h⟩)
      · exact ⟨name, e, List.mem_cons_self, h⟩
      · exact ⟨name', e', List.mem_cons_of_mem _ hmem, h⟩
    · rintro ⟨name', e', hmem, h⟩
      rcases List.mem_cons.1 hmem with heq | hmem
      · cases heq
        exact .inl h
      · exact .inr ⟨name', e', hmem, h⟩

def Reaches (f : Filter) (start : String) (names : List String) : Prop :=
  ∀ n ≤ names.length, ¬ f.excludes (Path.joinAll start (names.take n))

theorem reaches_nil : Reaches f start [] ↔ ¬ f.excludes start := by simp [Reaches]

theorem reaches_cons {name : String} {names : List String} :
    Reaches f start (name :: names) ↔
      ¬ f.excludes start ∧ Reaches f (Path.join start name) names := by
  constructor
  · intro h
    exact ⟨by simpa using h 0 (by simp), fun n hn => by simpa using h (n + 1) (by simpa using hn)⟩
  · rintro ⟨hstart, h⟩ n hn
    cases n with
    | zero => simpa using hstart
    | succ n => simpa using h n (by simpa using hn)

/-- A walk finds the sources below a path, each by the names that lead to it, as far as the filter
lets it go. -/
theorem mem_walk {e : Entry} (h : e.IsTree) :
    path ∈ walk f start e ↔
      ∃ names bytes, e.at? names = some (.file bytes) ∧ path = Path.joinAll start names ∧
        isSource path ∧ Reaches f start names := by
  induction h generalizing start with
  | file bytes =>
    rw [walk]
    constructor
    · intro hpath
      split_ifs at hpath with hskip
      · cases hpath
      rw [Bool.or_eq_true, not_or] at hskip
      refine ⟨[], bytes, rfl, List.mem_singleton.1 hpath, ?_, reaches_nil.2 hskip.1⟩
      simpa [List.mem_singleton.1 hpath] using hskip.2
    · rintro ⟨names, bytes', hat, rfl, hsource, hreaches⟩
      cases names with
      | nil =>
        have hstart := reaches_nil.1 hreaches
        have hsource : isSource start := hsource
        simp [hstart, hsource]
      | cons name names => simp at hat
  | @directory entries hnames htrees hnodup ih =>
    rw [walk]
    constructor
    · intro hpath
      split_ifs at hpath with hstart
      · cases hpath
      obtain ⟨name, e, hmem, hpath⟩ := mem_walkIn.1 hpath
      obtain ⟨names, bytes, hat, rfl, hsource, hreaches⟩ := (ih name e hmem).1 hpath
      refine ⟨name :: names, bytes, ?_, rfl, hsource, reaches_cons.2 ⟨hstart, hreaches⟩⟩
      rw [Entry.at?_directory_cons, Table.get_of_mem hnodup hmem]
      exact hat
    · rintro ⟨names, bytes, hat, rfl, hsource, hreaches⟩
      cases names with
      | nil => cases hat
      | cons name names =>
        obtain ⟨hstart, hreaches⟩ := reaches_cons.1 hreaches
        rw [Entry.at?_directory_cons, Option.bind_eq_some_iff] at hat
        obtain ⟨e, he, hat⟩ := hat
        have hmem := Table.mem_of_get he
        rw [if_neg hstart]
        exact mem_walkIn.2
          ⟨name, e, hmem, (ih name e hmem).2 ⟨names, bytes, hat, rfl, hsource, hreaches⟩⟩

def found (fs : FileSystem) (base : String) (includes ignores : List String)
    (ignoreTestFiles : Bool) : List String :=
  (roots fs base includes).1.flatMap fun start =>
    match fs.entry start with
    | .ok e => walk (Filter.ofIgnores base ignores ignoreTestFiles) start e
    | .error _ => []

theorem mem_files_iff_mem_found {includes ignores : List String} {ignoreTestFiles : Bool} :
    path ∈ (scan fs base includes ignores ignoreTestFiles).files ↔
      path ∈ found fs base includes ignores ignoreTestFiles := by
  simp only [scan, List.mem_eraseDups, List.mem_mergeSort]
  rfl

theorem mem_files_scan {includes ignores : List String} {ignoreTestFiles : Bool} :
    path ∈ (scan fs base includes ignores ignoreTestFiles).files ↔
      ∃ start ∈ (roots fs base includes).1, ∃ e, fs.entry start = .ok e ∧
        path ∈ walk (Filter.ofIgnores base ignores ignoreTestFiles) start e := by
  rw [mem_files_iff_mem_found, found, List.mem_flatMap]
  refine exists_congr fun start => and_congr_right fun _ => ?_
  cases fs.entry start <;> simp

theorem sorted_files_scan (includes ignores : List String) (ignoreTestFiles : Bool) :
    (scan fs base includes ignores ignoreTestFiles).files.Pairwise fun a b =>
      Text.compareBytes a.toList b.toList = .lt := by
  have hsorted : ∀ l : List String, (l.mergeSort pathOrder).Pairwise fun a b => pathOrder a b :=
    List.pairwise_mergeSort (@isLE_trans String (byPath id) _) (@isLE_total String (byPath id) _)
  have hfiles : (scan fs base includes ignores ignoreTestFiles).files.Pairwise fun a b =>
      pathOrder a b := (hsorted _).sublist (eraseDups_sublist _)
  have hnodup : (scan fs base includes ignores ignoreTestFiles).files.Nodup := nodup_eraseDups _
  refine hfiles.imp₂ (fun a b hle hne => ?_) hnodup
  have hne : Text.compareBytes a.toList b.toList ≠ .eq := fun heq =>
    hne (String.toList_inj.1 (Text.eq_of_compareBytes heq))
  unfold pathOrder at hle
  cases hcmp : Text.compareBytes a.toList b.toList with
  | lt => rfl
  | eq => exact absurd hcmp hne
  | gt => simp [hcmp] at hle

end Project

end MessageCatalog

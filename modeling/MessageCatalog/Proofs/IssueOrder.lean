import MessageCatalog.Proofs.Contexts
import MessageCatalog.Proofs.DuplicateKeys
import MessageCatalog.Proofs.Sorting

/-! What the order of issues tells apart: where an issue stands, its rule and its wording, and with
them all of the issue but its severity, the text of its line and the earlier definition of a key.
Issues that it does not tell apart are sorted as they were raised. -/

namespace MessageCatalog

namespace Text

theorem positionFrom_line_le (offset line column byte : Nat) (start rest : List Char) :
    line ≤ (positionFrom offset line column byte start rest).line ∧
      ((positionFrom offset line column byte start rest).line = line →
        (positionFrom offset line column byte start rest).lineText = lineAt start) := by
  fun_induction positionFrom offset line column byte start rest with
  | case1 => exact ⟨Nat.le_refl _, fun _ => rfl⟩
  | case2 => exact ⟨Nat.le_refl _, fun _ => rfl⟩
  | case3 line column byte start c rest _ _ ih => exact ⟨by omega, fun h => by omega⟩
  | case4 line column byte start c rest _ _ ih => exact ih

theorem lineText_positionFrom {offset offset' line column byte : Nat} {start rest : List Char}
    (h : (positionFrom offset line column byte start rest).line =
      (positionFrom offset' line column byte start rest).line) :
    (positionFrom offset line column byte start rest).lineText =
      (positionFrom offset' line column byte start rest).lineText := by
  induction rest generalizing line column byte start with
  | nil => rfl
  | cons c rest ih =>
    by_cases hreached : offset ≤ byte
    · have hhere : positionFrom offset line column byte start (c :: rest) =
          ⟨line, column, lineAt start⟩ := by rw [positionFrom, if_pos hreached]
      rw [hhere] at h ⊢
      exact ((positionFrom_line_le offset' line column byte start (c :: rest)).2 h.symm).symm
    by_cases hreached' : offset' ≤ byte
    · have hhere : positionFrom offset' line column byte start (c :: rest) =
          ⟨line, column, lineAt start⟩ := by rw [positionFrom, if_pos hreached']
      rw [hhere] at h ⊢
      exact (positionFrom_line_le offset line column byte start (c :: rest)).2 h
    simp only [positionFrom, hreached, hreached', if_false] at h ⊢
    split_ifs at h ⊢
    · exact ih h
    · exact ih h

end Text

namespace Rule

def wording : Rule → String × String
  | .noDescription => ("Message ", " has no description")
  | .emptyText =>
    ("Message value of ", " is just an empty string. Empty messages are forbidden")
  | .malformed => ("Message parse tree malformed. ", "")
  | .noValue => ("Message ", " has no value")
  | .duplicateKey => ("Duplicate message variable name found for ", "")
  | .orphanedCall =>
    (Name.messageFunction, "() function could be used only with MSG_* property or variable")
  | .legacyValue => ("Message ", " not initialized using " ++ Name.messageFunction)
  | .badFallback =>
    ("Bad syntax. Expected syntax: ", Name.fallbackFunction ++ "(MSG_1, MSG_2)")
  | .fallbackArgument => ("Could not find message entry for fallback argument ", "")
  | .unreadable => ("", "")

def severityUnder (style : Style) : Rule → Severity
  | .noDescription => style.checkLevel
  | .orphanedCall => style.checkLevel
  | .legacyValue => style.checkLevel
  | .emptyText => .warning
  | _ => .error

theorem rank_injective : Function.Injective rank := by
  intro r s h
  cases r <;> cases s <;> first | rfl | cases h

end Rule

namespace Issue

variable {a b : Issue}

def subject : Issue → String
  | .noDescription _ key _ => key
  | .emptyText _ key => key
  | .malformed _ reason => reason
  | .noValue _ key => key
  | .duplicateKey _ key _ => key
  | .orphanedCall .. => ""
  | .legacyValue _ key _ => key
  | .badFallback _ => ""
  | .fallbackArgument _ reference => reference
  | .unreadable _ reason => reason

def sourceLine? (i : Issue) : Option String := i.context?.bind (·.sourceLine)

theorem sourceLine?_of_unreadable (h : a.rule = .unreadable) : a.sourceLine? = none := by
  cases a with
  | unreadable => rfl
  | _ => cases h

def previous? : Issue → Option Location
  | .duplicateKey _ _ previous => some previous
  | _ => none

def ofFields (rule : Rule) (location : Location) (subject : String) (severity : Severity)
    (sourceLine : Option String) (previous : Option Location) : Issue :=
  let context : Context := ⟨location, sourceLine⟩
  match rule with
  | .noDescription => .noDescription context subject severity
  | .emptyText => .emptyText context subject
  | .malformed => .malformed context subject
  | .noValue => .noValue context subject
  | .duplicateKey => .duplicateKey context subject (previous.getD ⟨"", 0, 0⟩)
  | .orphanedCall => .orphanedCall context severity
  | .legacyValue => .legacyValue context subject severity
  | .badFallback => .badFallback context
  | .fallbackArgument => .fallbackArgument context subject
  | .unreadable => .unreadable location.file subject

theorem ofFields_eq (i : Issue) :
    ofFields i.rule i.location i.subject i.severity i.sourceLine? i.previous? = i := by
  cases i <;> rfl

theorem message_eq (i : Issue) :
    i.message = i.rule.wording.1 ++ i.subject ++ i.rule.wording.2 := by
  cases i with
  | noDescription | emptyText | noValue | orphanedCall => rfl
  | malformed | duplicateKey | fallbackArgument => exact String.append_empty.symm
  | legacyValue context key severity => exact String.append_assoc
  | badFallback context => exact String.append_assoc
  | unreadable file reason =>
    rw [rule, Rule.wording, String.empty_append, String.append_empty]
    rfl

theorem subject_eq_of_message (hrule : a.rule = b.rule) (h : a.message = b.message) :
    a.subject = b.subject := by
  rw [message_eq, message_eq, hrule, String.append_assoc, String.append_assoc,
    String.append_right_inj, String.append_left_inj] at h
  exact h

theorem previous?_of_ne (h : a.rule ≠ .duplicateKey) : a.previous? = none := by
  cases a <;> first | rfl | exact absurd rfl h

theorem isDuplicateOf_subject (h : a.rule = .duplicateKey) : a.isDuplicateOf a.subject := by
  cases a <;> first | exact decide_eq_true rfl | cases h

def sortKey (i : Issue) : Location × Rule × String := (i.location, i.rule, i.message)

theorem order_eq_iff : a.order b = .eq ↔ a.sortKey = b.sortKey := by
  constructor
  · intro h
    simp only [order, Ordering.then_eq_eq] at h
    obtain ⟨hfile, hline, hcolumn, hrank, hmessage⟩ := h
    have hlocation : a.location = b.location := by
      have hfile := String.toList_inj.1 (Text.eq_of_compareBytes hfile)
      have hline : a.location.line = b.location.line := Std.LawfulEqCmp.eq_of_compare hline
      have hcolumn : a.location.column = b.location.column := Std.LawfulEqCmp.eq_of_compare hcolumn
      cases ha : a.location
      cases hb : b.location
      simp_all
    have hrule : a.rule = b.rule := Rule.rank_injective (Std.LawfulEqCmp.eq_of_compare hrank)
    have hmessage := String.toList_inj.1 (Text.eq_of_compareBytes hmessage)
    rw [sortKey, sortKey, hlocation, hrule, hmessage]
  · intro h
    obtain ⟨hlocation, hrule, hmessage⟩ : a.location = b.location ∧ a.rule = b.rule ∧
        a.message = b.message := by simpa [sortKey] using h
    have hself : a.order b = b.order b := by rw [order, hlocation, hrule, hmessage, order]
    rw [hself]
    exact Std.ReflCmp.compare_self

/-- Issues that tie differ in their severity, in the text of their line or in the earlier definition
that they show, or not at all. -/
theorem eq_iff_order_eq : a = b ↔ a.order b = .eq ∧ a.severity = b.severity ∧
    a.sourceLine? = b.sourceLine? ∧ a.previous? = b.previous? := by
  constructor
  · rintro rfl
    exact ⟨order_eq_iff.2 rfl, rfl, rfl, rfl⟩
  · rintro ⟨htie, hseverity, hline, hprevious⟩
    obtain ⟨hlocation, hrule, hmessage⟩ : a.location = b.location ∧ a.rule = b.rule ∧
        a.message = b.message := by simpa [sortKey] using order_eq_iff.1 htie
    rw [← ofFields_eq a, ← ofFields_eq b, hlocation, hrule, hseverity, hline, hprevious,
      subject_eq_of_message hrule hmessage]

def tied (a : Issue) (issues : List Issue) : List Issue := issues.filter (a.order · = .eq)

theorem tied_reverse (a : Issue) (issues : List Issue) :
    tied a issues.reverse = (tied a issues).reverse := by
  rw [tied, List.filter_reverse, tied]

theorem sorted_tied (a : Issue) (issues : List Issue) : sorted (tied a issues) = tied a issues := by
  refine List.mergeSort_of_pairwise (List.pairwise_of_forall_mem_list fun b hb c hc => ?_)
  have hab : a.order b = .eq := by simpa using (List.mem_filter.1 hb).2
  have hac : a.order c = .eq := by simpa using (List.mem_filter.1 hc).2
  rw [← Std.TransCmp.congr_left hab, hac]
  rfl

theorem eq_of_tied_eq {l l' : List Issue} (hl : l.Pairwise fun a b => (a.order b).isLE)
    (hl' : l'.Pairwise fun a b => (a.order b).isLE) (h : ∀ a, tied a l = tied a l') : l = l' := by
  have hself : ∀ a : Issue, a.order a = .eq := fun a => order_eq_iff.2 rfl
  have hmem : ∀ {a : Issue} {l l' : List Issue}, (∀ a, tied a l = tied a l') → a ∈ l → a ∈ l' := by
    intro a l l' h ha
    have htied : a ∈ tied a l := List.mem_filter.2 ⟨ha, by simp [hself]⟩
    rw [h a] at htied
    exact List.mem_of_mem_filter htied
  induction l generalizing l' with
  | nil =>
    refine (List.eq_nil_iff_forall_not_mem.2 fun a ha => ?_).symm
    exact List.not_mem_nil (hmem (fun a => (h a).symm) ha)
  | cons a l ih =>
    cases l' with
    | nil => exact absurd (hmem h List.mem_cons_self) List.not_mem_nil
    | cons b l' =>
      obtain ⟨hfirst, hrest⟩ := List.pairwise_cons.1 hl
      obtain ⟨hfirst', hrest'⟩ := List.pairwise_cons.1 hl'
      -- Each of the two heads stands behind the other or is the other, so that they tie.
      have hab : (a.order b).isLE := by
        rcases List.mem_cons.1 (hmem (fun a => (h a).symm) List.mem_cons_self) with hb | hb
        · rw [hb, hself]
          rfl
        · exact hfirst b hb
      have hba : (b.order a).isLE := by
        rcases List.mem_cons.1 (hmem h List.mem_cons_self) with ha | ha
        · rw [ha, hself]
          rfl
        · exact hfirst' a ha
      have htie : a.order b = .eq := Std.OrientedCmp.isLE_antisymm hab hba
      obtain ⟨rfl, -⟩ : a = b ∧ tied a l = tied a l' := by
        simpa [tied, hself, htie] using h a
      have hsame : l = l' := ih hrest hrest' fun c => by
        have hc := h c
        unfold tied at hc ⊢
        rw [List.filter_cons, List.filter_cons] at hc
        split_ifs at hc
        · exact (List.cons.inj hc).2
        · exact hc
      rw [hsame]

theorem sorted_eq_iff {l l' : List Issue} :
    sorted l = sorted l' ↔ ∀ a, tied a l = tied a l' := by
  constructor
  · intro h a
    have htied := congrArg (tied a) h
    unfold tied at htied
    rw [filter_sorted, filter_sorted] at htied
    rwa [← sorted_tied a l, ← sorted_tied a l']
  · intro h
    refine eq_of_tied_eq (pairwise_sorted l) (pairwise_sorted l') fun a => ?_
    have hsorted : ∀ l : List Issue, tied a (sorted l) = sorted (tied a l) :=
      filter_sorted (a.order · = .eq)
    rw [hsorted, hsorted, h a]

theorem sorted_eq_of_perm {l l' : List Issue} (h : l.Perm l')
    (hties : ∀ a ∈ l, ∀ b ∈ l, a.order b = .eq → a = b) : sorted l = sorted l' := by
  have hl : (sorted l).Perm l := List.mergeSort_perm _ _
  have hl' : (sorted l').Perm l := (List.mergeSort_perm _ _).trans h.symm
  refine List.Perm.eq_of_pairwise ?_ (pairwise_sorted l) (pairwise_sorted l') (hl.trans hl'.symm)
  intro a b ha hb hab hba
  exact hties a (hl.mem_iff.1 ha) b (hl'.mem_iff.1 hb) (Std.OrientedCmp.isLE_antisymm hab hba)

theorem map_sortKey_sorted {l l' : List Issue} (h : l.Perm l') :
    (sorted l).map sortKey = (sorted l').map sortKey := by
  have hperm : (sorted l).Perm (sorted l') :=
    (List.mergeSort_perm _ _).trans (h.trans (List.mergeSort_perm _ _).symm)
  have hsorted : ∀ l : List Issue, ((sorted l).map sortKey).Pairwise fun k k' =>
      ∃ a b : Issue, a.sortKey = k ∧ b.sortKey = k' ∧ (a.order b).isLE := fun l =>
    List.pairwise_map.2 ((pairwise_sorted l).imp fun hle => ⟨_, _, rfl, rfl, hle⟩)
  refine List.Perm.eq_of_pairwise ?_ (hsorted l) (hsorted l') (hperm.map sortKey)
  rintro k k' - - ⟨a, b, rfl, rfl, hab⟩ ⟨b', a', hb, ha, hba⟩
  rw [Std.TransCmp.congr_left (order_eq_iff.2 hb), Std.TransCmp.congr_right (order_eq_iff.2 ha)]
    at hba
  exact order_eq_iff.1 (Std.OrientedCmp.isLE_antisymm hab hba)

end Issue

namespace Definition
open Script (Node Span)

variable {settings : Settings} {c : Compilation} {i : Issue}

def IsGraded (style : Style) (i : Issue) : Prop := i.severity = i.rule.severityUnder style

theorem isGraded_of_mem_run (h : i ∈ Event.issues (run settings c)) :
    IsGraded settings.style i := by
  obtain ⟨file, source, -, hreports⟩ := reports_of_mem_run h
  cases hreports with
  | step raises => cases raises <;> rfl
  | orphan span => rfl

theorem sourceLine?_eq_of_location (hmap : ∀ file line column,
      settings.lineMap.locate? file line column = none)
    (hpaths : (c.sources.map Source.path).Nodup) {a b : Issue}
    (ha : a ∈ Event.issues (run settings c)) (hb : b ∈ Event.issues (run settings c))
    (h : a.location = b.location) : a.sourceLine? = b.sourceLine? := by
  obtain ⟨file, source, hsource, span, hspan⟩ := shows_of_mem_run ha
  obtain ⟨file', source', hsource', span', hspan'⟩ := shows_of_mem_run hb
  rw [location_of_context? hspan, location_of_context? hspan'] at h
  simp only [Surroundings.contextAt, hmap, Location.mk.injEq] at h hspan hspan'
  obtain ⟨hpath, hline, -⟩ := h
  obtain rfl := List.inj_on_of_nodup_map hpaths hsource hsource' hpath
  rw [Issue.sourceLine?, hspan, Issue.sourceLine?, hspan', Option.bind_some, Option.bind_some,
    Text.position, Text.lineText_positionFrom hline, Text.position]

/-- Where a repetition of the key at this site is reported. -/
def Forwarded.place (f : Forwarded) : Location := (f.env.contextAt f.value.span).location

/-- No two definitions of one key are reported in one place. -/
def DefinesApart (settings : Settings) (c : Compilation) : Prop :=
  (forwarded settings c).Pairwise fun f g => f.key = g.key → f.place ≠ g.place

instance : Decidable (DefinesApart settings c) := inferInstanceAs (Decidable (List.Pairwise _ _))

theorem DefinesApart.nodup_places (hapart : DefinesApart settings c) (key : String) :
    ((definitionsOf settings c key).map Forwarded.place).Nodup := by
  refine List.pairwise_map.2 (List.Pairwise.imp_of_mem ?_ (List.Pairwise.filter _ hapart))
  intro f g hf hg hne
  have hkey : f.key = key := by simpa using (List.mem_filter.1 hf).2
  have hkey' : g.key = key := by simpa using (List.mem_filter.1 hg).2
  exact hne (hkey.trans hkey'.symm)

theorem exists_repetition_of_mem_run {key : String} (hi : i ∈ Event.issues (run settings c))
    (hkey : i.isDuplicateOf key) :
    ∃ n earlier f, (definitionsOf settings c key)[n]? = some earlier ∧
      (definitionsOf settings c key)[n + 1]? = some f ∧ i = f.duplicate earlier.location := by
  have hmem := List.mem_filter.2 ⟨hi, hkey⟩
  rw [filter_duplicates_run] at hmem
  split_ifs at hmem
  · obtain ⟨n, hlink⟩ := List.mem_iff_getElem?.1 hmem
    obtain ⟨earlier, f, hearlier, hf, hduplicate⟩ := List.getElem?_zipWith_eq_some.1 hlink
    rw [List.getElem?_tail] at hf
    exact ⟨n, earlier, f, hearlier, hf, hduplicate.symm⟩
  · cases hmem

theorem previous?_eq_of_location (hapart : DefinesApart settings c) {a b : Issue}
    (ha : a ∈ Event.issues (run settings c)) (hb : b ∈ Event.issues (run settings c))
    (hrule : a.rule = b.rule) (hsubject : a.subject = b.subject) (h : a.location = b.location) :
    a.previous? = b.previous? := by
  by_cases hduplicate : a.rule = .duplicateKey
  · have hkey := Issue.isDuplicateOf_subject hduplicate
    have hkey' := hsubject ▸ Issue.isDuplicateOf_subject (hrule.symm.trans hduplicate)
    obtain ⟨n, earlier, f, hearlier, hf, rfl⟩ := exists_repetition_of_mem_run ha hkey
    obtain ⟨m, earlier', g, hearlier', hg, rfl⟩ := exists_repetition_of_mem_run hb hkey'
    have hplace : f.place = g.place := h
    have hbound : n + 1 < ((definitionsOf settings c f.key).map Forwarded.place).length := by
      rw [List.length_map]
      exact (List.getElem?_eq_some_iff.1 hf).1
    have hsame : n + 1 = m + 1 := by
      refine (List.getElem?_inj hbound (hapart.nodup_places f.key)).1 ?_
      rw [List.getElem?_map, List.getElem?_map]
      exact (congrArg (Option.map Forwarded.place) hf).trans
        ((congrArg some hplace).trans (congrArg (Option.map Forwarded.place) hg).symm)
    obtain rfl : n = m := Nat.succ.inj hsame
    have hthere : earlier = earlier' := Option.some.inj (hearlier.symm.trans hearlier')
    exact congrArg (fun d => some d.location) hthere
  · rw [Issue.previous?_of_ne hduplicate, Issue.previous?_of_ne (hrule ▸ hduplicate)]

def raisedIn (c : Compilation) (events : List Event) : List Issue :=
  c.unreadable.map (·.issue) ++ Event.issues events

theorem mem_issues_of_mem_raisedIn {events : List Event} (h : i ∈ raisedIn c events)
    (hrule : i.rule ≠ .unreadable) : i ∈ Event.issues events := by
  rcases List.mem_append.1 h with h | h
  · obtain ⟨u, -, rfl⟩ := List.mem_map.1 h
    exact absurd rfl hrule
  · exact h

theorem isGraded_of_mem_raisedIn (h : i ∈ raisedIn c (run settings c)) :
    IsGraded settings.style i := by
  rcases List.mem_append.1 h with h | h
  · obtain ⟨u, -, rfl⟩ := List.mem_map.1 h
    rfl
  · exact isGraded_of_mem_run h

theorem sourceLine?_eq_of_order_eq (hmap : ∀ file line column,
      settings.lineMap.locate? file line column = none)
    (hpaths : (c.sources.map Source.path).Nodup) {a b : Issue}
    (ha : a ∈ raisedIn c (run settings c)) (hb : b ∈ raisedIn c (run settings c))
    (hlocation : a.location = b.location) (hrule : a.rule = b.rule) :
    a.sourceLine? = b.sourceLine? := by
  by_cases hfile : a.rule = .unreadable
  · rw [Issue.sourceLine?_of_unreadable hfile,
      Issue.sourceLine?_of_unreadable (hrule.symm.trans hfile)]
  · exact sourceLine?_eq_of_location hmap hpaths (mem_issues_of_mem_raisedIn ha hfile)
      (mem_issues_of_mem_raisedIn hb (hrule ▸ hfile)) hlocation

theorem eq_of_order_eq (hmap : ∀ file line column,
      settings.lineMap.locate? file line column = none)
    (hpaths : (c.sources.map Source.path).Nodup) (hapart : DefinesApart settings c) {a b : Issue}
    (ha : a ∈ raisedIn c (run settings c)) (hb : b ∈ raisedIn c (run settings c))
    (htie : a.order b = .eq) : a = b := by
  obtain ⟨hlocation, hrule, hmessage⟩ : a.location = b.location ∧ a.rule = b.rule ∧
      a.message = b.message := by simpa [Issue.sortKey] using Issue.order_eq_iff.1 htie
  have hseverity : a.severity = b.severity := by
    rw [isGraded_of_mem_raisedIn ha, isGraded_of_mem_raisedIn hb, hrule]
  have hprevious : a.previous? = b.previous? := by
    by_cases hfile : a.rule = .unreadable
    · rw [Issue.previous?_of_ne (by simp [hfile]), Issue.previous?_of_ne (by simp [← hrule, hfile])]
    · exact previous?_eq_of_location hapart (mem_issues_of_mem_raisedIn ha hfile)
        (mem_issues_of_mem_raisedIn hb (hrule ▸ hfile)) hrule
        (Issue.subject_eq_of_message hrule hmessage) hlocation
  exact Issue.eq_iff_order_eq.2
    ⟨htie, hseverity, sourceLine?_eq_of_order_eq hmap hpaths ha hb hlocation hrule, hprevious⟩

/-- The order of issues is total and transitive, and it is reversed if they are taken the other way
round. Issues tie just if they are reported in one place by one rule with one wording, and then they
are the same but for their severity, the text of their line and the earlier definition of their key.
In whatever order the issues of a run are raised, the same ones are reported, but for the order
among ties. In a run these have one severity, and without a source map, if no two sources have one
path, the text of one line; if moreover no key is defined twice in one place, only equal issues tie,
and the report does not depend on the order in which they are raised. -/
theorem issueOrder_lawful :
    (∀ a b : Issue, b.order a = (a.order b).swap) ∧
    (∀ a b : Issue, (a.order b).isLE ∨ (b.order a).isLE) ∧
    (∀ a b c : Issue, (a.order b).isLE → (b.order c).isLE → (a.order c).isLE) ∧
    (∀ a b : Issue, a.order b = .eq ↔ a.sortKey = b.sortKey) ∧
    (∀ a b : Issue, a = b ↔ a.order b = .eq ∧ a.severity = b.severity ∧
      a.sourceLine? = b.sourceLine? ∧ a.previous? = b.previous?) ∧
    ∀ (settings : Settings) (c : Compilation) (raised : List Issue),
      raised.Perm (raisedIn c (run settings c)) →
        (Issue.sorted raised).map Issue.sortKey =
          (reported c (run settings c)).map Issue.sortKey ∧
        (Issue.sorted raised = reported c (run settings c) ↔
          ∀ a, Issue.tied a raised = Issue.tied a (raisedIn c (run settings c))) ∧
        (∀ a ∈ raised, ∀ b ∈ raised, a.order b = .eq → a.severity = b.severity ∧
          ((∀ file line column, settings.lineMap.locate? file line column = none) →
            (c.sources.map Source.path).Nodup → a.sourceLine? = b.sourceLine?)) ∧
        ((∀ file line column, settings.lineMap.locate? file line column = none) →
          (c.sources.map Source.path).Nodup → DefinesApart settings c →
            (∀ a ∈ raised, ∀ b ∈ raised, a.order b = .eq → a = b) ∧
            Issue.sorted raised = reported c (run settings c)) := by
  refine ⟨fun a b => Std.OrientedCmp.eq_swap, fun a b => by simpa using isLE_total a b, isLE_trans,
    fun _ _ => Issue.order_eq_iff, fun _ _ => Issue.eq_iff_order_eq, ?_⟩
  intro settings c raised hperm
  refine ⟨Issue.map_sortKey_sorted hperm, Issue.sorted_eq_iff, fun a ha b hb htie => ?_,
    fun hmap hpaths hapart => ?_⟩
  · have ha := hperm.mem_iff.1 ha
    have hb := hperm.mem_iff.1 hb
    obtain ⟨hlocation, hrule, -⟩ : a.location = b.location ∧ a.rule = b.rule ∧
        a.message = b.message := by simpa [Issue.sortKey] using Issue.order_eq_iff.1 htie
    refine ⟨?_, fun hmap hpaths => sourceLine?_eq_of_order_eq hmap hpaths ha hb hlocation hrule⟩
    rw [isGraded_of_mem_raisedIn ha, isGraded_of_mem_raisedIn hb, hrule]
  · have hties : ∀ a ∈ raised, ∀ b ∈ raised, a.order b = .eq → a = b := fun a ha b hb =>
      eq_of_order_eq hmap hpaths hapart (hperm.mem_iff.1 ha) (hperm.mem_iff.1 hb)
    exact ⟨hties, Issue.sorted_eq_of_perm hperm hties⟩

section Ties

def thrice : Compilation :=
  Compilation.ofFiles [] [("a.js",
    "var MSG_A = goog.getMsg('a');\nvar MSG_A = goog.getMsg('b');\nvar MSG_A = goog.getMsg('c');")]

theorem issueOrder_lawful_thrice :
    let raised := (raisedIn thrice (run {} thrice)).reverse
    raised.length = 5 ∧
      (Issue.sorted raised).map Issue.sortKey =
        (reported thrice (run {} thrice)).map Issue.sortKey ∧
      (∀ a ∈ raised, ∀ b ∈ raised, a.order b = .eq → a.sourceLine? = b.sourceLine?) ∧
      Issue.sorted raised = reported thrice (run {} thrice) := by
  intro raised
  obtain ⟨-, -, -, -, -, hruns⟩ := issueOrder_lawful
  obtain ⟨hkeys, -, hties, hsorted⟩ := hruns {} thrice raised (List.reverse_perm _)
  obtain ⟨hlength, hpaths⟩ : raised.length = 5 ∧ thrice.sources.map Source.path = ["a.js"] := by
    decide +kernel
  have hnodup : (thrice.sources.map Source.path).Nodup := by
    rw [hpaths]
    exact List.nodup_singleton _
  have hapart : DefinesApart {} thrice := by decide +kernel
  exact ⟨hlength, hkeys,
    fun a ha b hb htie => (hties a ha b hb htie).2 (fun _ _ _ => rfl) hnodup,
    (hsorted (fun _ _ _ => rfl) hnodup hapart).2⟩

def oneLine : Settings :=
  { lineMap := (({} : LineMap).insert "a.js" 2 ⟨"b.js", 11⟩).insert "a.js" 3 ⟨"b.js", 11⟩ }

def repetition (line : Nat) : Issue :=
  .duplicateKey ⟨⟨"b.js", 11, 13⟩, none⟩ "MSG_A" ⟨"a.js", line, 13⟩

theorem tied_thrice : Issue.tied (repetition 1) (raisedIn thrice (run oneLine thrice)) =
    [repetition 1, repetition 2] := by
  decide +kernel

/-- Two repetitions of a key that are reported in one place tie, and are reported as they were
raised. -/
theorem not_issueOrder_lawful :
    (¬ ∀ a b : Issue, a.order b = .eq ↔ a = b) ∧
    ¬ ∀ (settings : Settings) (c : Compilation) (raised : List Issue),
      raised.Perm (raisedIn c (run settings c)) →
        Issue.sorted raised = reported c (run settings c) := by
  constructor
  · intro h
    have hsame : repetition 1 = repetition 2 := (h _ _).1 (by decide +kernel)
    exact absurd hsame (by decide)
  · intro h
    have hsorted := h oneLine thrice (raisedIn thrice (run oneLine thrice)).reverse
      (List.reverse_perm _)
    have hreversed : Issue.tied (repetition 1) (raisedIn thrice (run oneLine thrice)).reverse =
        Issue.tied (repetition 1) (raisedIn thrice (run oneLine thrice)) :=
      Issue.sorted_eq_iff.1 hsorted (repetition 1)
    rw [Issue.tied_reverse, tied_thrice] at hreversed
    exact absurd hreversed (by decide)

end Ties

end Definition

end MessageCatalog

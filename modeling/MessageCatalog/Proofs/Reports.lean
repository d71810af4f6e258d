import MessageCatalog.Proofs.IssueOrder
import MessageCatalog.Report

/-! What a report shows. Its lines are the blocks of the issues, sorted, and a summary that counts
them. The gutter is as wide as the largest line number, so that all lines with a mark have it in the
same column. -/

namespace MessageCatalog.Report

variable {gutter n : Nat} {issues : List Issue} {i : Issue}

theorem length_spaces (n : Nat) : (spaces n).length = n := by
  rw [spaces, String.length_ofList, List.length_replicate]

theorem length_toString_le {m n : Nat} (h : m ≤ n) : (toString m).length ≤ (toString n).length := by
  rw [Nat.toString_eq_ofList_toDigits, Nat.toString_eq_ofList_toDigits, String.length_ofList,
    String.length_ofList, Nat.length_toDigits_le_iff (by decide) Nat.length_toDigits_pos]
  exact h.trans_lt ((Nat.length_toDigits_le_iff (by decide) Nat.length_toDigits_pos).1 (Nat.le_refl _))

theorem le_foldl_line (n : Nat) (issues : List Issue) :
    n ≤ issues.foldl (fun n i => max n i.location.line) n ∧
      ∀ i ∈ issues, i.location.line ≤ issues.foldl (fun n i => max n i.location.line) n := by
  induction issues generalizing n with
  | nil => exact ⟨Nat.le_refl n, by simp⟩
  | cons i issues ih =>
    obtain ⟨hstart, hall⟩ := ih (max n i.location.line)
    exact ⟨(Nat.le_max_left ..).trans hstart,
      List.forall_mem_cons.2 ⟨(Nat.le_max_right ..).trans hstart, hall⟩⟩

theorem length_line_le_gutterWidth (hi : i ∈ issues) :
    (toString i.location.line).length ≤ gutterWidth issues :=
  length_toString_le ((le_foldl_line 0 issues).2 i hi)

def MarkedAt (mark : Char) (column : Nat) (line : String) : Prop :=
  ∃ lead rest, line.toList = lead ++ mark :: rest ∧ lead.length = column ∧
    ∀ c ∈ lead, c = ' ' ∨ c.isDigit = true

theorem MarkedAt.append {mark : Char} {column : Nat} {line : String} (h : MarkedAt mark column line)
    (more : String) : MarkedAt mark column (line ++ more) := by
  obtain ⟨lead, rest, hline, hlength, hlead⟩ := h
  exact ⟨lead, rest ++ more.toList, by simp [hline], hlength, hlead⟩

theorem markedAt_lead (lead tail : String) {mark : Char} {rest : List Char}
    (hlead : ∀ c ∈ lead.toList, c = ' ' ∨ c.isDigit = true)
    (htail : tail.toList = ' ' :: mark :: rest) :
    MarkedAt mark (lead.length + 1) (lead ++ tail) := by
  refine ⟨lead.toList ++ [' '], rest, by simp [htail], ?_, fun c hc => ?_⟩
  · rw [List.length_append, String.length_toList, List.length_singleton]
  · rcases List.mem_append.1 hc with hc | hc
    · exact hlead c hc
    · exact .inl (List.mem_singleton.1 hc)

theorem blank_of_mem_spaces {c : Char} (h : c ∈ (spaces n).toList) : c = ' ' := by
  rw [spaces, String.toList_ofList] at h
  exact List.eq_of_mem_replicate h

theorem markedAt_spaces (gutter : Nat) (tail : String) {mark : Char} {rest : List Char}
    (htail : tail.toList = ' ' :: mark :: rest) :
    MarkedAt mark (gutter + 1) (spaces gutter ++ tail) := by
  have := markedAt_lead (spaces gutter) tail (fun c hc => .inl (blank_of_mem_spaces hc)) htail
  rwa [length_spaces] at this

theorem length_alignRight (h : (toString n).length ≤ gutter) :
    (alignRight gutter n).length = gutter := by
  rw [alignRight, String.length_append, length_spaces]
  exact Nat.sub_add_cancel h

theorem blank_or_digit_of_mem_alignRight {c : Char} (h : c ∈ (alignRight gutter n).toList) :
    c = ' ' ∨ c.isDigit = true := by
  rw [alignRight, String.toList_append] at h
  rcases List.mem_append.1 h with hblank | hdigit
  · exact .inl (blank_of_mem_spaces hblank)
  · rw [Nat.toString_eq_ofList_toDigits, String.toList_ofList] at hdigit
    exact .inr (Nat.isDigit_of_mem_toDigits (by decide) (by decide) hdigit)

theorem markedAt_snippet (h : (toString i.location.line).length ≤ gutter) :
    ∀ line ∈ snippet gutter i, MarkedAt '|' (gutter + 1) line := by
  intro line hline
  unfold snippet at hline
  split at hline
  · cases hline
  · next sourceLine hsource =>
    simp only [List.mem_cons, List.not_mem_nil, or_false] at hline
    rcases hline with rfl | rfl | rfl
    · exact markedAt_spaces gutter " |" rfl
    · have hnumber := markedAt_lead (alignRight gutter i.location.line) " | "
        (fun c hc => blank_or_digit_of_mem_alignRight hc) rfl
      rw [length_alignRight h] at hnumber
      exact hnumber.append sourceLine
    · exact ((markedAt_spaces gutter " | " rfl).append _).append "^"

theorem markedAt_remark (gutter : Nat) (label : String) (text? : Option String) :
    ∀ line ∈ remark gutter label text?, MarkedAt '=' (gutter + 1) line := by
  intro line hline
  cases text? with
  | none => cases hline
  | some text =>
    rw [List.mem_singleton.1 hline]
    exact (((markedAt_spaces gutter " = " rfl).append label).append " ").append text

theorem heading_eq (i : Issue) :
    heading i = i.severity.text ++ ": " ++ i.message ++ "  " ++ i.rule.text := rfl

structure Aligned (gutter : Nat) (i : Issue) : Prop where
  marked : ∃ remarks,
    block gutter i = [i.severity.text ++ ": " ++ i.message ++ "  " ++ i.rule.text, place i] ++
        snippet gutter i ++ remarks ++ [""] ∧
      (∀ line ∈ snippet gutter i, MarkedAt '|' (gutter + 1) line) ∧
      ∀ line ∈ remarks, MarkedAt '=' (gutter + 1) line
  numbered : ∀ sourceLine, i.sourceLine? = some sourceLine →
    ∃ lead, lead.length + (toString i.location.line).length = gutter ∧
      lead ++ toString i.location.line ++ " | " ++ sourceLine ∈ snippet gutter i

theorem aligned (h : (toString i.location.line).length ≤ gutter) : Aligned gutter i where
  marked := by
    refine ⟨remark gutter "note:" i.note? ++ remark gutter "hint:" i.hint?, ?_,
      markedAt_snippet h, fun line hline => ?_⟩
    · simp only [block, heading_eq, List.append_assoc]
    · rcases List.mem_append.1 hline with hnote | hhint
      · exact markedAt_remark gutter _ _ line hnote
      · exact markedAt_remark gutter _ _ line hhint
  numbered := by
    intro sourceLine hsource
    refine ⟨spaces (gutter - (toString i.location.line).length), ?_, ?_⟩
    · rw [length_spaces]
      exact Nat.sub_add_cancel h
    · rw [snippet, show (i.context?.bind (·.sourceLine)) = some sourceLine from hsource]
      exact List.mem_cons_of_mem _ (List.mem_cons_self ..)

def labelled (label : String) (block : List String) : Bool :=
  block.head?.any fun line => (label ++ ": ").toList.isPrefixOf line.toList

theorem labelled_block (gutter : Nat) (i : Issue) (severity : Severity) :
    labelled severity.text (block gutter i) = decide (i.severity = severity) := by
  have hheading : (heading i).toList =
      i.severity.text.toList ++ ": ".toList ++ (i.message ++ ("  " ++ i.rule.text)).toList := by
    simp only [heading_eq, String.toList_append, List.append_assoc]
  rw [labelled, show (block gutter i).head? = some (heading i) from rfl, Option.any_some, hheading]
  cases i.severity <;> cases severity <;> rfl

/-- The last line of a report: three numbers in decimal digits, the second and the third with the
word for one or for several. -/
def tally (problems errors warnings : Nat) : String :=
  "\u2718" ++ " " ++ Nat.repr problems ++ " problems (" ++
    Nat.repr errors ++ (if errors = 1 then " error" else " errors") ++ ", " ++
    Nat.repr warnings ++ (if warnings = 1 then " warning" else " warnings") ++ ")"

def labelCount (label : String) (gutter : Nat) (shown : List Issue) : Nat :=
  (shown.map (block gutter)).countP (labelled label)

theorem labelCount_eq (severity : Severity) (gutter : Nat) (shown : List Issue) :
    labelCount severity.text gutter shown = shown.countP (·.severity = severity) := by
  rw [labelCount, List.countP_map]
  exact List.countP_congr fun i _ => by rw [Function.comp_apply, labelled_block]

theorem labelCount_add (gutter : Nat) (shown : List Issue) :
    labelCount "error" gutter shown + labelCount "warning" gutter shown = shown.length := by
  rw [List.length_eq_countP_add_countP (·.severity = Severity.error)]
  refine congr (congrArg _ (labelCount_eq .error gutter shown)) ?_
  refine (labelCount_eq .warning gutter shown).trans (List.countP_congr fun i _ => ?_)
  cases i.severity <;> simp

theorem plural_eq (count : Nat) (one many : String) :
    plural count one many =
      Nat.repr count ++ (if count = 1 then " " ++ one else " " ++ many) := by
  unfold plural
  split_ifs <;> exact String.append_assoc

theorem summary_eq (gutter : Nat) (shown : List Issue) :
    summary shown = tally shown.length (labelCount "error" gutter shown)
      (labelCount "warning" gutter shown) := by
  have herrors : labelCount "error" gutter shown = (shown.filter (·.isError)).length := by
    rw [← List.countP_eq_length_filter]
    exact labelCount_eq .error gutter shown
  have hwarnings : labelCount "warning" gutter shown =
      shown.length - (shown.filter (·.isError)).length := by
    rw [← labelCount_add gutter shown, herrors, Nat.add_sub_cancel_left]
  have htext : ∀ s : String, toString s = s := fun _ => rfl
  rw [herrors, hwarnings, tally, summary, plural_eq, plural_eq]
  simp only [failureMark, htext, String.append_assoc]
  rfl

theorem labelCount_pos_iff (gutter : Nat) (shown : List Issue) :
    0 < labelCount "error" gutter shown ↔ ExitStatus.ofIssues shown = .failure := by
  rw [show labelCount "error" gutter shown = _ from labelCount_eq .error gutter shown,
    List.countP_pos_iff, ExitStatus.ofIssues]
  simp [Issue.isError]

/-- The lines of a report that is not empty are the blocks of its issues, sorted and aligned, and
a summary with the numbers of the blocks labelled as errors and as warnings. -/
theorem text_aligned_tallied (hissues : issues ≠ []) :
    ∃ (shown : List Issue) (gutter errors warnings : Nat),
      shown.Perm issues ∧ shown.Pairwise (fun a b => (a.order b).isLE) ∧
      text issues = String.join ((shown.flatMap (block gutter) ++
        [tally issues.length errors warnings]).map (· ++ "\n")) ∧
      (∀ i ∈ shown, Aligned gutter i) ∧
      errors = labelCount "error" gutter shown ∧ warnings = labelCount "warning" gutter shown ∧
      errors + warnings = issues.length ∧
      (0 < errors ↔ ExitStatus.ofIssues issues = .failure) := by
  have hperm : (Issue.sorted issues).Perm issues := List.mergeSort_perm ..
  refine ⟨Issue.sorted issues, gutterWidth (Issue.sorted issues), _, _, hperm,
    Issue.pairwise_sorted issues, ?_, fun i hi => aligned (length_line_le_gutterWidth hi),
    rfl, rfl, ?_, ?_⟩
  · rw [text, lines, if_neg (by simpa using hissues), ← hperm.length_eq, ← summary_eq]
  · rw [labelCount_add, hperm.length_eq]
  · rw [labelCount_pos_iff, ExitStatus.ofIssues, ExitStatus.ofIssues, hperm.any_eq]

def redefinedAndEmpty : List Issue :=
  [.duplicateKey ⟨⟨"a.js", 12, 5⟩, some "var MSG_A = 'a';"⟩ "MSG_A" ⟨"a.js", 3, 5⟩,
    .emptyText ⟨⟨"a.js", 7, 5⟩, some "var MSG_B = '';"⟩ "MSG_B"]

theorem text_aligned_tallied_redefinedAndEmpty : redefinedAndEmpty ≠ [] ∧
    ∃ (shown : List Issue) (gutter : Nat), shown.Perm redefinedAndEmpty ∧
      (∀ i ∈ redefinedAndEmpty, Aligned gutter i) ∧
      text redefinedAndEmpty = String.join ((shown.flatMap (block gutter) ++
        ["\u2718 2 problems (1 error, 1 warning)"]).map (· ++ "\n")) := by
  have hissues : redefinedAndEmpty ≠ [] := by decide
  obtain ⟨shown, gutter, errors, warnings, hperm, -, htext, haligned, herrors, -, hsum, -⟩ :=
    text_aligned_tallied hissues
  have hone : errors = 1 :=
    herrors.trans ((labelCount_eq .error gutter shown).trans (hperm.countP_eq _))
  obtain rfl : warnings = 1 := Nat.add_left_cancel (hone ▸ hsum)
  have htally : tally 2 1 1 = "\u2718 2 problems (1 error, 1 warning)" := by decide
  refine ⟨hissues, shown, gutter, hperm, fun i hi => haligned i (hperm.mem_iff.2 hi), ?_⟩
  rw [htext, hone, ← htally]
  rfl

end MessageCatalog.Report

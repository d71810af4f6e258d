import MessageCatalog.Message.Name
import MessageCatalog.Proofs.PartCodec
import Mathlib.Data.List.TakeWhile

/-! The forms of names: those that scope rewriting has made unique, with the cut that gives back what
the source has, and those of placeholders. -/

namespace MessageCatalog

theorem Text.isSome_dropLead?_iff {α : Type} [DecidableEq α] {part cs : List α} :
    (dropLead? part cs).isSome = true ↔ part <+: cs := by
  rw [Option.isSome_iff_exists]
  constructor
  · rintro ⟨rest, h⟩
    exact ⟨rest, (eq_append_of_dropLead? h).symm⟩
  · rintro ⟨rest, rfl⟩
    exact ⟨rest, dropLead?_append part rest⟩

namespace Name
open Text

theorem startsWith_iff {mark cs : List Char} : startsWith mark cs = true ↔ mark <+: cs :=
  isSome_dropLead?_iff

structure Marked (cs run rest : List Char) : Prop where
  eq : cs = run ++ '$' :: (messageMark ++ rest)
  run_ne : run ≠ []
  not_blank : ∀ c ∈ run, ¬ isBlank c

/-- The parts of a name made unique: `run` is what scope rewriting has put in. -/
def ScopedBy (name run rest : List Char) : Prop :=
  ∃ cs, name = scopeMark ++ cs ∧ Marked cs run rest

variable {cs run run' rest rest' name : List Char} {c : Char}

theorem marked_cons : Marked (c :: cs) run rest ↔
    ¬ isBlank c ∧ (run = [c] ∧ cs = '$' :: (messageMark ++ rest) ∨
      ∃ run', run = c :: run' ∧ Marked cs run' rest) := by
  constructor
  · rintro ⟨heq, hne, hblank⟩
    match run, hne with
    | [d], _ =>
      obtain ⟨rfl, hcs⟩ := List.cons.inj heq
      exact ⟨hblank c List.mem_cons_self, .inl ⟨rfl, hcs⟩⟩
    | d :: e :: run, _ =>
      obtain ⟨rfl, hcs⟩ := List.cons.inj heq
      exact ⟨hblank c List.mem_cons_self, .inr ⟨e :: run, rfl, hcs, List.cons_ne_nil e run,
        fun d hd => hblank d (List.mem_cons_of_mem c hd)⟩⟩
  · rintro ⟨hc, ⟨rfl, rfl⟩ | ⟨run, rfl, rfl, hne, hblank⟩⟩
    · exact ⟨rfl, List.cons_ne_nil c [], by simpa using hc⟩
    · exact ⟨rfl, List.cons_ne_nil c run, List.forall_mem_cons.2 ⟨hc, hblank⟩⟩

theorem not_marked_of_afterLastMark? (h : afterLastMark? cs = none) : ¬ Marked cs run rest := by
  induction cs generalizing run with
  | nil =>
    rintro ⟨heq, -, -⟩
    simp at heq
  | cons c cs ih =>
    rw [marked_cons]
    rintro ⟨hc, hmarked⟩
    rw [afterLastMark?, if_neg hc] at h
    cases hrest : afterLastMark? cs with
    | some rest' => simp [hrest] at h
    | none =>
      rcases hmarked with ⟨-, rfl⟩ | ⟨run, -, hmarked⟩
      · have hlead : dropLead? ('$' :: messageMark) ('$' :: messageMark ++ rest) = some rest :=
          dropLead?_append _ _
        rw [hrest] at h
        exact absurd (hlead.symm.trans h) (Option.some_ne_none rest)
      · exact ih hrest hmarked

theorem exists_longest_of_afterLastMark? (h : afterLastMark? cs = some rest) :
    ∃ run, Marked cs run rest ∧ ∀ run' rest', Marked cs run' rest' → run'.length ≤ run.length := by
  induction cs with
  | nil => cases h
  | cons c cs ih =>
    rw [afterLastMark?] at h
    split_ifs at h with hc
    cases hrest : afterLastMark? cs with
    | some rest' =>
      rw [hrest] at h
      obtain ⟨run, hrun, hlongest⟩ := ih (hrest.trans h)
      refine ⟨c :: run, marked_cons.2 ⟨hc, .inr ⟨run, rfl, hrun⟩⟩, fun run' rest' hmarked => ?_⟩
      obtain ⟨-, ⟨rfl, -⟩ | ⟨run', rfl, htail⟩⟩ := marked_cons.1 hmarked
      · exact Nat.succ_le_succ (Nat.zero_le _)
      · exact Nat.succ_le_succ (hlongest run' rest' htail)
    | none =>
      rw [hrest] at h
      have hcs := eq_append_of_dropLead? h
      refine ⟨[c], marked_cons.2 ⟨hc, .inl ⟨rfl, hcs⟩⟩, fun run' rest' hmarked => ?_⟩
      obtain ⟨-, ⟨rfl, -⟩ | ⟨run', -, hmarked⟩⟩ := marked_cons.1 hmarked
      · exact Nat.le_refl _
      · exact absurd hmarked (not_marked_of_afterLastMark? hrest)

theorem scopedRest?_eq (h : name = scopeMark ++ cs) : scopedRest? name = afterLastMark? cs := by
  rw [scopedRest?, h, dropLead?_append]

theorem scopedBy_iff (h : name = scopeMark ++ cs) : ScopedBy name run rest ↔ Marked cs run rest := by
  subst h
  constructor
  · rintro ⟨cs', heq, hmarked⟩
    rwa [List.append_cancel_left heq]
  · exact fun hmarked => ⟨cs, rfl, hmarked⟩

theorem not_scopedBy_of_scopedRest? (h : scopedRest? name = none) : ¬ ScopedBy name run rest := by
  rintro ⟨cs, hname, hmarked⟩
  rw [scopedRest?_eq hname] at h
  exact not_marked_of_afterLastMark? h hmarked

theorem exists_longest_of_scopedRest? (h : scopedRest? name = some rest) :
    ∃ run, ScopedBy name run rest ∧
      ∀ run' rest', ScopedBy name run' rest' → run'.length ≤ run.length := by
  cases hlead : dropLead? scopeMark name with
  | none => simp [scopedRest?, hlead] at h
  | some cs =>
    have hname := eq_append_of_dropLead? hlead
    rw [scopedRest?_eq hname] at h
    simp only [scopedBy_iff hname]
    exact exists_longest_of_afterLastMark? h

theorem ScopedBy.suffix (h : ScopedBy name run rest) : '$' :: (messageMark ++ rest) <:+ name := by
  obtain ⟨cs, rfl, rfl, -⟩ := h
  exact (List.suffix_append _ _).trans (List.suffix_append _ _)

theorem unscoped_cases (name : List Char) :
    isScoped name = false ∧ unscoped name = name ∧ (∀ run rest, ¬ ScopedBy name run rest) ∨
    ∃ run rest, isScoped name = true ∧ unscoped name = messageMark ++ rest ∧
      ScopedBy name run rest ∧
      ∀ run' rest', ScopedBy name run' rest' → run'.length ≤ run.length := by
  unfold isScoped unscoped
  cases hrest : scopedRest? name with
  | none => exact .inl ⟨rfl, rfl, fun run rest => not_scopedBy_of_scopedRest? hrest⟩
  | some rest =>
    obtain ⟨run, hrun, hlongest⟩ := exists_longest_of_scopedRest? hrest
    exact .inr ⟨run, rest, rfl, rfl, hrun, hlongest⟩

theorem unscoped_suffix (name : List Char) : unscoped name <:+ name := by
  rcases unscoped_cases name with ⟨-, hsame, -⟩ | ⟨run, rest, -, hcut, hscoped, -⟩
  · rw [hsame]
  · rw [hcut]
    exact (List.suffix_cons _ _).trans hscoped.suffix

theorem messageMark_prefix_unscoped (h : (startsWith messageMark name || isScoped name) = true) :
    messageMark <+: unscoped name := by
  rcases unscoped_cases name with ⟨hnot, hsame, -⟩ | ⟨run, rest, -, hcut, -, -⟩
  · rw [hnot, Bool.or_false] at h
    rw [hsame]
    exact startsWith_iff.1 h
  · rw [hcut]
    exact List.prefix_append _ _

theorem unscoped_messageMark (rest : List Char) :
    unscoped (messageMark ++ rest) = messageMark ++ rest := rfl

theorem endsWith_iff {mark cs : List Char} : endsWith mark cs = true ↔ mark <:+ cs :=
  startsWith_iff.trans List.reverse_prefix

theorem helpMark_suffix_unscoped : helpMark <:+ unscoped name ↔ helpMark <:+ name := by
  rcases unscoped_cases name with ⟨-, hsame, -⟩ | ⟨run, rest, -, hcut, hscoped, -⟩
  · rw [hsame]
  refine ⟨fun h => h.trans (unscoped_suffix name), fun h => ?_⟩
  rw [hcut]
  cases rest with
  | nil =>
    -- All that is left is the mark, and before it the name has a dollar.
    have hdollar := hscoped.suffix
    have hsame := List.suffix_of_suffix_length_le h hdollar (by decide)
    exact absurd hsame (by decide)
  | cons c rest =>
    refine List.suffix_of_suffix_length_le h ((List.suffix_cons _ _).trans hscoped.suffix) ?_
    simp [helpMark, messageMark]

/-- A name made unique by scope rewriting is cut behind the longest run that can be what rewriting
has put in, and every other name is left as it is. The cut takes nothing from the ending of a name,
and a second one changes nothing. -/
theorem unscoped_cut (name : List Char) :
    (isScoped name = true ↔ ∃ run rest, ScopedBy name run rest) ∧
    (isScoped name = true → ∃ run rest, ScopedBy name run rest ∧
      (∀ run' rest', ScopedBy name run' rest' → run'.length ≤ run.length) ∧
      unscoped name = messageMark ++ rest) ∧
    (isScoped name = false → unscoped name = name) ∧
    unscoped (unscoped name) = unscoped name ∧
    (∀ isCall style, isMessage name isCall style = true → messageMark <+: unscoped name) ∧
    unscoped name <:+ name ∧
    (endsWith helpMark (unscoped name) = true ↔ endsWith helpMark name = true) := by
  have hmessage : ∀ isCall style, isMessage name isCall style = true →
      messageMark <+: unscoped name := fun isCall style h =>
    messageMark_prefix_unscoped (Bool.and_eq_true_iff.1 h).1
  have hhelp : endsWith helpMark (unscoped name) = true ↔ endsWith helpMark name = true := by
    rw [endsWith_iff, endsWith_iff, helpMark_suffix_unscoped]
  rcases unscoped_cases name with ⟨hnot, hsame, hnone⟩ | ⟨run, rest, hyes, hcut, hscoped, hlongest⟩
  · refine ⟨?_, ?_, fun _ => hsame, by rw [hsame, hsame], hmessage, unscoped_suffix name, hhelp⟩
    · simp [hnot, hnone]
    · simp [hnot]
  · refine ⟨iff_of_true hyes ⟨run, rest, hscoped⟩, fun _ => ⟨run, rest, hscoped, hlongest, hcut⟩,
      ?_, by rw [hcut, unscoped_messageMark], hmessage, unscoped_suffix name, hhelp⟩
    simp [hyes]

theorem unscoped_cut_twice :
    isScoped "$jscomp$scope$1$MSG_A$MSG_B_HELP".toList = true ∧
    messageMark <+: unscoped "$jscomp$scope$1$MSG_A$MSG_B_HELP".toList ∧
    ∃ run rest, ScopedBy "$jscomp$scope$1$MSG_A$MSG_B_HELP".toList run rest ∧
      "1$MSG_A".length ≤ run.length := by
  have hscoped : isScoped "$jscomp$scope$1$MSG_A$MSG_B_HELP".toList = true := by decide
  have hblank : ("1$MSG_A".toList.all fun c => !isBlank c) = true := by decide
  have hrun : ScopedBy "$jscomp$scope$1$MSG_A$MSG_B_HELP".toList "1$MSG_A".toList "B_HELP".toList :=
    ⟨"1$MSG_A$MSG_B_HELP".toList, by decide, by decide, by decide,
      fun c hc => by simpa using List.all_eq_true.1 hblank c hc⟩
  obtain ⟨-, hlongest, -, -, hmessage, -, -⟩ :=
    unscoped_cut "$jscomp$scope$1$MSG_A$MSG_B_HELP".toList
  obtain ⟨run, rest, hcut, hlength, -⟩ := hlongest hscoped
  exact ⟨hscoped, hmessage true .closure (by decide), run, rest, hcut, hlength _ _ hrun⟩

theorem isPlaceholder_cons_iff {c : Char} {cs : List Char} : isPlaceholder (c :: cs) = true ↔
    isLower c = true ∧ ∃ word suffix, cs = word ++ suffix ∧
      (∀ d ∈ word, isLetterOrDigit d) ∧ ∀ d ∈ suffix, isDigitOrUnderscore d := by
  rw [isPlaceholder, Bool.and_eq_true, List.all_eq_true]
  refine and_congr_right fun _ => ⟨fun h => ?_, ?_⟩
  · exact ⟨cs.takeWhile isLetterOrDigit, cs.dropWhile isLetterOrDigit,
      (List.takeWhile_append_dropWhile ..).symm, fun d => List.mem_takeWhile_imp, h⟩
  · rintro ⟨word, suffix, rfl, hword, hsuffix⟩ d hd
    rw [List.dropWhile_append_of_pos hword] at hd
    exact hsuffix d ((List.dropWhile_suffix _).subset hd)

theorem isLower_iff {c : Char} : isLower c = true ↔ 'a' ≤ c ∧ c ≤ 'z' := by
  rw [isLower, Bool.and_eq_true, decide_eq_true_iff, decide_eq_true_iff]

theorem isAlphanum_of_isLower {c : Char} (h : isLower c = true) : c.isAlphanum = true := by
  rw [isAlphanum_eq, isLetterOrDigit, h]
  rfl

theorem not_isAlpha_of_isDigit {c : Char} (h : c.isDigit = true) : ¬ c.isAlpha = true := by
  rw [isDigit_eq, isDigit, Bool.and_eq_true, decide_eq_true_iff, decide_eq_true_iff] at h
  rw [isAlpha_eq, isLower, isUpper, Bool.or_eq_true, Bool.and_eq_true, Bool.and_eq_true,
    decide_eq_true_iff, decide_eq_true_iff, decide_eq_true_iff, decide_eq_true_iff]
  rintro (⟨hlower, -⟩ | ⟨hupper, -⟩)
  · exact absurd (Char.le_trans hlower h.2) (by decide)
  · exact absurd (Char.le_trans hupper h.2) (by decide)

theorem isDigitOrUnderscore_iff {c : Char} :
    isDigitOrUnderscore c = true ↔ (c.isAlphanum = true ∨ c = '_') ∧ ¬ c.isAlpha = true := by
  rw [isDigitOrUnderscore, ← isDigit_eq, Char.isAlphanum, Bool.or_eq_true, Bool.or_eq_true,
    decide_eq_true_iff]
  constructor
  · rintro (hdigit | rfl)
    · exact ⟨.inl (.inr hdigit), not_isAlpha_of_isDigit hdigit⟩
    · exact ⟨.inr rfl, by decide⟩
  · rintro ⟨(halpha | hdigit) | hunderscore, hnot⟩
    · exact absurd halpha hnot
    · exact .inl hdigit
    · exact .inr hunderscore

theorem ne_underscore_of_isLetterOrDigit {c : Char} (h : isLetterOrDigit c = true) : c ≠ '_' := by
  rintro rfl
  exact absurd h (by decide)

theorem isPlaceholder_cons_iff_underscore {c : Char} {cs : List Char} :
    isPlaceholder (c :: cs) = true ↔ isLower c = true ∧ (∀ d ∈ cs, d.isAlphanum = true ∨ d = '_') ∧
      ∀ d ∈ cs.dropWhile (· ≠ '_'), ¬ d.isAlpha = true := by
  rw [isPlaceholder_cons_iff]
  refine and_congr_right fun _ => ⟨?_, ?_⟩
  · rintro ⟨word, suffix, rfl, hword, hsuffix⟩
    constructor
    · intro d hd
      rcases List.mem_append.1 hd with hd | hd
      · exact .inl ((isAlphanum_eq d).trans (hword d hd))
      · exact (isDigitOrUnderscore_iff.1 (hsuffix d hd)).1
    · -- No underscore is in the word, so that the first one is in the suffix.
      intro d hd
      rw [List.dropWhile_append_of_pos fun e he => by
        simpa using ne_underscore_of_isLetterOrDigit (hword e he)] at hd
      exact (isDigitOrUnderscore_iff.1 (hsuffix d ((List.dropWhile_suffix _).subset hd))).2
  · rintro ⟨hall, hafter⟩
    refine ⟨cs.takeWhile (· ≠ '_'), cs.dropWhile (· ≠ '_'),
      (List.takeWhile_append_dropWhile ..).symm, fun d hd => ?_, fun d hd => ?_⟩
    · have hne : d ≠ '_' := by simpa using List.mem_takeWhile_imp hd
      rw [← isAlphanum_eq]
      exact (hall d ((List.takeWhile_prefix _).subset hd)).resolve_right hne
    · exact isDigitOrUnderscore_iff.2
        ⟨hall d ((List.dropWhile_suffix _).subset hd), hafter d hd⟩

theorem not_closing_mem (h : isPlaceholder cs = true) : '\x7d' ∉ cs := by
  cases cs with
  | nil => exact List.not_mem_nil
  | cons c cs =>
    obtain ⟨hc, hall, -⟩ := isPlaceholder_cons_iff_underscore.1 h
    rintro (_ | ⟨_, hmem⟩)
    · exact absurd hc (by decide)
    · exact absurd (hall _ hmem) (by decide)

theorem parse_placeholder (h : isPlaceholder cs = true) :
    Part.parse (String.ofList ('\x7b' :: '$' :: (cs ++ ['\x7d']))) =
      .ok [.placeholder (String.ofList cs)] := by
  have hcuts : Part.Cuts ('\x7b' :: '$' :: (cs ++ ['\x7d'])) [.placeholder (String.ofList cs)] := by
    have hne : cs ≠ [] := by
      rintro rfl
      cases h
    exact .placeholder Part.not_opening_nil hne (not_closing_mem h) (.plain Part.not_opening_nil)
  exact Part.parse_eq_ok_iff_cuts.2 (by rwa [String.toList_ofList])

/-- A placeholder is called by a lower-case letter, then letters and digits, and from the first
underscore on only digits and underscores. In its braces, such a name is read as that placeholder
and nothing else. -/
theorem placeholder_names (name : List Char) :
    (isPlaceholder name = true ↔ name ≠ [] ∧ (∀ c ∈ name.head?, 'a' ≤ c ∧ c ≤ 'z') ∧
      (∀ c ∈ name, c.isAlphanum = true ∨ c = '_') ∧
      ∀ c ∈ name.dropWhile (· ≠ '_'), ¬ c.isAlpha = true) ∧
    (isPlaceholder name = true → '\x7d' ∉ name ∧
      Part.parse (String.ofList ('\x7b' :: '$' :: (name ++ ['\x7d']))) =
        .ok [.placeholder (String.ofList name)]) := by
  refine ⟨?_, fun h => ⟨not_closing_mem h, parse_placeholder h⟩⟩
  cases name with
  | nil => simp [isPlaceholder]
  | cons c cs =>
    have hdrop : isLower c = true →
        (c :: cs).dropWhile (· ≠ '_') = cs.dropWhile (· ≠ '_') := fun hc =>
      List.dropWhile_cons_of_pos (by
        simpa using ne_underscore_of_isLetterOrDigit ((isAlphanum_eq c).symm.trans
          (isAlphanum_of_isLower hc)))
    rw [isPlaceholder_cons_iff_underscore]
    constructor
    · rintro ⟨hc, hall, hafter⟩
      refine ⟨List.cons_ne_nil c cs, by simpa using isLower_iff.1 hc, ?_, by rwa [hdrop hc]⟩
      exact List.forall_mem_cons.2 ⟨.inl (isAlphanum_of_isLower hc), hall⟩
    · rintro ⟨-, hfirst, hall, hafter⟩
      have hc : isLower c = true := isLower_iff.2 (hfirst c rfl)
      rw [hdrop hc] at hafter
      exact ⟨hc, (List.forall_mem_cons.1 hall).2, hafter⟩

theorem placeholder_names_span :
    isPlaceholder "startSpan2_1".toList = true ∧ '\x7d' ∉ "startSpan2_1".toList ∧
    isPlaceholder "user_name".toList = false ∧
    ¬ ∀ c ∈ "user_name".toList.dropWhile (· ≠ '_'), ¬ c.isAlpha = true := by
  have hspan : isPlaceholder "startSpan2_1".toList = true := by decide
  have hname : isPlaceholder "user_name".toList = false := by decide
  refine ⟨hspan, ((placeholder_names _).2 hspan).1, hname, fun hafter => ?_⟩
  have hfirst : ∀ c ∈ "user_name".toList.head?, 'a' ≤ c ∧ c ≤ 'z' := by
    rintro c ⟨⟩
    decide
  have hall : ("user_name".toList.all fun c => c.isAlphanum || c = '_') = true := by decide
  have hyes : isPlaceholder "user_name".toList = true := (placeholder_names _).1.2
    ⟨by decide, hfirst, fun c hc => by simpa using List.all_eq_true.1 hall c hc, hafter⟩
  exact absurd (hname.symm.trans hyes) Bool.false_ne_true

end Name

end MessageCatalog

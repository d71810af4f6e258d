import MessageCatalog.Proofs.Contexts
import MessageCatalog.Report

/-! Where the caret of a snippet stands. A column adds up the widths of the characters before it, and
the snippet takes it for their number: the caret stands under the reported character where the two
agree, and else as many characters off as they differ. -/

namespace MessageCatalog.Text

/-- The text around an offset: whole lines, then what stands before the offset on its own line, then
the rest. An offset inside a character stands for the end of that character. -/
structure IsCut (text : List Char) (offset : Nat) (earlier before after : List Char) : Prop where
  text_eq : text = earlier ++ (before ++ after)
  reached : offset ≤ byteLength (earlier ++ before) ∨ after = []
  notBefore : ∀ cs c rest, earlier ++ before = cs ++ c :: rest → byteLength cs < offset
  whole : earlier = [] ∨ ∃ cs c, earlier = cs ++ [c] ∧ endsLine c (before ++ after)
  inLine : ∀ cs c rest, before = cs ++ c :: rest → ¬ endsLine c (rest ++ after)

variable {text earlier before after : List Char} {offset : Nat}

theorem exists_reaching (text : List Char) (offset : Nat) :
    ∃ pre after, text = pre ++ after ∧ (offset ≤ byteLength pre ∨ after = []) ∧
      ∀ cs c rest, pre = cs ++ c :: rest → byteLength cs < offset := by
  induction text generalizing offset with
  | nil => exact ⟨[], [], rfl, .inr rfl, by simp⟩
  | cons c text ih =>
    rcases Nat.eq_zero_or_pos offset with rfl | hpos
    · exact ⟨[], c :: text, rfl, .inl (Nat.zero_le _), by simp⟩
    · obtain ⟨pre, after, rfl, hreached, hnot⟩ := ih (offset - c.utf8Size)
      refine ⟨c :: pre, after, rfl, hreached.imp_left fun h => ?_, fun cs d rest h => ?_⟩
      · rw [byteLength]
        omega
      · cases cs with
        | nil => exact hpos
        | cons e cs =>
          obtain ⟨rfl, htail⟩ := List.cons.inj h
          have hcs := hnot cs d rest htail
          rw [byteLength]
          omega

theorem exists_lastLine (pre after : List Char) :
    ∃ earlier before, pre = earlier ++ before ∧
      (earlier = [] ∨ ∃ cs c, earlier = cs ++ [c] ∧ endsLine c (before ++ after)) ∧
      ∀ cs c rest, before = cs ++ c :: rest → ¬ endsLine c (rest ++ after) := by
  induction pre with
  | nil => exact ⟨[], [], rfl, .inl rfl, by simp⟩
  | cons c pre ih =>
    obtain ⟨earlier, before, rfl, hwhole, hin⟩ := ih
    rcases hwhole with rfl | ⟨cs, d, rfl, hd⟩
    · by_cases hends : endsLine c (before ++ after)
      · exact ⟨[c], before, rfl, .inr ⟨[], c, rfl, hends⟩, hin⟩
      · refine ⟨[], c :: before, rfl, .inl rfl, fun cs d rest h => ?_⟩
        cases cs with
        | nil =>
          obtain ⟨rfl, rfl⟩ := List.cons.inj h
          exact hends
        | cons e cs => exact hin cs d rest (List.cons.inj h).2
    · exact ⟨c :: (cs ++ [d]), before, rfl, .inr ⟨c :: cs, d, rfl, hd⟩, hin⟩

theorem exists_isCut (text : List Char) (offset : Nat) :
    ∃ earlier before after, IsCut text offset earlier before after := by
  obtain ⟨pre, after, rfl, hreached, hnot⟩ := exists_reaching text offset
  obtain ⟨earlier, before, rfl, hwhole, hin⟩ := exists_lastLine pre after
  exact ⟨earlier, before, after, List.append_assoc .., hreached, hnot, hwhole, hin⟩

theorem positionFrom_line {line column byte : Nat} {start : List Char}
    (hreached : offset ≤ byte + byteLength before ∨ after = [])
    (hnot : ∀ cs c rest, before = cs ++ c :: rest → byte + byteLength cs < offset)
    (hin : ∀ cs c rest, before = cs ++ c :: rest → ¬ endsLine c (rest ++ after)) :
    positionFrom offset line column byte start (before ++ after) =
      ⟨line, column + columns before, lineAt start⟩ := by
  induction before generalizing column byte with
  | nil =>
    cases after with
    | nil => rfl
    | cons c r =>
      have hle : offset ≤ byte := by simpa [byteLength] using hreached
      simp [positionFrom, hle, columns]
  | cons c before ih =>
    have hlt : byte < offset := hnot [] c before rfl
    rw [byteLength, ← Nat.add_assoc] at hreached
    rw [List.cons_append, positionFrom, if_neg (by omega), if_neg (hin [] c before rfl),
      ih hreached (fun cs d rest h => ?_) fun cs d rest h => hin (c :: cs) d rest (by rw [h]; rfl),
      columns, Nat.add_assoc]
    have := hnot (c :: cs) d rest (by rw [h]; rfl)
    rw [byteLength] at this
    omega

theorem positionFrom_lines {cs : List Char} {c : Char} {rest start : List Char}
    {line column byte : Nat} (hends : endsLine c rest) (hcs : byte + byteLength cs < offset) :
    ∃ line', positionFrom offset line column byte start (cs ++ c :: rest) =
      positionFrom offset line' 1 (byte + byteLength (cs ++ [c])) rest rest := by
  induction cs generalizing line column byte start with
  | nil =>
    have hlt : ¬ offset ≤ byte := by
      rw [byteLength] at hcs
      omega
    exact ⟨line + 1, by simp [positionFrom, hlt, hends, byteLength]⟩
  | cons d cs ih =>
    rw [byteLength, ← Nat.add_assoc] at hcs
    rw [List.cons_append, positionFrom, if_neg (by omega), List.cons_append, byteLength,
      ← Nat.add_assoc]
    split_ifs
    · exact ih hcs
    · exact ih hcs

theorem position_of_isCut (hcut : IsCut text offset earlier before after) :
    ∃ line, position text offset = ⟨line, columns before + 1, lineAt (before ++ after)⟩ := by
  obtain ⟨rfl, hreached, hnot, hwhole, hin⟩ := hcut
  rw [Nat.add_comm, position]
  rcases hwhole with rfl | ⟨cs, c, rfl, hends⟩
  · exact ⟨1, positionFrom_line (by simpa using hreached) (by simpa using hnot) hin⟩
  · rw [List.append_assoc, List.singleton_append]
    have hcs : 0 + byteLength cs < offset := by
      rw [Nat.zero_add]
      exact hnot cs c before (by simp)
    -- The walk begins in the first column of the first line, with the whole text ahead.
    have hlines : ∃ line, positionFrom offset 1 1 0 (cs ++ c :: (before ++ after))
        (cs ++ c :: (before ++ after)) =
          positionFrom offset line 1 (0 + byteLength (cs ++ [c])) (before ++ after)
            (before ++ after) := positionFrom_lines hends hcs
    obtain ⟨line, hline⟩ := hlines
    rw [hline, Nat.zero_add]
    refine ⟨line, positionFrom_line ?_ (fun ds d rest h => ?_) hin⟩
    · rwa [← byteLength_append]
    · rw [← byteLength_append]
      exact hnot (cs ++ [c] ++ ds) d rest (by rw [h]; simp)

theorem IsCut.lineAt_eq (hcut : IsCut text offset earlier before after) :
    lineAt (before ++ after) = before ++ lineAt after := by
  rw [lineAt, List.takeWhile_append_of_pos]
  · rfl
  · intro c hc
    obtain ⟨cs, rest, rfl⟩ := List.append_of_mem hc
    have := hcut.inLine cs c rest rfl
    simp [endsLine] at this
    simp [this.1]

end MessageCatalog.Text

namespace MessageCatalog.Definition
open Text (columns lineAt lineWidth IsCut)

variable {settings : Settings} {c : Compilation} {i : Issue} {context : Context} {line : String}

theorem snippet_getLast? (gutter : Nat) (hcontext : i.context? = some context)
    (hline : context.sourceLine = some line) :
    (Report.snippet gutter i).getLast? =
      some s!"{Report.spaces gutter} | {Report.spaces
        (Report.caretPadding line i.location.column)}^" := by
  simp [Report.snippet, hcontext, hline]

theorem Surroundings.contextAt_of_sourceLine {env : Surroundings} {span : Script.Span}
    (hline : (env.contextAt span).sourceLine = some line) :
    (env.contextAt span).location = env.locationAt span ∧
      line = String.ofList (Text.position env.source.text span.start).lineText := by
  unfold Surroundings.contextAt at hline ⊢
  dsimp only at hline ⊢
  split at hline
  · cases hline
  · cases hline
    exact ⟨rfl, rfl⟩

/-- The caret under an issue stands as far to the right as the first characters of its line take
columns, as many of them as there are columns before the reported place. It stands under that place
if every character before it on the line counts one column. -/
theorem carets_run (hi : i ∈ Event.issues (run settings c)) (hcontext : i.context? = some context)
    (hline : context.sourceLine = some line) :
    ∃ source ∈ c.sources, ∃ offset earlier before after,
      IsCut source.text offset earlier before after ∧
      i.location.file = source.path ∧ i.location.column = columns before + 1 ∧
      line.toList = before ++ lineAt after ∧
      Report.caretPadding line i.location.column =
        lineWidth ((before ++ lineAt after).take (columns before)) ∧
      (columns before = before.length →
        Report.caretPadding line i.location.column = lineWidth before) ∧
      ∀ gutter, (Report.snippet gutter i).getLast? =
        some s!"{Report.spaces gutter} | {Report.spaces
          (Report.caretPadding line i.location.column)}^" := by
  obtain ⟨file, source, hsource, span, hshows⟩ := shows_of_mem_run hi
  obtain rfl : _ = context := Option.some.inj (hshows.symm.trans hcontext)
  obtain ⟨hlocation, htext⟩ := Surroundings.contextAt_of_sourceLine hline
  obtain ⟨earlier, before, after, hcut⟩ := Text.exists_isCut source.text span.start
  obtain ⟨number, hposition⟩ := Text.position_of_isCut hcut
  rw [Surroundings.locationAt] at hlocation
  dsimp only at hlocation htext
  rw [hposition] at hlocation htext
  rw [hcut.lineAt_eq] at htext
  have hcolumn : i.location.column = columns before + 1 := by
    rw [location_of_context? hcontext, hlocation]
  have hlist : line.toList = before ++ lineAt after := by rw [htext, String.toList_ofList]
  have hpadding : Report.caretPadding line i.location.column =
      lineWidth ((before ++ lineAt after).take (columns before)) := by
    rw [Report.caretPadding, hcolumn, hlist, Nat.add_sub_cancel]
  refine ⟨source, hsource, span.start, earlier, before, after, hcut, ?_, hcolumn, hlist, hpadding,
    fun hone => ?_, fun gutter => snippet_getLast? gutter hcontext hline⟩
  · rw [location_of_context? hcontext, hlocation]
  · rw [hpadding, hone, List.take_left]

/-- The line `/*中*/var MSG_A;`: nine characters in ten columns stand before the name. -/
def wideComment : Source where
  path := "a.js"
  text := "/*\u4e2d*/var MSG_A;".toList
  program :=
    ⟨false, [.declarations .var [.declarator (.name "MSG_A" ⟨11, 16⟩) none ⟨11, 16⟩] ⟨7, 17⟩]⟩
  comments := [(7, "\u4e2d")]

def wideComment.issue : Issue :=
  .noValue ⟨⟨"a.js", 1, 11⟩, some "/*\u4e2d*/var MSG_A;"⟩ "MSG_A"

theorem carets_run_wideComment :
    wideComment.issue ∈ Event.issues (run {} ⟨[], [wideComment], []⟩) ∧
    ∃ before, 11 = columns before + 1 ∧
      Report.caretPadding "/*\u4e2d*/var MSG_A;" 11 =
        lineWidth ("/*\u4e2d*/var MSG_A;".toList.take (columns before)) := by
  have hissue : wideComment.issue ∈ Event.issues (run {} ⟨[], [wideComment], []⟩) := by
    decide +kernel
  have hcontext : wideComment.issue.context? =
      some ⟨⟨"a.js", 1, 11⟩, some "/*\u4e2d*/var MSG_A;"⟩ := rfl
  obtain ⟨_, _, _, _, before, _, _, _, hcolumn, hlist, hpadding, -⟩ :=
    carets_run hissue hcontext rfl
  exact ⟨hissue, before, hcolumn, hlist ▸ hpadding⟩

theorem carets_run_offTheName :
    Event.issues (run {} ⟨[], [wideComment], []⟩) = [wideComment.issue] ∧
    wideComment.text = "/*\u4e2d*/var ".toList ++ "MSG_A;".toList ∧
    Text.byteLength "/*\u4e2d*/var ".toList = 11 ∧
    (Text.position wideComment.text 11).column = wideComment.issue.location.column ∧
    Report.caretPadding "/*\u4e2d*/var MSG_A;" wideComment.issue.location.column = 11 ∧
    lineWidth "/*\u4e2d*/var ".toList = 10 := by
  decide +kernel

end MessageCatalog.Definition

import MessageCatalog.Proofs.PartCodec

/-! A text is not cut if an opening in it is bad: never closed, or closed at once. The error tells
the first such byte. A loop over byte offsets that takes slices of the text finds the same, and
never takes one that is no part of the text. -/

namespace MessageCatalog

namespace Text

theorem utf8ByteSize_ofList (cs : List Char) : (String.ofList cs).utf8ByteSize = byteLength cs := by
  induction cs with
  | nil => rfl
  | cons c r ih =>
    rw [byteLength, ← ih, ← List.singleton_append, String.ofList_append, String.utf8ByteSize_append]
    simp

def slice? (text : String) (i j : Nat) : Option String :=
  if h : (⟨i⟩ : String.Pos.Raw).IsValid text ∧ (⟨j⟩ : String.Pos.Raw).IsValid text ∧ i ≤ j then
    some (text.slice (text.pos ⟨i⟩ h.1) (text.pos ⟨j⟩ h.2.1) h.2.2).copy
  else none

theorem slice?_eq_some_iff {text part : String} {i j : Nat} :
    slice? text i j = some part ↔ ∃ before after, text = before ++ (part ++ after) ∧
      before.utf8ByteSize = i ∧ before.utf8ByteSize + part.utf8ByteSize = j := by
  unfold slice?
  constructor
  · intro h
    split_ifs at h with hplaces
    obtain ⟨before, after, hi, hj⟩ :=
      String.copy_slice_eq_iff_splits.1 ⟨hplaces.2.2, Option.some.inj h⟩
    have hstart := congrArg String.Pos.Raw.byteIdx hi.offset_eq_rawEndPos
    have hstop := congrArg String.Pos.Raw.byteIdx hj.offset_eq_rawEndPos
    simp only [String.offset_pos, String.byteIdx_rawEndPos, String.utf8ByteSize_append]
      at hstart hstop
    exact ⟨before, after, hi.eq_append, hstart.symm, hstop.symm⟩
  · rintro ⟨before, after, happend, rfl, rfl⟩
    have happend' : text = before ++ part ++ after := by rw [happend, String.append_assoc]
    have hplace : (⟨before.utf8ByteSize + part.utf8ByteSize⟩ : String.Pos.Raw) =
        (before ++ part).rawEndPos := by
      rw [String.Pos.Raw.ext_iff, String.byteIdx_rawEndPos, String.utf8ByteSize_append]
    have hi : (⟨before.utf8ByteSize⟩ : String.Pos.Raw).IsValid text :=
      String.Pos.Raw.isValid_iff_exists_append.2 ⟨before, part ++ after, happend, rfl⟩
    have hj : (⟨before.utf8ByteSize + part.utf8ByteSize⟩ : String.Pos.Raw).IsValid text :=
      String.Pos.Raw.isValid_iff_exists_append.2 ⟨before ++ part, after, happend', hplace⟩
    have hcopy : ∃ h, (text.slice (text.pos _ hi) (text.pos _ hj) h).copy = part :=
      String.copy_slice_eq_iff_splits.2
        ⟨before, after, ⟨happend, rfl⟩, happend', hplace⟩
    rw [dif_pos ⟨hi, hj, hcopy.1⟩, hcopy.2]

theorem slice?_of_toList {text : String} {before part after : List Char}
    (h : text.toList = before ++ part ++ after) :
    slice? text (byteLength before) (byteLength before + byteLength part) =
      some (String.ofList part) :=
  slice?_eq_some_iff.2 ⟨String.ofList before, String.ofList after,
    by rw [← String.ofList_append, ← String.ofList_append, ← List.append_assoc, ← h,
      String.ofList_toList],
    utf8ByteSize_ofList before, by rw [utf8ByteSize_ofList, utf8ByteSize_ofList]⟩

theorem utf8ByteSize_of_toList {text : String} {before part : List Char}
    (h : text.toList = before ++ part) :
    text.utf8ByteSize = byteLength before + byteLength part := by
  rw [← byteLength_append, ← h, ← utf8ByteSize_ofList, String.ofList_toList]

theorem le_of_slice? {text part : String} {i j : Nat} (h : slice? text i j = some part) :
    i ≤ j := by
  obtain ⟨before, after, -, rfl, rfl⟩ := slice?_eq_some_iff.1 h
  exact Nat.le_add_right _ _

end Text

namespace Part
open MessageCatalog.Text

theorem not_mem_of_cutAtClosing_none {cs : List Char} (h : cutAtClosing cs = none) :
    '\x7d' ∉ cs := by
  fun_induction cutAtClosing cs with
  | case1 => exact List.not_mem_nil
  | case2 => cases h
  | case3 => cases h
  | case4 c r hc hr ih =>
    rw [List.mem_cons, not_or]
    exact ⟨Ne.symm hc, ih hr⟩

theorem cutAtClosing_eq_none {cs : List Char} (h : '\x7d' ∉ cs) : cutAtClosing cs = none := by
  cases hcut : cutAtClosing cs with
  | none => rfl
  | some cut =>
    refine absurd ?_ h
    rw [eq_of_cutAtClosing hcut]
    exact List.mem_append_right _ List.mem_cons_self

/-- The error for an opening at byte `i` with `after` behind it, if that opening is bad. -/
inductive BadOpening (i : Nat) : List Char → PlaceholderError → Prop where
  | unterminated {after : List Char} (h : '\x7d' ∉ after) : BadOpening i after (.unterminated i)
  | emptyName (rest : List Char) : BadOpening i ('\x7d' :: rest) (.emptyName i)

theorem parseFrom_of_badOpening {before after : List Char} {e : PlaceholderError} {offset : Nat}
    (hbefore : ¬ opening <:+: before) (h : BadOpening (offset + byteLength before) after e) :
    parseFrom offset (before ++ '\x7b' :: '$' :: after) = .error e := by
  rw [parseFrom_eq, cutAtOpening_append hbefore]
  cases h with
  | unterminated h =>
    dsimp only
    rw [cutAtClosing_eq_none h]
  | emptyName rest => rfl

theorem byteLength_placeholder (before name rest : List Char) :
    byteLength (before ++ '\x7b' :: '$' :: (name ++ '\x7d' :: rest)) =
      byteLength before + 3 + byteLength name + byteLength rest := by
  have hone : '\x7b'.utf8Size = 1 ∧ '$'.utf8Size = 1 ∧ '\x7d'.utf8Size = 1 := by decide
  simp only [byteLength_append, byteLength, hone]
  omega

theorem parseFrom_eq_error_iff {offset : Nat} {cs : List Char} {e : PlaceholderError} :
    parseFrom offset cs = .error e ↔ ∃ before parts after, cs = before ++ '\x7b' :: '$' :: after ∧
      Cuts before parts ∧ BadOpening (offset + byteLength before) after e := by
  constructor
  · intro h
    fun_induction parseFrom offset cs with
    | case1 => cases h
    | case2 offset cs before after hopen start hclose =>
      cases h
      exact ⟨before, _, after, eq_of_cutAtOpening hopen,
        .plain (not_opening_of_cutAtOpening_some hopen),
        .unterminated (not_mem_of_cutAtClosing_none hclose)⟩
    | case3 offset cs before after hopen start rest hclose =>
      cases h
      obtain rfl : after = '\x7d' :: rest := eq_of_cutAtClosing hclose
      exact ⟨before, _, _, eq_of_cutAtOpening hopen,
        .plain (not_opening_of_cutAtOpening_some hopen), .emptyName rest⟩
    | case4 => cases h
    | case5 offset cs before after hopen start c name rest hclose e' he' ih =>
      cases h
      obtain ⟨before', parts, after', rfl, hcuts, hbad⟩ := ih he'
      refine ⟨before ++ '\x7b' :: '$' :: (c :: name ++ '\x7d' :: before'), _, after', ?_,
        .placeholder (not_opening_of_cutAtOpening_some hopen) (by simp)
          (not_mem_of_cutAtClosing hclose) hcuts, ?_⟩
      · rw [eq_of_cutAtOpening hopen, eq_of_cutAtClosing hclose]
        simp
      · rwa [byteLength_placeholder, ← Nat.add_assoc, ← Nat.add_assoc, ← Nat.add_assoc]
  · rintro ⟨before, parts, after, rfl, hcuts, hbad⟩
    -- on the placeholders before the bad opening, each of which moves the offset on
    induction hcuts generalizing offset with
    | plain h => exact parseFrom_of_badOpening h hbad
    | @placeholder literal name rest parts hliteral hname hclosed _ ih =>
      rw [byteLength_placeholder, ← Nat.add_assoc, ← Nat.add_assoc, ← Nat.add_assoc] at hbad
      have hrest := ih hbad
      have happend :
          literal ++ '\x7b' :: '$' :: (name ++ '\x7d' :: rest) ++ '\x7b' :: '$' :: after =
            literal ++ '\x7b' :: '$' :: (name ++ '\x7d' :: (rest ++ '\x7b' :: '$' :: after)) := by
        simp
      rw [happend, parseFrom_placeholder hliteral hname hclosed, hrest]
      rfl

inductive Round where
  | ended (result : Except PlaceholderError (List Part))
  | next (pos : Nat) (done : List Part)

def literal? (text : String) (i j : Nat) : Option (List Part) :=
  if i < j then (slice? text i j).map fun value => [.text value] else some []

def round? (text : String) (pos : Nat) (done : List Part) : Option Round := do
  let tail ← slice? text pos text.utf8ByteSize
  match cutAtOpening tail.toList with
  | none =>
    let literal ← literal? text pos text.utf8ByteSize
    return .ended (.ok (done ++ literal))
  | some (before, _) =>
    let start := pos + byteLength before
    let literal ← literal? text pos start
    let behind ← slice? text (start + 2) text.utf8ByteSize
    match cutAtClosing behind.toList with
    | none => return .ended (.error (.unterminated start))
    | some ([], _) => return .ended (.error (.emptyName start))
    | some (c :: r, _) =>
      let stop := start + 2 + byteLength (c :: r)
      let name ← slice? text (start + 2) stop
      return .next (stop + 1) (done ++ literal ++ [.placeholder name])

theorem round?_next {text : String} {pos pos' : Nat} {done done' : List Part}
    (h : round? text pos done = some (.next pos' done')) :
    pos < pos' ∧ pos ≤ text.utf8ByteSize := by
  simp only [round?, Option.bind_eq_bind, Option.bind_eq_some_iff] at h
  obtain ⟨tail, htail, h⟩ := h
  refine ⟨?_, le_of_slice? htail⟩
  split at h
  · obtain ⟨literal, -, h⟩ := Option.bind_eq_some_iff.1 h
    cases h
  · simp only [Option.bind_eq_some_iff] at h
    obtain ⟨literal, -, behind, -, h⟩ := h
    split at h
    · cases h
    · cases h
    · obtain ⟨name, -, h⟩ := Option.bind_eq_some_iff.1 h
      cases h
      omega

def scanFrom (text : String) (pos : Nat) (done : List Part) :
    Option (Except PlaceholderError (List Part)) :=
  match _round : round? text pos done with
  | none => none
  | some (.ended result) => some result
  | some (.next pos' done') => scanFrom text pos' done'
termination_by text.utf8ByteSize + 1 - pos
decreasing_by
  have := round?_next _round
  omega

def scan? (text : String) : Option (Except PlaceholderError (List Part)) := scanFrom text 0 []

theorem literal?_of_toList {text : String} {before part after : List Char}
    (h : text.toList = before ++ part ++ after) :
    literal? text (byteLength before) (byteLength before + byteLength part) =
      some (ofText part) := by
  rw [literal?, slice?_of_toList h]
  cases part with
  | nil => simp [byteLength, ofText]
  | cons c r =>
    have := c.utf8Size_pos
    rw [if_pos (by rw [byteLength]; omega)]
    rfl

theorem round?_eq {text : String} {past cs : List Char} (h : text.toList = past ++ cs)
    (done : List Part) :
    round? text (byteLength past) done =
      some (match cutAtOpening cs with
        | none => .ended (.ok (done ++ ofText cs))
        | some (before, after) =>
          match cutAtClosing after with
          | none => .ended (.error (.unterminated (byteLength past + byteLength before)))
          | some ([], _) => .ended (.error (.emptyName (byteLength past + byteLength before)))
          | some (c :: name, _) =>
            .next (byteLength past + byteLength before + 3 + byteLength (c :: name))
              (done ++ ofText before ++ [.placeholder (String.ofList (c :: name))])) := by
  have hsize : text.utf8ByteSize = byteLength past + byteLength cs := utf8ByteSize_of_toList h
  have htail : text.toList = past ++ cs ++ [] := by rw [h, List.append_nil]
  simp only [round?, hsize, slice?_of_toList htail, literal?_of_toList htail, Option.bind_eq_bind,
    Option.bind_some, String.toList_ofList]
  cases hopen : cutAtOpening cs with
  | none => rfl
  | some cut =>
    obtain ⟨before, after⟩ := cut
    obtain rfl := eq_of_cutAtOpening hopen
    -- each slice is a part of the text between two others, so the places are those of characters
    have hliteral : text.toList = past ++ before ++ '\x7b' :: '$' :: after := by simp [h]
    have hbehind : text.toList = past ++ before ++ opening ++ after ++ [] := by simp [h, opening]
    have hname : byteLength past + byteLength before + 2 =
        byteLength (past ++ before ++ opening) := by
      rw [byteLength_append, byteLength_append]
      rfl
    have hend : byteLength past + byteLength (before ++ '\x7b' :: '$' :: after) =
        byteLength (past ++ before ++ opening) + byteLength after := by
      simp [opening, byteLength]
      omega
    simp only [literal?_of_toList hliteral, hname, hend, slice?_of_toList hbehind, Option.bind_some,
      String.toList_ofList]
    cases hclose : cutAtClosing after with
    | none => rfl
    | some cut =>
      obtain ⟨name, rest⟩ := cut
      cases name with
      | nil => rfl
      | cons c name =>
        obtain rfl := eq_of_cutAtClosing hclose
        have htext : text.toList = past ++ before ++ opening ++ (c :: name) ++ '\x7d' :: rest := by
          simp [h, opening]
        simp only [slice?_of_toList htext, Option.bind_some]
        have hstop : byteLength (past ++ before ++ opening) + byteLength (c :: name) + 1 =
            byteLength past + byteLength before + 3 + byteLength (c :: name) := by
          rw [← hname]
          omega
        rw [hstop]
        rfl

theorem scanFrom_round (text : String) (pos : Nat) (done : List Part) :
    scanFrom text pos done =
      match round? text pos done with
      | none => none
      | some (.ended result) => some result
      | some (.next pos' done') => scanFrom text pos' done' := by
  rw [scanFrom]
  split <;> next hround => rw [hround]

theorem scanFrom_eq {text : String} {past cs : List Char} (h : text.toList = past ++ cs)
    (done : List Part) :
    scanFrom text (byteLength past) done =
      some ((parseFrom (byteLength past) cs).map (done ++ ·)) := by
  -- on the length of what is left to cut, which a round shortens by more than one character
  induction hn : cs.length using Nat.strong_induction_on generalizing past cs done with
  | _ n ih =>
    rw [parseFrom_eq, scanFrom_round, round?_eq h]
    cases hopen : cutAtOpening cs with
    | none => rfl
    | some cut =>
      obtain ⟨before, after⟩ := cut
      dsimp only
      cases hclose : cutAtClosing after with
      | none => rfl
      | some cut =>
        obtain ⟨name, rest⟩ := cut
        cases name with
        | nil => rfl
        | cons c name =>
          obtain rfl := eq_of_cutAtClosing hclose
          obtain rfl := eq_of_cutAtOpening hopen
          have hlt : rest.length < n := by
            rw [← hn]
            simp only [List.length_append, List.length_cons]
            omega
          have htext : text.toList =
              past ++ (before ++ '\x7b' :: '$' :: (c :: name ++ ['\x7d'])) ++ rest := by simp [h]
          have hpos : byteLength (past ++ (before ++ '\x7b' :: '$' :: (c :: name ++ ['\x7d']))) =
              byteLength past + byteLength before + 3 + byteLength (c :: name) := by
            rw [byteLength_append, byteLength_placeholder, byteLength]
            omega
          have hrest := ih _ hlt htext
            (done ++ ofText before ++ [.placeholder (String.ofList (c :: name))]) rfl
          rw [hpos] at hrest
          dsimp only
          rw [hrest]
          cases parseFrom _ rest <;> simp [Except.map]

def OpensAt (text : String) (i : Nat) (after : String) : Prop :=
  ∃ before parts, before.utf8ByteSize = i ∧ text = before ++ "\x7b$" ++ after ∧
    parse before = .ok parts

theorem opensAt_iff {text after : String} {i : Nat} :
    OpensAt text i after ↔ ∃ before parts, byteLength before = i ∧
      text.toList = before ++ '\x7b' :: '$' :: after.toList ∧ Cuts before parts := by
  constructor
  · rintro ⟨before, parts, rfl, rfl, hcut⟩
    refine ⟨before.toList, parts, ?_, by simp, parse_eq_ok_iff_cuts.1 hcut⟩
    rw [← utf8ByteSize_ofList, String.ofList_toList]
  · rintro ⟨before, parts, rfl, htext, hcuts⟩
    refine ⟨String.ofList before, parts, utf8ByteSize_ofList before, ?_, ?_⟩
    · rw [← String.toList_inj, htext]
      simp
    · rw [parse_eq_ok_iff_cuts, String.toList_ofList]
      exact hcuts

/-- A text is not cut just if there is a bad opening with all of the text before it cut, and the
error is for that one. Every text is cut, or not, without a slice that is no part of it. -/
theorem parse_eq_error_iff (text : String) :
    (∀ e, parse text = .error e ↔
      ∃ i after, OpensAt text i after ∧ BadOpening i after.toList e) ∧
    scan? text = some (parse text) := by
  constructor
  · intro e
    rw [parse, parseFrom_eq_error_iff]
    constructor
    · rintro ⟨before, parts, after, htext, hcuts, hbad⟩
      rw [Nat.zero_add] at hbad
      have hopens : OpensAt text (byteLength before) (String.ofList after) :=
        opensAt_iff.2 ⟨before, parts, rfl, by rw [htext, String.toList_ofList], hcuts⟩
      exact ⟨_, _, hopens, by rwa [String.toList_ofList]⟩
    · rintro ⟨i, after, hopens, hbad⟩
      obtain ⟨before, parts, rfl, htext, hcuts⟩ := opensAt_iff.1 hopens
      exact ⟨before, parts, after.toList, htext, hcuts, by rwa [Nat.zero_add]⟩
  · have hscan := scanFrom_eq (List.nil_append text.toList).symm []
    have hmap : (parseFrom 0 text.toList).map ([] ++ ·) = parseFrom 0 text.toList := by
      cases parseFrom 0 text.toList <;> rfl
    rw [scan?, parse, ← hmap]
    exact hscan

end Part
end MessageCatalog

import MessageCatalog.Glob
import MessageCatalog.Proofs.Places

/-! Patterns that do not say where they start: those for all that lies below directories of a name,
and those for all paths with an ending. They match a path whatever comes before it, unless they
match what comes before it as well. -/

namespace MessageCatalog

namespace Glob

def IsWord (cs : List Char) : Prop := ∀ c ∈ cs, c ≠ '*' ∧ c ≠ '?' ∧ c ≠ '[' ∧ c ≠ '/'

instance (cs : List Char) : Decidable (IsWord cs) :=
  List.decidableBAll (fun c => c ≠ '*' ∧ c ≠ '?' ∧ c ≠ '[' ∧ c ≠ '/') cs

theorem IsWord.no_slash {word : List Char} (h : IsWord word) : '/' ∉ word :=
  fun hmem => (h _ hmem).2.2.2 rfl

theorem parseFrom_char {c : Char} (hstar : c ≠ '*') (hquestion : c ≠ '?') (hbracket : c ≠ '[')
    (position : Nat) (start : Bool) (rest : List Char) :
    parseFrom position start (c :: rest) =
      (parseFrom (position + 1) (c = '/') rest).map (.char c :: ·) := by
  rw [parseFrom]
  all_goals simp_all

theorem parseFrom_word {word : List Char} (h : IsWord word) (position : Nat) (start : Bool)
    (rest : List Char) :
    parseFrom position start (word ++ rest) =
      (parseFrom (position + word.length) (start && word.isEmpty) rest).map
        (word.map .char ++ ·) := by
  induction word generalizing position start with
  | nil =>
    show parseFrom position start rest = _
    simp only [List.length_nil, Nat.add_zero, List.isEmpty_nil, Bool.and_true]
    cases parseFrom position start rest <;> rfl
  | cons c cs ih =>
    have hrest : IsWord cs := fun d hd => h d (List.mem_cons_of_mem c hd)
    obtain ⟨hstar, hquestion, hbracket, hslash⟩ := h c List.mem_cons_self
    have hlength : position + 1 + cs.length = position + (c :: cs).length := by
      rw [List.length_cons]
      omega
    rw [List.cons_append, parseFrom_char hstar hquestion hbracket, decide_eq_false hslash,
      ih hrest, hlength, Bool.false_and, List.isEmpty_cons, Bool.and_false]
    cases parseFrom (position + (c :: cs).length) false rest <;> rfl

theorem parse_below {word : List Char} (h : IsWord word) (hne : word ≠ []) {pattern : String}
    (hpattern : pattern.toList = ['*', '*', '/'] ++ word ++ ['/', '*', '*']) :
    parse pattern = .ok (.directories :: (word.map .char ++ [.char '/', .directories])) := by
  have hempty : word.isEmpty = false := by simpa using hne
  have hend : ∀ position, parseFrom position false ['/', '*', '*'] =
      .ok [.char '/', .directories] := fun position => rfl
  have hstart : parseFrom 0 true (['*', '*', '/'] ++ (word ++ ['/', '*', '*'])) =
      (parseFrom 3 true (word ++ ['/', '*', '*'])).map (.directories :: ·) := rfl
  rw [parse, hpattern, List.append_assoc, hstart, parseFrom_word h, hempty, Bool.and_false, hend]
  rfl

theorem parse_ending {word : List Char} (h : IsWord word) (hne : word ≠ []) {pattern : String}
    (hpattern : pattern.toList = ['*', '*', '/', '*'] ++ word) :
    parse pattern = .ok (.directories :: .anyText :: word.map .char) := by
  obtain ⟨c, cs, rfl⟩ := List.exists_cons_of_ne_nil hne
  have hc : c ≠ '*' := (h c List.mem_cons_self).1
  have hstart : parseFrom 0 true (['*', '*', '/', '*'] ++ c :: cs) =
      (parseFrom 3 true ('*' :: c :: cs)).map (.directories :: ·) := rfl
  have hstar : parseFrom 3 true ('*' :: c :: cs) =
      (parseFrom 4 false (c :: cs)).map (.anyText :: ·) := by
    rw [parseFrom]
    all_goals simp_all
  have hword := parseFrom_word h 4 false []
  rw [List.append_nil] at hword
  rw [parse, hpattern, hstart, hstar, hword]
  simp [parseFrom, Except.map]

theorem toOption_map {α β : Type} (f : α → β) (result : Except Malformed α) :
    (result.map f).toOption = result.toOption.map f := by
  cases result <;> rfl

theorem toOption_parseFrom (position position' : Nat) (start : Bool) (cs : List Char) :
    (parseFrom position' start cs).toOption = (parseFrom position start cs).toOption := by
  have herror : ∀ m : Malformed, (Except.error m : Except Malformed (List Piece)).toOption = none :=
    fun m => rfl
  -- By the recursion of both parsers, beside any other position than the one they go by.
  revert position'
  apply parseFrom.induct
    (fun position start cs => ∀ position',
      (parseFrom position' start cs).toOption = (parseFrom position start cs).toOption)
    (fun opening position make found cs => ∀ opening' position',
      (parseBracket opening' position' make found cs).toOption =
        (parseBracket opening position make found cs).toOption)
  all_goals
    intros
    simp_all [parseFrom, parseBracket, toOption_map]

theorem nil_mem_afterDirectories (text : List Char) : [] ∈ afterDirectories text := by
  induction text with
  | nil => exact List.mem_singleton_self _
  | cons c rest ih =>
    rw [afterDirectories]
    split_ifs
    · exact List.mem_cons_of_mem _ ih
    · exact ih

theorem suffix_of_mem_afterDirectories {text rest : List Char} (h : rest ∈ afterDirectories text) :
    rest <:+ text := by
  induction text with
  | nil => exact List.mem_singleton.1 h ▸ List.suffix_refl _
  | cons c cs ih =>
    rw [afterDirectories] at h
    split_ifs at h
    · rcases List.mem_cons.1 h with rfl | h
      · exact List.suffix_cons c rest
      · exact (ih h).trans (List.suffix_cons c cs)
    · exact (ih h).trans (List.suffix_cons c cs)

theorem mem_suffixes {text rest : List Char} : rest ∈ suffixes text ↔ rest <:+ text := by
  induction text with
  | nil => simp [suffixes]
  | cons c cs ih => rw [suffixes, List.mem_cons, ih, List.suffix_cons_iff]

theorem matchesText_directories {ps : List Piece} {text : List Char} :
    matchesText (.directories :: ps) text ↔
      matchesText ps text ∨ ∃ rest ∈ afterDirectories text, matchesText ps rest := by
  rw [matchesText, List.any_cons, Bool.or_eq_true, List.any_eq_true]

theorem matchesText_word {word : List Char} {ps : List Piece} {text : List Char} :
    matchesText (word.map .char ++ ps) text ↔
      ∃ rest, text = word ++ rest ∧ matchesText ps rest := by
  induction word generalizing text with
  | nil => simp
  | cons c cs ih =>
    cases text with
    | nil => simp [matchesText]
    | cons d text =>
      have hstep : matchesText (.char c :: (cs.map .char ++ ps)) (d :: text) ↔
          c = d ∧ matchesText (cs.map .char ++ ps) text := by
        rw [matchesText, Bool.and_eq_true]
        · exact and_congr_left fun _ => decide_eq_true_iff
        · exact nofun
        · exact nofun
      rw [List.map_cons, List.cons_append, hstep, ih]
      constructor
      · rintro ⟨rfl, rest, rfl, hrest⟩
        exact ⟨rest, rfl, hrest⟩
      · rintro ⟨rest, heq, hrest⟩
        cases heq
        exact ⟨rfl, rest, rfl, hrest⟩

theorem matchesText_name_slash {word text : List Char} :
    matchesText (word.map .char ++ [.char '/', .directories]) text ↔
      ∃ rest, text = word ++ '/' :: rest := by
  have hall : ∀ rest, matchesText [.directories] rest := fun rest =>
    matchesText_directories.2 (.inr ⟨[], nil_mem_afterDirectories rest, rfl⟩)
  have hslash : ∀ rest, matchesText [.char '/', .directories] rest ↔ ∃ r, rest = '/' :: r := by
    intro rest
    have hchar := @matchesText_word ['/'] [.directories] rest
    simpa [hall] using hchar
  simp only [matchesText_word, hslash]
  constructor
  · rintro ⟨_, rfl, rest, rfl⟩
    exact ⟨rest, rfl⟩
  · rintro ⟨rest, rfl⟩
    exact ⟨_, rfl, rest, rfl⟩

theorem matchesText_below {word text : List Char} (hword : '/' ∉ word) :
    matchesText (.directories :: (word.map .char ++ [.char '/', .directories])) text ↔
      word ∈ (Text.splitAt '/' text).dropLast := by
  -- The name stands in front, or behind one of the slashes.
  have hcons : ∀ (w : List Char) (ws : List (List Char)),
      word ∈ (w :: ws).dropLast ↔ (w = word ∧ ws ≠ []) ∨ word ∈ ws.dropLast := by
    intro w ws
    cases ws <;> simp [eq_comm]
  have hfront : ∀ cs : List Char, (∃ rest, cs = word ++ '/' :: rest) ↔
      ∃ ws, Text.splitAt '/' cs = word :: ws ∧ ws ≠ [] := by
    intro cs
    constructor
    · rintro ⟨rest, rfl⟩
      refine ⟨Text.splitAt '/' rest, ?_, Text.splitAt_ne_nil _ _⟩
      rw [Text.splitAt_append, Text.splitAt_of_not_mem hword, List.singleton_append]
    · rintro ⟨ws, hws, hne⟩
      exact Text.exists_of_splitAt_cons hws hne
  have hbehind : ∀ cs : List Char, (∃ rest ∈ afterDirectories cs, ∃ r, rest = word ++ '/' :: r) ↔
      word ∈ (Text.splitAt '/' cs).tail.dropLast := by
    intro cs
    induction cs with
    | nil => simp [afterDirectories, Text.splitAt]
    | cons c cs ih =>
      obtain ⟨w, ws, hsplit⟩ := List.exists_cons_of_ne_nil (Text.splitAt_ne_nil '/' cs)
      rw [afterDirectories, Text.splitAt]
      rw [hsplit] at ih
      split_ifs with hc
      · have hnext := hfront cs
        rw [hsplit] at hnext
        rw [List.tail_cons] at ih
        rw [List.tail_cons, hsplit, hcons, ← ih]
        simp only [List.mem_cons, exists_eq_or_imp, hnext]
        simp
      · rw [hsplit]
        exact ih
  obtain ⟨w, ws, hsplit⟩ := List.exists_cons_of_ne_nil (Text.splitAt_ne_nil '/' text)
  have hfront := hfront text
  have hbehind := hbehind text
  rw [hsplit] at hfront hbehind
  rw [matchesText_directories, hsplit, hcons]
  simp only [matchesText_name_slash, hfront, hbehind]
  simp

theorem matchesText_ending {word text : List Char} :
    matchesText (.directories :: .anyText :: word.map .char) text ↔ word <:+ text := by
  have hword : ∀ rest, matchesText (word.map .char) rest ↔ rest = word := by
    intro rest
    have hchars := @matchesText_word word [] rest
    simpa [matchesText] using hchars
  have htext : ∀ rest, matchesText (.anyText :: word.map .char) rest ↔ word <:+ rest := by
    intro rest
    rw [matchesText, List.any_eq_true]
    simp only [mem_suffixes, hword, exists_eq_right]
  rw [matchesText_directories]
  simp only [htext]
  constructor
  · rintro (h | ⟨rest, hrest, h⟩)
    · exact h
    · exact h.trans (suffix_of_mem_afterDirectories hrest)
  · exact .inl

/-- The pattern is for all below directories of a name, or for all paths with an ending. -/
def Anywhere (pattern : String) : Prop :=
  ∃ word, IsWord word ∧ word ≠ [] ∧
    (pattern.toList = ['*', '*', '/'] ++ word ++ ['/', '*', '*'] ∨
      pattern.toList = ['*', '*', '/', '*'] ++ word)

theorem suffix_append_slash {word before text : List Char} (hword : '/' ∉ word) :
    word <:+ before ++ '/' :: text ↔ word <:+ text := by
  constructor
  · rintro ⟨front, h⟩
    rcases List.append_eq_append_iff.1 h with ⟨rest, rfl, rfl⟩ | ⟨rest, rfl, hrest⟩
    · exact absurd (by simp) hword
    · cases rest with
      | nil =>
        rw [List.nil_append] at hrest
        exact absurd (hrest ▸ List.mem_cons_self) hword
      | cons c cs =>
        cases hrest
        exact ⟨cs, rfl⟩
  · intro h
    exact h.trans ((List.suffix_cons '/' text).trans (List.suffix_append before _))

theorem Anywhere.matchesText_join {pattern : String} (h : Anywhere pattern) {ps : List Piece}
    (hparse : parse pattern = .ok ps) {base inner : String} (hbase : base ≠ "")
    (hinner : Path.IsRelative inner) (hopen : ¬ matchesText ps (Path.join base "").toList) :
    matchesText ps (Path.join base inner).toList = matchesText ps inner.toList := by
  obtain ⟨before, -, hjoin⟩ := Path.exists_toList_join hbase
  rw [hjoin "" .empty] at hopen
  rw [hjoin inner hinner, Bool.eq_iff_iff]
  obtain ⟨word, hword, hne, hpattern | hpattern⟩ := h
  · rw [parse_below hword hne hpattern, Except.ok.injEq] at hparse
    subst hparse
    rw [matchesText_below hword.no_slash, Text.splitAt_append] at hopen ⊢
    have hlast : Text.splitAt '/' "".toList = [[]] := rfl
    rw [hlast, List.dropLast_concat] at hopen
    rw [List.dropLast_append_of_ne_nil (Text.splitAt_ne_nil _ _), List.mem_append,
      matchesText_below hword.no_slash]
    simp [hopen]
  · rw [parse_ending hword hne hpattern, Except.ok.injEq] at hparse
    subst hparse
    rw [matchesText_ending, matchesText_ending, suffix_append_slash hword.no_slash]

end Glob

end MessageCatalog

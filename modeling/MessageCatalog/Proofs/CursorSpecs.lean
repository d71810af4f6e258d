import MessageCatalog.Proofs.TidyStatements
import MessageCatalog.Proofs.Layout

/-! Reading goes forward: tokens stand one after another, and none is empty but the last. -/

set_option mvcgen.warning false

namespace MessageCatalog.Script
open Text (byteLength)

@[grind =] theorem Node.stand_nil_iff {start stop : Nat} : Node.Stand start stop [] ↔ True :=
  iff_true_intro Node.stand_nil

attribute [grind =] Node.span Node.stand_cons Node.span_toPattern
attribute [grind ←] Node.isLaidOut_of_stand Node.IsLaidOut.toPattern Node.FunctionAt.function
attribute [grind →] Node.FunctionAt.bounds
grind_pattern Node.Stand.mono => Node.Stand start stop ns, Node.Stand start' stop' ns
grind_pattern Node.Stand.append => Node.Stand start' middle ns, Node.Stand middle' stop' ms,
  Node.Stand start stop (ns ++ ms)

theorem byteLength_take_pos {cs : List Char} {n : Nat} (hn : 0 < n) (hcs : cs ≠ []) :
    0 < byteLength (cs.take n) := by
  obtain ⟨c, r, rfl⟩ := List.exists_cons_of_ne_nil hcs
  obtain ⟨n, rfl⟩ := Nat.exists_eq_succ_of_ne_zero (Nat.pos_iff_ne_zero.1 hn)
  rw [List.take_succ_cons, byteLength]
  have := c.utf8Size_pos
  omega

theorem Gap.read_bounds {low : Nat} (state : GapState) (offset : Nat) (newline : Bool)
    (cs : List Char) (hlow : low ≤ offset)
    (hstate : ∀ start line text, state = .blockComment start line text → low ≤ start ∧ start ≤ offset) :
    low ≤ (Gap.read state offset newline cs).stop ∧
      ∀ start ∈ (Gap.read state offset newline cs).unclosed,
        low ≤ start ∧ start ≤ (Gap.read state offset newline cs).stop := by
  fun_induction Gap.read state offset newline cs <;> grind

theorem numberLength_pos {c : Char} {r : List Char}
    (h : c.isDigit ∨ (c = '.' ∧ r.head?.any Char.isDigit)) : 0 < numberLength (c :: r) := by
  unfold numberLength
  grind [countWhile, isDigitPart]

theorem Token.length_pos_of_mem_symbolChars {s : List Char} (h : s ∈ Token.symbolChars) :
    0 < s.length := by
  revert s
  decide

theorem Token.read_pos {cs : List Char} (hend : (Token.read cs).1 ≠ .endOfFile)
    (hinvalid : (Token.read cs).1 ≠ .invalid) : 0 < (Token.read cs).2 ∧ cs ≠ [] := by
  revert hend hinvalid
  fun_cases Token.read cs
  all_goals grind [numberLength_pos, length_pos_of_mem_symbolChars, List.mem_of_find?_eq_some]

namespace Cursor

structure Sound (c : Cursor) : Prop where
  previous : c.previousStop ≤ c.start
  stop : c.start ≤ c.stop
  token : c.token ≠ .endOfFile → c.token ≠ .invalid → c.start < c.stop

@[grind →] theorem Sound.bounds {c : Cursor} (h : c.Sound) : c.previousStop ≤ c.start ∧
    c.start ≤ c.stop ∧ (c.token ≠ .endOfFile → c.token ≠ .invalid → c.start < c.stop) :=
  ⟨h.previous, h.stop, h.token⟩

/-- Reading on leads to the second cursor. -/
structure Reads (c c' : Cursor) : Prop where
  sound : c'.Sound
  start_le : c.start ≤ c'.start
  previousStop_le : c.previousStop ≤ c'.previousStop

@[grind =] theorem reads_iff {c c' : Cursor} : c.Reads c' ↔
    c'.Sound ∧ c.start ≤ c'.start ∧ c.previousStop ≤ c'.previousStop :=
  ⟨fun h => ⟨h.sound, h.start_le, h.previousStop_le⟩, fun h => ⟨h.1, h.2.1, h.2.2⟩⟩

theorem Reads.refl {c : Cursor} (h : c.Sound) : c.Reads c :=
  ⟨h, Nat.le_refl _, Nat.le_refl _⟩

theorem Reads.trans {c c₁ c₂ : Cursor} (h : c.Reads c₁) (h₁ : c₁.Reads c₂) : c.Reads c₂ :=
  ⟨h₁.sound, Nat.le_trans h.start_le h₁.start_le, Nat.le_trans h.previousStop_le h₁.previousStop_le⟩

theorem sound_readAt {c : Cursor} {state : GapState} {newline holds : Bool} {offset : Nat}
    {rest : List Char} (h : c.previousStop ≤ offset)
    (hstate : ∀ start line text, state ≠ .blockComment start line text) :
    (c.readAt state newline holds offset rest).Sound ∧
      offset ≤ (c.readAt state newline holds offset rest).start ∧
      (c.readAt state newline holds offset rest).previousStop = c.previousStop := by
  obtain ⟨hstop, hunclosed⟩ := Gap.read_bounds state offset newline rest (Nat.le_refl offset)
    fun start line text heq => absurd heq (hstate start line text)
  unfold readAt
  dsimp only
  split
  · rename_i start hstart
    obtain ⟨hlow, hle⟩ := hunclosed start hstart
    exact ⟨⟨Nat.le_trans h hlow, hle, fun _ h => absurd rfl h⟩, hlow, rfl⟩
  · refine ⟨⟨Nat.le_trans h hstop, Nat.le_add_right _ _, fun hend hinvalid => ?_⟩, hstop, rfl⟩
    obtain ⟨hpos, hcs⟩ := Token.read_pos hend hinvalid
    exact Nat.lt_add_of_pos_right (byteLength_take_pos hpos hcs)

theorem sound_ofText (text : List Char) : (Cursor.ofText text).Sound := by
  refine (sound_readAt (Nat.le_refl 0) ?_).1
  intro start line text heq
  split at heq <;> cases heq

theorem sound_advance {c : Cursor} : c.advance.Sound ∧ c.stop ≤ c.advance.start ∧
    c.advance.previousStop = c.stop :=
  sound_readAt (Nat.le_refl _) fun _ _ _ => nofun

end Cursor

namespace Parser
open Std.Do Node

variable {α β : Type} {Q : α → Cursor → Prop}

theorem stand_append_of_reads {c c₁ c₂ c₃ : Cursor} {ns ms : List Node} (h : c.Reads c₁)
    (h₁ : c₁.Reads c₂) (h₂ : c₂.Reads c₃) (hns : Stand c.start c₁.previousStop ns)
    (hms : Stand c₂.start c₃.previousStop ms) : Stand c.start c₃.previousStop (ns ++ ms) := by
  have hbehind : c₁.previousStop ≤ c₂.start := Nat.le_trans h.sound.previous h₁.start_le
  have hstart : c.start ≤ c₂.start := Nat.le_trans h.start_le h₁.start_le
  have hstop : c₁.previousStop ≤ c₃.previousStop :=
    Nat.le_trans h₁.previousStop_le h₂.previousStop_le
  exact hns.append hms (Nat.le_refl _) hbehind hstart hstop (Nat.le_refl _)

/-- From the cursor on, the parser reads forward, and leaves a result of this kind. -/
abbrev Reading (c₀ : Cursor) (p : Parser α) (Q : α → Cursor → Prop) : Prop :=
  ⦃fun _ c => ⌜c = c₀⌝⦄ p ⦃⇓? a => fun _ c => ⌜c₀.Sound → c₀.Reads c ∧ Q a c⌝⦄

abbrev ReadingOn (c₀ : Cursor) (p : Parser α) : Prop := Reading c₀ p fun _ _ => True

abbrev Lays (c₀ : Cursor) (p : Parser Node) : Prop :=
  Reading c₀ p fun n c => Stand c₀.start c.previousStop [n]

/-- The same as a goal: no specification of a last call has this form, so that the call is seen to
start where the others have stopped. -/
abbrev ReadingGoal (c₀ : Cursor) (p : Parser α) (Q : α → Cursor → Prop) : Prop :=
  ⦃fun _ c => ⌜c = c₀⌝⦄ p ⦃⇓? a => fun _ c => ⌜c₀.Sound → Q a c ∧ c₀.Reads c⌝⦄

abbrev Peeking (c₀ : Cursor) (p : Parser α) (P : α → Prop) : Prop :=
  ⦃fun _ c => ⌜c = c₀⌝⦄ p ⦃⇓? a => fun _ c => ⌜c = c₀ ∧ P a⌝⦄

theorem starting_iff {c : Cursor} {p : Parser α} :
    ⦃fun _ c' => ⌜c' = c⌝⦄ p ⦃⇓? a => fun _ c' => ⌜Q a c'⌝⦄ ↔
      ∀ m a c', p m c = .ok (a, c') → Q a c' := by
  constructor
  · intro h m a c' hp
    have hrun := h m c rfl
    simp [wp, ReaderT.run, StateT.run, hp] at hrun
    exact hrun
  · rintro h m _ rfl
    simp [wp, ReaderT.run, StateT.run]
    cases hp : p m _ with
    | ok r => exact h m r.1 r.2 hp
    | error e => trivial

theorem reading_iff {c : Cursor} {p : Parser α} : Reading c p Q ↔
    ∀ m a c', p m c = .ok (a, c') → c.Sound → c.Reads c' ∧ Q a c' := starting_iff

theorem peeking_iff {c : Cursor} {p : Parser α} {P : α → Prop} : Peeking c p P ↔
    ∀ m a c', p m c = .ok (a, c') → c' = c ∧ P a := starting_iff

theorem reading {c : Cursor} {p : Parser α} (h : ReadingGoal c p Q) : Reading c p Q := by
  simpa only [Reading, and_comm] using h

theorem readingGoal {c : Cursor} {p : Parser α} (h : Reading c p Q) : ReadingGoal c p Q := by
  simpa only [Reading, and_comm] using h

theorem reading_forall {c : Cursor} {p : Parser α} {Q : Nat → α → Cursor → Prop}
    (h : ∀ s, Reading c p (Q s)) : Reading c p fun a c' => ∀ s, Q s a c' := by
  simp only [reading_iff] at h ⊢
  intro m a c' hp hc
  exact ⟨(h 0 m a c' hp hc).1, fun s => (h s m a c' hp hc).2⟩

theorem fail_reads (c : Cursor) : Reading c fail Q := by
  rw [reading_iff]
  rintro m a c' ⟨⟩

-- Where a rule is gone through step by step, every step says where it has led to.

theorem reading_bind {P : β → Cursor → Prop} {c : Cursor} {p : Parser β} {f : β → Parser α}
    (hp : Reading c p P) (hf : ∀ b c₁, c.Reads c₁ → P b c₁ → Reading c₁ (f b) Q) :
    Reading c (p >>= f) Q := by
  rw [reading_iff] at hp ⊢
  intro m a c₂ h hc
  obtain ⟨b, c₁, hb, ha⟩ := bind_eq_ok.1 h
  obtain ⟨hreads, hP⟩ := hp m b c₁ hb hc
  obtain ⟨hreads₁, hQ⟩ := reading_iff.1 (hf b c₁ hreads hP) m a c₂ ha hreads.1
  exact ⟨hreads.trans hreads₁, hQ⟩

theorem reading_mono {P : α → Cursor → Prop} {c : Cursor} {p : Parser α} (hp : Reading c p P)
    (h : ∀ a c₁, c.Reads c₁ → P a c₁ → Q a c₁) : Reading c p Q := by
  rw [reading_iff] at hp ⊢
  intro m a c₁ ha hc
  obtain ⟨hreads, hP⟩ := hp m a c₁ ha hc
  exact ⟨hreads, h a c₁ hreads hP⟩

theorem reading_of_sound {c : Cursor} {p : Parser α} (h : c.Sound → Reading c p Q) :
    Reading c p Q := by
  rw [reading_iff]
  exact fun m a c₁ ha hc => reading_iff.1 (h hc) m a c₁ ha hc

theorem reading_peek {P : β → Prop} {c : Cursor} {p : Parser β} {f : β → Parser α}
    (hp : Peeking c p P) (hf : ∀ b, P b → Reading c (f b) Q) : Reading c (p >>= f) Q := by
  rw [peeking_iff] at hp
  rw [reading_iff]
  intro m a c₂ h hc
  obtain ⟨b, c₁, hb, ha⟩ := bind_eq_ok.1 h
  obtain ⟨rfl, hP⟩ := hp m b c₁ hb
  exact reading_iff.1 (hf b hP) m a c₂ ha hc

theorem reading_pure {c : Cursor} {a : α} (h : Q a c) : Reading c (pure a) Q := by
  rw [reading_iff]
  rintro m _ _ ⟨⟩ hc
  exact ⟨.refl hc, h⟩

theorem reading_ite {c : Cursor} {b : Prop} [Decidable b] {p q : Parser α} (hp : Reading c p Q)
    (hq : Reading c q Q) : Reading c (if b then p else q) Q := by
  split
  · exact hp
  · exact hq

theorem reading_under {c : Cursor} {p : Parser α} (f : Mode → Mode) (hp : Reading c p Q) :
    Reading c (under f p) Q := by
  rw [reading_iff] at hp ⊢
  exact fun m => hp (f m)

theorem whenTyped_reads {c : Cursor} {p : Parser Unit} (hp : ReadingOn c p) :
    ReadingOn c (whenTyped p) := by
  refine reading_peek (P := fun _ => True) ?_ fun _ _ => reading_ite hp (reading_pure trivial)
  rw [peeking_iff]
  rintro m a c' ⟨⟩
  exact ⟨rfl, trivial⟩

theorem failAt_reads (c : Cursor) (offset : Nat) : Reading c (failAt offset) Q := by
  rw [reading_iff]
  rintro m a c' ⟨⟩

theorem wp_ok (a : Cursor → α) (f : Cursor → Cursor) (m : Mode) (c : Cursor)
    (R : PostCond α (.arg Mode (.arg Cursor (.except ParseError .pure)))) :
    (wp (m := Parser) (fun _ c => .ok (a c, f c))).apply R m c = R.1 (a c) m (f c) := rfl

theorem wp_spanFrom (s : Nat) (f : Span → α) (m : Mode) (c : Cursor)
    (R : PostCond α (.arg Mode (.arg Cursor (.except ParseError .pure)))) :
    (wp (m := Parser) (do return f (← spanFrom s))).apply R m c =
      R.1 (f ⟨s, c.previousStop⟩) m c := rfl

section
variable (c : Cursor)

@[spec 2000] theorem cursor_peeks : Peeking c cursor fun c' => c' = c := by
  rw [peeking_iff]
  rintro m a c' ⟨⟩
  exact ⟨rfl, rfl⟩

@[spec 2000] theorem token_peeks : Peeking c token fun t => t = c.token := by
  rw [peeking_iff]
  rintro m a c' ⟨⟩
  exact ⟨rfl, rfl⟩

@[spec 2000] theorem start_peeks : Peeking c start fun n => n = c.start := by
  rw [peeking_iff]
  rintro m a c' ⟨⟩
  exact ⟨rfl, rfl⟩

@[spec 2000] theorem spanFrom_peeks (s : Nat) :
    Peeking c (spanFrom s) fun span => span = ⟨s, c.previousStop⟩ := by
  rw [peeking_iff]
  rintro m a c' ⟨⟩
  exact ⟨rfl, rfl⟩

@[spec 2000] theorem newline_peeks : Peeking c newline fun _ => True := by
  rw [peeking_iff]
  rintro m a c' ⟨⟩
  exact ⟨rfl, trivial⟩

@[spec 2000] theorem mode_peeks : Peeking c mode fun _ => True := by
  rw [peeking_iff]
  rintro m a c' ⟨⟩
  exact ⟨rfl, trivial⟩

@[spec 2000] theorem loopBound_peeks : Peeking c loopBound fun _ => True := by
  rw [peeking_iff]
  rintro m a c' ⟨⟩
  exact ⟨rfl, trivial⟩

@[spec 2000] theorem ahead_peeks (p : Parser α) : Peeking c (ahead p) fun _ => True := by
  rw [peeking_iff]
  intro m a c' h
  unfold ahead at h
  split at h <;> cases h
  exact ⟨rfl, trivial⟩

theorem ahead_spec (p : Parser α)
    (R : PostCond α (.arg Mode (.arg Cursor (.except ParseError .pure)))) :
    ⦃fun m c => wp⟦p⟧ (fun a _ _ => R.1 a m c, R.2) m c⦄ ahead p ⦃R⦄ := by
  intro m c h
  simp [wp, ReaderT.run, StateT.run, ahead] at h ⊢
  cases hp : p m c with
  | ok r => rw [hp] at h; exact h
  | error e => rw [hp] at h; exact h

@[spec 2000] theorem isSymbol_peeks (s : String) :
    Peeking c (isSymbol s) fun b => b = true → c.token = .symbol s := by
  unfold isSymbol
  mvcgen [-bool_spec]
  all_goals grind -ring -linarith

@[spec 2000] theorem isAnySymbol_peeks (ss : List String) :
    Peeking c (isAnySymbol ss) fun b => b = true → ∃ s, c.token = .symbol s := by
  unfold isAnySymbol
  mvcgen [-bool_spec]
  all_goals grind -ring -linarith

@[spec 2000] theorem isWord_peeks (s : String) :
    Peeking c (isWord s) fun b => b = true → c.token = .word s false := by
  unfold isWord
  mvcgen [-bool_spec]
  all_goals grind -ring -linarith

@[spec 2000] theorem isEnd_peeks : Peeking c isEnd fun _ => True := by
  unfold isEnd
  mvcgen [-bool_spec]
  all_goals grind -ring -linarith

@[spec 2000] theorem endsStatement_peeks : Peeking c endsStatement fun _ => True := by
  unfold endsStatement
  mvcgen [-bool_spec]
  all_goals grind -ring -linarith

@[spec 2000] theorem word?_peeks : Peeking c word? fun _ => True := by
  unfold word?
  mvcgen [-word_spec]
  all_goals grind -ring -linarith

@[spec 2000] theorem name?_peeks :
    Peeking c name? fun r => r.isSome → ∃ text escaped, c.token = .word text escaped := by
  unfold name?
  mvcgen [-word_spec]
  all_goals grind -ring -linarith

end

section
variable (c : Cursor)

@[spec 2000] theorem advance_reads : Reading c advance fun _ c' => c'.previousStop = c.stop := by
  rw [reading_iff]
  rintro m a c' ⟨⟩ hc
  obtain ⟨hsound, hstart, hprevious⟩ := c.sound_advance
  grind -ring -linarith

@[spec 2000] theorem markModule_reads :
    Reading c markModule fun _ c' => c' = { c with isModule := true } := by
  rw [reading_iff]
  rintro m a c' ⟨⟩ ⟨hprevious, hstop, htoken⟩
  exact ⟨⟨⟨hprevious, hstop, htoken⟩, Nat.le_refl _, Nat.le_refl _⟩, rfl⟩

@[spec 2000] theorem eatSymbol_reads (s : String) : Reading c (eatSymbol s) fun b c' =>
    if b then c.start < c'.previousStop else c' = c := by
  unfold eatSymbol
  mvcgen [-bool_spec]
  all_goals grind -ring -linarith

@[spec 2000] theorem eatWord_reads (s : String) : Reading c (eatWord s) fun b c' =>
    if b then c.start < c'.previousStop else c' = c := by
  unfold eatWord
  mvcgen [-bool_spec]
  all_goals grind -ring -linarith

@[spec 2000] theorem expectSymbol_reads (s : String) :
    Reading c (expectSymbol s) fun _ c' => c.start < c'.previousStop := by
  unfold expectSymbol
  mvcgen [-unit_spec]
  all_goals grind -ring -linarith

@[spec 2000] theorem expectWord_reads (s : String) :
    Reading c (expectWord s) fun _ c' => c.start < c'.previousStop := by
  unfold expectWord
  mvcgen [-unit_spec]
  all_goals grind -ring -linarith

@[spec 2000] theorem semicolon_reads : ReadingOn c semicolon := by
  unfold semicolon
  mvcgen [-unit_spec]
  all_goals grind -ring -linarith

@[spec 2000] theorem name_reads : Reading c name fun _ c' => c.start < c'.previousStop := by
  unfold name
  mvcgen [-string_spec]
  all_goals grind -ring -linarith

end

theorem attempt_reads (p : Parser α) (h : ∀ c, ReadingGoal c p fun _ _ => True) (c : Cursor) :
    ReadingOn c (attempt p) := by
  have hp := fun c => reading (h c)
  mvcgen [hp]
  all_goals grind -ring -linarith

section
variable {step : Parser (Option α)} {f : α → List Node}

theorem collect_stands
    (h : ∀ c, Reading c step fun r c' => ∀ a ∈ r, Stand c.start c'.previousStop (f a))
    (bound : Nat) (c : Cursor) : Reading c (collect step bound) fun as c' =>
      Stand c.start c'.previousStop (as.flatMap f) := by
  induction bound generalizing c with
  | zero =>
    unfold collect
    mvcgen
    simp_all
  | succ bound ih =>
    unfold collect
    mvcgen [h, ih]
    all_goals grind -ring -linarith

theorem many_stands (f : α → List Node) (step : Parser (Option α))
    (h : ∀ c, ReadingGoal c step fun r c' => ∀ a ∈ r, Stand c.start c'.previousStop (f a))
    (c : Cursor) : Reading c (many step) fun as c' =>
      Stand c.start c'.previousStop (as.flatMap f) := by
  have hcollect := collect_stands fun c => reading (h c)
  unfold many
  mvcgen [hcollect]
  all_goals grind -ring -linarith

theorem grow_stands {s : Nat} {step : α → Parser (Option α)}
    (h : ∀ a c, Reading c (step a) fun r c' => s ≤ c.start → Stand s c.previousStop (f a) →
      ∀ b ∈ r, Stand s c'.previousStop (f b))
    (bound : Nat) (a : α) (c : Cursor) : Reading c (grow step bound a) fun b c' =>
      s ≤ c.start → Stand s c.previousStop (f a) → Stand s c'.previousStop (f b) := by
  induction bound generalizing a c with
  | zero =>
    unfold grow
    mvcgen
    simp_all
  | succ bound ih =>
    apply reading
    unfold grow
    mvcgen [h, ih]
    all_goals grind -ring -linarith

theorem iterate_stands (f : α → List Node) (s : Nat) (step : α → Parser (Option α)) (a : α)
    (h : ∀ a c, ReadingGoal c (step a) fun r c' => s ≤ c.start → Stand s c.previousStop (f a) →
      ∀ b ∈ r, Stand s c'.previousStop (f b))
    (c : Cursor) : Reading c (iterate step a) fun b c' =>
      s ≤ c.start → Stand s c.previousStop (f a) → Stand s c'.previousStop (f b) := by
  have hgrow := grow_stands fun a c => reading (h a c)
  unfold iterate
  mvcgen [hgrow]
  all_goals grind -ring -linarith

theorem stand_flatMap_append {s stop stop' middle middle' : Nat} {as : List α} {a : α}
    (has : Stand s middle (as.flatMap f)) (ha : Stand middle' stop' (f a))
    (hmiddle : middle ≤ middle') (hstart : s ≤ middle') (hle : middle ≤ stop)
    (hstop : stop' ≤ stop) : Stand s stop ((as ++ [a]).flatMap f) := by
  rw [List.flatMap_append, List.flatMap_singleton]
  exact has.append ha (Nat.le_refl _) hmiddle hstart hle hstop

theorem commaList_stands (f : α → List Node) (close : String) (item : Parser α)
    (h : ∀ c, ReadingGoal c item fun a c' => Stand c.start c'.previousStop (f a)) (c : Cursor) :
    Reading c (commaList close item) fun as c' =>
      c.start < c'.previousStop ∧ Stand c.start c'.previousStop (as.flatMap f) := by
  have hmany := many_stands f
  have hitem := fun c => reading (h c)
  unfold commaList
  mvcgen [hmany, hitem]
  all_goals grind -ring -linarith

-- The loops as most rules use them.

theorem many_reads (step : Parser (Option α)) (h : ∀ c, ReadingGoal c step fun _ _ => True)
    (c : Cursor) : ReadingOn c (many step) := by
  have hstep := fun c => reading (h c)
  have hmany := many_stands (fun _ => []) step
  mvcgen [hmany, hstep]
  all_goals grind -ring -linarith

theorem commaList_reads (close : String) (item : Parser α)
    (h : ∀ c, ReadingGoal c item fun _ _ => True) (c : Cursor) :
    Reading c (commaList close item) fun _ c' => c.start < c'.previousStop := by
  have hitem := fun c => reading (h c)
  have hlist := commaList_stands (fun _ => []) close item
  mvcgen [hlist, hitem]
  all_goals grind -ring -linarith

theorem many_nodes (step : Parser (Option Node))
    (h : ∀ c, ReadingGoal c step fun r c' => ∀ n ∈ r, Stand c.start c'.previousStop [n])
    (c : Cursor) : Reading c (many step) fun ns c' => Stand c.start c'.previousStop ns := by
  simpa using many_stands (fun n => [n]) step h c

theorem many_lists (step : Parser (Option (List Node)))
    (h : ∀ c, ReadingGoal c step fun r c' => ∀ ns ∈ r, Stand c.start c'.previousStop ns)
    (c : Cursor) : Reading c (many step) fun nss c' => Stand c.start c'.previousStop nss.flatten := by
  simpa using many_stands (fun ns => ns) step h c

theorem commaList_nodes (close : String) (item : Parser Node)
    (h : ∀ c, ReadingGoal c item fun n c' => Stand c.start c'.previousStop [n]) (c : Cursor) :
    Reading c (commaList close item) fun ns c' =>
      c.start < c'.previousStop ∧ Stand c.start c'.previousStop ns := by
  simpa using commaList_stands (fun n => [n]) close item h c

theorem commaList_options (close : String) (item : Parser (Option Node))
    (h : ∀ c, ReadingGoal c item fun r c' => Stand c.start c'.previousStop r.toList) (c : Cursor) :
    Reading c (commaList close item) fun rs c' =>
      c.start < c'.previousStop ∧ Stand c.start c'.previousStop (rs.filterMap id) := by
  simpa [List.filterMap_eq_flatMap_toList] using commaList_stands Option.toList close item h c

end

end Parser

end MessageCatalog.Script

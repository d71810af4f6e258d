import Mathlib
import MessageCatalog.Script.Parser

/-! What the results of a parser have in common, as specifications that hold wherever the parser is
run: where it fails, nothing is claimed. -/

set_option mvcgen.warning false

namespace MessageCatalog.Script.Parser
open Std.Do

variable {α β : Type} {P : α → Prop}

/-- Every result of the parser is of this kind. -/
abbrev Gives (p : Parser α) (P : α → Prop) : Prop := ⦃⌜True⌝⦄ p ⦃⇓? a => ⌜P a⌝⦄

theorem gives_iff {p : Parser α} :
    Gives p P ↔ ∀ m c a c', p m c = .ok (a, c') → P a := by
  constructor
  · intro h m c a c' hp
    have hrun := h m c trivial
    simp [wp, ReaderT.run, StateT.run, hp] at hrun
    exact hrun
  · intro h m c _
    simp [wp, ReaderT.run, StateT.run]
    cases hp : p m c with
    | ok r => exact h m c r.1 r.2 hp
    | error e => trivial

theorem gives_true (p : Parser α) : Gives p fun _ => True :=
  gives_iff.2 fun _ _ _ _ _ => trivial

theorem bind_eq_ok {p : Parser α} {f : α → Parser β} {m : Mode} {c : Cursor} {r : β × Cursor} :
    (p >>= f) m c = .ok r ↔ ∃ a c₁, p m c = .ok (a, c₁) ∧ f a m c₁ = .ok r := by
  show Except.bind (p m c) (fun x => f x.1 m x.2) = .ok r ↔ _
  cases hp : p m c with
  | ok x => simp [Except.bind, Prod.ext_iff]
  | error e => simp [Except.bind]

-- Short rules are left to the specifications of their steps; the long ones are gone through step
-- by step, so that what is read on the way gets a name.

theorem gives_bind {Q : β → Prop} {p : Parser α} {f : α → Parser β} (hp : Gives p P)
    (hf : ∀ a, P a → Gives (f a) Q) : Gives (p >>= f) Q := by
  rw [gives_iff] at hp ⊢
  intro m c b c' h
  obtain ⟨a, c₁, ha, hb⟩ := bind_eq_ok.1 h
  exact gives_iff.1 (hf a (hp m c a c₁ ha)) m c₁ b c' hb

theorem gives_skip {Q : β → Prop} {p : Parser α} {f : α → Parser β}
    (hf : ∀ a, Gives (f a) Q) : Gives (p >>= f) Q :=
  gives_bind (gives_true p) fun a _ => hf a

theorem gives_pure {a : α} (h : P a) : Gives (pure a) P := by
  rw [gives_iff]
  rintro m c _ _ ⟨⟩
  exact h

theorem gives_ite {b : Prop} [Decidable b] {p q : Parser α} (hp : Gives p P) (hq : Gives q P) :
    Gives (if b then p else q) P := by
  split
  · exact hp
  · exact hq

theorem gives_fail : Gives fail P := by
  rw [gives_iff]
  rintro m c _ _ ⟨⟩

theorem gives_failAt (offset : Nat) : Gives (failAt offset) P := by
  rw [gives_iff]
  rintro m c _ _ ⟨⟩

theorem gives_under {p : Parser α} (f : Mode → Mode) (hp : Gives p P) : Gives (under f p) P := by
  rw [gives_iff] at hp ⊢
  exact fun m c => hp (f m) c

-- Nothing need be known of results that hold no nodes. Each type has a specification of its own,
-- because one for all types would be taken before those of the rules.

@[spec] theorem unit_spec (p : Parser Unit) : Gives p fun _ => True := gives_true p

@[spec] theorem bool_spec (p : Parser Bool) : Gives p fun _ => True := gives_true p

@[spec] theorem nat_spec (p : Parser Nat) : Gives p fun _ => True := gives_true p

@[spec] theorem span_spec (p : Parser Span) : Gives p fun _ => True := gives_true p

@[spec] theorem token_spec (p : Parser Token) : Gives p fun _ => True := gives_true p

@[spec] theorem mode_spec (p : Parser Mode) : Gives p fun _ => True := gives_true p

@[spec] theorem cursor_spec (p : Parser Cursor) : Gives p fun _ => True := gives_true p

@[spec] theorem string_spec (p : Parser String) : Gives p fun _ => True := gives_true p

@[spec] theorem word_spec (p : Parser (Option String)) : Gives p fun _ => True := gives_true p

@[spec] theorem kind_spec (p : Parser (Option VarKind)) : Gives p fun _ => True := gives_true p

@[spec] theorem next_spec (p : Parser (Option Token)) : Gives p fun _ => True := gives_true p

@[spec] theorem units_spec (p : Parser (List Unit)) : Gives p fun _ => True := gives_true p

@[spec] theorem strings_spec (p : Parser (List String)) : Gives p fun _ => True := gives_true p

@[spec] theorem fail_spec : Gives (fail : Parser α) fun _ => False := gives_fail

@[spec] theorem failAt_spec (offset : Nat) : Gives (failAt offset : Parser α) fun _ => False :=
  gives_failAt offset

@[spec] theorem under_spec (f : Mode → Mode) (p : Parser α)
    (Q : PostCond α (.arg Mode (.arg Cursor (.except ParseError .pure)))) :
    ⦃fun m c => wp⟦p⟧ (fun a _ c' => Q.1 a m c', Q.2) (f m) c⦄ under f p ⦃Q⦄ := by
  intro m c h
  exact h

@[spec] theorem attempt_spec (p : Parser α)
    (Q : PostCond (Option α) (.arg Mode (.arg Cursor (.except ParseError .pure)))) :
    ⦃fun m c => wp⟦p⟧ (fun a _ c' => Q.1 (some a) m c', (fun _ => Q.1 none m c, ())) m c⦄
      attempt p ⦃Q⦄ := by
  intro m c h
  simp [wp, ReaderT.run, StateT.run, attempt] at h ⊢
  cases hp : p m c with
  | ok r => rw [hp] at h; exact h
  | error e => rw [hp] at h; exact h

theorem collect_gives {step : Parser (Option α)} (h : Gives step fun r => ∀ a ∈ r, P a)
    (bound : Nat) : Gives (collect step bound) fun as => ∀ a ∈ as, P a := by
  induction bound with
  | zero =>
    unfold collect
    mvcgen
    simp_all
  | succ bound ih =>
    unfold collect
    mvcgen [h, ih]
    all_goals simp_all

theorem many_gives (P : α → Prop) (step : Parser (Option α))
    (h : Gives step fun r => ∀ a ∈ r, P a) : Gives (many step) fun as => ∀ a ∈ as, P a := by
  have hcollect := collect_gives h
  unfold many
  mvcgen [hcollect]

theorem grow_gives {step : α → Parser (Option α)}
    (h : ∀ a, P a → Gives (step a) fun r => ∀ b ∈ r, P b) (bound : Nat) {a : α} (ha : P a) :
    Gives (grow step bound a) P := by
  induction bound generalizing a with
  | zero =>
    unfold grow
    mvcgen
    simp_all
  | succ bound ih =>
    have hstep := h a ha
    unfold grow
    mvcgen [hstep, ih]
    all_goals simp_all

theorem iterate_gives (P : α → Prop) (step : α → Parser (Option α)) (a : α) (ha : P a)
    (h : ∀ a, P a → Gives (step a) fun r => ∀ b ∈ r, P b) : Gives (iterate step a) P := by
  have hgrow := fun bound => grow_gives h bound ha
  unfold iterate
  mvcgen [hgrow]

theorem commaList_gives (P : α → Prop) (close : String) (item : Parser α) (h : Gives item P) :
    Gives (commaList close item) fun as => ∀ a ∈ as, P a := by
  have hmany := many_gives P
  unfold commaList
  mvcgen [hmany, h]
  all_goals simp_all

end MessageCatalog.Script.Parser

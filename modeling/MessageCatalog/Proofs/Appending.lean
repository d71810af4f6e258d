import Mathlib.Logic.Relation
import MessageCatalog.Proofs.MergedParts

/-! Drafts that are appended to call by call. Whatever the calls are, and whichever of them fail,
the parts are those of the characters and placeholders appended so far, in the one tidy form. -/

namespace MessageCatalog

namespace Part

def name? : Part → Option String
  | .text _ => none
  | .placeholder name => some name

inductive Resplit : List Part → List Part → Prop where
  | split (before after : List Part) (a b : String) :
    Resplit (before ++ .text (a ++ b) :: after) (before ++ .text a :: .text b :: after)
  | drop (before after : List Part) : Resplit (before ++ .text "" :: after) (before ++ after)

theorem lettersOf_append (ps qs : List Part) :
    lettersOf (ps ++ qs) = lettersOf ps ++ lettersOf qs := List.flatMap_append

theorem Resplit.lettersOf {ps qs : List Part} (h : Resplit ps qs) :
    Part.lettersOf ps = Part.lettersOf qs := by
  cases h with
  | split before after a b => simp [lettersOf_append, letters]
  | drop before after => simp [lettersOf_append, letters]

theorem lettersOf_of_eqvGen {ps qs : List Part} (h : Relation.EqvGen Resplit ps qs) :
    lettersOf ps = lettersOf qs := by
  induction h with
  | rel ps qs h => exact h.lettersOf
  | refl ps => rfl
  | symm ps qs _ ih => exact ih.symm
  | trans ps qs rs _ _ ih ih' => exact ih.trans ih'

theorem merged_append (ps qs : List Part) : merged (ps ++ qs) = joined (merged ps) (merged qs) := by
  induction ps with
  | nil => rfl
  | cons p ps ih => rw [List.cons_append, merged_cons, ih, merged_cons p ps, joined_assoc]

theorem renderAll_eq (ps : List Part) :
    renderAll ps = (lettersOf ps).flatMap
      (Sum.elim (fun c => [c]) fun name => render (.placeholder name)) := by
  induction ps with
  | nil => rfl
  | cons p ps ih =>
    rw [renderAll_cons, ih, lettersOf_cons, List.flatMap_append]
    cases p with
    | text value => simp [letters, render, List.flatMap_map]
    | placeholder name => simp [letters]

theorem filterMap_name?_eq (ps : List Part) :
    ps.filterMap name? = (lettersOf ps).filterMap Sum.getRight? := by
  induction ps with
  | nil => rfl
  | cons p ps ih =>
    rw [List.filterMap_cons, ih, lettersOf_cons, List.filterMap_append]
    cases p with
    | text value => simp [letters, name?, List.filterMap_map]
    | placeholder name => simp [letters, name?]

theorem renderAll_merged (ps : List Part) : renderAll (merged ps) = renderAll ps := by
  rw [renderAll_eq, lettersOf_merged, ← renderAll_eq]

theorem filterMap_name?_merged (ps : List Part) :
    (merged ps).filterMap name? = ps.filterMap name? := by
  rw [filterMap_name?_eq, lettersOf_merged, ← filterMap_name?_eq]

structure FirstUses (xs ys : List String) : Prop where
  mem : ∀ x, x ∈ xs ↔ x ∈ ys
  nodup : xs.Nodup
  order : xs.Pairwise fun x y => ys.idxOf x < ys.idxOf y

theorem eraseDups_concat (ys : List String) (y : String) :
    (ys ++ [y]).eraseDups = ys.eraseDups ++ if y ∈ ys then [] else [y] := by
  rw [List.eraseDups_append, List.cons_removeAll]
  by_cases h : y ∈ ys <;> simp [h, List.eraseDups_cons]

theorem firstUses_eraseDups (ys : List String) : FirstUses ys.eraseDups ys := by
  have horder : ys.eraseDups.Pairwise fun x y => ys.idxOf x < ys.idxOf y := by
    induction ys using List.reverseRecOn with
    | nil => exact .nil
    | append_singleton ys y ih =>
      have hsame : ∀ x ∈ ys, (ys ++ [y]).idxOf x = ys.idxOf x := fun _ =>
        List.idxOf_append_of_mem
      rw [eraseDups_concat, List.pairwise_append]
      refine ⟨ih.imp_of_mem fun hx hx' h => ?_, ?_, fun x hx z hz => ?_⟩
      · rw [hsame _ (List.mem_eraseDups.1 hx), hsame _ (List.mem_eraseDups.1 hx')]
        exact h
      · split_ifs <;> simp
      · -- A new element stands behind all others.
        split_ifs at hz with hy
        · cases hz
        · obtain rfl := List.mem_singleton.1 hz
          have hx := List.mem_eraseDups.1 hx
          rw [hsame x hx, List.idxOf_append, if_neg hy]
          exact (List.idxOf_lt_length_of_mem hx).trans_le (Nat.le_add_left _ _)
  exact ⟨fun _ => List.mem_eraseDups, horder.imp fun h hxy => by simp [hxy] at h, horder⟩

theorem placeholders_eq (ps : List Part) : placeholders ps = (ps.filterMap name?).eraseDups := by
  refine congrArg List.eraseDups (List.filterMap_congr fun p _ => ?_)
  cases p <;> rfl

end Part

inductive Appending where
  | text (value : String)
  | placeholder (name : String)
  | message (value : String)
  deriving Repr, DecidableEq

namespace Appending
open MessageCatalog.Part

def appendAll (ps : List Part) : ExceptT PlaceholderError (StateM Draft) Unit := do
  for p in ps do
    modify (·.appendPart p)

/-- The call on a draft that is changed in place. An error ends it, and what has been changed by
then stays changed. -/
def perform : Appending → ExceptT PlaceholderError (StateM Draft) Unit
  | .text value => modify (·.appendText value)
  | .placeholder name => modify (·.appendPlaceholder name)
  | .message value => do appendAll (← ExceptT.mk (pure (Part.parse value)))

def call (a : Appending) (d : Draft) : Except PlaceholderError Unit × Draft :=
  (a.perform.run.run d).run

def run : List Appending → Draft → Draft
  | [], d => d
  | a :: as, d => run as (a.call d).2

def parts : Appending → List Part
  | .text value => [.text value]
  | .placeholder name => [.placeholder name]
  | .message value =>
    match Part.parse value with
    | .ok parts => parts
    | .error _ => []

def written : Appending → String
  | .text value => value
  | .placeholder name => "\x7b$" ++ name ++ "\x7d"
  | .message value => if (Part.parse value).isOk then value else ""

def names (a : Appending) : List String := a.parts.filterMap name?

theorem run_appendAll (ps : List Part) (d : Draft) :
    (appendAll ps).run.run d = (.ok (), ps.foldl Draft.appendPart d) := by
  induction ps generalizing d with
  | nil => rfl
  | cons p ps ih =>
    rw [List.foldl_cons, ← ih]
    simp only [appendAll, List.forIn_cons]
    rfl

theorem call_message (value : String) (d : Draft) :
    (message value).call d =
      match d.appendMessage value with
      | .ok d' => (.ok (), d')
      | .error e => (.error e, d) := by
  rw [call, perform, Draft.appendMessage]
  cases Part.parse value with
  | error e => rfl
  | ok ps => exact run_appendAll ps d

def apply (d : Draft) : Appending → Except PlaceholderError Draft
  | .text value => .ok (d.appendText value)
  | .placeholder name => .ok (d.appendPlaceholder name)
  | .message value => d.appendMessage value

theorem call_eq_apply (a : Appending) (d : Draft) :
    a.call d =
      match apply d a with
      | .ok d' => (.ok (), d')
      | .error e => (.error e, d) := by
  cases a with
  | text value => rfl
  | placeholder name => rfl
  | message value => exact call_message value d

theorem call_eq_error_iff {a : Appending} {d : Draft} {e : PlaceholderError} :
    (a.call d).1 = .error e ↔ ∃ value, a = .message value ∧ Part.parse value = .error e := by
  cases a with
  | text value => exact iff_of_false nofun nofun
  | placeholder name => exact iff_of_false nofun nofun
  | message value =>
    rw [call_message, Draft.appendMessage]
    cases hparse : Part.parse value <;> simp [hparse]

theorem call_of_error {a : Appending} {d : Draft} {e : PlaceholderError}
    (h : (a.call d).1 = .error e) : (a.call d).2 = d := by
  obtain ⟨value, rfl, hparse⟩ := call_eq_error_iff.1 h
  rw [call_message, Draft.appendMessage, hparse]

theorem call_eq (a : Appending) (d : Draft) :
    (a.call d).2 = { d with parts := joined d.parts (merged a.parts) } := by
  cases a with
  | text value => exact Draft.appendPart_eq d (.text value)
  | placeholder name => exact Draft.appendPart_eq d (.placeholder name)
  | message value =>
    rw [call_message, Draft.appendMessage, parts]
    cases Part.parse value with
    | error e => rw [merged, joined_nil]
    | ok ps => exact Draft.foldl_appendPart_eq d ps

theorem run_eq (as : List Appending) (d : Draft) :
    run as d = { d with parts := joined d.parts (merged (as.flatMap parts)) } := by
  induction as generalizing d with
  | nil => rw [run, List.flatMap_nil, merged, joined_nil]
  | cons a as ih =>
    rw [run, ih, call_eq, List.flatMap_cons, merged_append, joined_assoc]

theorem run_of_parts_eq_nil {d : Draft} (h : d.parts = []) (as : List Appending) :
    run as d = { d with parts := merged (as.flatMap parts) } := by
  rw [run_eq, h]
  rfl

theorem renderAll_parts (a : Appending) : renderAll a.parts = a.written.toList := by
  cases a with
  | text value => simp [parts, written, render]
  | placeholder name => simp [parts, written, render_placeholder]
  | message value =>
    rw [parts, written]
    cases hparse : Part.parse value with
    | error e => rfl
    | ok ps => exact (parse_eq_ok_iff_cuts.1 hparse).renderAll_eq

theorem textOf_flatMap_parts (as : List Appending) :
    textOf (as.flatMap parts) = String.join (as.map written) := by
  rw [textOf_eq_iff, String.toList_join]
  induction as with
  | nil => rfl
  | cons a as ih =>
    simp only [List.flatMap_cons, List.map_cons, renderAll_append, renderAll_parts, ih]

/-- A draft is appended to, beginning with no parts. At every moment its parts are tidy, its text is
what the calls that succeeded have written, and its placeholders are those named by them, each once
and in the order of first use. Each call is all of what drafts append for it, and one that fails
leaves all of the draft as it was. Two drafts with one key and one description get the same parts and
the same id if the same was appended to them, up to how texts are split. -/
theorem run_appendings {d : Draft} (hd : d.parts = []) (as : List Appending) :
    Tidy (run as d).parts ∧
    textOf (run as d).parts = String.join (as.map written) ∧
    FirstUses (run as d).placeholders (as.flatMap names) ∧
    (∀ a : Appending, a.call (run as d) =
      match apply (run as d) a with
      | .ok d' => (.ok (), d')
      | .error e => (.error e, run as d)) ∧
    (∀ (a : Appending) (e : PlaceholderError), ((a.call (run as d)).1 = .error e ↔
        ∃ value, a = .message value ∧ Part.parse value = .error e) ∧
      ((a.call (run as d)).1 = .error e → (a.call (run as d)).2 = run as d)) ∧
    ∀ (d' : Draft) (as' : List Appending), d'.parts = [] → d'.key = d.key →
      d'.metadata = d.metadata →
      Relation.EqvGen Resplit (as.flatMap parts) (as'.flatMap parts) → ∀ generator,
        (Draft.build generator (run as' d')).parts = (Draft.build generator (run as d)).parts ∧
        (Draft.build generator (run as' d')).id = (Draft.build generator (run as d)).id := by
  have hrun := run_of_parts_eq_nil hd as
  refine ⟨?_, ?_, ?_, fun a => call_eq_apply a _, fun a e => ⟨call_eq_error_iff, call_of_error⟩, ?_⟩
  · rw [hrun]
    exact tidy_merged _
  · rw [hrun, ← textOf_flatMap_parts, textOf, textOf, renderAll_merged]
  · have hnames : as.flatMap names = (as.flatMap parts).filterMap name? :=
      (List.filterMap_flatMap).symm
    rw [hrun, Draft.placeholders, placeholders_eq, filterMap_name?_merged, hnames]
    exact firstUses_eraseDups _
  · intro d' as' hd' hkey hmetadata hsame generator
    have hparts : merged (as'.flatMap parts) = merged (as.flatMap parts) :=
      merged_congr (lettersOf_of_eqvGen hsame).symm
    rw [hrun, run_of_parts_eq_nil hd', hparts]
    simp only [Draft.build, hkey, hmetadata, and_self]

section Greeting

def greeting : List Appending :=
  [.text "Hi ", .message "\x7b$name", .message "\x7b$name\x7d!"]

def piecemeal : List Appending :=
  [.text "H", .text "i ", .placeholder "name", .text "", .text "!"]

theorem parse_greeting : Part.parse "\x7b$name" = .error (.unterminated 0) ∧
    Part.parse "\x7b$name\x7d!" = .ok [.placeholder "name", .text "!"] := by
  constructor
  · rw [Part.parse, parseFrom_eq]
    rfl
  · exact parseFrom_of_cuts (@Cuts.placeholder [] "name".toList "!".toList _ (by decide) (by decide)
      (by decide) (.plain (by decide))) 0

theorem parts_greeting :
    greeting.flatMap parts = [.text "Hi ", .placeholder "name", .text "!"] := by
  simp only [greeting, List.flatMap_cons, List.flatMap_nil, parts, parse_greeting]
  rfl

theorem run_appendings_greeting :
    Relation.EqvGen Resplit (greeting.flatMap parts) (piecemeal.flatMap parts) ∧
      textOf (run greeting {}).parts = "Hi \x7b$name\x7d!" ∧
      (Draft.build .key (run piecemeal {})).id = (Draft.build .key (run greeting {})).id := by
  have hsame : Relation.EqvGen Resplit (greeting.flatMap parts) (piecemeal.flatMap parts) := by
    rw [parts_greeting]
    refine .trans _ _ _ (.rel _ _ (.split [] _ "H" "i ")) (.symm _ _ (.rel _ _ ?_))
    exact .drop [.text "H", .text "i ", .placeholder "name"] [.text "!"]
  obtain ⟨-, htext, -, -, -, hbuild⟩ := run_appendings (d := {}) rfl greeting
  refine ⟨hsame, ?_, (hbuild {} piecemeal rfl rfl rfl hsame .key).2⟩
  rw [htext]
  simp only [greeting, List.map_cons, List.map_nil, written, parse_greeting]
  decide

end Greeting

end Appending
end MessageCatalog

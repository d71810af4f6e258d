import Mathlib.Algebra.Group.Nat.Defs
import MessageCatalog.Message.Basic

/-! What fingerprints tell apart. Each step after a part is a bijection of the state, so that a
difference in one part is neither lost in the parts behind it nor in the written id. -/

namespace MessageCatalog

namespace Fingerprint

def inverse : UInt64 := 0x781494a55daaed0d

theorem factor_mul_inverse : factor * inverse = 1 := by decide

theorem mul_factor_inj {a b : UInt64} : a * factor = b * factor ↔ a = b := by
  refine ⟨fun h => ?_, fun h => by rw [h]⟩
  have hcancel := congrArg (· * inverse) h
  simpa only [UInt64.mul_assoc, factor_mul_inverse, UInt64.mul_one] using hcancel

theorem absorb_left_inj {state state' word : UInt64} :
    absorb state word = absorb state' word ↔ state = state' := by
  rw [absorb, absorb, mul_factor_inj, UInt64.add_left_inj]

theorem absorb_right_inj {state word word' : UInt64} :
    absorb state word = absorb state word' ↔ word = word' := by
  rw [absorb, absorb, mul_factor_inj, UInt64.add_right_inj]

theorem toNat_finish (state : UInt64) :
    (finish state).toNat = state.toNat % 2 ^ 38 * 2 ^ 26 + state.toNat / 2 ^ 38 := by
  have hlt := state.toNat_lt
  have hhigh : state.toNat / 2 ^ 38 < 2 ^ 26 := by omega
  have hlow : state.toNat * 2 ^ 26 % 2 ^ 64 = state.toNat % 2 ^ 38 * 2 ^ 26 := by omega
  rw [finish, UInt64.toNat_or, UInt64.toNat_shiftLeft, UInt64.toNat_shiftRight]
  calc state.toNat <<< 26 % 2 ^ 64 ||| state.toNat >>> 38
      = (state.toNat % 2 ^ 38) <<< 26 ||| state.toNat / 2 ^ 38 := by
        rw [Nat.shiftLeft_eq, Nat.shiftRight_eq_div_pow, hlow, Nat.shiftLeft_eq]
    _ = _ := by rw [← Nat.shiftLeft_add_eq_or_of_lt hhigh, Nat.shiftLeft_eq]

theorem finish_inj {state state' : UInt64} : finish state = finish state' ↔ state = state' := by
  refine ⟨fun h => ?_, fun h => by rw [h]⟩
  have hnat := congrArg UInt64.toNat h
  rw [toNat_finish, toNat_finish] at hnat
  have hlt := state.toNat_lt
  have hlt' := state'.toNat_lt
  exact UInt64.toNat_inj.1 (by omega)

theorem absorbPart_left_inj {state state' : UInt64} {p : Part} :
    absorbPart state p = absorbPart state' p ↔ state = state' := by
  cases p <;> simp only [absorbPart, absorbText, absorb_left_inj]

theorem foldl_absorbPart_inj {state state' : UInt64} {ps : List Part} :
    ps.foldl absorbPart state = ps.foldl absorbPart state' ↔ state = state' := by
  induction ps generalizing state state' with
  | nil => rfl
  | cons p ps ih => rw [List.foldl_cons, List.foldl_cons, ih, absorbPart_left_inj]

def stateAfter (context : Option String) (ps : List Part) : UInt64 :=
  let start := match context with
    | some text => absorbText 0 text
    | none => 0
  ps.foldl absorbPart (absorb start 0xff)

theorem ofParts_eq (context : Option String) (ps : List Part) :
    ofParts context ps = finish (stateAfter context ps) := rfl

theorem stateAfter_append (context : Option String) (ps qs : List Part) :
    stateAfter context (ps ++ qs) = qs.foldl absorbPart (stateAfter context ps) :=
  List.foldl_append

theorem ofParts_eq_iff {context : Option String} {ps qs : List Part} {p q : Part} :
    ofParts context (ps ++ [p] ++ qs) = ofParts context (ps ++ [q] ++ qs) ↔
      absorbPart (stateAfter context ps) p = absorbPart (stateAfter context ps) q := by
  simp only [ofParts_eq, finish_inj, stateAfter_append, foldl_absorbPart_inj, List.foldl_cons,
    List.foldl_nil]

structure Separates {α : Type} (f : List Part → α) : Prop where
  kinds : ∀ ps qs x, f (ps ++ [.text x] ++ qs) ≠ f (ps ++ [.placeholder x] ++ qs)
  texts : ∀ ps qs x y, f (ps ++ [.text x] ++ qs) = f (ps ++ [.text y] ++ qs) ↔
    ofBytes x.toUTF8.toList = ofBytes y.toUTF8.toList
  names : ∀ ps qs x y, f (ps ++ [.placeholder x] ++ qs) = f (ps ++ [.placeholder y] ++ qs) ↔
    ofBytes x.toUTF8.toList = ofBytes y.toUTF8.toList

theorem separates_ofParts (context : Option String) : Separates (ofParts context) where
  kinds ps qs x := by
    rw [Ne, ofParts_eq_iff, absorbPart, absorbPart, absorbText, absorbText, absorb_left_inj,
      absorb_right_inj]
    decide
  texts ps qs x y := by
    rw [ofParts_eq_iff, absorbPart, absorbPart, absorbText, absorbText, absorb_right_inj]
  names ps qs x y := by
    rw [ofParts_eq_iff, absorbPart, absorbPart, absorbText, absorbText, absorb_right_inj]

theorem hexDigit_inj : ∀ a < 16, ∀ b < 16, hexDigit a = hexDigit b → a = b := by decide

theorem hex_inj {places n m : Nat} (hn : n < 16 ^ places) (hm : m < 16 ^ places)
    (h : hex places n = hex places m) : n = m := by
  induction places generalizing n m with
  | zero => omega
  | succ places ih =>
    rw [Nat.pow_succ] at hn hm
    obtain ⟨hhigh, hlow⟩ := List.append_inj' h rfl
    have hquotient : n / 16 = m / 16 := ih (by omega) (by omega) hhigh
    have hdigit : n % 16 = m % 16 :=
      hexDigit_inj _ (by omega) _ (by omega) (List.singleton_inj.1 hlow)
    omega

theorem hex_toNat_inj {a b : UInt64} : hex 16 a.toNat = hex 16 b.toNat ↔ a = b := by
  have hfits : ∀ word : UInt64, word.toNat < 16 ^ 16 := fun word => word.toNat_lt
  exact ⟨fun h => UInt64.toNat_inj.1 (hex_inj (hfits a) (hfits b) h), fun h => by rw [h]⟩

theorem toString_toNat_inj {a b : UInt64} : toString a.toNat = toString b.toNat ↔ a = b := by
  refine ⟨fun h => UInt64.toNat_inj.1 ?_, fun h => by rw [h]⟩
  have hdigits : Nat.toDigits 10 a.toNat = Nat.toDigits 10 b.toNat := by
    simpa only [Nat.toString_eq_repr, Nat.toList_repr] using congrArg String.toList h
  rw [← @Nat.ofDigitChars_ten_toDigits a.toNat, hdigits, Nat.ofDigitChars_ten_toDigits]

theorem makeId_key_eq_iff {ps qs : List Part} {m m' : Metadata} :
    IdStrategy.key.makeId none ps m = IdStrategy.key.makeId none qs m' ↔
      ofParts m.meaning ps = ofParts m'.meaning qs := by
  rw [IdStrategy.makeId, IdStrategy.makeId, String.append_right_inj, String.ofList_inj,
    hex_toNat_inj]

theorem makeId_fingerprint_eq_iff {key key' : Option String} {ps qs : List Part}
    {m m' : Metadata} :
    IdStrategy.fingerprint.makeId key ps m = IdStrategy.fingerprint.makeId key' qs m' ↔
      ofParts (m.meaning.or key) ps = ofParts (m'.meaning.or key') qs := by
  rw [IdStrategy.makeId, IdStrategy.makeId, toString_toNat_inj]

theorem Separates.of_iff {α β : Type} {f : List Part → α} {g : List Part → β} (h : Separates f)
    (hg : ∀ ps qs, g ps = g qs ↔ f ps = f qs) : Separates g where
  kinds ps qs x := by
    rw [Ne, hg]
    exact h.kinds ps qs x
  texts ps qs x y := by rw [hg, h.texts]
  names ps qs x y := by rw [hg, h.names]

/-- Under each context, a fingerprint tells a text from a placeholder, and two texts, or two names,
in one place just if their hashes differ. The ids of messages without a key, and all ids made from
fingerprints, tell the fingerprints apart and so do the same. -/
theorem fingerprints_separate :
    (∀ context, Separates (ofParts context)) ∧
    (∀ ps qs m m', IdStrategy.key.makeId none ps m = IdStrategy.key.makeId none qs m' ↔
      ofParts m.meaning ps = ofParts m'.meaning qs) ∧
    (∀ key key' ps qs m m',
      IdStrategy.fingerprint.makeId key ps m = IdStrategy.fingerprint.makeId key' qs m' ↔
        ofParts (m.meaning.or key) ps = ofParts (m'.meaning.or key') qs) ∧
    (∀ d : Draft, Separates fun parts =>
      (Draft.build .key { d with key := none, parts := parts }).id) ∧
    ∀ key metadata, Separates fun parts => IdStrategy.fingerprint.makeId key parts metadata := by
  refine ⟨separates_ofParts, fun _ _ _ _ => makeId_key_eq_iff,
    fun _ _ _ _ _ _ => makeId_fingerprint_eq_iff, fun d => ?_, fun key metadata => ?_⟩
  · exact (separates_ofParts d.metadata.meaning).of_iff fun _ _ => makeId_key_eq_iff
  · exact (separates_ofParts (metadata.meaning.or key)).of_iff fun _ _ =>
      makeId_fingerprint_eq_iff

end Fingerprint

end MessageCatalog

import MessageCatalog.Text.Blank
/-! Message text, cut into literal parts and placeholders. -/

namespace MessageCatalog

inductive Part where
  | text (value : String)
  | placeholder (name : String)
  deriving Repr, DecidableEq

/-- Why a text is not cut: the offset, in bytes, of an opening that is not closed, or of one that
is closed at once. -/
inductive PlaceholderError where
  | unterminated (offset : Nat)
  | emptyName (offset : Nat)
  deriving Repr, DecidableEq

def PlaceholderError.message : PlaceholderError → String
  | .unterminated offset => s!"placeholder opened at byte {offset} is never closed"
  | .emptyName offset => s!"placeholder at byte {offset} has an empty name"

namespace Part

open MessageCatalog.Text

def render : Part → List Char
  | .text value => value.toList
  | .placeholder name => '\x7b' :: '$' :: (name.toList ++ ['\x7d'])

def renderAll (parts : List Part) : List Char := parts.flatMap render

def textOf (parts : List Part) : String := String.ofList (renderAll parts)

def cutAtOpening : List Char → Option (List Char × List Char)
  | [] => none
  | [_] => none
  | c :: d :: r =>
    if c = '\x7b' && d = '$' then some ([], r)
    else
      match cutAtOpening (d :: r) with
      | some (before, after) => some (c :: before, after)
      | none => none

def cutAtClosing : List Char → Option (List Char × List Char)
  | [] => none
  | c :: r =>
    if c = '\x7d' then some ([], r)
    else
      match cutAtClosing r with
      | some (before, after) => some (c :: before, after)
      | none => none

theorem eq_of_cutAtOpening {cs before after : List Char}
    (h : cutAtOpening cs = some (before, after)) :
    cs = before ++ '\x7b' :: '$' :: after := by
  fun_induction cutAtOpening cs generalizing before after with
  | case1 => simp at h
  | case2 => simp at h
  | case3 c d r hc =>
    simp only [Bool.and_eq_true, decide_eq_true_eq] at hc
    simp only [Option.some.injEq, Prod.mk.injEq] at h
    obtain ⟨rfl, rfl⟩ := h
    simp [hc]
  | case4 c d r _ b a hr ih =>
    simp only [Option.some.injEq, Prod.mk.injEq] at h
    obtain ⟨rfl, rfl⟩ := h
    simp [ih hr]
  | case5 => simp at h

theorem eq_of_cutAtClosing {cs before after : List Char}
    (h : cutAtClosing cs = some (before, after)) :
    cs = before ++ '\x7d' :: after := by
  fun_induction cutAtClosing cs generalizing before after with
  | case1 => simp at h
  | case2 =>
    simp only [Option.some.injEq, Prod.mk.injEq] at h
    obtain ⟨rfl, rfl⟩ := h
    simp
  | case3 c r _ b a hr ih =>
    simp only [Option.some.injEq, Prod.mk.injEq] at h
    obtain ⟨rfl, rfl⟩ := h
    simp [ih hr]
  | case4 => simp at h

def ofText (value : List Char) : List Part :=
  if value.isEmpty then [] else [.text (String.ofList value)]

def parseFrom (offset : Nat) (cs : List Char) : Except PlaceholderError (List Part) :=
  match _opened : cutAtOpening cs with
  | none => .ok (ofText cs)
  | some (before, after) =>
    let start := offset + byteLength before
    match _closed : cutAtClosing after with
    | none => .error (.unterminated start)
    | some ([], _) => .error (.emptyName start)
    | some (c :: name, rest) =>
      match parseFrom (start + 3 + byteLength (c :: name)) rest with
      | .ok parts => .ok (ofText before ++ .placeholder (String.ofList (c :: name)) :: parts)
      | .error e => .error e
termination_by cs.length
decreasing_by
  have := eq_of_cutAtOpening _opened
  have := eq_of_cutAtClosing _closed
  subst_vars
  simp only [List.length_append, List.length_cons]
  omega

/-- Cut a message text at its placeholders; literal parts are never empty. -/
def parse (text : String) : Except PlaceholderError (List Part) := parseFrom 0 text.toList

def placeholders (parts : List Part) : List String :=
  (parts.filterMap fun
    | .placeholder name => some name
    | .text _ => none).eraseDups

end Part

end MessageCatalog

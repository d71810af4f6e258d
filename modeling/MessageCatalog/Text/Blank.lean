/-! White space as Unicode defines it, and the words and lines it separates. -/

namespace MessageCatalog.Text

def isBlank (c : Char) : Bool :=
  let n := c.toNat
  (9 ≤ n && n ≤ 13) || n == 0x20 || n == 0x85 || n == 0xa0 || n == 0x1680 ||
    (0x2000 ≤ n && n ≤ 0x200a) || n == 0x2028 || n == 0x2029 || n == 0x202f ||
    n == 0x205f || n == 0x3000

def dropBlank : List Char → List Char
  | [] => []
  | c :: r => if isBlank c then dropBlank r else c :: r

def trim (cs : List Char) : List Char :=
  (dropBlank (dropBlank cs).reverse).reverse

def runs (p : Char → Bool) : List Char → List (List Char)
  | [] => []
  | c :: r =>
    if p c then
      match r with
      | [] => [[c]]
      | d :: _ =>
        if p d then
          match runs p r with
          | w :: ws => (c :: w) :: ws
          | [] => [[c]]
        else [c] :: runs p r
    else runs p r

def words (cs : List Char) : List (List Char) :=
  runs (fun c => !isBlank c) cs

def splitAt (sep : Char) : List Char → List (List Char)
  | [] => [[]]
  | c :: r =>
    if c = sep then [] :: splitAt sep r
    else
      match splitAt sep r with
      | w :: ws => (c :: w) :: ws
      | [] => [[c]]

def dropLead? {α : Type} [DecidableEq α] : List α → List α → Option (List α)
  | [], cs => some cs
  | _ :: _, [] => none
  | l :: ls, c :: cs => if l = c then dropLead? ls cs else none

theorem dropLead?_append {α : Type} [DecidableEq α] (lead rest : List α) :
    dropLead? lead (lead ++ rest) = some rest := by
  induction lead with
  | nil => rfl
  | cons l ls ih => simpa [dropLead?] using ih

theorem eq_append_of_dropLead? {α : Type} [DecidableEq α] {lead cs rest : List α}
    (h : dropLead? lead cs = some rest) : cs = lead ++ rest := by
  induction lead generalizing cs with
  | nil => simpa [dropLead?] using h
  | cons l ls ih =>
    cases cs with
    | nil => simp [dropLead?] at h
    | cons c cs =>
      simp only [dropLead?] at h
      split at h
      · next hc => rw [ih h, hc]; rfl
      · simp at h

def occurs {α : Type} [DecidableEq α] (part : List α) : List α → Bool
  | [] => part.isEmpty
  | c :: r => (dropLead? part (c :: r)).isSome || occurs part r

def byteLength : List Char → Nat
  | [] => 0
  | c :: r => c.utf8Size + byteLength r

@[simp] theorem byteLength_append (a b : List Char) :
    byteLength (a ++ b) = byteLength a + byteLength b := by
  induction a with
  | nil => simp [byteLength]
  | cons c r ih => simp [byteLength, ih, Nat.add_assoc]

/-- Order by UTF-8 bytes; for Unicode text it is the order of the code points. -/
def compareBytes : List Char → List Char → Ordering
  | [], [] => .eq
  | [], _ :: _ => .lt
  | _ :: _, [] => .gt
  | a :: as, b :: bs => (compare a.toNat b.toNat).then (compareBytes as bs)

end MessageCatalog.Text

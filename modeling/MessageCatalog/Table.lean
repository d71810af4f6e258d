/-! Finite maps that keep the order in which their keys first came. -/

namespace MessageCatalog

/-- A map as its list of entries, oldest key first; `Table.insert` never repeats a key. -/
structure Table (κ α : Type) where
  entries : List (κ × α) := []
  deriving Repr, DecidableEq

namespace Table

variable {κ α : Type} [DecidableEq κ]

def empty : Table κ α := ⟨[]⟩

def get (key : κ) : List (κ × α) → Option α
  | [] => none
  | (k, v) :: r => if k = key then some v else get key r

def find? (t : Table κ α) (key : κ) : Option α := get key t.entries

def contains (t : Table κ α) (key : κ) : Bool := (t.find? key).isSome

def put (key : κ) (value : α) : List (κ × α) → List (κ × α)
  | [] => [(key, value)]
  | (k, v) :: r => if k = key then (k, value) :: r else (k, v) :: put key value r

def insert (t : Table κ α) (key : κ) (value : α) : Table κ α :=
  ⟨put key value t.entries⟩

def ofList (entries : List (κ × α)) : Table κ α :=
  entries.foldl (fun t e => t.insert e.1 e.2) empty

def size (t : Table κ α) : Nat := t.entries.length

def isEmpty (t : Table κ α) : Bool := t.entries.isEmpty

theorem get_put (key k : κ) (value : α) (l : List (κ × α)) :
    get k (put key value l) = if key = k then some value else get k l := by
  induction l with
  | nil => simp [put, get]
  | cons e r ih =>
    obtain ⟨a, v⟩ := e
    by_cases ha : a = key
    · subst ha; by_cases h : a = k <;> simp [put, get, h]
    · by_cases h : a = k
      · subst h; simp [put, get, ha, Ne.symm ha]
      · simp [put, get, ha, h, ih]

theorem find?_insert (t : Table κ α) (key k : κ) (value : α) :
    (t.insert key value).find? k = if key = k then some value else t.find? k :=
  get_put key k value t.entries

@[simp] theorem find?_empty (k : κ) : (empty : Table κ α).find? k = none := rfl

end Table

end MessageCatalog

import MessageCatalog.Table
/-! Nested scopes and the bindings that names have in them. -/

namespace MessageCatalog

structure Binding where
  index : Nat
  deriving Repr, DecidableEq

/-- The open scopes, innermost first, with the global scope below them all. -/
structure Scopes where
  inner : List (Table String Binding) := []
  global : Table String Binding := .empty
  next : Nat := 0
  deriving Repr, DecidableEq

namespace Scopes

def empty : Scopes := {}

def enter (s : Scopes) : Scopes := { s with inner := .empty :: s.inner }

def exit (s : Scopes) : Scopes := { s with inner := s.inner.tail }

def depth (s : Scopes) : Nat := s.inner.length + 1

def innermost (s : Scopes) : Table String Binding := s.inner.head?.getD s.global

def setInnermost (s : Scopes) (scope : Table String Binding) : Scopes :=
  match s.inner with
  | [] => { s with global := scope }
  | _ :: r => { s with inner := scope :: r }

/-- Declare a name in the innermost scope. Declared there again, it keeps its binding. -/
def declare (s : Scopes) (name : String) : Scopes :=
  if s.innermost.contains name then s
  else { s.setInnermost (s.innermost.insert name ⟨s.next⟩) with next := s.next + 1 }

def declared (s : Scopes) (name : String) : Binding :=
  (s.innermost.find? name).getD ⟨s.next⟩

def declareAll (s : Scopes) (names : List String) : Scopes := names.foldl declare s

def resolve (s : Scopes) (name : String) : Option Binding :=
  (s.inner ++ [s.global]).findSome? (·.find? name)

end Scopes

end MessageCatalog

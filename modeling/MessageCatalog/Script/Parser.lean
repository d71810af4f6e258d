import MessageCatalog.Script.Parser.Statement
/-! Parsing a whole script. -/

namespace MessageCatalog.Script

def Grammar.nested : Nat → Grammar
  | 0 =>
    { expression := Parser.fail, assignment := Parser.fail, unary := Parser.fail
      binding := Parser.fail, type := Parser.fail, element := Parser.fail
      statement := Parser.fail, item := Parser.fail }
  | depth + 1 =>
    { expression := fun m c => Parser.expressionRule (Grammar.nested depth) m c
      assignment := fun m c => Parser.assignmentRule (Grammar.nested depth) m c
      unary := fun m c => Parser.unaryRule (Grammar.nested depth) m c
      binding := fun m c => Parser.bindingRule (Grammar.nested depth) m c
      type := fun m c => Parser.typeRule (Grammar.nested depth) m c
      element := fun m c => Parser.elementRule (Grammar.nested depth) m c
      statement := fun m c => Parser.statementRule (Grammar.nested depth) m c
      item := fun m c => Parser.itemRule (Grammar.nested depth) m c }

inductive Dialect where
  | plain
  | typed
  | typedMarkup
  deriving Repr, DecidableEq

namespace Dialect

def mode : Dialect → Mode
  | .plain => { typed := false, markup := true }
  | .typed => { typed := true, markup := false }
  | .typedMarkup => { typed := true, markup := true }

def ofExtension : List Char → Dialect
  | ['t', 's'] => .typed
  | ['m', 't', 's'] => .typed
  | ['c', 't', 's'] => .typed
  | ['t', 's', 'x'] => .typedMarkup
  | _ => .plain

end Dialect

structure Parsed where
  program : Program
  comments : List (Nat × String)
  deriving Repr

def parseItems (g : Grammar) : Parser (List Node) :=
  Parser.many do
    if ← Parser.isEnd then return none else return some (← g.item)

/-- Every construct takes a few rules and at least one character, which bounds the nesting. -/
def parse (dialect : Dialect) (text : List Char) : Except ParseError Parsed :=
  let depth := 8 * text.length + 16
  match parseItems (Grammar.nested depth) dialect.mode (Cursor.ofText text) with
  | .ok (items, c) => .ok ⟨⟨c.isModule, items⟩, c.comments.reverse⟩
  | .error e => .error e

end MessageCatalog.Script

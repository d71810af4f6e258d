/-! How strictly definitions are held to the message function, and how bad a problem is. -/

namespace MessageCatalog

inductive Severity where
  | error
  | warning
  deriving Repr, DecidableEq

def Severity.text : Severity → String
  | .error => "error"
  | .warning => "warning"

/-- `legacy` accepts plain texts and function wrappers silently, `relax` with a warning, and
`closure` refuses them. -/
inductive Style where
  | legacy
  | relax
  | closure
  deriving Repr, DecidableEq

namespace Style

def isStrict : Style → Bool
  | .closure => true
  | _ => false

def checkLevel (style : Style) : Severity :=
  if style.isStrict then .error else .warning

def text : Style → String
  | .legacy => "legacy"
  | .relax => "relax"
  | .closure => "closure"

def ofText? : String → Option Style
  | "legacy" => some .legacy
  | "relax" => some .relax
  | "closure" => some .closure
  | _ => none

theorem ofText?_text (style : Style) : ofText? style.text = some style := by
  cases style <;> rfl

end Style

end MessageCatalog

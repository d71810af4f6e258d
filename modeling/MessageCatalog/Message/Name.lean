import MessageCatalog.Text.Blank
import MessageCatalog.Message.Style
/-! The naming conventions of message variables and placeholders. -/

namespace MessageCatalog.Name

open MessageCatalog.Text

def messageMark : List Char := ['M', 'S', 'G', '_']

def helpMark : List Char := ['_', 'H', 'E', 'L', 'P']

def hiddenMark : List Char := ['@', 'h', 'i', 'd', 'd', 'e', 'n']

def messageFunction : String := "goog.getMsg"

def fallbackFunction : String := "goog.getMsgWithFallback"

def unnamedMark : List Char := ['M', 'S', 'G', '_', 'U', 'N', 'N', 'A', 'M', 'E', 'D']

def scopeMark : List Char := ['$', 'j', 's', 'c', 'o', 'm', 'p', '$', 's', 'c', 'o', 'p', 'e', '$']

def externalMark : List Char := ['M', 'S', 'G', '_', 'E', 'X', 'T', 'E', 'R', 'N', 'A', 'L', '_']

def startsWith (mark cs : List Char) : Bool := (dropLead? mark cs).isSome

def endsWith (mark cs : List Char) : Bool := startsWith mark.reverse cs.reverse

/-- What follows the last `$MSG_` that stands after at least one character and before the first
blank. -/
def afterLastMark? : List Char → Option (List Char)
  | [] => none
  | c :: r =>
    if isBlank c then none
    else
      match afterLastMark? r with
      | some rest => some rest
      | none => dropLead? ('$' :: messageMark) r

def scopedRest? (name : List Char) : Option (List Char) :=
  match dropLead? scopeMark name with
  | some rest => afterLastMark? rest
  | none => none

def isScoped (name : List Char) : Bool := (scopedRest? name).isSome

def unscoped (name : List Char) : List Char :=
  match scopedRest? name with
  | some rest => messageMark ++ rest
  | none => name

/-- Whether a definition of this name defines a message. Outside the strict style a legacy value
of a name that ends in `_HELP` is a description and no message. -/
def isMessage (name : List Char) (isCall : Bool) (style : Style) : Bool :=
  (startsWith messageMark name || isScoped name) &&
    (style.isStrict || isCall || !endsWith helpMark name)

def isUnnamed (name : List Char) : Bool := startsWith unnamedMark name

def isLower (c : Char) : Bool := 'a' ≤ c && c ≤ 'z'

def isUpper (c : Char) : Bool := 'A' ≤ c && c ≤ 'Z'

def isDigit (c : Char) : Bool := '0' ≤ c && c ≤ '9'

def isLetterOrDigit (c : Char) : Bool := isLower c || isUpper c || isDigit c

theorem isAlpha_eq (c : Char) : c.isAlpha = (isLower c || isUpper c) := by
  have hlower : c.isLower = isLower c := rfl
  have hupper : c.isUpper = isUpper c := Bool.decide_and ('A' ≤ c) (c ≤ 'Z')
  rw [← hlower, ← hupper]
  exact Bool.or_comm c.isUpper c.isLower

theorem isDigit_eq (c : Char) : c.isDigit = isDigit c := rfl

theorem isAlphanum_eq (c : Char) : c.isAlphanum = isLetterOrDigit c := by
  rw [Char.isAlphanum, isAlpha_eq, isDigit_eq, isLetterOrDigit]

def isDigitOrUnderscore (c : Char) : Bool := isDigit c || c = '_'

def isPlaceholder : List Char → Bool
  | [] => false
  | c :: r => isLower c && (r.dropWhile isLetterOrDigit).all isDigitOrUnderscore

def externalId? (key : List Char) : Option (List Char) :=
  match dropLead? externalMark key with
  | some (d :: ds) => if (d :: ds).all isDigit then some (d :: ds) else none
  | _ => none

end MessageCatalog.Name

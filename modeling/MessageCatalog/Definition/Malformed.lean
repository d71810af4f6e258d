import MessageCatalog.Message.Name
import MessageCatalog.Script.Node
/-! Why the value of a definition is no message. -/

namespace MessageCatalog

open Script (Span)

inductive Fault where
  | brokenString
  | substitution
  | brokenTemplate
  | notText (found : String)
  | unknownValue (key : String)
  | duplicatePlaceholder (name : String)
  | notReturn (found : String)
  | notReturnedText (found : String)
  | unknownPlaceholder (name : String)
  | unusedPlaceholder (name : String)
  | notCall
  | otherFunction
  | spreadArgument
  | noText
  | badPlaceholder (key : String)
  | valuesNotObject
  | unplainValueKey
  | notCamelCase (name : String)
  | optionsNotObject
  | unplainKey
  | notObject
  | notString
  | unexpectedPlaceholder (name : String)
  | duplicateKey (name : String)
  deriving Repr, DecidableEq

def Fault.reason : Fault → String
  | .brokenString => "String literal is not valid Unicode"
  | .substitution => "Template literals with substitutions are not allowed."
  | .brokenTemplate => "Template literal has no text"
  | .notText found => s!"String literal or concatenation expected; found: {found}"
  | .unknownValue key => s!"Cannot parse value of message {key}"
  | .duplicatePlaceholder name => s!"Duplicate placeholder name: {name}"
  | .notReturn found => s!"Return statement expected; found: {found}"
  | .notReturnedText found => s!"String literal, name or concatenation expected; found: {found}"
  | .unknownPlaceholder name => s!"Unrecognized message placeholder referenced: {name}"
  | .unusedPlaceholder name => s!"Unused message placeholder: {name}"
  | .notCall => s!"Message must be initialized using {Name.messageFunction} function."
  | .otherFunction =>
    "Message initialized using unrecognized function. " ++
      s!"Please use {Name.messageFunction}() instead."
  | .spreadArgument => s!"Spread arguments are not allowed in {Name.messageFunction}()"
  | .noText => "Message string literal expected"
  | .badPlaceholder key => s!"Placeholder incorrectly formatted in: {key}"
  | .valuesNotObject => "Object literal expected for placeholder values"
  | .unplainValueKey => "Placeholder values must be plain string keys"
  | .notCamelCase name => s!"Placeholder name not in lowerCamelCase: {name}"
  | .optionsNotObject => "Object literal expected for options"
  | .unplainKey => "String key expected"
  | .notObject => "Object literal expected"
  | .notString => "String literal expected"
  | .unexpectedPlaceholder name => s!"Unexpected placeholder name: {name}"
  | .duplicateKey name => s!"Duplicate string key: {name}"

structure Malformed where
  fault : Fault
  span : Span
  deriving Repr, DecidableEq

end MessageCatalog

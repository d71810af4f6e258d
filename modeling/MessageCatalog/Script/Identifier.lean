import MessageCatalog.Script.Identifier.Table
import MessageCatalog.Text.Width
/-! The characters that identifiers are made of. -/

namespace MessageCatalog.Script

def isIdentifierStart (c : Char) : Bool :=
  if c.toNat < 0x80 then c.isAlpha || c = '$' || c = '_'
  else Text.inRanges Identifier.startRanges c

def isIdentifierPart (c : Char) : Bool :=
  if c.toNat < 0x80 then c.isAlphanum || c = '$' || c = '_'
  else Text.inRanges Identifier.startRanges c || Text.inRanges Identifier.partRanges c

end MessageCatalog.Script

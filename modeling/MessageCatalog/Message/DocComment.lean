import MessageCatalog.Message.Basic
/-! The tags of a documentation comment that describe a message. -/

namespace MessageCatalog

inductive Comment where
  | block (text : String)
  | line (text : String)
  deriving Repr, DecidableEq

abbrev DocComment := Metadata

namespace DocComment

open MessageCatalog.Text

def dropStars : List Char → List Char
  | [] => []
  | c :: r => if c = '*' then dropStars r else c :: r

/-- The words of a comment, without the stars that decorate the starts of its lines. -/
def wordsOf (body : List Char) : List (List Char) :=
  (splitAt '\n' body).flatMap fun l => words (dropStars (dropBlank l))

def tag? : List Char → Option (List Char)
  | '@' :: c :: r => if Name.isLower c || Name.isUpper c then some (c :: r) else none
  | _ => none

structure Block where
  tag : List Char
  words : List (List Char)
  deriving Repr, DecidableEq

def blocks : List (List Char) → List (List Char) × List Block
  | [] => ([], [])
  | w :: r =>
    let (lead, rest) := blocks r
    match tag? w with
    | some tag => ([], ⟨tag, lead⟩ :: rest)
    | none => (w :: lead, rest)

def Block.text (b : Block) : String :=
  String.ofList ([' '].intercalate b.words)

/-- A description may be empty; an empty meaning or id counts for nothing. -/
def addBlock (doc : DocComment) (b : Block) : DocComment :=
  if b.tag = "desc".toList then { doc with desc := some b.text }
  else if b.tag = "meaning".toList then
    if b.words.isEmpty then doc else { doc with meaning := some b.text }
  else if b.tag = "alternateMessageId".toList then
    if b.words.isEmpty then doc else { doc with alternateId := some b.text }
  else if b.tag = "hidden".toList then { doc with hidden := true }
  else doc

def ofComment? : Comment → Option DocComment
  | .line _ => none
  | .block text =>
    match text.toList with
    | '*' :: body => some ((blocks (wordsOf body)).2.foldl addBlock {})
    | _ => none

def find? (comments : List Comment) : Option DocComment :=
  comments.reverse.findSome? ofComment?

def applyTo (doc : DocComment) (d : Draft) : Draft :=
  { d with metadata :=
    { desc := doc.desc.or d.metadata.desc
      meaning := doc.meaning.or d.metadata.meaning
      alternateId := doc.alternateId.or d.metadata.alternateId
      hidden := doc.hidden || d.metadata.hidden } }

end DocComment

end MessageCatalog

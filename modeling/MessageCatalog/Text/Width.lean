import MessageCatalog.Text.Width.Table
/-! The columns that text takes on a terminal. -/

namespace MessageCatalog.Text

def inRanges (ranges : List (Nat × Nat)) (c : Char) : Bool :=
  ranges.any fun r => r.1 ≤ c.toNat && c.toNat ≤ r.2

def isControl (c : Char) : Bool :=
  c.toNat < 0x20 || (0x7f ≤ c.toNat && c.toNat < 0xa0)

def charWidth (c : Char) : Nat :=
  if c.toNat < 0xa0 then 1
  else if inRanges Width.zeroRanges c then 0
  else if inRanges Width.wideRanges c then 2
  else 1

/-- The columns that a character counts for in a position: a tab for four, any other control
character for none, and one outside the Basic Multilingual Plane for one more than its width. -/
def columnWidth (c : Char) : Nat :=
  if c = '\t' then 4
  else if isControl c then 0
  else if 0x10000 ≤ c.toNat then charWidth c + 1
  else charWidth c

def columns : List Char → Nat
  | [] => 0
  | c :: r => columnWidth c + columns r

def afterEmoji? : List Char → Option (List Char)
  | [] => none
  | [c] => if inRanges Width.emojiRanges c then some [] else none
  | c :: d :: r =>
    let emoji := inRanges Width.emojiRanges c
    let textEmoji := inRanges Width.textEmojiRanges c
    if d.toNat = 0xfe0f && (emoji || textEmoji) then some r
    else if 0x1f3fb ≤ d.toNat && d.toNat ≤ 0x1f3ff && (emoji || textEmoji) then some r
    else if emoji then some (d :: r)
    else none

def afterJoinedEmoji? : Nat → List Char → Option (List Char)
  | 0, _ => none
  | n + 1, cs =>
    match afterEmoji? cs with
    | some (j :: r) =>
      if j.toNat = 0x200d then
        match afterJoinedEmoji? n r with
        | some rest => some rest
        | none => some (j :: r)
      else some (j :: r)
    | other => other

/-- The width of a text on one line: a control character counts one column, a line end of two
characters counts once, and an emoji written with several characters takes two columns. The
first argument bounds the number of steps. -/
def lineWidthFrom : Nat → List Char → Nat
  | 0, _ => 0
  | _, [] => 0
  | n + 1, c :: r =>
    match c, r with
    | '\r', '\n' :: r' => 1 + lineWidthFrom n r'
    | c, r =>
      match afterJoinedEmoji? (r.length + 1) (c :: r) with
      | some rest =>
        match rest with
        | d :: rest' =>
          if d.toNat = 0xfe0e && inRanges Width.emojiRanges c then 1 + lineWidthFrom n rest'
          else 2 + lineWidthFrom n rest
        | [] => 2
      | none => charWidth c + lineWidthFrom n r

/-- The ligatures of single scripts are left out: Arabic lam and alef, or the signs under a Khmer
coeng, count like characters that stand side by side. -/
def lineWidth (cs : List Char) : Nat := lineWidthFrom (cs.length + 1) cs

end MessageCatalog.Text

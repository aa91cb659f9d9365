import TicketPool.Json.Tree

/-!
# JSON text

Trees are written without blanks, members in the order in which they stand.  A string
escapes the quote, the backslash and the characters below the blank, and nothing else.
-/

namespace TicketPool.Json

/-- A hexadecimal digit in lower case. -/
def hexDigit (n : Nat) : Char :=
  Nat.digitChar n

def escape (c : Char) : List Char :=
  if c = '"' then ['\\', '"']
  else if c = '\\' then ['\\', '\\']
  else if c = '\x08' then ['\\', 'b']
  else if c = '\x0c' then ['\\', 'f']
  else if c = '\n' then ['\\', 'n']
  else if c = '\r' then ['\\', 'r']
  else if c = '\t' then ['\\', 't']
  else if c < ' ' then ['\\', 'u', '0', '0', hexDigit (c.toNat / 16), hexDigit (c.toNat % 16)]
  else [c]

def quote (s : String) : List Char :=
  '"' :: s.toList.flatMap escape ++ ['"']

def commaJoin : List (List Char) → List Char
  | [] => []
  | [text] => text
  | text :: rest => text ++ ',' :: commaJoin rest

/-- A key, a colon and the text of a value. -/
def member (key : String) (value : List Char) : List Char :=
  quote key ++ ':' :: value

namespace Tree

mutual

def chars : Tree → List Char
  | .null => ['n', 'u', 'l', 'l']
  | .bool true => ['t', 'r', 'u', 'e']
  | .bool false => ['f', 'a', 'l', 's', 'e']
  | .number n => n.chars
  | .text s => quote s
  | .list items => '[' :: commaJoin (itemTexts items) ++ [']']
  | .dict members => '\x7b' :: commaJoin (memberTexts members) ++ ['\x7d']
termination_by structural t => t

def itemTexts : List Tree → List (List Char)
  | [] => []
  | t :: rest => t.chars :: itemTexts rest
termination_by structural ts => ts

def memberTexts : List (String × Tree) → List (List Char)
  | [] => []
  | (key, t) :: rest => member key t.chars :: memberTexts rest
termination_by structural ms => ms

end

def print (t : Tree) : String :=
  String.ofList t.chars

def ofWord (w : UInt64) : Tree :=
  .number (.int w.toNat)

/-- A finite double as a tree; other doubles have no text of their own and become `null`. -/
def ofDouble (x : Binary64) : Tree :=
  if x.isFinite then .number (.float x) else .null

end Tree

end TicketPool.Json

import TicketPool.Json.Numeral

/-!
# JSON tokens

The text is read one character at a time.  The reader is between tokens or inside one,
and what it holds of a token is its mode.  A number goes on as long as its characters
can belong to one, and is split into its parts when it ends.

A string token keeps the units of its `\u` escapes: half a surrogate pair is no fault of
the token, only of its meaning, `Piece.string?`.
-/

namespace TicketPool.Json

/-- A piece of a string: a character, or the unit of a `\u` escape. -/
inductive Piece where
  | char (c : Char)
  | unit (u : Nat)
deriving DecidableEq, Repr

namespace Piece

/-- The characters that pieces stand for.  A unit is a character, or the first half of a
pair whose other half is the next piece. -/
def chars? : List Piece → Option (List Char)
  | [] => some []
  | char c :: rest => (chars? rest).map (c :: ·)
  | unit u :: rest =>
    if 0xD800 ≤ u ∧ u < 0xDC00 then
      match rest with
      | unit v :: rest =>
        if 0xDC00 ≤ v ∧ v < 0xE000 then
          (chars? rest).map (Char.ofNat (0x10000 + (u - 0xD800) * 0x400 + (v - 0xDC00)) :: ·)
        else none
      | _ => none
    else if 0xDC00 ≤ u ∧ u < 0xE000 then none
    else (chars? rest).map (Char.ofNat u :: ·)

/-- The string that pieces stand for, unless a surrogate stands alone. -/
def string? (pieces : List Piece) : Option String :=
  (chars? pieces).map String.ofList

end Piece

/-- The tokens of JSON. -/
inductive Token where
  | openList
  | closeList
  | openDict
  | closeDict
  | comma
  | colon
  | null
  | bool (b : Bool)
  | number (n : Numeral)
  | text (pieces : List Piece)
deriving DecidableEq, Repr

namespace Token

/-- What the reader holds between two characters. -/
inductive Mode where
  /-- Between two tokens. -/
  | between
  /-- Inside a word, with the letters that have to follow. -/
  | word (rest : List Char) (token : Token)
  /-- Inside a number, with its characters so far, last first. -/
  | number (read : List Char)
  /-- Inside a string, with its pieces so far, last first. -/
  | text (read : List Piece)
  /-- Behind a backslash. -/
  | escape (read : List Piece)
  /-- Inside a `\u` escape, with the number of digits to come and the value so far. -/
  | unit (read : List Piece) (missing : Nat) (value : Nat)
deriving DecidableEq, Repr

/-- The tokens read so far, last first, and the mode. -/
structure Reader where
  tokens : List Token := []
  mode : Mode := .between
deriving DecidableEq, Repr

def isBlank (c : Char) : Bool :=
  c = ' ' || c = '\t' || c = '\n' || c = '\r'

def goesOnNumber (c : Char) : Bool :=
  c.isDigit || c = '+' || c = '-' || c = '.' || c = 'e' || c = 'E'

def hexValue? (c : Char) : Option Nat :=
  if '0' ≤ c ∧ c ≤ '9' then some (c.toNat - '0'.toNat)
  else if 'a' ≤ c ∧ c ≤ 'f' then some (c.toNat - 'a'.toNat + 10)
  else if 'A' ≤ c ∧ c ≤ 'F' then some (c.toNat - 'A'.toNat + 10)
  else none

/-- The character that a letter behind a backslash stands for. -/
def escaped? : Char → Option Char
  | '"' => some '"'
  | '\\' => some '\\'
  | '/' => some '/'
  | 'b' => some '\x08'
  | 'f' => some '\x0c'
  | 'n' => some '\n'
  | 'r' => some '\r'
  | 't' => some '\t'
  | _ => none

namespace Reader

def push (r : Reader) (token : Token) : Reader :=
  { tokens := token :: r.tokens, mode := .between }

def start? (r : Reader) (c : Char) : Option Reader :=
  if isBlank c then some r
  else match c with
    | '[' => some (r.push .openList)
    | ']' => some (r.push .closeList)
    | '\x7b' => some (r.push .openDict)
    | '\x7d' => some (r.push .closeDict)
    | ',' => some (r.push .comma)
    | ':' => some (r.push .colon)
    | '"' => some { r with mode := .text [] }
    | 'n' => some { r with mode := .word ['u', 'l', 'l'] .null }
    | 't' => some { r with mode := .word ['r', 'u', 'e'] (.bool true) }
    | 'f' => some { r with mode := .word ['a', 'l', 's', 'e'] (.bool false) }
    | _ => if c = '-' ∨ c.isDigit then some { r with mode := .number [c] } else none

def endNumber? (r : Reader) (read : List Char) : Option Reader :=
  (Numeral.ofChars? read.reverse).map fun n ↦ r.push (.number n)

def step? (r : Reader) (c : Char) : Option Reader :=
  match r.mode with
  | .between => r.start? c
  | .word rest token =>
    match rest with
    | [] => (r.push token).start? c
    | expected :: rest => if c = expected then some { r with mode := .word rest token } else none
  | .number read =>
    if goesOnNumber c then some { r with mode := .number (c :: read) }
    else (r.endNumber? read).bind (start? · c)
  | .text read =>
    if c = '"' then some (r.push (.text read.reverse))
    else if c = '\\' then some { r with mode := .escape read }
    else if c < ' ' then none
    else some { r with mode := .text (.char c :: read) }
  | .escape read =>
    if c = 'u' then some { r with mode := .unit read 3 0 }
    else (escaped? c).map fun d ↦ { r with mode := .text (.char d :: read) }
  | .unit read missing value =>
    (hexValue? c).map fun d ↦
      let value := 16 * value + d
      { r with mode := match missing with
          | 0 => .text (.unit value :: read)
          | missing + 1 => .unit read missing value }

def finish? (r : Reader) : Option (List Token) :=
  match r.mode with
  | .between => some r.tokens.reverse
  | .word [] token => some (token :: r.tokens).reverse
  | .number read => (r.endNumber? read).map fun r ↦ r.tokens.reverse
  | _ => none

end Reader

def ofChars? (text : List Char) : Option (List Token) :=
  (text.foldlM Reader.step? {}).bind Reader.finish?

end Token

end TicketPool.Json

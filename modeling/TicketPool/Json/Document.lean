import TicketPool.Json.Token

/-!
# JSON documents

A document is the syntax of a JSON text: numbers are numerals, strings are pieces, and
the members of a dictionary stand as they are written, repeated keys included.  Nothing
in a document has a meaning yet, so no limit on numbers, surrogates or nesting applies.

Documents are built from tokens with a stack of the lists and dictionaries that are
still open, and a goal that says which tokens may come next.
-/

namespace TicketPool.Json

/-- The syntax of a JSON text. -/
inductive Document where
  | null
  | bool (b : Bool)
  | number (n : Numeral)
  | text (pieces : List Piece)
  | list (items : List Document)
  | dict (members : List (List Piece × Document))

namespace Document

/-- A list or dictionary that is still open, with its contents so far, last first. -/
inductive Frame where
  | list (items : List Document)
  | dict (members : List (List Piece × Document))
  /-- A dictionary with a key whose value is still to come. -/
  | member (members : List (List Piece × Document)) (key : List Piece)

/-- What may come next. -/
inductive Goal where
  | value
  /-- A value, or the end of an empty list. -/
  | firstItem
  | key
  /-- A key, or the end of an empty dictionary. -/
  | firstKey
  | colon
  /-- A comma, or the end of the open list or dictionary. -/
  | next
  /-- Nothing: the document is complete. -/
  | done (document : Document)

/-- The open lists and dictionaries, innermost first, and the goal. -/
structure Builder where
  frames : List Frame := []
  goal : Goal := .value

namespace Builder

/-- Puts a complete value into the innermost open list or dictionary. -/
def complete? (frames : List Frame) (d : Document) : Option Builder :=
  match frames with
  | [] => some { frames := [], goal := .done d }
  | .list items :: outer => some { frames := .list (d :: items) :: outer, goal := .next }
  | .member members key :: outer =>
    some { frames := .dict ((key, d) :: members) :: outer, goal := .next }
  | .dict _ :: _ => none

def value? (frames : List Frame) : Token → Option Builder
  | .null => complete? frames .null
  | .bool b => complete? frames (.bool b)
  | .number n => complete? frames (.number n)
  | .text pieces => complete? frames (.text pieces)
  | .openList => some { frames := .list [] :: frames, goal := .firstItem }
  | .openDict => some { frames := .dict [] :: frames, goal := .firstKey }
  | _ => none

def key? (frames : List Frame) (pieces : List Piece) : Option Builder :=
  match frames with
  | .dict members :: outer =>
    some { frames := .member members pieces :: outer, goal := .colon }
  | _ => none

def closeList? : List Frame → Option Builder
  | .list items :: outer => complete? outer (.list items.reverse)
  | _ => none

def closeDict? : List Frame → Option Builder
  | .dict members :: outer => complete? outer (.dict members.reverse)
  | _ => none

def step? (b : Builder) (token : Token) : Option Builder :=
  match b.goal, token with
  | .value, token => value? b.frames token
  | .firstItem, .closeList => closeList? b.frames
  | .firstItem, token => value? b.frames token
  | .firstKey, .closeDict => closeDict? b.frames
  | .firstKey, .text pieces => key? b.frames pieces
  | .key, .text pieces => key? b.frames pieces
  | .colon, .colon => some { b with goal := .value }
  | .next, .closeList => closeList? b.frames
  | .next, .closeDict => closeDict? b.frames
  | .next, .comma =>
    match b.frames with
    | .list _ :: _ => some { b with goal := .value }
    | .dict _ :: _ => some { b with goal := .key }
    | _ => none
  | _, _ => none

end Builder

def ofTokens? (tokens : List Token) : Option Document :=
  match tokens.foldlM Builder.step? {} with
  | some { goal := .done d, .. } => some d
  | _ => none

/-- The document that a text makes up; nothing but blanks may follow it. -/
def ofChars? (text : List Char) : Option Document :=
  (Token.ofChars? text).bind ofTokens?

def ofString? (s : String) : Option Document :=
  ofChars? s.toList

end Document

end TicketPool.Json

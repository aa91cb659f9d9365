import Std.Data.ExtTreeMap
import TicketPool.Json.Tree

/-!
# Reading records from documents

A record is written as a dictionary of its fields, or as the list of their values in
order, from which fields at the end may be missing.  Fields of other names are passed
over, a field may not be given twice, and a reader for each field decides whether it may
be missing.
-/

namespace TicketPool

/-- A finite map with strings as keys, in the order of their characters. -/
abbrev StringMap (α : Type) : Type :=
  Std.ExtTreeMap String α

namespace Json.Document

def string? : Document → Option String
  | .text pieces => Piece.string? pieces
  | _ => none

def word? : Document → Option UInt64
  | .number n => n.number?.bind Number.word?
  | _ => none

def double? : Document → Option Binary64
  | .number n => n.number?.map Number.toDouble
  | _ => none

def strings? : Document → Option (List String)
  | .list items => items.mapM string?
  | _ => none

def keyed? (members : List (List Piece × Document)) : Option (List (String × Document)) :=
  members.mapM fun (pieces, d) ↦ (Piece.string? pieces).map (·, d)

/-- A map, each value read on its own; a later member replaces an earlier one of the same
key. -/
def map? {α : Type} (read : Document → Option α) : Document → Option (StringMap α)
  | .dict members => do
    let keyed ← keyed? members
    let values ← keyed.mapM fun (key, d) ↦ (read d).map (key, ·)
    pure (values.foldl (fun acc (key, value) ↦ acc.insert key value) ∅)
  | _ => none

/-- The fields of a record that are given, by name.  Whether fields of other names are
passed over or refused is for `others` to say. -/
def fields? (names : List String) (others : Bool) : Document → Option (List (String × Document))
  | .dict members => do
    let keyed ← keyed? members
    let known := keyed.filter (·.1 ∈ names)
    if (known.map (·.1)).Nodup ∧ (others ∨ known.length = keyed.length) then
      pure known
    else none
  | .list items => if items.length ≤ names.length then some (names.zip items) else none
  | _ => none

def required? {α : Type} (fields : List (String × Document)) (name : String)
    (read : Document → Option α) : Option α :=
  (fields.lookup name).bind read

/-- The value of a field that is `absent` if it is not given. -/
def optional? {α : Type} (fields : List (String × Document)) (name : String) (absent : α)
    (read : Document → Option α) : Option α :=
  match fields.lookup name with
  | some d => read d
  | none => some absent

end Json.Document

end TicketPool

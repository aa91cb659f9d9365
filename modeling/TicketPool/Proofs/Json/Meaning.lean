import TicketPool.Proofs.Json.Documents

/-!
# What printed text means

The document that a tree is printed as has a meaning just if the tree is not nested too deep.
-/

namespace TicketPool.Json.Tree

mutual

/-- How deep lists and dictionaries are nested. -/
def depth : Tree → Nat
  | .list items => itemsDepth items + 1
  | .dict members => membersDepth members + 1
  | _ => 0
termination_by structural t => t

def itemsDepth : List Tree → Nat
  | [] => 0
  | t :: rest => max t.depth (itemsDepth rest)
termination_by structural ts => ts

def membersDepth : List (String × Tree) → Nat
  | [] => 0
  | (_, t) :: rest => max t.depth (membersDepth rest)
termination_by structural ms => ms

end

mutual

theorem isSome_ofDocument? {room : Nat} : {t : Tree} → t.Proper →
    ((ofDocument? room t.document).isSome = true ↔ t.depth ≤ room)
  | .null, _ | .bool _, _ => by simp [document, ofDocument?, depth]
  | .number n, h => by
    simp [document, ofDocument?, depth, Number.number?_numeral_isSome h]
  | .text s, _ => by simp [document, ofDocument?, depth]
  | .list items, h => by
    rw [document, ofDocument?, depth]
    split_ifs with hroom
    · simp [hroom]
    · rw [Option.isSome_map, isSome_ofItems? h]
      omega
  | .dict members, h => by
    rw [document, ofDocument?, depth]
    split_ifs with hroom
    · simp [hroom]
    · rw [Option.isSome_map, isSome_ofMembers? h.2]
      omega
termination_by structural t => t

theorem isSome_ofItems? {room : Nat} : {items : List Tree} → ProperItems items →
    ((ofItems? room (itemDocuments items)).isSome = true ↔ itemsDepth items ≤ room)
  | [], _ => by simp [itemDocuments, ofItems?, itemsDepth]
  | t :: rest, h => by
    have hfirst : (ofDocument? room t.document).isSome = true ↔ t.depth ≤ room :=
      isSome_ofDocument? h.1
    have hrest : (ofItems? room (itemDocuments rest)).isSome = true ↔ itemsDepth rest ≤ room :=
      isSome_ofItems? h.2
    simp only [itemDocuments, ofItems?, itemsDepth, Nat.max_le, ← hfirst, ← hrest]
    cases ofDocument? room t.document <;> cases ofItems? room (itemDocuments rest) <;> simp
termination_by structural items => items

theorem isSome_ofMembers? {room : Nat} : {members : List (String × Tree)} → ProperMembers members →
    ((ofMembers? room (memberDocuments members)).isSome = true ↔ membersDepth members ≤ room)
  | [], _ => by simp [memberDocuments, ofMembers?, membersDepth]
  | (key, t) :: rest, h => by
    have hfirst : (ofDocument? room t.document).isSome = true ↔ t.depth ≤ room :=
      isSome_ofDocument? h.1
    have hrest : (ofMembers? room (memberDocuments rest)).isSome = true ↔
        membersDepth rest ≤ room := isSome_ofMembers? h.2
    simp only [memberDocuments, ofMembers?, membersDepth, Nat.max_le, ← hfirst, ← hrest,
      Piece.string?_ofString]
    cases ofDocument? room t.document <;> cases ofMembers? room (memberDocuments rest) <;> simp
termination_by structural members => members

end

end TicketPool.Json.Tree

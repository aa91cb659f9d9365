import TicketPool.Proofs.Json.Meaning

/-!
# Values that are read back as they are

A double can come back as a neighbour of itself, but all else that a tree holds is read back as it
is: integers, texts, and the order in which members stand.
-/

namespace TicketPool

namespace Keyed

variable {α : Type _}

theorem put_of_greatest {key : String} {value : α} {pairs : List (String × α)}
    (h : ∀ p ∈ pairs, p.1 < key) : put key value pairs = pairs ++ [(key, value)] := by
  induction pairs with
  | nil => rfl
  | cons p rest ih =>
    obtain ⟨hfirst, hrest⟩ := List.forall_mem_cons.mp h
    rw [put, if_neg (String.lt_asymm hfirst), if_neg (String.ne_of_lt hfirst).symm, ih hrest]
    rfl

theorem foldl_put_of_ordered {acc pairs : List (String × α)} (h : Ordered (acc ++ pairs)) :
    pairs.foldl (fun acc (key, value) ↦ put key value acc) acc = acc ++ pairs := by
  induction pairs generalizing acc with
  | nil => exact (List.append_nil acc).symm
  | cons p rest ih =>
    obtain ⟨key, value⟩ := p
    obtain ⟨-, -, hcross⟩ := List.pairwise_append.mp h
    have hput : put key value acc = acc ++ [(key, value)] :=
      put_of_greatest fun q hq ↦ hcross q hq (key, value) List.mem_cons_self
    rw [List.append_cons] at h
    change rest.foldl _ (put key value acc) = acc ++ (key, value) :: rest
    rw [hput, ih h, ← List.append_cons]

theorem ofList_of_ordered {pairs : List (String × α)} (h : Ordered pairs) :
    ofList pairs = pairs := by
  have hall : Ordered ([] ++ pairs) := h
  exact foldl_put_of_ordered hall

end Keyed

namespace Json

namespace Tree

mutual

/-- All numbers are integers, at every depth. -/
def Integral : Tree → Prop
  | .number (.float _) => False
  | .list items => IntegralItems items
  | .dict members => IntegralMembers members
  | _ => True
termination_by structural t => t

def IntegralItems : List Tree → Prop
  | [] => True
  | t :: rest => t.Integral ∧ IntegralItems rest
termination_by structural ts => ts

def IntegralMembers : List (String × Tree) → Prop
  | [] => True
  | (_, t) :: rest => t.Integral ∧ IntegralMembers rest
termination_by structural ms => ms

end

mutual

theorem ofDocument?_document {room : Nat} : {t : Tree} → t.Proper → t.Integral → t.depth ≤ room →
    ofDocument? room t.document = some t
  | .null, _, _, _ | .bool _, _, _, _ => rfl
  | .number (.int n), h, _, _ => by
    rw [document, ofDocument?, Number.number?_numeral_int h]
    rfl
  | .text s, _, _, _ => by
    rw [document, ofDocument?, Piece.string?_ofString]
    rfl
  | .list items, h, hintegral, hdepth => by
    rw [depth] at hdepth
    rw [document, ofDocument?, if_neg (by omega),
      ofItems?_itemDocuments h hintegral (Nat.le_sub_one_of_lt hdepth)]
    rfl
  | .dict members, ⟨hordered, h⟩, hintegral, hdepth => by
    rw [depth] at hdepth
    rw [document, ofDocument?, if_neg (by omega),
      ofMembers?_memberDocuments h hintegral (Nat.le_sub_one_of_lt hdepth)]
    exact congrArg (some ∘ dict) (Keyed.ofList_of_ordered hordered)
termination_by structural t => t

theorem ofItems?_itemDocuments {room : Nat} : {items : List Tree} → ProperItems items →
    IntegralItems items → itemsDepth items ≤ room →
    ofItems? room (itemDocuments items) = some items
  | [], _, _, _ => rfl
  | t :: rest, h, hintegral, hdepth => by
    obtain ⟨hfirst, hrest⟩ := Nat.max_le.mp hdepth
    rw [itemDocuments, ofItems?, ofDocument?_document h.1 hintegral.1 hfirst,
      ofItems?_itemDocuments h.2 hintegral.2 hrest]
    rfl
termination_by structural items => items

theorem ofMembers?_memberDocuments {room : Nat} : {members : List (String × Tree)} →
    ProperMembers members → IntegralMembers members → membersDepth members ≤ room →
    ofMembers? room (memberDocuments members) = some members
  | [], _, _, _ => rfl
  | (key, t) :: rest, h, hintegral, hdepth => by
    obtain ⟨hfirst, hrest⟩ := Nat.max_le.mp hdepth
    rw [memberDocuments, ofMembers?, Piece.string?_ofString,
      ofDocument?_document h.1 hintegral.1 hfirst, ofMembers?_memberDocuments h.2 hintegral.2 hrest]
    rfl
termination_by structural members => members

end

end Tree

theorem Value.ofDocument?_document {room : Nat} {v : Value} (hintegral : v.tree.Integral)
    (hdepth : v.tree.depth ≤ room) : Value.ofDocument? room v.tree.document = some v := by
  have htree := Tree.ofDocument?_document v.proper hintegral hdepth
  rw [Value.ofDocument?]
  split
  · rename_i t ht
    rw [htree] at ht
    cases v
    cases ht
    rfl
  · rename_i hnone
    rw [htree] at hnone
    cases hnone

end Json

end TicketPool

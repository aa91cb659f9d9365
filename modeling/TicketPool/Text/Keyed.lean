/-!
# Lists ordered by key

A list of pairs in strictly increasing order of their keys is the one way to write a
finite map down.  `Keyed.put` keeps the order, and a later pair replaces an earlier one
of the same key.
-/

namespace TicketPool.Keyed

variable {α : Type _}

/-- Each key is less than all keys behind it. -/
def Ordered (pairs : List (String × α)) : Prop :=
  pairs.Pairwise fun a b ↦ a.1 < b.1

def put (key : String) (value : α) : List (String × α) → List (String × α)
  | [] => [(key, value)]
  | (k, v) :: rest =>
    if key < k then (key, value) :: (k, v) :: rest
    else if key = k then (key, value) :: rest
    else (k, v) :: put key value rest

/-- The ordered list in which each key has the last value that the list gives it. -/
def ofList (pairs : List (String × α)) : List (String × α) :=
  pairs.foldl (fun acc (key, value) ↦ put key value acc) []

theorem ordered_nil : Ordered ([] : List (String × α)) :=
  List.Pairwise.nil

theorem mem_of_mem_put {key : String} {value : α} {pairs : List (String × α)}
    {p : String × α} (h : p ∈ put key value pairs) : p = (key, value) ∨ p ∈ pairs := by
  induction pairs with
  | nil => simpa [put] using h
  | cons q rest ih =>
    obtain ⟨k, v⟩ := q
    unfold put at h
    split at h
    · simpa using h
    · split at h
      · rcases List.mem_cons.mp h with h | h
        · exact .inl h
        · exact .inr (List.mem_cons_of_mem _ h)
      · rcases List.mem_cons.mp h with h | h
        · exact .inr (h ▸ List.mem_cons_self)
        · exact (ih h).imp_right (List.mem_cons_of_mem _)

theorem ordered_put {key : String} {value : α} {pairs : List (String × α)}
    (h : Ordered pairs) : Ordered (put key value pairs) := by
  induction pairs with
  | nil => exact List.pairwise_singleton _ _
  | cons q rest ih =>
    obtain ⟨k, v⟩ := q
    obtain ⟨below, ordered⟩ := List.pairwise_cons.mp h
    unfold put
    split
    · rename_i less
      refine List.pairwise_cons.mpr ⟨fun p hp ↦ ?_, h⟩
      rcases List.mem_cons.mp hp with rfl | hp
      · exact less
      · exact String.lt_trans less (below p hp)
    · rename_i notLess
      split
      · rename_i same
        exact List.pairwise_cons.mpr ⟨fun p hp ↦ same ▸ below p hp, ordered⟩
      · rename_i different
        refine List.pairwise_cons.mpr ⟨fun p hp ↦ ?_, ih ordered⟩
        rcases mem_of_mem_put hp with rfl | hp
        · exact Decidable.byContradiction fun h ↦
            different (String.le_antisymm (String.not_lt.mp h) (String.not_lt.mp notLess))
        · exact below p hp

theorem ordered_foldl_put {pairs acc : List (String × α)} (h : Ordered acc) :
    Ordered (pairs.foldl (fun acc (key, value) ↦ put key value acc) acc) := by
  induction pairs generalizing acc with
  | nil => exact h
  | cons p rest ih => exact ih (ordered_put h)

theorem ordered_ofList (pairs : List (String × α)) : Ordered (ofList pairs) :=
  ordered_foldl_put ordered_nil

theorem mem_of_mem_foldl_put {pairs acc : List (String × α)} {p : String × α}
    (h : p ∈ pairs.foldl (fun acc (key, value) ↦ put key value acc) acc) :
    p ∈ pairs ∨ p ∈ acc := by
  induction pairs generalizing acc with
  | nil => exact .inr h
  | cons q rest ih =>
    rcases ih h with h | h
    · exact .inl (List.mem_cons_of_mem _ h)
    · rcases mem_of_mem_put h with rfl | h
      · exact .inl List.mem_cons_self
      · exact .inr h

theorem mem_of_mem_ofList {pairs : List (String × α)} {p : String × α}
    (h : p ∈ ofList pairs) : p ∈ pairs :=
  (mem_of_mem_foldl_put h).resolve_right List.not_mem_nil

end TicketPool.Keyed

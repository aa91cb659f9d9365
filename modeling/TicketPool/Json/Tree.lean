import TicketPool.Json.Document
import TicketPool.Text.Keyed

/-!
# JSON values

A tree is what a document means: numbers have values, strings are strings, and the
members of a dictionary are pairs in the order in which they are written out.  In a
proper tree that order is the order of the keys, so no key repeats, and every number is
one that a text can stand for.  A `Value` is a proper tree.

`Tree.ofDocument?` gives a document its meaning and always ends in a proper tree.
-/

namespace TicketPool.Json

/-- What a JSON text means. -/
inductive Tree where
  | null
  | bool (b : Bool)
  | number (n : Number)
  | text (s : String)
  | list (items : List Tree)
  | dict (members : List (String × Tree))

namespace Tree

mutual

def decideEq : (a b : Tree) → Decidable (a = b)
  | .null, .null => isTrue rfl
  | .bool a, .bool b => if h : a = b then isTrue (h ▸ rfl) else isFalse (by simpa using h)
  | .number a, .number b => if h : a = b then isTrue (h ▸ rfl) else isFalse (by simpa using h)
  | .text a, .text b => if h : a = b then isTrue (h ▸ rfl) else isFalse (by simpa using h)
  | .list a, .list b =>
    match decideEqItems a b with
    | isTrue h => isTrue (h ▸ rfl)
    | isFalse h => isFalse (by simpa using h)
  | .dict a, .dict b =>
    match decideEqMembers a b with
    | isTrue h => isTrue (h ▸ rfl)
    | isFalse h => isFalse (by simpa using h)
  | .null, .bool _ | .null, .number _ | .null, .text _ | .null, .list _ | .null, .dict _
  | .bool _, .null | .bool _, .number _ | .bool _, .text _ | .bool _, .list _
  | .bool _, .dict _ | .number _, .null | .number _, .bool _ | .number _, .text _
  | .number _, .list _ | .number _, .dict _ | .text _, .null | .text _, .bool _
  | .text _, .number _ | .text _, .list _ | .text _, .dict _ | .list _, .null
  | .list _, .bool _ | .list _, .number _ | .list _, .text _ | .list _, .dict _
  | .dict _, .null | .dict _, .bool _ | .dict _, .number _ | .dict _, .text _
  | .dict _, .list _ => isFalse nofun
termination_by structural a => a

def decideEqItems : (a b : List Tree) → Decidable (a = b)
  | [], [] => isTrue rfl
  | [], _ :: _ | _ :: _, [] => isFalse nofun
  | a :: as, b :: bs =>
    match decideEq a b, decideEqItems as bs with
    | isTrue h, isTrue hs => isTrue (by rw [h, hs])
    | isFalse h, _ => isFalse (by simp [h])
    | _, isFalse h => isFalse (by simp [h])
termination_by structural a => a

def decideEqMembers : (a b : List (String × Tree)) → Decidable (a = b)
  | [], [] => isTrue rfl
  | [], _ :: _ | _ :: _, [] => isFalse nofun
  | (k, a) :: as, (l, b) :: bs =>
    match instDecidableEqString k l, decideEq a b, decideEqMembers as bs with
    | isTrue hk, isTrue h, isTrue hs => isTrue (by rw [hk, h, hs])
    | isFalse h, _, _ => isFalse (by simp [h])
    | _, isFalse h, _ => isFalse (by simp [h])
    | _, _, isFalse h => isFalse (by simp [h])
termination_by structural a => a

end

instance : DecidableEq Tree := decideEq

instance : Inhabited Tree := ⟨.null⟩

mutual

/-- Members stand in the order of their keys and numbers are proper, at every depth. -/
def Proper : Tree → Prop
  | .number n => n.Proper
  | .list items => ProperItems items
  | .dict members => Keyed.Ordered members ∧ ProperMembers members
  | _ => True
termination_by structural t => t

def ProperItems : List Tree → Prop
  | [] => True
  | t :: rest => t.Proper ∧ ProperItems rest
termination_by structural ts => ts

def ProperMembers : List (String × Tree) → Prop
  | [] => True
  | (_, t) :: rest => t.Proper ∧ ProperMembers rest
termination_by structural ms => ms

end

mutual

def decideProper : (t : Tree) → Decidable t.Proper
  | .null => isTrue trivial
  | .bool _ => isTrue trivial
  | .number n => inferInstanceAs (Decidable n.Proper)
  | .text _ => isTrue trivial
  | .list items => decideProperItems items
  | .dict members =>
    have := decideProperMembers members
    have : Decidable (Keyed.Ordered members) := inferInstanceAs (Decidable (List.Pairwise _ _))
    inferInstanceAs (Decidable (Keyed.Ordered members ∧ ProperMembers members))
termination_by structural t => t

/-- Whether all trees of a list are proper can be decided. -/
def decideProperItems : (ts : List Tree) → Decidable (ProperItems ts)
  | [] => isTrue trivial
  | t :: rest =>
    have := decideProper t
    have := decideProperItems rest
    inferInstanceAs (Decidable (t.Proper ∧ ProperItems rest))
termination_by structural ts => ts

/-- Whether all values of members are proper can be decided. -/
def decideProperMembers : (ms : List (String × Tree)) → Decidable (ProperMembers ms)
  | [] => isTrue trivial
  | (_, t) :: rest =>
    have := decideProper t
    have := decideProperMembers rest
    inferInstanceAs (Decidable (t.Proper ∧ ProperMembers rest))
termination_by structural ms => ms

end

instance (t : Tree) : Decidable t.Proper := t.decideProper

theorem properMembers_iff {members : List (String × Tree)} :
    ProperMembers members ↔ ∀ p ∈ members, p.2.Proper := by
  induction members with
  | nil => simp [ProperMembers]
  | cons p rest ih =>
    obtain ⟨k, t⟩ := p
    simp [ProperMembers, ih]

mutual

/-- The meaning of a document.  Lists and dictionaries may be nested `room` deep, a later
member replaces an earlier one of the same key. -/
def ofDocument? (room : Nat) : Document → Option Tree
  | .null => some .null
  | .bool b => some (.bool b)
  | .number n => n.number?.map .number
  | .text pieces => (Piece.string? pieces).map .text
  | .list items => if room = 0 then none else (ofItems? (room - 1) items).map .list
  | .dict members =>
    if room = 0 then none
    else (ofMembers? (room - 1) members).map fun members ↦ .dict (Keyed.ofList members)
termination_by structural d => d

def ofItems? (room : Nat) : List Document → Option (List Tree)
  | [] => some []
  | d :: rest => do
    let t ← ofDocument? room d
    let ts ← ofItems? room rest
    pure (t :: ts)
termination_by structural ds => ds

def ofMembers? (room : Nat) : List (List Piece × Document) → Option (List (String × Tree))
  | [] => some []
  | (pieces, d) :: rest => do
    let key ← Piece.string? pieces
    let t ← ofDocument? room d
    let ts ← ofMembers? room rest
    pure ((key, t) :: ts)
termination_by structural ms => ms

end

end Tree

theorem Numeral.gather_lt {start : Nat} {run : List Char} (h : start < UInt64.size) :
    (gather start run).1 < UInt64.size := by
  induction run generalizing start with
  | nil => exact h
  | cons c run ih =>
    simp only [gather]
    split
    · rename_i fits
      exact ih fits
    · exact h

theorem Numeral.proper_of_finite? {x : Binary64} {n : Number} (h : finite? x = some n) :
    n.Proper := by
  unfold finite? at h
  split at h
  · rename_i finite
    rw [← Option.some.inj h]
    exact finite
  · exact absurd h nofun

theorem Numeral.proper_of_double? {negative : Bool} {word : Nat} {exponent : Int}
    {x : Number} (h : double? negative word exponent = some x) : x.Proper :=
  proper_of_finite? h

theorem Numeral.proper_of_number? {n : Numeral} {x : Number} (h : n.number? = some x) :
    x.Proper := by
  have word_lt : (gather 0 n.whole).1 < UInt64.size := gather_lt (by decide)
  simp only [number?] at h
  split at h
  · split at h
    · simp only [integer?] at h
      split at h
      · split at h
        · exact proper_of_double? h
        · rename_i small
          rw [← Option.some.inj h]
          simp only [Number.Proper, Number.least, Number.greatest] at small ⊢
          omega
      · rw [← Option.some.inj h]
        simp only [Number.Proper, Number.least, Number.greatest, UInt64.size] at word_lt ⊢
        omega
    · exact proper_of_double? h
  · split at h
    · exact proper_of_double? h
    · split at h
      · exact proper_of_double? h
      · exact absurd h nofun

namespace Tree

mutual

theorem proper_ofDocument? {room : Nat} : {d : Document} → {t : Tree} →
    ofDocument? room d = some t → t.Proper
  | .null, t, h => by
    rw [← Option.some.inj h]
    exact trivial
  | .bool b, t, h => by
    rw [← Option.some.inj h]
    exact trivial
  | .number n, t, h => by
    simp only [ofDocument?, Option.map_eq_some_iff] at h
    obtain ⟨x, hx, rfl⟩ := h
    exact Numeral.proper_of_number? hx
  | .text pieces, t, h => by
    simp only [ofDocument?, Option.map_eq_some_iff] at h
    obtain ⟨s, -, rfl⟩ := h
    exact trivial
  | .list items, t, h => by
    simp only [ofDocument?] at h
    split at h
    · exact absurd h nofun
    · simp only [Option.map_eq_some_iff] at h
      obtain ⟨ts, hts, rfl⟩ := h
      exact proper_ofItems? hts
  | .dict members, t, h => by
    simp only [ofDocument?] at h
    split at h
    · exact absurd h nofun
    · simp only [Option.map_eq_some_iff] at h
      obtain ⟨ms, hms, rfl⟩ := h
      refine ⟨Keyed.ordered_ofList ms, properMembers_iff.mpr fun p hp ↦ ?_⟩
      exact properMembers_iff.mp (proper_ofMembers? hms) p (Keyed.mem_of_mem_ofList hp)
termination_by structural d => d

theorem proper_ofItems? {room : Nat} : {ds : List Document} → {ts : List Tree} →
    ofItems? room ds = some ts → ProperItems ts
  | [], ts, h => by
    rw [← Option.some.inj h]
    exact trivial
  | d :: rest, ts, h => by
    simp only [ofItems?, Option.bind_eq_bind, Option.bind_eq_some_iff, Option.pure_def,
      Option.some.injEq] at h
    obtain ⟨t, ht, rest, hrest, rfl⟩ := h
    exact ⟨proper_ofDocument? ht, proper_ofItems? hrest⟩
termination_by structural ds => ds

theorem proper_ofMembers? {room : Nat} : {ms : List (List Piece × Document)} →
    {ts : List (String × Tree)} → ofMembers? room ms = some ts → ProperMembers ts
  | [], ts, h => by
    rw [← Option.some.inj h]
    exact trivial
  | (pieces, d) :: rest, ts, h => by
    simp only [ofMembers?, Option.bind_eq_bind, Option.bind_eq_some_iff, Option.pure_def,
      Option.some.injEq] at h
    obtain ⟨key, -, t, ht, rest, hrest, rfl⟩ := h
    exact ⟨proper_ofDocument? ht, proper_ofMembers? hrest⟩
termination_by structural ms => ms

end

end Tree

/-- A JSON value: a tree with ordered members and proper numbers. -/
structure Value where
  tree : Tree
  proper : tree.Proper
deriving DecidableEq

namespace Value

instance : Inhabited Value := ⟨⟨.null, trivial⟩⟩

/-- The value of a document whose lists and dictionaries are nested at most `room` deep. -/
def ofDocument? (room : Nat) (d : Document) : Option Value :=
  match h : Tree.ofDocument? room d with
  | some t => some ⟨t, Tree.proper_ofDocument? h⟩
  | none => none

end Value

end TicketPool.Json

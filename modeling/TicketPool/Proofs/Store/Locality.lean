import TicketPool.Proofs.Store.Lifetime

/-!
# Keys do not interfere

An update acts on its own key and a sweep on each key for itself.  So what a run leaves of a key
is told by the steps that concern the key, and runs that agree key by key leave the same store.

Stores are listed and hashed from maps that give their entries out in any order.  Entries are
sorted before anyone sees them, so what is seen depends on the contents alone.
-/

namespace TicketPool

namespace StoreStep

/-- Updates concern their own key, sweeps all keys. -/
def Concerns (key : String) : StoreStep → Bool
  | .update u => u.key = key
  | .sweep _ => true

variable {codec : Codec} {key : String}

@[simp] theorem concerns_update (u : Update) :
    Concerns key (.update u) = decide (u.key = key) := rfl

@[simp] theorem concerns_sweep (rule : SweepRule) : Concerns key (.sweep rule) = true := rfl

theorem step_of_not_concerns {op : StoreStep} (h : ¬ op.Concerns key = true) (v : KeyView) :
    v.step codec key op = v := by
  cases op with
  | update u =>
    have hother : ¬ u.key = key := by simpa using h
    rw [KeyView.step, if_neg hother]
  | sweep rule => exact absurd rfl h

theorem foldl_step_filter (steps : List StoreStep) (v : KeyView) :
    (steps.filter (Concerns key)).foldl (KeyView.step codec key) v =
      steps.foldl (KeyView.step codec key) v := by
  induction steps generalizing v with
  | nil => rfl
  | cons op rest ih =>
    by_cases hop : op.Concerns key = true
    · rw [List.filter_cons_of_pos hop, List.foldl_cons, List.foldl_cons, ih]
    · rw [List.filter_cons_of_neg hop, List.foldl_cons, step_of_not_concerns hop, ih]

end StoreStep

namespace Store

open StoreStep

variable {codec : Codec} {s : Store}

theorem view_run_filter (s : Store) (steps : List StoreStep) (key : String) :
    (s.run codec (steps.filter (Concerns key))).view key = (s.run codec steps).view key := by
  rw [view_run, view_run, foldl_step_filter]

/-- Tickets bear the key under which they are stored. -/
def Labelled (s : Store) : Prop :=
  ∀ key ticket, (s.view key).ticket = some ticket → ticket.id = key

theorem labelled_empty : empty.Labelled := by
  intro key ticket h
  simp [view, ticket?, empty] at h

theorem Labelled.step (h : s.Labelled) (op : StoreStep) : (s.step codec op).Labelled := by
  intro key ticket hticket
  rw [view_step] at hticket
  cases op with
  | update u =>
    rw [KeyView.step_update] at hticket
    cases hgiven : u.ticketFor? codec key with
    | none => exact h key ticket (by simpa [hgiven] using hticket)
    | some given =>
      obtain rfl : given = ticket := by simpa [hgiven] using hticket
      exact Update.id_of_ticketFor? hgiven
  | sweep rule =>
    simp only [KeyView.step, KeyView.sweep] at hticket
    split_ifs at hticket
    exact h key ticket (Option.filter_eq_some_iff.mp hticket).1

theorem Labelled.run (h : s.Labelled) (steps : List StoreStep) : (s.run codec steps).Labelled := by
  induction steps generalizing s with
  | nil => exact h
  | cons op rest ih => exact ih (h.step op)

/-- An order in which the maps of a store may give their entries out. -/
structure Listing (s : Store) where
  tickets : List (String × Ticket)
  inactive : List String
  assignments : List (String × Assignment)
  tickets_perm : tickets.Perm s.tickets.toList
  inactive_perm : inactive.Perm s.inactiveKeys
  assignments_perm : assignments.Perm s.assignments.toList

/-- The order of entries before they are hashed: by key, and then by payload. -/
def entryLe (a b : String × String) : Bool :=
  decide (a.1 < b.1) || decide (a.1 = b.1) && decide (a.2 ≤ b.2)

namespace Listing

def inactiveKeys (l : s.Listing) : List String :=
  l.inactive.mergeSort fun a b ↦ a ≤ b

def activeTickets (l : s.Listing) : List Ticket :=
  ((l.tickets.filter fun (key, _) ↦ !s.isInactive key).map (·.2)).mergeSort
    fun a b ↦ a.id ≤ b.id

def digestBytes (l : s.Listing) : List UInt8 :=
  "omcache:state:v1:".toUTF8.toList ++
    entryBytes ((l.tickets.map fun (key, t) ↦ (key, t.encode)).mergeSort entryLe) ++
    keyBytes l.inactiveKeys ++
    entryBytes ((l.assignments.map fun (key, a) ↦ (key, a.encode)).mergeSort entryLe)

end Listing

section Sorting

theorem mergeSort_eq_of_perm {α : Type} {le : α → α → Bool} {l sorted : List α}
    (htrans : ∀ a b c, le a b = true → le b c = true → le a c = true)
    (htotal : ∀ a b, (le a b || le b a) = true)
    (hsorted : sorted.Pairwise fun a b ↦ le a b = true)
    (hantisymm : ∀ a b, a ∈ sorted → b ∈ sorted → le a b = true → le b a = true → a = b)
    (hperm : l.Perm sorted) : l.mergeSort le = sorted := by
  have hsame : (l.mergeSort le).Perm sorted := (List.mergeSort_perm l le).trans hperm
  refine List.Perm.eq_of_pairwise ?_ (List.pairwise_mergeSort htrans htotal l) hsorted hsame
  intro a b ha hb
  exact hantisymm a b (hsame.mem_iff.mp ha) hb

theorem entryLe_iff {a b : String × String} :
    entryLe a b = true ↔ a.1 < b.1 ∨ a.1 = b.1 ∧ a.2 ≤ b.2 := by
  simp [entryLe]

theorem entryLe_trans (a b c : String × String) (hab : entryLe a b = true)
    (hbc : entryLe b c = true) : entryLe a c = true := by
  rw [entryLe_iff] at hab hbc ⊢
  rcases hab with hab | ⟨hkey, hab⟩
  · rcases hbc with hbc | ⟨hkey, -⟩
    · exact .inl (String.lt_trans hab hbc)
    · exact .inl (hkey ▸ hab)
  · rcases hbc with hbc | ⟨hkey', hbc⟩
    · exact .inl (hkey ▸ hbc)
    · exact .inr ⟨hkey.trans hkey', String.le_trans hab hbc⟩

theorem entryLe_total (a b : String × String) : (entryLe a b || entryLe b a) = true := by
  rw [Bool.or_eq_true, entryLe_iff, entryLe_iff]
  by_cases hab : a.1 < b.1
  · exact .inl (.inl hab)
  · by_cases hba : b.1 < a.1
    · exact .inr (.inl hba)
    · have hkey : a.1 = b.1 := String.le_antisymm (String.not_lt.mp hba) (String.not_lt.mp hab)
      rcases String.le_total a.2 b.2 with h | h
      · exact .inl (.inr ⟨hkey, h⟩)
      · exact .inr (.inr ⟨hkey.symm, h⟩)

theorem entryLe_antisymm {a b : String × String} (hab : entryLe a b = true)
    (hba : entryLe b a = true) : a = b := by
  rw [entryLe_iff] at hab hba
  rcases hab with hab | ⟨hkey, hab⟩
  · rcases hba with hba | ⟨hkey, -⟩
    · exact absurd (String.lt_trans hab hba) (String.lt_irrefl a.1)
    · exact absurd (hkey ▸ hab) (String.lt_irrefl a.1)
  · rcases hba with hba | ⟨-, hba⟩
    · exact absurd (hkey ▸ hba) (String.lt_irrefl b.1)
    · exact Prod.ext hkey (String.le_antisymm hab hba)

theorem keys_ascend {α : Type} (m : StringMap α) : m.toList.Pairwise fun a b ↦ a.1 < b.1 := by
  have hordered : m.toList.Pairwise fun a b ↦ compare a.1 b.1 = .lt :=
    Std.ExtTreeMap.ordered_keys_toList
  exact hordered.imp fun h ↦ compareOfLessAndEq_eq_lt.mp h

end Sorting

namespace Listing

variable (l : s.Listing)

theorem inactiveKeys_eq : l.inactiveKeys = s.inactiveKeys := by
  have hascend : s.inactiveKeys.Pairwise (· < ·) :=
    List.pairwise_map.mpr (keys_ascend s.inactive)
  refine mergeSort_eq_of_perm ?_ ?_ ?_ ?_ l.inactive_perm
  · intro a b c hab hbc
    exact decide_eq_true (String.le_trans (of_decide_eq_true hab) (of_decide_eq_true hbc))
  · intro a b
    simpa using String.le_total a b
  · exact hascend.imp fun h ↦ decide_eq_true (Std.le_of_lt h)
  · intro a b _ _ hab hba
    exact String.le_antisymm (of_decide_eq_true hab) (of_decide_eq_true hba)

theorem sorted_entries {α : Type} {m : StringMap α} {entries : List (String × α)}
    (hperm : entries.Perm m.toList) (encode : α → String) :
    (entries.map fun (key, a) ↦ (key, encode a)).mergeSort entryLe =
      m.toList.map fun (key, a) ↦ (key, encode a) := by
  refine mergeSort_eq_of_perm entryLe_trans entryLe_total ?_ ?_ (hperm.map _)
  · rw [List.pairwise_map]
    exact (keys_ascend m).imp fun h ↦ entryLe_iff.mpr (.inl h)
  · intro a b _ _ hab hba
    exact entryLe_antisymm hab hba

theorem digestBytes_eq : l.digestBytes = s.digestBytes := by
  rw [digestBytes, Store.digestBytes, l.inactiveKeys_eq, sorted_entries l.tickets_perm,
    sorted_entries l.assignments_perm]

/-- Active tickets are sorted by a field of theirs, which tells them apart only because it is
the key. -/
theorem activeTickets_eq (h : s.Labelled) : l.activeTickets = s.activeTickets := by
  have htrans : ∀ a b c : Ticket, decide (a.id ≤ b.id) = true → decide (b.id ≤ c.id) = true →
      decide (a.id ≤ c.id) = true := fun a b c hab hbc ↦
    decide_eq_true (String.le_trans (of_decide_eq_true hab) (of_decide_eq_true hbc))
  have htotal : ∀ a b : Ticket, (decide (a.id ≤ b.id) || decide (b.id ≤ a.id)) = true := by
    intro a b
    simpa using String.le_total a.id b.id
  refine mergeSort_eq_of_perm htrans htotal (List.pairwise_mergeSort htrans htotal _) ?_ ?_
  · intro a b ha hb hab hba
    have hid : a.id = b.id := String.le_antisymm (of_decide_eq_true hab) (of_decide_eq_true hba)
    have hstored : ∀ t ∈ s.activeTickets, (s.view t.id).ticket = some t := by
      intro t ht
      simp only [Store.activeTickets, List.mem_mergeSort, List.mem_map, List.mem_filter] at ht
      obtain ⟨⟨key, ticket⟩, ⟨hmem, -⟩, rfl⟩ := ht
      have hview : (s.view key).ticket = some ticket :=
        Std.ExtTreeMap.mem_toList_iff_getElem?_eq_some.mp hmem
      rwa [h key ticket hview]
    have hsame : some a = some b := by rw [← hstored a ha, ← hstored b hb, hid]
    exact Option.some.inj hsame
  · exact ((l.tickets_perm.filter _).map _).trans (List.mergeSort_perm _ _).symm

end Listing

/-- What a run leaves of a key is what the steps leave that concern the key.  So two runs from one
store that every key sees alike leave the same contents, and these are listed, counted and hashed
alike, in whatever order the maps give them out. -/
theorem run_local (codec : Codec) (s : Store) (first : List StoreStep) :
    let one := s.run codec first
    (∀ key, one.view key = (s.run codec (first.filter (Concerns key))).view key) ∧
      ∀ second, (∀ key, first.filter (Concerns key) = second.filter (Concerns key)) →
        let two := s.run codec second
        one = two ∧ one.inactiveKeys = two.inactiveKeys ∧ one.activeTickets = two.activeTickets ∧
          one.tickets.size = two.tickets.size ∧ one.inactive.size = two.inactive.size ∧
          one.assignments.size = two.assignments.size ∧ one.digest = two.digest ∧
          ∀ (l : one.Listing) (m : two.Listing), l.inactiveKeys = m.inactiveKeys ∧
            l.digestBytes = m.digestBytes ∧
            (s.Labelled → l.activeTickets = m.activeTickets) := by
  intro one
  refine ⟨fun key ↦ (view_run_filter s first key).symm, fun second hsame ↦ ?_⟩
  intro two
  have hequal : one = two := by
    apply eq_of_view
    intro key
    rw [← view_run_filter, hsame, view_run_filter]
  refine ⟨hequal, by rw [hequal], by rw [hequal], by rw [hequal], by rw [hequal], by rw [hequal],
    by rw [hequal], fun l m ↦ ⟨?_, ?_, fun hlabelled ↦ ?_⟩⟩
  · rw [l.inactiveKeys_eq, m.inactiveKeys_eq, hequal]
  · rw [l.digestBytes_eq, m.digestBytes_eq, hequal]
  · rw [l.activeTickets_eq (hlabelled.run first), m.activeTickets_eq (hlabelled.run second), hequal]

def passing : SweepRule :=
  ⟨.ofMillis 1700000900000, .ofMillis 600000, .ofMillis 1200000⟩

/-- Two players get ready, and one of them steps back, while a sweep goes by. -/
def tangle (mary paul : String) : List StoreStep × List StoreStep :=
  let seat := Update.assign mary "\x7b\"connection\":\"a\"\x7d"
  ([.update (.activate mary), .update (.activate paul), .update (.deactivate paul),
      .sweep passing, .update seat, .update (.activate paul)],
    [.update (.activate paul), .update (.deactivate paul), .update (.activate mary),
      .sweep passing, .update (.activate paul), .update seat])

theorem filter_tangle {mary paul : String} (h : mary ≠ paul) (key : String) :
    (tangle mary paul).1.filter (Concerns key) = (tangle mary paul).2.filter (Concerns key) := by
  by_cases hmary : mary = key
  · have hpaul : paul ≠ key := fun hkey ↦ h (hmary.trans hkey.symm)
    simp [tangle, List.filter_cons, Update.activate, Update.deactivate, Update.assign, hmary, hpaul]
  · simp [tangle, List.filter_cons, Update.activate, Update.deactivate, Update.assign, hmary]

def waiting : Store :=
  empty.run .json (["1700000500000-0", "1700000000000-0"].map fun key ↦
    .update ⟨.createTicket, key, "\x7b\"expiration_time\":\"2030-01-01T00:00:00Z\"\x7d"⟩)

theorem tangle_alike :
    let both := tangle "1700000000000-0" "1700000500000-0"
    (∀ key, both.1.filter (Concerns key) = both.2.filter (Concerns key)) ∧
      (waiting.run .json both.1).isActive "1700000500000-0" = true ∧
      ∀ (l : (waiting.run .json both.1).Listing) (m : (waiting.run .json both.2).Listing),
        l.activeTickets = m.activeTickets := by
  intro both
  have hsame := filter_tangle (by decide : "1700000000000-0" ≠ "1700000500000-0")
  refine ⟨hsame, by decide +kernel, fun l m ↦ ?_⟩
  obtain ⟨-, -, -, -, -, -, -, hlisted⟩ := (run_local .json waiting both.1).2 both.2 hsame
  exact (hlisted l m).2.2 (labelled_empty.run _)

end Store

end TicketPool

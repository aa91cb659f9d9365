import TicketPool.Proofs.Store.Locality
import TicketPool.Proofs.Store.Presence
import TicketPool.Proofs.Text.Utf8

/-!
# The list of active tickets

Active tickets are told by the keys they are stored under and listed by the ids they bear.  Both
are the same in every store that a run leads to, so the list is in strict order, and it has each
active ticket once.
-/

namespace TicketPool.Store

variable {s : Store} {ticket : Ticket}

theorem mem_activeTickets :
    ticket ∈ s.activeTickets ↔ ∃ key, s.isActive key = true ∧ s.ticket? key = some ticket := by
  simp only [activeTickets, List.mem_mergeSort, List.mem_map, List.mem_filter, Prod.exists,
    Std.ExtTreeMap.mem_toList_iff_getElem?_eq_some]
  constructor
  · rintro ⟨key, _, ⟨hstored, hunmarked⟩, rfl⟩
    refine ⟨key, ?_, hstored⟩
    have hcontains : s.containsTicket key = true :=
      s.containsTicket_iff.mpr ⟨_, hstored⟩
    rw [isActive, hcontains, hunmarked, Bool.true_and]
  · rintro ⟨key, hactive, hstored⟩
    obtain ⟨-, hunmarked⟩ := Bool.and_eq_true_iff.mp hactive
    exact ⟨key, ticket, ⟨hstored, hunmarked⟩, rfl⟩

/-- The map gives its entries out in the order of their keys, and so of the ids of tickets that
bear them. -/
theorem Labelled.ids_ascend (h : s.Labelled) :
    ((s.tickets.toList.filter fun (key, _) ↦ !s.isInactive key).map (·.2)).Pairwise
      fun a b ↦ a.id < b.id := by
  have hid : ∀ entry ∈ s.tickets.toList, entry.2.id = entry.1 := fun ⟨key, ticket⟩ hmem ↦
    h key ticket (Std.ExtTreeMap.mem_toList_iff_getElem?_eq_some.mp hmem)
  refine List.pairwise_map.mpr (List.Pairwise.filter _ ?_)
  refine (keys_ascend s.tickets).imp_of_mem fun ha hb hlt ↦ ?_
  rwa [hid _ ha, hid _ hb]

theorem Labelled.activeTickets_ascend (h : s.Labelled) :
    s.activeTickets.Pairwise fun a b ↦ a.id < b.id := by
  have hordered := h.ids_ascend.imp fun hlt ↦ decide_eq_true (Std.le_of_lt hlt)
  rw [activeTickets, List.mergeSort_of_pairwise hordered]
  exact h.ids_ascend

theorem ticket?_absorb_of_decodes {codec : Codec} {u : Update}
    (hcommand : u.command = .createTicket) (hdecodes : codec.decodeTicket u.value = .ok ticket)
    (s : Store) :
    (s.absorb codec u).ticket? u.key = some { ticket with id := u.key } := by
  have hview := congrArg KeyView.ticket (@view_absorb codec s u u.key)
  simp only [if_pos, KeyView.absorb, hcommand, hdecodes] at hview
  exact hview

/-- Whatever is applied, with whatever codec, and whenever sweeps come by: a ticket bears the key
it is stored under and not the id of its payload, and the active tickets are listed in the order of
the bytes of their ids, each of them once. -/
theorem pool_run (steps : List (Codec × StoreStep)) :
    let s := steps.foldl (fun s (codec, op) ↦ s.step codec op) empty
    (∀ key ticket, s.ticket? key = some ticket → ticket.id = key) ∧
      (∀ (codec : Codec) u ticket, u.command = .createTicket →
        codec.decodeTicket u.value = .ok ticket →
          (s.absorb codec u).ticket? u.key = some { ticket with id := u.key }) ∧
      s.activeTickets.Pairwise (fun a b ↦ a.id.toUTF8.toList < b.id.toUTF8.toList) ∧
      s.activeTickets.Nodup ∧
      (∀ ticket, ticket ∈ s.activeTickets ↔
        ∃ key, s.isActive key = true ∧ s.ticket? key = some ticket) ∧
      ∀ l : s.Listing, l.activeTickets = s.activeTickets := by
  intro s
  have hlabelled : s.Labelled :=
    List.foldlRecOn steps _ labelled_empty fun _ h op _ ↦ h.step op.2
  have hascend := hlabelled.activeTickets_ascend
  refine ⟨hlabelled, fun _ _ _ hcommand hdecodes ↦ ticket?_absorb_of_decodes hcommand hdecodes s,
    hascend.imp Utf8.toUTF8_lt_of_lt, ?_, fun _ ↦ mem_activeTickets,
    fun l ↦ l.activeTickets_eq hlabelled⟩
  refine hascend.imp fun hlt ↦ ?_
  rintro rfl
  exact String.lt_irrefl _ hlt

end TicketPool.Store

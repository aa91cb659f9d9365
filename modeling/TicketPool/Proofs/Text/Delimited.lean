import Mathlib.Data.List.Basic
import TicketPool.Proofs.Text.Utf8

/-!
# Codes that show where they end

Lists of symbols are put together from the codes of several things.  If each of them shows where
it ends, whatever follows it, the whole can be told apart again: a code closed by a symbol that it
does not use itself, a code of a fixed length, one such code after another, and a counted run of
them.

The bytes of a text are such a code once a zero byte is put behind them, unless the text has a
zero character of its own.
-/

namespace TicketPool

/-- From a list that begins with the code of a thing, of those that pass the test, one can tell the
thing and what follows. -/
def SelfDelimiting {α β : Type} (test : α → Prop) (code : α → List β) : Prop :=
  ∀ ⦃a b : α⦄ ⦃rest rest' : List β⦄, test a → test b → code a ++ rest = code b ++ rest' →
    a = b ∧ rest = rest'

namespace SelfDelimiting

variable {α α' β : Type} {test : α → Prop} {test' : α' → Prop} {code : α → List β}
  {code' : α' → List β}

theorem split_at_stop {stop : β} {front front' rest rest' : List β} (h : stop ∉ front)
    (h' : stop ∉ front') (heq : front ++ stop :: rest = front' ++ stop :: rest') :
    front = front' ∧ rest = rest' := by
  induction front generalizing front' with
  | nil =>
    cases front' with
    | nil => exact ⟨rfl, (List.cons.inj heq).2⟩
    | cons b front' =>
      obtain ⟨hstop, -⟩ := List.cons.inj heq
      exact absurd (hstop ▸ List.mem_cons_self) h'
  | cons a front ih =>
    cases front' with
    | nil =>
      obtain ⟨hstop, -⟩ := List.cons.inj heq
      exact absurd (hstop ▸ List.mem_cons_self) h
    | cons b front' =>
      obtain ⟨rfl, htail⟩ := List.cons.inj heq
      obtain ⟨rfl, hrest⟩ := ih (fun hmem ↦ h (List.mem_cons_of_mem _ hmem))
        (fun hmem ↦ h' (List.mem_cons_of_mem _ hmem)) htail
      exact ⟨rfl, hrest⟩

theorem of_stop {stop : β} (hinjective : ∀ a b, test a → test b → code a = code b → a = b)
    (hfree : ∀ a, test a → stop ∉ code a) :
    SelfDelimiting test fun a ↦ code a ++ [stop] := by
  intro a b rest rest' ha hb heq
  rw [List.append_assoc, List.append_assoc] at heq
  obtain ⟨hcode, hrest⟩ := split_at_stop (hfree a ha) (hfree b hb) heq
  exact ⟨hinjective a b ha hb hcode, hrest⟩

theorem of_length (length : Nat)
    (hinjective : ∀ a b, test a → test b → code a = code b → a = b)
    (hlength : ∀ a, (code a).length = length) : SelfDelimiting test code := by
  intro a b rest rest' ha hb heq
  obtain ⟨hcode, hrest⟩ := List.append_inj heq ((hlength a).trans (hlength b).symm)
  exact ⟨hinjective a b ha hb hcode, hrest⟩

theorem eq (h : SelfDelimiting test code) {a b : α} (ha : test a) (hb : test b)
    (heq : code a = code b) : a = b :=
  (@h a b [] [] ha hb (by rw [heq])).1

theorem pair (h : SelfDelimiting test code) (h' : SelfDelimiting test' code') :
    SelfDelimiting (fun p : α × α' ↦ test p.1 ∧ test' p.2) fun p ↦ code p.1 ++ code' p.2 := by
  rintro ⟨a, a'⟩ ⟨b, b'⟩ rest rest' ⟨ha, ha'⟩ ⟨hb, hb'⟩ heq
  rw [List.append_assoc, List.append_assoc] at heq
  obtain ⟨rfl, hsecond⟩ := h ha hb heq
  obtain ⟨rfl, hrest⟩ := h' ha' hb' hsecond
  exact ⟨rfl, hrest⟩

theorem flatMap (h : SelfDelimiting test code) {l l' : List α} {rest rest' : List β}
    (hlength : l.length = l'.length) (hl : ∀ a ∈ l, test a) (hl' : ∀ a ∈ l', test a)
    (heq : l.flatMap code ++ rest = l'.flatMap code ++ rest') : l = l' ∧ rest = rest' := by
  induction l generalizing l' with
  | nil =>
    obtain rfl : l' = [] := List.length_eq_zero_iff.mp hlength.symm
    exact ⟨rfl, heq⟩
  | cons a l ih =>
    obtain ⟨b, l', rfl⟩ := List.exists_cons_of_length_eq_add_one hlength.symm
    rw [List.flatMap_cons, List.flatMap_cons, List.append_assoc, List.append_assoc] at heq
    obtain ⟨rfl, htail⟩ := h (hl a List.mem_cons_self) (hl' b List.mem_cons_self) heq
    obtain ⟨rfl, hrest⟩ := ih (Nat.succ.inj hlength)
      (fun c hc ↦ hl c (List.mem_cons_of_mem _ hc))
      (fun c hc ↦ hl' c (List.mem_cons_of_mem _ hc)) htail
    exact ⟨rfl, hrest⟩

/-- A run of codes behind their number. -/
theorem counted {fits : Nat → Prop} {count : Nat → List β} (h : SelfDelimiting test code)
    (hcount : SelfDelimiting fits count) :
    SelfDelimiting (fun l : List α ↦ fits l.length ∧ ∀ a ∈ l, test a)
      fun l ↦ count l.length ++ l.flatMap code := by
  rintro l l' rest rest' ⟨hfits, hl⟩ ⟨hfits', hl'⟩ heq
  rw [List.append_assoc, List.append_assoc] at heq
  obtain ⟨hlength, hentries⟩ := hcount hfits hfits' heq
  exact h.flatMap hlength hl hl' hentries

end SelfDelimiting

/-- Whether a text is without the zero character. -/
def ZeroFree (s : String) : Prop :=
  '\x00' ∉ s.toList

instance (s : String) : Decidable (ZeroFree s) :=
  inferInstanceAs (Decidable (¬ _))

namespace ZeroFree

theorem zero_ne_ofNat {n : Nat} (hpos : 0 < n) (hlt : n < 256) : (0 : UInt8) ≠ UInt8.ofNat n := by
  intro heq
  have hnat := congrArg UInt8.toNat heq
  rw [UInt8.toNat_ofNat', Nat.mod_eq_of_lt hlt] at hnat
  exact absurd hnat (Nat.ne_of_lt hpos)

theorem zero_notMem_utf8EncodeChar {c : Char} (h : c ≠ '\x00') : 0 ∉ String.utf8EncodeChar c := by
  have hpos : 0 < c.val.toNat := by
    rw [Nat.pos_iff_ne_zero]
    intro hzero
    exact h (Char.toNat_inj.mp hzero)
  -- Each byte is a number between 1 and 255, in all four widths.
  simp only [String.utf8EncodeChar]
  split_ifs <;> simp only [List.mem_cons, List.not_mem_nil, or_false, not_or] <;> and_intros <;>
    exact zero_ne_ofNat (by omega) (by omega)

theorem zero_notMem_toUTF8 {s : String} (h : ZeroFree s) : 0 ∉ s.toUTF8.toList := by
  rw [Utf8.toList_toUTF8, List.mem_flatMap]
  rintro ⟨c, hc, hzero⟩
  apply zero_notMem_utf8EncodeChar _ hzero
  rintro rfl
  exact h hc

theorem selfDelimiting_toUTF8 :
    SelfDelimiting ZeroFree fun s ↦ s.toUTF8.toList ++ [0] :=
  .of_stop (fun _ _ _ _ ↦ Utf8.toUTF8_injective) fun _ ↦ zero_notMem_toUTF8

end ZeroFree

end TicketPool

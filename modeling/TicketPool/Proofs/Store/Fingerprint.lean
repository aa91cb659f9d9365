import TicketPool.Entry
import TicketPool.Proofs.Json.Documents
import TicketPool.Proofs.Store.Lifetime
import TicketPool.Proofs.Text.Delimited

/-!
# What the digest of a store tells

The bytes that are hashed can be told apart again into headings, keys and payloads, since each part
is counted and each text is closed by a zero byte.  Payloads have no zero character.  If the keys
have none either, stores that differ in anything are written with different bytes, and equal digests
mean equal contents, or a collision of the hash.
-/

namespace TicketPool

namespace Json

theorem hexDigit_ne_zero : ∀ n < 16, hexDigit n ≠ '\x00' := by
  decide

theorem zero_notMem_escape (c : Char) : '\x00' ∉ escape c := by
  unfold escape
  split_ifs with _ _ _ _ _ _ _ hblank
  all_goals try decide
  · have hlt : c.toNat < 32 := by
      rw [Char.lt_def, UInt32.lt_iff_toNat_lt] at hblank
      exact hblank
    have hhigh := hexDigit_ne_zero (c.toNat / 16) (by omega)
    have hlow := hexDigit_ne_zero (c.toNat % 16) (by omega)
    simp [hhigh.symm, hlow.symm]
  · rw [List.mem_singleton]
    rintro rfl
    exact hblank (by decide)

theorem zero_notMem_quote (s : String) : '\x00' ∉ quote s := by
  simp only [quote, List.cons_append, List.mem_cons, List.mem_append, List.mem_flatMap,
    List.not_mem_nil, or_false, not_or]
  refine ⟨by decide, ?_, by decide⟩
  rintro ⟨c, -, hzero⟩
  exact zero_notMem_escape c hzero

theorem zero_notMem_commaJoin {texts : List (List Char)} (h : ∀ text ∈ texts, '\x00' ∉ text) :
    '\x00' ∉ commaJoin texts := by
  fun_induction commaJoin texts with
  | case1 => exact List.not_mem_nil
  | case2 text => exact h text List.mem_cons_self
  | case3 text rest hrest ih =>
    rw [List.mem_append, List.mem_cons, not_or, not_or]
    exact ⟨h text List.mem_cons_self, by decide,
      ih fun later hlater ↦ h later (List.mem_cons_of_mem _ hlater)⟩

namespace Tree

mutual

theorem zero_notMem_chars : (t : Tree) → '\x00' ∉ t.chars
  | .null => by decide
  | .bool true => by decide
  | .bool false => by decide
  | .number n => by
    rw [chars, ← Number.written_numeral]
    intro hzero
    -- Numbers of both kinds are written as numerals, which have their own few characters.
    have hgoes := Numeral.goesOnNumber_of_mem_written (Number.wellFormed_numeral n) _ hzero
    exact absurd hgoes (by decide)
  | .text s => zero_notMem_quote s
  | .list items => by
    have hitems := zero_notMem_commaJoin (zero_notMem_itemTexts items)
    simp [chars, hitems]
  | .dict members => by
    have hmembers := zero_notMem_commaJoin (zero_notMem_memberTexts members)
    simp [chars, hmembers]
termination_by structural t => t

theorem zero_notMem_itemTexts : (items : List Tree) → ∀ text ∈ itemTexts items, '\x00' ∉ text
  | [] => fun _ h ↦ absurd h List.not_mem_nil
  | t :: rest => List.forall_mem_cons.mpr ⟨zero_notMem_chars t, zero_notMem_itemTexts rest⟩
termination_by structural ts => ts

theorem zero_notMem_memberTexts : (members : List (String × Tree)) →
    ∀ text ∈ memberTexts members, '\x00' ∉ text
  | [] => fun _ h ↦ absurd h List.not_mem_nil
  | (key, t) :: rest => by
    have hmember : '\x00' ∉ member key t.chars := by
      simp [member, zero_notMem_quote key, zero_notMem_chars t]
    exact List.forall_mem_cons.mpr ⟨hmember, zero_notMem_memberTexts rest⟩
termination_by structural ms => ms

end

theorem zeroFree_print (t : Tree) : ZeroFree t.print := by
  rw [ZeroFree, print, String.toList_ofList]
  exact zero_notMem_chars t

end Tree

end Json

namespace Sha256

theorem bigEndian_succ (count n : Nat) :
    bigEndian (count + 1) n = UInt8.ofNat (n >>> (8 * count)) :: bigEndian count n := by
  simp [bigEndian, List.range_succ]

theorem mod_eq_of_bigEndian_eq {count m n : Nat} (h : bigEndian count m = bigEndian count n) :
    m % 256 ^ count = n % 256 ^ count := by
  induction count with
  | zero => rw [pow_zero, Nat.mod_one, Nat.mod_one]
  | succ count ih =>
    rw [bigEndian_succ, bigEndian_succ] at h
    -- The byte in front is the next digit to the base of 256.
    obtain ⟨hhighest, hlower⟩ := List.cons.inj h
    have hbyte := congrArg UInt8.toNat hhighest
    have hpow : 2 ^ (8 * count) = 256 ^ count := pow_mul 2 8 count
    rw [UInt8.toNat_ofNat', UInt8.toNat_ofNat', Nat.shiftRight_eq_div_pow,
      Nat.shiftRight_eq_div_pow, hpow] at hbyte
    rw [Nat.mod_pow_succ, Nat.mod_pow_succ, ih hlower]
    exact congrArg (fun d ↦ n % 256 ^ count + 256 ^ count * d) hbyte

theorem digitChar_injective : ∀ m < 16, ∀ n < 16, Nat.digitChar m = Nat.digitChar n → m = n := by
  decide

theorem hex_injective {bytes bytes' : List UInt8} (h : hex bytes = hex bytes') :
    bytes = bytes' := by
  have hdigits : SelfDelimiting (fun _ : UInt8 ↦ True)
      fun b ↦ [Nat.digitChar (b.toNat / 16), Nat.digitChar (b.toNat % 16)] := by
    refine .of_length 2 ?_ fun _ ↦ rfl
    intro a b _ _ heq
    have ha := a.toNat_lt
    have hb := b.toNat_lt
    simp only [List.cons.injEq, and_true] at heq
    have hhigh := digitChar_injective _ (by omega) _ (by omega) heq.1
    have hlow := digitChar_injective _ (by omega) _ (by omega) heq.2
    exact UInt8.toNat_inj.mp (by omega)
  have hchars := String.ofList_injective h
  have hlength : bytes.length = bytes'.length := by
    have hlengths := congrArg List.length hchars
    simpa using hlengths
  exact (hdigits.flatMap hlength (fun _ _ ↦ trivial) (fun _ _ ↦ trivial)
    (congrArg (· ++ []) hchars)).1

end Sha256

namespace Store

theorem selfDelimiting_textBytes : SelfDelimiting ZeroFree textBytes :=
  ZeroFree.selfDelimiting_toUTF8

theorem selfDelimiting_countBytes : SelfDelimiting (· < 2 ^ 64) countBytes := by
  refine .of_length 8 ?_ fun _ ↦ rfl
  intro m n hm hn heq
  have hmod : m % 2 ^ 64 = n % 2 ^ 64 :=
    Sha256.mod_eq_of_bigEndian_eq (List.reverse_injective heq)
  rwa [Nat.mod_eq_of_lt hm, Nat.mod_eq_of_lt hn] at hmod

theorem selfDelimiting_keyBytes :
    SelfDelimiting (fun keys : List String ↦ keys.length < 2 ^ 64 ∧ ∀ key ∈ keys, ZeroFree key)
      keyBytes :=
  selfDelimiting_textBytes.counted selfDelimiting_countBytes

theorem selfDelimiting_entryBytes :
    SelfDelimiting (fun entries : List (String × String) ↦
      entries.length < 2 ^ 64 ∧ ∀ p ∈ entries, ZeroFree p.1 ∧ ZeroFree p.2) entryBytes :=
  (selfDelimiting_textBytes.pair selfDelimiting_textBytes).counted selfDelimiting_countBytes

/-- Whether two stores hold the same keys, and the same payloads under them. -/
def Alike (s t : Store) : Prop :=
  ∀ key, (s.ticket? key).map Ticket.encode = (t.ticket? key).map Ticket.encode ∧
    s.isInactive key = t.isInactive key ∧
    (s.assignment? key).map Assignment.encode = (t.assignment? key).map Assignment.encode

/-- Whether a key stands in one of the maps. -/
def Knows (s : Store) (key : String) : Prop :=
  key ∈ s.tickets ∨ key ∈ s.inactive ∨ key ∈ s.assignments

/-- Whether the bytes of a digest can be read back: no key has a zero character, and each count
fits in its eight bytes. -/
structure Readable (s : Store) : Prop where
  zeroFree : ∀ key, s.Knows key → ZeroFree key
  tickets : s.tickets.size < 2 ^ 64
  inactive : s.inactive.size < 2 ^ 64
  assignments : s.assignments.size < 2 ^ 64

section Entries

variable {α : Type} {m m' : StringMap α} {encode : α → String}

theorem entries_eq_iff :
    m.toList.map (fun (key, a) ↦ (key, encode a)) =
        m'.toList.map (fun (key, a) ↦ (key, encode a)) ↔
      ∀ key : String, m[key]?.map encode = m'[key]?.map encode := by
  have hentries : ∀ n : StringMap α, n.toList.map (fun (key, a) ↦ (key, encode a)) =
      (n.map fun _ a ↦ encode a).toList := by
    intro n
    rw [Std.ExtTreeMap.toList_map]
  rw [hentries, hentries, Std.ExtTreeMap.toList_inj]
  constructor
  · intro heq key
    have hkey := congrArg (fun n : StringMap String ↦ n[key]?) heq
    simpa only [Std.ExtTreeMap.getElem?_map] using hkey
  · intro hkeys
    apply Std.ExtTreeMap.ext_getElem?
    intro key
    rw [Std.ExtTreeMap.getElem?_map, Std.ExtTreeMap.getElem?_map]
    exact hkeys key

theorem readable_entries (hsize : m.size < 2 ^ 64) (hkeys : ∀ key ∈ m, ZeroFree key)
    (hencode : ∀ a, ZeroFree (encode a)) :
    (m.toList.map fun (key, a) ↦ (key, encode a)).length < 2 ^ 64 ∧
      ∀ p ∈ m.toList.map fun (key, a) ↦ (key, encode a), ZeroFree p.1 ∧ ZeroFree p.2 := by
  rw [List.length_map, Std.ExtTreeMap.length_toList, List.forall_mem_map]
  refine ⟨hsize, ?_⟩
  rintro ⟨key, a⟩ hentry
  have hvalue := Std.ExtTreeMap.mem_toList_iff_getElem?_eq_some.mp hentry
  obtain ⟨hkey, -⟩ := Std.ExtTreeMap.getElem?_eq_some_iff.mp hvalue
  exact ⟨hkeys key hkey, hencode a⟩

end Entries

variable {s t : Store}

theorem inactiveKeys_eq_iff :
    s.inactiveKeys = t.inactiveKeys ↔ ∀ key, s.isInactive key = t.isInactive key := by
  rw [inactiveKeys, inactiveKeys, Std.ExtTreeMap.map_fst_toList_eq_keys,
    Std.ExtTreeMap.map_fst_toList_eq_keys]
  constructor
  · intro heq key
    rw [Bool.eq_iff_iff]
    simp only [isInactive, ← Std.ExtTreeMap.mem_iff_contains, ← Std.ExtTreeMap.mem_keys, heq]
  · intro hkeys
    have hsame : s.inactive = t.inactive := by
      apply Std.ExtTreeMap.ext_mem_unit
      intro key
      rw [Std.ExtTreeMap.mem_iff_contains, Std.ExtTreeMap.mem_iff_contains]
      exact Bool.eq_iff_iff.mp (hkeys key)
    rw [hsame]

namespace Readable

theorem tickets_entries (h : s.Readable) :
    (s.tickets.toList.map fun (key, t) ↦ (key, t.encode)).length < 2 ^ 64 ∧
      ∀ p ∈ s.tickets.toList.map fun (key, t) ↦ (key, t.encode), ZeroFree p.1 ∧ ZeroFree p.2 :=
  readable_entries h.tickets (fun key hkey ↦ h.zeroFree key (.inl hkey))
    fun ticket ↦ Json.Tree.zeroFree_print ticket.toTree

theorem assignments_entries (h : s.Readable) :
    (s.assignments.toList.map fun (key, a) ↦ (key, a.encode)).length < 2 ^ 64 ∧
      ∀ p ∈ s.assignments.toList.map fun (key, a) ↦ (key, a.encode),
        ZeroFree p.1 ∧ ZeroFree p.2 :=
  readable_entries h.assignments (fun key hkey ↦ h.zeroFree key (.inr (.inr hkey)))
    fun assignment ↦ Json.Tree.zeroFree_print assignment.toTree

theorem inactive_keys (h : s.Readable) :
    s.inactiveKeys.length < 2 ^ 64 ∧ ∀ key ∈ s.inactiveKeys, ZeroFree key := by
  rw [inactiveKeys, Std.ExtTreeMap.map_fst_toList_eq_keys, Std.ExtTreeMap.length_keys]
  refine ⟨h.inactive, ?_⟩
  intro key hkey
  exact h.zeroFree key (.inr (.inl (Std.ExtTreeMap.mem_keys.mp hkey)))

end Readable

/-- Stores are alike just if the same three lists are written for them. -/
theorem alike_iff :
    s.Alike t ↔
      s.tickets.toList.map (fun (key, ticket) ↦ (key, ticket.encode)) =
          t.tickets.toList.map (fun (key, ticket) ↦ (key, ticket.encode)) ∧
        s.inactiveKeys = t.inactiveKeys ∧
        s.assignments.toList.map (fun (key, assignment) ↦ (key, assignment.encode)) =
          t.assignments.toList.map (fun (key, assignment) ↦ (key, assignment.encode)) := by
  rw [entries_eq_iff, entries_eq_iff, inactiveKeys_eq_iff, ← forall_and, ← forall_and]
  rfl

theorem digestBytes_eq_iff (hs : s.Readable) (ht : t.Readable) :
    s.digestBytes = t.digestBytes ↔ s.Alike t := by
  rw [alike_iff, digestBytes, digestBytes]
  constructor
  · intro heq
    -- Behind the heading each part is read from the front and leaves the next ones.
    simp only [List.append_assoc, List.append_cancel_left_eq] at heq
    obtain ⟨htickets, hrest⟩ :=
      selfDelimiting_entryBytes hs.tickets_entries ht.tickets_entries heq
    obtain ⟨hinactive, hassignments⟩ :=
      selfDelimiting_keyBytes hs.inactive_keys ht.inactive_keys hrest
    exact ⟨htickets, hinactive,
      selfDelimiting_entryBytes.eq hs.assignments_entries ht.assignments_entries hassignments⟩
  · rintro ⟨htickets, hinactive, hassignments⟩
    rw [htickets, hinactive, hassignments]

section Run

variable {codec : Codec} {steps : List StoreStep} {key : String}

theorem not_knows_of_view (h : s.view key = {}) : ¬ s.Knows key := by
  have hticket : s.tickets[key]? = none := congrArg KeyView.ticket h
  have hmarked : s.inactive.contains key = false := congrArg KeyView.marked h
  have hassignment : s.assignments[key]? = none := congrArg KeyView.assignment h
  rintro (hkey | hkey | hkey)
  · rw [Std.ExtTreeMap.mem_iff_isSome_getElem?, hticket] at hkey
    cases hkey
  · rw [Std.ExtTreeMap.mem_iff_contains, hmarked] at hkey
    cases hkey
  · rw [Std.ExtTreeMap.mem_iff_isSome_getElem?, hassignment] at hkey
    cases hkey

theorem foldl_step_of_unnamed (h : ∀ u ∈ StoreStep.updates steps, u.key ≠ key) :
    steps.foldl (KeyView.step codec key) {} = {} := by
  induction steps with
  | nil => rfl
  | cons op rest ih =>
    have hstep : KeyView.step codec key {} op = {} := by
      cases op with
      | update u => exact if_neg (h u List.mem_cons_self)
      | sweep rule => simp [KeyView.step, KeyView.sweep]
    rw [List.foldl_cons, hstep]
    apply ih
    intro u hu
    obtain ⟨later, hlater, hupdate⟩ := List.mem_filterMap.mp hu
    exact h u (List.mem_filterMap.mpr ⟨later, List.mem_cons_of_mem _ hlater, hupdate⟩)

/-- A run knows no keys but those that its updates name. -/
theorem named_of_knows_run (h : (empty.run codec steps).Knows key) :
    key ∈ (StoreStep.updates steps).map Update.key := by
  by_contra hunnamed
  apply not_knows_of_view _ h
  rw [view_run]
  apply foldl_step_of_unnamed
  intro u hu hkey
  exact hunnamed (List.mem_map.mpr ⟨u, hu, hkey⟩)

theorem size_le_of_forall_mem {α : Type} {m : StringMap α} {keys : List String}
    (h : ∀ key ∈ m, key ∈ keys) : m.size ≤ keys.length := by
  rw [← Std.ExtTreeMap.length_keys]
  apply (List.subperm_of_subset Std.ExtTreeMap.nodup_keys _).length_le
  intro key hkey
  exact h key (Std.ExtTreeMap.mem_keys.mp hkey)

theorem readable_run (hkeys : ∀ u ∈ StoreStep.updates steps, ZeroFree u.key)
    (hshort : steps.length < 2 ^ 64) : (empty.run codec steps).Readable := by
  have hnamed : ((StoreStep.updates steps).map Update.key).length < 2 ^ 64 := by
    rw [List.length_map]
    exact (List.length_filterMap_le _ _).trans_lt hshort
  refine ⟨?_, ?_, ?_, ?_⟩
  · intro key hkey
    obtain ⟨u, hu, rfl⟩ := List.mem_map.mp (named_of_knows_run hkey)
    exact hkeys u hu
  · exact (size_le_of_forall_mem fun _ hkey ↦ named_of_knows_run (.inl hkey)).trans_lt hnamed
  · exact (size_le_of_forall_mem fun _ hkey ↦
      named_of_knows_run (.inr (.inl hkey))).trans_lt hnamed
  · exact (size_le_of_forall_mem fun _ hkey ↦
      named_of_knows_run (.inr (.inr hkey))).trans_lt hnamed

end Run

/-- After runs whose updates name no key with a zero character, the bytes that are hashed are the
same just if the stores hold the same.  So stores with equal digests hold the same, unless two
different messages have the same hash. -/
theorem digest_run_eq (codec : Codec) (first second : List StoreStep)
    (hfirst : ∀ u ∈ StoreStep.updates first, ZeroFree u.key)
    (hsecond : ∀ u ∈ StoreStep.updates second, ZeroFree u.key)
    (hshort : first.length < 2 ^ 64) (hshort' : second.length < 2 ^ 64) :
    let one := empty.run codec first
    let two := empty.run codec second
    (one.digestBytes = two.digestBytes ↔ one.Alike two) ∧
      (one.digest = two.digest → one.Alike two ∨ one.digestBytes ≠ two.digestBytes ∧
        Sha256.hash one.digestBytes = Sha256.hash two.digestBytes) := by
  intro one two
  have hbytes : one.digestBytes = two.digestBytes ↔ one.Alike two :=
    digestBytes_eq_iff (readable_run hfirst hshort) (readable_run hsecond hshort')
  refine ⟨hbytes, ?_⟩
  intro hdigest
  by_cases halike : one.Alike two
  · exact .inl halike
  · exact .inr ⟨fun hsame ↦ halike (hbytes.mp hsame), Sha256.hex_injective hdigest⟩

/-- A player gets ready. -/
def called : List StoreStep :=
  [.update ⟨.createTicket, "1700000000000-0",
      "\x7b\"expiration_time\":\"2030-01-01T00:00:00Z\"\x7d"⟩,
    .update (.activate "1700000000000-0")]

/-- The activation shows in the bytes. -/
theorem called_tells :
    (∀ u ∈ StoreStep.updates called, ZeroFree u.key) ∧
      (empty.run .json called).isActive "1700000000000-0" = true ∧
      (empty.run .json called).digestBytes ≠ (empty.run .json (called.take 1)).digestBytes := by
  have hkeys : ∀ u ∈ StoreStep.updates called, ZeroFree u.key := by decide
  refine ⟨hkeys, by decide +kernel, ?_⟩
  obtain ⟨hbytes, -⟩ := digest_run_eq .json called (called.take 1) hkeys (by decide) (by decide)
    (by decide)
  intro hsame
  obtain ⟨-, hmarked, -⟩ := hbytes.mp hsame "1700000000000-0"
  revert hmarked
  decide +kernel

/-- Two players step back, one of whom has a zero character in the key.  The other run tells the
same bytes of two other players. -/
def stepBack (first second : String) : List StoreStep :=
  [.update (.deactivate first), .update (.deactivate second)]

theorem zero_in_key_hidden :
    let one := empty.run .json (stepBack "a" "b\x00c")
    let two := empty.run .json (stepBack "a\x00b" "c")
    (∀ u ∈ StoreStep.updates (stepBack "a" "b\x00c" ++ stepBack "a\x00b" "c"),
        u.toFields.toOption.isSome = true) ∧
      one.inactiveKeys = ["a", "b\x00c"] ∧ two.inactiveKeys = ["a\x00b", "c"] ∧
      one.digestBytes = two.digestBytes ∧ one.digest = two.digest := by
  intro one two
  have hbytes : one.digestBytes = two.digestBytes := by decide +kernel
  exact ⟨by decide +kernel, by decide +kernel, by decide +kernel, hbytes,
    congrArg (fun bytes ↦ Sha256.hex (Sha256.hash bytes)) hbytes⟩

end Store

end TicketPool

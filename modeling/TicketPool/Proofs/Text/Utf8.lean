import Mathlib.Algebra.Group.Nat.Defs
import Mathlib.Tactic.SplitIfs

/-!
# The bytes of a text

A text is stored as the codes of its characters, of one to four bytes each.  The code of a greater
character is the greater one whatever follows, so texts are in the order of their bytes.
-/

namespace TicketPool.Utf8

section Bytes

theorem toList_loop (bytes : ByteArray) (i : Nat) (read : List UInt8) :
    ByteArray.toList.loop bytes i read = read.reverse ++ bytes.data.toList.drop i := by
  have hsize : bytes.data.toList.length = bytes.size := Array.length_toList
  induction i, read using ByteArray.toList.loop.induct bytes with
  | case1 i read hlt ih =>
    have hi : i < bytes.data.toList.length := hsize.symm ▸ hlt
    have hget : bytes.get! i = bytes.data.toList[i] := getElem!_pos bytes.data i hlt
    rw [ByteArray.toList.loop, if_pos hlt, ih, List.drop_eq_getElem_cons hi, hget,
      List.reverse_cons, List.append_assoc, List.singleton_append]
  | case2 i read hge =>
    rw [ByteArray.toList.loop, if_neg hge, List.drop_of_length_le (by omega), List.append_nil]

theorem toList_toUTF8 (s : String) : s.toUTF8.toList = s.toList.flatMap String.utf8EncodeChar := by
  have hdata : s.toUTF8.toList = s.toUTF8.data.toList := toList_loop s.toUTF8 0 []
  have hbytes : s.toUTF8 = (s.toList.flatMap String.utf8EncodeChar).toByteArray :=
    String.utf8Encode_toList.symm
  rw [hdata, hbytes, List.toList_data_toByteArray]

theorem toUTF8_injective {s t : String} (h : s.toUTF8.toList = t.toUTF8.toList) : s = t := by
  rw [toList_toUTF8, toList_toUTF8] at h
  rw [← String.toByteArray_inj, ← String.utf8Encode_toList, ← String.utf8Encode_toList]
  exact congrArg List.toByteArray h

end Bytes

section Order

variable {v w count base : Nat}

theorem cons_lt_cons_of_lt (hw : w < 256) (h : v < w) (l l' : List UInt8) :
    UInt8.ofNat v :: l < UInt8.ofNat w :: l' := by
  have hv : v < 256 := Nat.lt_trans h hw
  rw [List.cons_lt_cons_iff, UInt8.lt_iff_toNat_lt, UInt8.toNat_ofNat_of_lt' hv,
    UInt8.toNat_ofNat_of_lt' hw]
  exact .inl h

/-- The last bytes of a code: six bits each, the lowest in the last byte. -/
def continuation (v : Nat) : Nat → List UInt8
  | 0 => []
  | count + 1 => .ofNat (v / 64 ^ count % 64 + 0x80) :: continuation v count

theorem continuation_append_lt (h : v % 64 ^ count < w % 64 ^ count) (rest rest' : List UInt8) :
    continuation v count ++ rest < continuation w count ++ rest' := by
  induction count with
  | zero => simp [Nat.mod_one] at h
  | succ count ih =>
    rw [Nat.pow_succ, Nat.mod_mul, Nat.mod_mul] at h
    have hlow : w % 64 ^ count < 64 ^ count := Nat.mod_lt w (Nat.pow_pos (by decide))
    have hdigit : v / 64 ^ count % 64 ≤ w / 64 ^ count % 64 := by
      refine Nat.not_lt.mp fun hless ↦ ?_
      have hmore := Nat.mul_le_mul_left (64 ^ count) (Nat.succ_le_of_lt hless)
      rw [Nat.mul_succ] at hmore
      omega
    rcases Nat.lt_or_eq_of_le hdigit with hless | hsame
    · exact cons_lt_cons_of_lt (by omega) (by omega) _ _
    · rw [hsame] at h
      simp only [continuation, hsame, List.cons_append]
      exact List.cons_lt_cons_iff.mpr (.inr ⟨rfl, ih (by omega)⟩)

theorem lead_append_lt (h : v < w) (hw : w / 64 ^ count + base < 256) (rest rest' : List UInt8) :
    UInt8.ofNat (v / 64 ^ count + base) :: (continuation v count ++ rest) <
      UInt8.ofNat (w / 64 ^ count + base) :: (continuation w count ++ rest') := by
  have hlead : v / 64 ^ count ≤ w / 64 ^ count := Nat.div_le_div_right (Nat.le_of_lt h)
  rcases Nat.lt_or_eq_of_le hlead with hless | hsame
  · exact cons_lt_cons_of_lt hw (by omega) _ _
  · have hv := Nat.div_add_mod v (64 ^ count)
    have hw := Nat.div_add_mod w (64 ^ count)
    rw [hsame] at hv ⊢
    exact List.cons_lt_cons_iff.mpr (.inr ⟨rfl, continuation_append_lt (by omega) _ _⟩)

/-- How many bytes follow the first one of a code, and the bits that tell so in the first one. -/
inductive Width (v : Nat) : Nat → Nat → Prop
  | one : v < 0x80 → Width v 0 0
  | two : 0x80 ≤ v → v < 0x800 → Width v 1 0xc0
  | three : 0x800 ≤ v → v < 0x10000 → Width v 2 0xe0
  | four : 0x10000 ≤ v → v < 0x110000 → Width v 3 0xf0

theorem exists_width (c : Char) : ∃ count base, Width c.toNat count base ∧
    String.utf8EncodeChar c =
      .ofNat (c.toNat / 64 ^ count + base) :: continuation c.toNat count := by
  have hmax : c.toNat < 0x110000 := by
    rcases c.valid with hlow | ⟨-, hhigh⟩
    · exact Nat.lt_trans hlow (by decide)
    · exact hhigh
  have hcode : String.utf8EncodeChar c =
      if c.toNat ≤ 0x7f then [.ofNat c.toNat]
      else if c.toNat ≤ 0x7ff then
        .ofNat (c.toNat / 64 ^ 1 % 32 + 0xc0) :: continuation c.toNat 1
      else if c.toNat ≤ 0xffff then
        .ofNat (c.toNat / 64 ^ 2 % 16 + 0xe0) :: continuation c.toNat 2
      else .ofNat (c.toNat / 64 ^ 3 % 8 + 0xf0) :: continuation c.toNat 3 := by
    simp [continuation, String.utf8EncodeChar]
  rw [hcode]
  split_ifs
  · exact ⟨0, 0, .one (by omega), by simp [continuation]⟩
  · exact ⟨1, _, .two (by omega) (by omega), by rw [Nat.mod_eq_of_lt (by omega)]⟩
  · exact ⟨2, _, .three (by omega) (by omega), by rw [Nat.mod_eq_of_lt (by omega)]⟩
  · exact ⟨3, _, .four (by omega) hmax, by rw [Nat.mod_eq_of_lt (by omega)]⟩

theorem utf8EncodeChar_append_lt {c d : Char} (h : c < d) (rest rest' : List UInt8) :
    String.utf8EncodeChar c ++ rest < String.utf8EncodeChar d ++ rest' := by
  have hvalue : c.toNat < d.toNat := UInt32.lt_iff_toNat_lt.mp h
  obtain ⟨count, base, hc, hcode⟩ := exists_width c
  obtain ⟨count', base', hd, hcode'⟩ := exists_width d
  have hbyte : d.toNat / 64 ^ count' + base' < 256 := by
    cases hd <;> omega
  -- A longer code begins with a greater byte, so only codes of one length need a closer look.
  have hlead : count = count' ∧ base = base' ∨
      c.toNat / 64 ^ count + base < d.toNat / 64 ^ count' + base' := by
    cases hc <;> cases hd <;> omega
  rw [hcode, hcode', List.cons_append, List.cons_append]
  rcases hlead with ⟨rfl, rfl⟩ | hless
  · exact lead_append_lt hvalue hbyte rest rest'
  · exact cons_lt_cons_of_lt hbyte hless _ _

theorem flatMap_lt {l l' : List Char} (h : l < l') :
    l.flatMap String.utf8EncodeChar < l'.flatMap String.utf8EncodeChar := by
  induction l generalizing l' with
  | nil =>
    cases l' with
    | nil => exact absurd h (List.not_lt_nil _)
    | cons d rest' =>
      obtain ⟨count, base, -, hcode⟩ := exists_width d
      rw [List.flatMap_cons, hcode]
      exact List.nil_lt_cons _ _
  | cons c rest ih =>
    cases l' with
    | nil => exact absurd h (List.not_lt_nil _)
    | cons d rest' =>
      rw [List.flatMap_cons, List.flatMap_cons]
      rcases List.cons_lt_cons_iff.mp h with hless | ⟨rfl, hrest⟩
      · exact utf8EncodeChar_append_lt hless _ _
      · exact List.append_left_lt (ih hrest)

/-- Texts are in the order of their bytes. -/
theorem toUTF8_lt_of_lt {s t : String} (h : s < t) : s.toUTF8.toList < t.toUTF8.toList := by
  rw [toList_toUTF8, toList_toUTF8]
  exact flatMap_lt h

end Order

end TicketPool.Utf8

import TicketPool.Json.Printer
import TicketPool.Proofs.Json.Numerals

/-!
# Reading text back as tokens

Printed text consists of words, numbers and strings with punctuation between them.  A word or a
number ends only with the character behind it.  So what the reader has come to behind a text is told
by what it can do next: it can stop there, and it takes punctuation as it does between two tokens.
-/

namespace TicketPool.Json

namespace Piece

/-- The piece that a character of a printed string is read as. -/
def ofChar (c : Char) : Piece :=
  if c < ' ' ∧ c ∉ ['\x08', '\x0c', '\n', '\r', '\t'] then .unit c.toNat else .char c

def ofString (s : String) : List Piece :=
  s.toList.map ofChar

theorem chars?_unit {u : Nat} (h : u < 0xD800) (rest : List Piece) :
    chars? (.unit u :: rest) = (chars? rest).map (Char.ofNat u :: ·) := by
  have hhigh : ¬(0xD800 ≤ u ∧ u < 0xDC00) := by omega
  have hlow : ¬(0xDC00 ≤ u ∧ u < 0xE000) := by omega
  rw [chars?.eq_def]
  simp only [if_neg hhigh, if_neg hlow]

theorem chars?_map_ofChar (l : List Char) : chars? (l.map ofChar) = some l := by
  induction l with
  | nil => rfl
  | cons c rest ih =>
    rw [List.map_cons, ofChar]
    split_ifs with hcontrol
    · have hsmall : c.toNat < ' '.toNat := hcontrol.1
      rw [chars?_unit (hsmall.trans (by decide)), ih, Char.ofNat_toNat]
      rfl
    · rw [chars?, ih]
      rfl

@[simp] theorem string?_ofString (s : String) : string? (ofString s) = some s := by
  rw [string?, ofString, chars?_map_ofChar, Option.map_some, String.ofList_toList]

end Piece

namespace Token

/-- The characters that are tokens by themselves. -/
def punctuation : List (Char × Token) :=
  [('[', .openList), (']', .closeList), ('\x7b', .openDict), ('\x7d', .closeDict), (',', .comma),
    (':', .colon)]

/-- The reader may stop, or go on with punctuation, having read these tokens, last first. -/
structure Reader.Behind (r : Reader) (read : List Token) : Prop where
  finish : r.finish? = some read.reverse
  next : ∀ p ∈ punctuation, r.step? p.1 = some ⟨p.2 :: read, .between⟩

/-- Wherever the reader starts to read the text, it reads it as the tokens. -/
def Reads (text : List Char) (tokens : List Token) : Prop :=
  ∀ read, ∃ r, text.foldlM Reader.step? ⟨read, .between⟩ = some r ∧
    r.Behind (tokens.reverse ++ read)

namespace Reader

variable {r : Reader} {read : List Token}

theorem start?_punctuation : ∀ p ∈ punctuation,
    start? ⟨read, .between⟩ p.1 = some ⟨p.2 :: read, .between⟩ := by
  simp [punctuation, start?, isBlank, push]

theorem start?_isDigit {c : Char} (h : c.isDigit = true) :
    start? ⟨read, .between⟩ c = some ⟨read, .number [c]⟩ := by
  have hrange := Digit.toNat_of_isDigit h
  obtain ⟨d, hd, rfl⟩ : ∃ d < 10, c = Char.ofNat (48 + d) :=
    ⟨c.toNat - 48, by omega, by rw [Nat.add_sub_cancel' hrange.1, Char.ofNat_toNat]⟩
  interval_cases d <;> rfl

theorem behind_between : Behind ⟨read, .between⟩ read :=
  ⟨rfl, start?_punctuation⟩

theorem behind_word {token : Token} : Behind ⟨read, .word [] token⟩ (token :: read) :=
  ⟨rfl, start?_punctuation⟩

/-- Numbers end before punctuation. -/
theorem behind_number {run : List Char} {n : Numeral} (h : Numeral.ofChars? run.reverse = some n) :
    Behind ⟨read, .number run⟩ (.number n :: read) := by
  refine ⟨?_, fun p hp ↦ ?_⟩
  · simp [finish?, endNumber?, h, push]
  · have hstops : ∀ p ∈ punctuation, goesOnNumber p.1 = false := by decide
    have hnext : step? ⟨read, .number run⟩ p.1 =
        (endNumber? ⟨read, .number run⟩ run).bind (start? · p.1) := by
      simp only [step?, hstops p hp, Bool.false_eq_true, if_false]
    rw [hnext, endNumber?, h]
    exact start?_punctuation p hp

theorem steps_word {token : Token} (rest : List Char) :
    rest.foldlM step? ⟨read, .word rest token⟩ = some ⟨read, .word [] token⟩ := by
  induction rest with
  | nil => rfl
  | cons c rest ih =>
    rw [List.foldlM_cons]
    simp only [step?, if_true]
    exact ih

theorem steps_number {run : List Char} (h : ∀ c ∈ run, goesOnNumber c = true) (before : List Char) :
    run.foldlM step? ⟨read, .number before⟩ = some ⟨read, .number (run.reverse ++ before)⟩ := by
  induction run generalizing before with
  | nil => rfl
  | cons c rest ih =>
    obtain ⟨hc, hrest⟩ := List.forall_mem_cons.mp h
    rw [List.foldlM_cons]
    simp only [step?, hc, if_true]
    rw [List.reverse_cons, List.append_assoc]
    exact ih hrest (c :: before)

theorem hexValue?_hexDigit : ∀ d < 16, hexValue? (hexDigit d) = some d := by
  decide

theorem steps_escape (c : Char) (pieces : List Piece) :
    (escape c).foldlM step? ⟨read, .text pieces⟩ =
      some ⟨read, .text (.ofChar c :: pieces)⟩ := by
  unfold escape
  split_ifs with hquote hbackslash hb hf hn hr ht hcontrol
  · subst hquote; rfl
  · subst hbackslash; rfl
  · subst hb; rfl
  · subst hf; rfl
  · subst hn; rfl
  · subst hr; rfl
  · subst ht; rfl
  · have hsmall : c.toNat < 32 := hcontrol
    have hpiece : Piece.ofChar c = .unit c.toNat := by
      simp [Piece.ofChar, hcontrol, hb, hf, hn, hr, ht]
    have hhigh := hexValue?_hexDigit (c.toNat / 16) (by omega)
    have hlow := hexValue?_hexDigit (c.toNat % 16) (by omega)
    have hzero : hexValue? '0' = some 0 := rfl
    simp [step?, hhigh, hlow, hzero, hpiece, Nat.div_add_mod]
  · have hpiece : Piece.ofChar c = .char c := by simp [Piece.ofChar, hcontrol]
    simp [step?, hquote, hbackslash, hcontrol, hpiece]

theorem steps_escapes (run : List Char) (pieces : List Piece) :
    (run.flatMap escape).foldlM step? ⟨read, .text pieces⟩ =
      some ⟨read, .text ((run.map Piece.ofChar).reverse ++ pieces)⟩ := by
  induction run generalizing pieces with
  | nil => rfl
  | cons c rest ih =>
    rw [List.flatMap_cons, List.foldlM_append, steps_escape]
    simp only [Option.bind_eq_bind, Option.bind_some, ih, List.map_cons, List.reverse_cons,
      List.append_assoc, List.singleton_append]

end Reader

theorem reads_nil : Reads [] [] :=
  fun _ ↦ ⟨_, rfl, Reader.behind_between⟩

theorem Reads.punctuated {before after : List Char} {first last : List Token} {c : Char}
    {token : Token} (hbefore : Reads before first) (hc : (c, token) ∈ punctuation)
    (hafter : Reads after last) : Reads (before ++ c :: after) (first ++ token :: last) := by
  intro read
  obtain ⟨r, hr, hbehind⟩ := hbefore read
  obtain ⟨s, hs, hend⟩ := hafter (token :: (first.reverse ++ read))
  refine ⟨s, ?_, ?_⟩
  · rw [List.foldlM_append, hr]
    simp only [Option.bind_eq_bind, Option.bind_some, List.foldlM_cons, hbehind.next _ hc]
    exact hs
  · simpa using hend

theorem reads_word {c : Char} {rest : List Char} {token : Token}
    (h : ∀ read, Reader.start? ⟨read, .between⟩ c = some ⟨read, .word rest token⟩) :
    Reads (c :: rest) [token] := by
  intro read
  refine ⟨_, ?_, Reader.behind_word⟩
  rw [List.foldlM_cons]
  change Option.bind (Reader.start? ⟨read, .between⟩ c) _ = _
  rw [h read]
  exact Reader.steps_word rest

theorem reads_quote (s : String) : Reads (quote s) [.text (Piece.ofString s)] := by
  intro read
  refine ⟨⟨.text (Piece.ofString s) :: read, .between⟩, ?_, Reader.behind_between⟩
  rw [quote, List.cons_append, List.foldlM_cons]
  change (s.toList.flatMap escape ++ ['"']).foldlM Reader.step? ⟨read, .text []⟩ = _
  rw [List.foldlM_append, Reader.steps_escapes]
  simp [Reader.step?, Reader.push, Piece.ofString]

end Token

namespace Numeral

open Token

variable {n : Numeral}

theorem goesOnNumber_of_digits {run : List Char} (h : ∀ c ∈ run, c.isDigit = true) :
    ∀ c ∈ run, goesOnNumber c = true := by
  intro c hc
  simp [goesOnNumber, h c hc]

theorem goesOnNumber_of_mem_written (h : n.WellFormed) :
    ∀ c ∈ n.written, goesOnNumber c = true := by
  have hsign : ∀ c ∈ (if n.negative then ['-'] else []), goesOnNumber c = true := by
    split_ifs
    · exact List.forall_mem_singleton.mpr rfl
    · exact List.forall_mem_nil _
  have hfraction : ∀ c ∈ fractionText n.fraction, goesOnNumber c = true := by
    unfold fractionText
    split_ifs
    · exact List.forall_mem_nil _
    · exact List.forall_mem_cons.mpr ⟨rfl, goesOnNumber_of_digits h.fractionDigits⟩
  have hexponent : ∀ c ∈ exponentText n.exponent, goesOnNumber c = true := by
    cases he : n.exponent with
    | none => exact List.forall_mem_nil _
    | some e =>
      have hrun := (h.exponentDigits e.1 e.2 he).2
      refine List.forall_mem_cons.mpr ⟨rfl, List.forall_mem_cons.mpr ⟨?_, ?_⟩⟩
      · cases e.1 <;> rfl
      · exact goesOnNumber_of_digits hrun
  simp only [written, List.forall_mem_append]
  exact ⟨hsign, goesOnNumber_of_digits h.wholeDigits, hfraction, hexponent⟩

/-- A number starts with a sign or a digit. -/
theorem start?_written (h : n.WellFormed) (read : List Token) : ∃ c rest, n.written = c :: rest ∧
    Reader.start? ⟨read, .between⟩ c = some ⟨read, .number [c]⟩ := by
  unfold written
  cases n.negative with
  | true => exact ⟨_, _, rfl, rfl⟩
  | false =>
    obtain ⟨c, rest, hwhole⟩ := List.exists_cons_of_ne_nil h.whole_ne_nil
    have hdigit := h.wholeDigits c (by simp [hwhole])
    refine ⟨c, rest ++ (fractionText n.fraction ++ exponentText n.exponent), by simp [hwhole], ?_⟩
    exact Reader.start?_isDigit hdigit

theorem reads_written (h : n.WellFormed) : Reads n.written [.number n] := by
  intro read
  obtain ⟨c, rest, hwritten, hstart⟩ := start?_written h read
  refine ⟨⟨read, .number n.written.reverse⟩, ?_, Reader.behind_number ?_⟩
  · have hrest : ∀ d ∈ rest, goesOnNumber d = true := fun d hd ↦
      goesOnNumber_of_mem_written h d (hwritten ▸ List.mem_cons_of_mem c hd)
    rw [hwritten, List.foldlM_cons]
    change Option.bind (Reader.start? ⟨read, .between⟩ c) _ = _
    rw [hstart, List.reverse_cons]
    exact Reader.steps_number hrest [c]
  · rw [List.reverse_reverse]
    exact ofChars?_written h

end Numeral

end TicketPool.Json

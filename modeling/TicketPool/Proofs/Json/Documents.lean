import Mathlib.Data.List.Forall2
import TicketPool.Json.Document
import TicketPool.Proofs.Json.Tokens

/-!
# Reading text back as a document

Every document can be built from its tokens, and printed text has the tokens of the document that
the tree is printed as.
-/

namespace TicketPool.Json

namespace Document

open Builder

def commaTokens : List (List Token) → List Token
  | [] => []
  | [tokens] => tokens
  | tokens :: rest => tokens ++ .comma :: commaTokens rest

mutual

/-- The tokens of a document, in order. -/
def tokens : Document → List Token
  | .null => [.null]
  | .bool b => [.bool b]
  | .number n => [.number n]
  | .text pieces => [.text pieces]
  | .list items => .openList :: (commaTokens (itemTokens items) ++ [.closeList])
  | .dict members => .openDict :: (commaTokens (memberTokens members) ++ [.closeDict])
termination_by structural d => d

def itemTokens : List Document → List (List Token)
  | [] => []
  | d :: rest => d.tokens :: itemTokens rest
termination_by structural ds => ds

def memberTokens : List (List Piece × Document) → List (List Token)
  | [] => []
  | (key, d) :: rest => (.text key :: .colon :: d.tokens) :: memberTokens rest
termination_by structural ms => ms

end

/-- A document is built from its tokens wherever a value may come. -/
def IsBuilt (d : Document) : Prop :=
  ∀ frames goal, goal = .value ∨ goal = .firstItem →
    d.tokens.foldlM step? ⟨frames, goal⟩ = complete? frames d

variable {frames : List Frame} {goal : Goal}

theorem foldlM_items {items : List Document} (hitems : ∀ d ∈ items, IsBuilt d) (hne : items ≠ [])
    (hgoal : goal = .value ∨ goal = .firstItem) (before : List Document) :
    (commaTokens (itemTokens items)).foldlM step? ⟨.list before :: frames, goal⟩ =
      some ⟨.list (items.reverse ++ before) :: frames, .next⟩ := by
  induction items generalizing before goal with
  | nil => exact absurd rfl hne
  | cons d rest ih =>
    obtain ⟨hd, hrest⟩ := List.forall_mem_cons.mp hitems
    cases rest with
    | nil => exact hd (.list before :: frames) goal hgoal
    | cons e rest =>
      change (d.tokens ++ .comma :: commaTokens (itemTokens (e :: rest))).foldlM step? _ = _
      rw [List.foldlM_append, hd _ _ hgoal]
      have hlast := ih hrest (List.cons_ne_nil e rest) (.inl rfl) (d :: before)
      rw [List.reverse_cons, List.append_assoc]
      exact hlast

theorem foldlM_members {members : List (List Piece × Document)}
    (hmembers : ∀ p ∈ members, IsBuilt p.2) (hne : members ≠ [])
    (hgoal : goal = .key ∨ goal = .firstKey) (before : List (List Piece × Document)) :
    (commaTokens (memberTokens members)).foldlM step? ⟨.dict before :: frames, goal⟩ =
      some ⟨.dict (members.reverse ++ before) :: frames, .next⟩ := by
  induction members generalizing before goal with
  | nil => exact absurd rfl hne
  | cons p rest ih =>
    obtain ⟨key, d⟩ := p
    obtain ⟨hd, hrest⟩ := List.forall_mem_cons.mp hmembers
    have hmember : (.text key :: .colon :: d.tokens : List Token).foldlM step?
        ⟨.dict before :: frames, goal⟩ = some ⟨.dict ((key, d) :: before) :: frames, .next⟩ := by
      rcases hgoal with rfl | rfl <;> exact hd (.member before key :: frames) .value (.inl rfl)
    cases rest with
    | nil => exact hmember
    | cons q rest =>
      change (.text key :: .colon :: d.tokens ++
        .comma :: commaTokens (memberTokens (q :: rest))).foldlM step? _ = _
      rw [List.foldlM_append, hmember]
      have hlast := ih hrest (List.cons_ne_nil q rest) (.inl rfl) ((key, d) :: before)
      rw [List.reverse_cons, List.append_assoc]
      exact hlast

theorem isBuilt_list {items : List Document} (hitems : ∀ d ∈ items, IsBuilt d) :
    IsBuilt (.list items) := by
  intro frames goal hgoal
  have hopen : step? ⟨frames, goal⟩ .openList = some ⟨.list [] :: frames, .firstItem⟩ := by
    rcases hgoal with rfl | rfl <;> rfl
  rw [tokens, List.foldlM_cons, hopen]
  cases items with
  | nil => exact Option.bind_fun_some _
  | cons d rest =>
    change (_ ++ [Token.closeList]).foldlM step? _ = _
    rw [List.foldlM_append, foldlM_items hitems (List.cons_ne_nil d rest) (.inr rfl),
      List.append_nil]
    change (complete? frames (.list (d :: rest).reverse.reverse)).bind pure = _
    rw [List.reverse_reverse]
    exact Option.bind_fun_some _

theorem isBuilt_dict {members : List (List Piece × Document)}
    (hmembers : ∀ p ∈ members, IsBuilt p.2) : IsBuilt (.dict members) := by
  intro frames goal hgoal
  have hopen : step? ⟨frames, goal⟩ .openDict = some ⟨.dict [] :: frames, .firstKey⟩ := by
    rcases hgoal with rfl | rfl <;> rfl
  rw [tokens, List.foldlM_cons, hopen]
  cases members with
  | nil => exact Option.bind_fun_some _
  | cons p rest =>
    change (_ ++ [Token.closeDict]).foldlM step? _ = _
    rw [List.foldlM_append, foldlM_members hmembers (List.cons_ne_nil p rest) (.inr rfl),
      List.append_nil]
    change (complete? frames (.dict (p :: rest).reverse.reverse)).bind pure = _
    rw [List.reverse_reverse]
    exact Option.bind_fun_some _

mutual

theorem isBuilt : (d : Document) → IsBuilt d
  | .null | .bool _ | .number _ | .text _ => by
    rintro frames goal (rfl | rfl) <;> exact Option.bind_fun_some _
  | .list items => isBuilt_list (isBuilt_items items)
  | .dict members => isBuilt_dict (isBuilt_members members)
termination_by structural d => d

theorem isBuilt_items : (items : List Document) → ∀ d ∈ items, IsBuilt d
  | [] => List.forall_mem_nil _
  | d :: rest => List.forall_mem_cons.mpr ⟨isBuilt d, isBuilt_items rest⟩
termination_by structural items => items

theorem isBuilt_members : (members : List (List Piece × Document)) → ∀ p ∈ members, IsBuilt p.2
  | [] => List.forall_mem_nil _
  | (_, d) :: rest => List.forall_mem_cons.mpr ⟨isBuilt d, isBuilt_members rest⟩
termination_by structural members => members

end

theorem ofTokens?_tokens (d : Document) : ofTokens? d.tokens = some d := by
  rw [ofTokens?, isBuilt d [] .value (.inl rfl)]
  rfl

end Document

namespace Tree

open Token

mutual

/-- The document that a tree is printed as. -/
def document : Tree → Document
  | .null => .null
  | .bool b => .bool b
  | .number n => .number n.numeral
  | .text s => .text (Piece.ofString s)
  | .list items => .list (itemDocuments items)
  | .dict members => .dict (memberDocuments members)
termination_by structural t => t

def itemDocuments : List Tree → List Document
  | [] => []
  | t :: rest => t.document :: itemDocuments rest
termination_by structural ts => ts

def memberDocuments : List (String × Tree) → List (List Piece × Document)
  | [] => []
  | (key, t) :: rest => (Piece.ofString key, t.document) :: memberDocuments rest
termination_by structural ms => ms

end

theorem itemDocuments_eq (items : List Tree) : itemDocuments items = items.map document := by
  induction items with
  | nil => rfl
  | cons t rest ih => rw [itemDocuments, ih, List.map_cons]

theorem memberDocuments_eq (members : List (String × Tree)) :
    memberDocuments members = members.map fun (key, t) ↦ (Piece.ofString key, t.document) := by
  induction members with
  | nil => rfl
  | cons p rest ih => rw [memberDocuments, ih, List.map_cons]

theorem reads_commaJoin {texts : List (List Char)} {tokens : List (List Token)}
    (h : List.Forall₂ Reads texts tokens) :
    Reads (commaJoin texts) (Document.commaTokens tokens) := by
  induction h with
  | nil => exact reads_nil
  | cons hfirst hrest ih =>
    cases hrest with
    | nil => exact hfirst
    | cons _ _ => exact hfirst.punctuated (by decide : (',', Token.comma) ∈ punctuation) ih

mutual

/-- A printed tree is read as the tokens of its document. -/
theorem reads_chars : (t : Tree) → Reads t.chars t.document.tokens
  | .null => reads_word fun _ ↦ rfl
  | .bool true => reads_word fun _ ↦ rfl
  | .bool false => reads_word fun _ ↦ rfl
  | .number n => by
    have hreads := Numeral.reads_written n.wellFormed_numeral
    rwa [Number.written_numeral] at hreads
  | .text s => reads_quote s
  | .list items => by
    have hitems := (reads_commaJoin (reads_itemTexts items)).punctuated
      (by decide : (']', Token.closeList) ∈ punctuation) reads_nil
    exact reads_nil.punctuated (by decide : ('[', Token.openList) ∈ punctuation) hitems
  | .dict members => by
    have hmembers := (reads_commaJoin (reads_memberTexts members)).punctuated
      (by decide : ('\x7d', Token.closeDict) ∈ punctuation) reads_nil
    exact reads_nil.punctuated (by decide : ('\x7b', Token.openDict) ∈ punctuation) hmembers
termination_by structural t => t

theorem reads_itemTexts : (items : List Tree) →
    List.Forall₂ Reads (itemTexts items) (Document.itemTokens (itemDocuments items))
  | [] => .nil
  | t :: rest => .cons (reads_chars t) (reads_itemTexts rest)
termination_by structural items => items

theorem reads_memberTexts : (members : List (String × Tree)) →
    List.Forall₂ Reads (memberTexts members) (Document.memberTokens (memberDocuments members))
  | [] => .nil
  | (key, t) :: rest => by
    have hcolon : (':', Token.colon) ∈ punctuation := by decide
    exact .cons ((reads_quote key).punctuated hcolon (reads_chars t)) (reads_memberTexts rest)
termination_by structural members => members

end

/-- The text of a tree is read back as the tree's document. -/
theorem ofString?_print (t : Tree) : Document.ofString? t.print = some t.document := by
  obtain ⟨r, hread, hbehind⟩ := reads_chars t []
  have htokens : Token.ofChars? t.chars = some t.document.tokens := by
    rw [Token.ofChars?, hread, Option.bind_some, hbehind.finish, List.append_nil,
      List.reverse_reverse]
  rw [Document.ofString?, print, String.toList_ofList, Document.ofChars?, htokens]
  exact Document.ofTokens?_tokens _

end Tree

end TicketPool.Json

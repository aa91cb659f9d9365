import TicketPool.Json.Fields
import TicketPool.Proofs.Json.Documents

/-!
# Reading records back

A reader restores the values of a type if it takes the document of each value's tree back as the
value.  Then it also reads the printed text back.  The members of a printed dictionary are the
fields of a record, and a required field is read from the member of its name.
-/

namespace TicketPool.Json

variable {α β γ : Type}

/-- Each value is read back from the document that its tree is printed as. -/
def Restores (tree : α → Tree) (read : Document → Option α) : Prop :=
  ∀ a, read (tree a).document = some a

theorem Restores.text {tree : α → Tree} {read : Document → Option α} (h : Restores tree read)
    (a : α) : (Document.ofString? (tree a).print).bind read = some a := by
  rw [Tree.ofString?_print, Option.bind_some]
  exact h a

namespace Document

theorem mapM_map_eq_some {f : β → Option γ} {g : α → β} {h : α → γ} {l : List α}
    (hread : ∀ a ∈ l, f (g a) = some (h a)) : (l.map g).mapM f = some (l.map h) := by
  induction l with
  | nil => rfl
  | cons a rest ih =>
    obtain ⟨hfirst, hrest⟩ := List.forall_mem_cons.mp hread
    rw [List.map_cons, List.mapM_cons, hfirst, ih hrest]
    rfl

theorem keyed?_memberDocuments (members : List (String × Tree)) :
    keyed? (Tree.memberDocuments members) =
      some (members.map fun p ↦ (p.1, p.2.document)) := by
  rw [keyed?, Tree.memberDocuments_eq]
  refine mapM_map_eq_some fun p _ ↦ ?_
  change (Piece.string? (Piece.ofString p.1)).map _ = _
  rw [Piece.string?_ofString]
  rfl

theorem string?_text (s : String) : (Tree.text s).document.string? = some s :=
  Piece.string?_ofString s

theorem word?_int {n : Nat} (h : n < UInt64.size) :
    (Tree.number (.int n)).document.word? = some (UInt64.ofNat n) := by
  have hsize : UInt64.size = 18446744073709551616 := rfl
  have hproper : (Number.int n).Proper := by
    simp only [Number.Proper, Number.least, Number.greatest]
    omega
  rw [Tree.document, word?, Number.number?_numeral_int hproper, Option.bind_some, Number.word?,
    Int.toNat_natCast, if_pos]
  simp only [Number.greatest]
  omega

theorem word?_ofWord (w : UInt64) : (Tree.ofWord w).document.word? = some w := by
  rw [Tree.ofWord, word?_int w.toNat_lt, UInt64.ofNat_toNat]

/-- The members of a dictionary as the fields of a record. -/
def memberFields (members : List (String × Tree)) : List (String × Document) :=
  members.map fun p ↦ (p.1, p.2.document)

/-- A dictionary with a record's fields in order, and no other members, gives all of them, whether
or not other names would be passed over. -/
theorem fields?_dict {names : List String} {members : List (String × Tree)}
    (hnames : members.map Prod.fst = names) (hnodup : names.Nodup) (others : Bool) :
    (Tree.dict members).document.fields? names others = some (memberFields members) := by
  have hfields : (memberFields members).map Prod.fst = names := by
    rw [memberFields, List.map_map, ← hnames]
    rfl
  have hknown : (memberFields members).filter (·.1 ∈ names) = memberFields members := by
    refine List.filter_eq_self.mpr fun p hp ↦ decide_eq_true ?_
    rw [← hfields]
    exact List.mem_map_of_mem hp
  have hkeyed : keyed? (Tree.memberDocuments members) = some (memberFields members) :=
    keyed?_memberDocuments members
  rw [Tree.document, fields?, hkeyed, Option.bind_eq_bind, Option.bind_some]
  simp only [hknown, hfields, hnodup, or_true, and_self, if_true]
  rfl

/-- A field is read from the first member of its name. -/
theorem required?_cons (key name : String) (t : Tree) (rest : List (String × Tree))
    (read : Document → Option α) :
    required? (memberFields ((key, t) :: rest)) name read =
      if name = key then read t.document else required? (memberFields rest) name read := by
  rw [required?, memberFields, List.map_cons, List.lookup_cons]
  by_cases hname : name = key
  · rw [beq_iff_eq.mpr hname, if_pos hname]
    rfl
  · rw [beq_eq_false_iff_ne.mpr hname, if_neg hname]
    rfl

end Document

end TicketPool.Json

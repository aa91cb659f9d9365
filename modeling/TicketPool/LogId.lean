import TicketPool.Text.Digit
import TicketPool.Text.DecimalDigit

/-!
# Log ids

Every entry of the replication log has an id: the millisecond in which it was
written and a sequence number within that millisecond.  The id of the entry that
creates a ticket is the ticket's id, and its millisecond is the ticket's birth.

The text of an id is `<millis>-<seq>`.  Two readers share it: `LogId.ofText?` takes
the whole id, `LogId.creationMillis?` only the part before the first dash.
-/

namespace TicketPool

/-- The position of an entry in the replication log. -/
structure LogId where
  millis : UInt64
  seq : UInt64
deriving DecidableEq, Repr, Inhabited

namespace LogId

/-- Earlier milliseconds come first; within one, the sequence number decides. -/
instance : LT LogId where
  lt a b := a.millis < b.millis ∨ a.millis = b.millis ∧ a.seq < b.seq

instance : LE LogId where
  le a b := a.millis < b.millis ∨ a.millis = b.millis ∧ a.seq ≤ b.seq

theorem lt_def {a b : LogId} :
    a < b ↔ a.millis < b.millis ∨ a.millis = b.millis ∧ a.seq < b.seq := Iff.rfl

theorem le_def {a b : LogId} :
    a ≤ b ↔ a.millis < b.millis ∨ a.millis = b.millis ∧ a.seq ≤ b.seq := Iff.rfl

instance (a b : LogId) : Decidable (a < b) :=
  decidable_of_iff _ lt_def.symm

instance (a b : LogId) : Decidable (a ≤ b) :=
  decidable_of_iff _ le_def.symm

/-- The first id of a millisecond. -/
def ofMillis (millis : UInt64) : LogId :=
  ⟨millis, 0⟩

def chars (id : LogId) : List Char :=
  Digit.numeral id.millis.toNat ++ '-' :: Digit.numeral id.seq.toNat

def text (id : LogId) : String :=
  String.ofList id.chars

instance : ToString LogId := ⟨text⟩

/-- The id that a text names: two runs of ASCII digits around the first dash. -/
def ofText? (s : String) : Option LogId :=
  match s.toList.dropWhile (· ≠ '-') with
  | '-' :: tail =>
    match Digit.word? (s.toList.takeWhile (· ≠ '-')), Digit.word? tail with
    | some millis, some seq => some ⟨millis, seq⟩
    | _, _ => none
  | _ => none

/-- The millisecond that a key names: the run of digits before its first dash, or the
whole key when it has none.  Keys without such a run have no age. -/
def creationMillis? (key : String) : Option UInt64 :=
  Digit.word? (key.toList.takeWhile (· ≠ '-'))

/-- The shape of the ids that the log gives out: thirteen decimal digits, a dash, and
decimal digits to the end.  Digits of every script count. -/
def hasShape (s : String) : Bool :=
  (s.toList.take 13).all DecimalDigit.isDecimalDigit &&
    match s.toList.drop 13 with
    | '-' :: tail => !tail.isEmpty && tail.all DecimalDigit.isDecimalDigit
    | _ => false

end LogId

/-- A source of ids.  Ids only ever grow: while the clock stands still or runs back, the
sequence number of the last id grows instead. -/
structure IdSource where
  last : Option LogId := none
deriving DecidableEq, Repr, Inhabited

namespace IdSource

/-- The next id when the clock reads `now`. -/
def nextId (source : IdSource) (now : UInt64) : LogId :=
  match source.last with
  | some last => if now ≤ last.millis then ⟨last.millis, last.seq + 1⟩ else LogId.ofMillis now
  | none => LogId.ofMillis now

/-- The source after it has given out `nextId`. -/
def advance (source : IdSource) (now : UInt64) : IdSource :=
  ⟨some (source.nextId now)⟩

/-- The ids given out for a list of clock readings, and the source afterwards. -/
def draw (source : IdSource) : List UInt64 → List LogId × IdSource
  | [] => ([], source)
  | now :: later =>
    let (ids, rest) := (source.advance now).draw later
    (source.nextId now :: ids, rest)

end IdSource

end TicketPool

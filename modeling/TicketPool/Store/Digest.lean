import TicketPool.Store
import TicketPool.Store.Sha256

/-!
# The digest of a store

Stores are compared by the hash of their contents: a heading, then the tickets, the
marked keys and the assignments, each part behind its number of entries.  Entries are
listed in order, and a zero byte ends every text.
-/

namespace TicketPool.Store

/-- The bytes of a text and the byte that ends it. -/
def textBytes (s : String) : List UInt8 :=
  s.toUTF8.toList ++ [0]

/-- The eight bytes of a count, the lowest first. -/
def countBytes (n : Nat) : List UInt8 :=
  (Sha256.bigEndian 8 n).reverse

def entryBytes (entries : List (String × String)) : List UInt8 :=
  countBytes entries.length ++
    entries.flatMap fun (key, payload) ↦ textBytes key ++ textBytes payload

def keyBytes (keys : List String) : List UInt8 :=
  countBytes keys.length ++ keys.flatMap textBytes

def digestBytes (s : Store) : List UInt8 :=
  "omcache:state:v1:".toUTF8.toList ++
    entryBytes (s.tickets.toList.map fun (key, t) ↦ (key, t.encode)) ++
    keyBytes s.inactiveKeys ++
    entryBytes (s.assignments.toList.map fun (key, a) ↦ (key, a.encode))

def digest (s : Store) : String :=
  Sha256.hex (Sha256.hash s.digestBytes)

end TicketPool.Store

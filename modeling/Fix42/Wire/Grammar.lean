import Fix42.Wire.Output

/-!
# Fields and pairs

What a frame is read as: the pairs `buildHeader` makes of its pieces, in their order, and the place of
the CheckSum field in it.
-/

namespace Fix42

namespace Wire

open Getline (split)

variable {H : Type*}

def Forwarded (fix : FixHeader H) (seqNum : BitVec 32) (data : Bytes) : Prop :=
  ∃ message, Server.buildHeader fix seqNum data = .ok message

/-- `kvsplit`, if it has a key and a value. -/
def pair? (result : Bytes) : Option (Bytes × Bytes) :=
  match split equals result with
  | [k, v] => some (k, v)
  | _ => none

/-- The pairs of a frame in input order. -/
def parsedPairs (data : Bytes) : List (Bytes × Bytes) := (split soh data).filterMap pair?

def renderPair (kv : Bytes × Bytes) : Bytes := kv.1 ++ equals :: (kv.2 ++ [soh])

/-- `try_insert` takes the pairs one after the other. -/
inductive FixHeader.Takes (fix : FixHeader H) : List (Bytes × Bytes) → H → H → Prop
  | nil {h : H} : Takes fix [] h h
  | cons {kv : Bytes × Bytes} {kvs : List (Bytes × Bytes)} {h h' h'' : H} :
      fix.tryInsert kv.1 kv.2 h = (.ok true, h') → Takes fix kvs h' h'' → Takes fix (kv :: kvs) h h''

/-- A message read from pairs: the header took the first ones, and the others are the map, whose first
pair the header reports and whose last one is the checksum. -/
def ReadFrom (fix : FixHeader H) (pairs : List (Bytes × Bytes)) (message : H × MapMessage) : Prop :=
  ∃ header checkSum taken, pairs = header ++ (message.2 ++ [(ascii "10", checkSum)]) ∧
    fix.Takes header fix.init taken ∧ ∀ kv, (message.2 ++ [(ascii "10", checkSum)]).head? = some kv →
      fix.tryInsert kv.1 kv.2 taken = (.ok false, message.1)

/-- The frame is its pairs, each closed by SOH, byte for byte. -/
def Faithful (data : Bytes) : Prop := (parsedPairs data).flatMap renderPair = data

instance (data : Bytes) : Decidable (Faithful data) := inferInstanceAs (Decidable (_ = _))

/-- The frame ends with SOH and no field with `=`. -/
def Closed (data : Bytes) : Prop :=
  data.getLast? = some soh ∧ ∀ p ∈ split soh data, p.getLast? ≠ some equals

instance (data : Bytes) : Decidable (Closed data) := inferInstanceAs (Decidable (_ ∧ _))

/-- Where the last field of a frame starts, which is the CheckSum field of one that is forwarded. -/
def checkSumStart (data : Bytes) : Nat :=
  data.length - ((split soh data).getLastD []).length - if data.getLast? = some soh then 1 else 0

end Wire

end Fix42

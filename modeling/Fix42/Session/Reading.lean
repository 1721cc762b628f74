import Fix42.Session.Connection

/-!
# What a message is read against

A connection of the server with its input unit in two steps, the read of a socket and the forwarding
of what was read, and with a record of the session at each read. `verdicts` is what the header
validation decided about the sequence numbers.
-/

namespace Fix42

open Session

/-- The session when a receive was read, before the read counted. -/
structure Read where
  loggedIn : Bool
  seqNum : BitVec 32
  deriving DecidableEq

/-- The number is the one that the counter stood at. -/
def Read.Expects (r : Read) (header : Session.Header) : Prop :=
  r.loggedIn = true ∧ header.msgSeqNum = r.seqNum

instance (r : Read) (header : Session.Header) : Decidable (r.Expects header) :=
  inferInstanceAs (Decidable (_ ∧ _))

/-- Whether a validated message was expected, and whether its number was the reason of a reject. -/
structure SeqNumVerdict where
  expected : Bool
  refused : Bool
  deriving DecidableEq

/-- `reading` is the receive that the input unit has in hand: a header, or nothing if it could not be
parsed. `reads` has an entry for each message that waits for the header validation. -/
structure Reading extends Connection where
  reading : Option (Option Session.Header × Read)
  reads : List Read
  verdicts : List SeqNumVerdict
  deriving DecidableEq

namespace Reading

inductive Action
  | unit (op : Op)
  | read (header : Option Session.Header)
  | forward
  deriving DecidableEq

def new : Reading := { Connection.new with reading := none, reads := [], verdicts := [] }

/-- The rejects of `verifyUserSpecific` for the sequence number. -/
def refused (cfg : Config) (p : Party 32) (header : Session.Header) : Bool :=
  verifyPositionValue Server.types header = none &&
    Server.verifyUserSpecific cfg.provider p header = some (seqNumReject header)

/-- What the header validation decides next. -/
def verdict (cfg : Config) (c : Reading) : Option SeqNumVerdict :=
  match c.server.validation, c.reads with
  | msg :: _, r :: _ =>
    some { expected := r.Expects msg.header, refused := refused cfg c.server msg.header }
  | _, _ => none

def step (cfg : Config) (c : Reading) : Action → Option Reading
  | .unit op => (Connection.step cfg c.toConnection (.unit op)).map fun c' =>
      if op = .validate then
        { c with toConnection := c', reads := c.reads.tail,
                 verdicts := c.verdicts ++ (c.verdict cfg).toList }
      else { c with toConnection := c' }
  | .read header =>
    if c.reading.isSome then none
    else
      let server := if c.server.loggedIn then c.server.nextSeqNumber else c.server
      some { c with server, reading := some (header, ⟨c.server.loggedIn, c.server.seqNum⟩) }
  | .forward =>
    match c.reading with
    | none => none
    | some (none, _) => some { c with server := c.server.append '3', reading := none }
    | some (some header, r) =>
      let server := { c.server with
        validation := c.server.validation ++ [{ header }], received := c.server.received + 1 }
      some { c with server, reading := none, reads := c.reads ++ [r] }

/-- The messages that were read and not validated yet. -/
def waiting (c : Reading) : List (Session.Header × Read) :=
  (c.server.validation.map Msg.header).zip c.reads ++
    match c.reading with
    | some (some header, r) => [(header, r)]
    | _ => []

/-- How often an action advances the counter. -/
def advances (c : Reading) : Action → Nat
  | .unit op => c.toConnection.advances (.unit op)
  | .read _ => if c.server.loggedIn then 1 else 0
  | .forward => 0

/-- Nothing advances the counter while a message waits that was expected. -/
def Undisturbed (c : Reading) (a : Action) : Prop :=
  0 < c.advances a → ∀ w ∈ c.waiting, ¬ w.2.Expects w.1

instance (c : Reading) (a : Action) : Decidable (Undisturbed c a) :=
  inferInstanceAs (Decidable (_ → _))

end Reading

end Fix42

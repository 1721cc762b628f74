import Fix42.Ipc.Message
import Fix42.Lib.Trans

/-!
# The receive loop

`IPCNetworkManager::receiveLoop` on a blocking socket registered for edge-triggered events: `event`
is set when bytes arrive, and `pull` takes it and finds the socket readable or not. A `recv` takes
what has arrived, at most the bytes it is asked for, and blocks while there is nothing.

`Delivered` is what the loop is for; `Whole` is the condition on the two `recv`.
-/

namespace Fix42

namespace Ipc

open Net

/-- A frame as the peer writes it. -/
structure Frame where
  msgType : Byte
  body : Bytes
  size : body.length < 2 ^ 32

def Frame.bytes (f : Frame) : Bytes :=
  f.msgType :: bytes32 (BitVec.ofNat 32 f.body.length) ++ f.body

/-- What `onReceive` is to be given for a frame. -/
def Frame.buffer (f : Frame) : Buffer := ⟨true, 0, f.bytes⟩

/-- `buffer >> header`, on the bytes of a header. -/
def readHeader (bytes : Bytes) : BitVec 32 × Buffer :=
  (do let _ : Byte ← extract; extract : StateM Buffer (BitVec 32)) (Buffer.append {} bytes)

/-- `header.BodySize`. -/
def bodySize (header : Bytes) : Nat := (readHeader header).1.toNat

/-- The most bytes one `recv` takes. -/
def maxRead : Nat := 0x7ffff000

inductive ReceivePc
  /-- in `selector.pull()` -/
  | wait
  /-- before the first `receive` -/
  | header
  /-- before the second, with the bytes of the header -/
  | body (header : Bytes)
  deriving DecidableEq

structure ReceiveLoop where
  /-- what the peer has written and has not arrived -/
  future : Bytes
  /-- what has arrived and was not read -/
  unread : Bytes
  event : Bool
  pc : ReceivePc
  /-- what `onReceive` was given -/
  received : List Buffer
  /-- not in the source: how many bytes have arrived -/
  arrived : Nat
  deriving DecidableEq

namespace ReceiveLoop

def init (frames : List Frame) : ReceiveLoop where
  future := frames.flatMap Frame.bytes
  unread := []
  event := false
  pc := .wait
  received := []
  arrived := 0

inductive Act
  /-- the next `n` bytes arrive -/
  | arrive (n : Nat)
  | pull
  | receive
  deriving DecidableEq

def step (s : ReceiveLoop) : Act → Option ReceiveLoop
  | .arrive n =>
    if 0 < n ∧ n ≤ s.future.length then
      some { s with
        future := s.future.drop n
        unread := s.unread ++ s.future.take n
        event := true
        arrived := s.arrived + n }
    else none
  | .pull =>
    if s.pc = .wait ∧ s.event then
      some { s with event := false, pc := if s.unread = [] then .wait else .header }
    else none
  | .receive =>
    match s.pc with
    | .wait => none
    | .header =>
      if s.unread = [] then none
      else
        let bytes := s.unread.take Header.size
        let s := { s with unread := s.unread.drop Header.size }
        -- `onWrongSize`
        if bytes.length ≠ Header.size then some { s with pc := .wait }
        else some { s with pc := .body bytes }
    | .body header =>
      let size := bodySize header
      if 0 < size ∧ s.unread = [] then none
      else
        let n := min size maxRead
        let bytes := s.unread.take n
        let s := { s with unread := s.unread.drop n, pc := .wait }
        -- `onWrongBodySize`
        if bytes.length ≠ size then some s
        else some { s with received :=
          s.received ++ [(((readHeader header).2.append bytes).reset)] }

/-- The frames that are complete when `n` bytes have arrived. -/
def complete : List Frame → Nat → List Frame
  | [], _ => []
  | f :: frames, n =>
    if f.bytes.length ≤ n then f :: complete frames (n - f.bytes.length) else []

/-- When the loop is back waiting and no event is pending, each frame that has arrived completely was
passed on, once and in order. -/
def Delivered (frames : List Frame) (s : ReceiveLoop) : Prop :=
  s.pc = .wait → s.event = false → s.received = (complete frames s.arrived).map Frame.buffer

/-- These bytes start with a frame that is complete. -/
def startsWithFrame (bytes : Bytes) : Bool :=
  decide (Header.size ≤ bytes.length) &&
    decide (Header.size + bodySize (bytes.take Header.size) ≤ bytes.length)

/-- A `recv` finds all it is asked for, and the one of a body leaves no complete frame behind without
an event pending. -/
def Whole (s : ReceiveLoop) : Act → Prop
  | .receive =>
    match s.pc with
    | .wait => True
    | .header => Header.size ≤ s.unread.length
    | .body header => bodySize header ≤ s.unread.length ∧ bodySize header ≤ maxRead ∧
        (s.event = false → startsWithFrame (s.unread.drop (bodySize header)) = false)
  | _ => True

instance (s : ReceiveLoop) (a : Act) : Decidable (s.Whole a) := by
  unfold Whole
  split
  · split <;> infer_instance
  · infer_instance

end ReceiveLoop

end Ipc

end Fix42

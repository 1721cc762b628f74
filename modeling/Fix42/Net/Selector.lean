import Mathlib.Data.List.Range
import Mathlib.Logic.Function.Basic
import Fix42.Book.OrderBook

/-!
# The selector and the descriptors of the process

`net::Selector` over the kernel's tables. A new socket gets the lowest free descriptor; closing a
socket frees its descriptor and takes it out of every interest set. The selector's own map is keyed
by descriptor and is changed by `client` and `erase` alone. `BaseSocket::close` is one step.
-/

namespace Fix42

/-- A socket object, by the order of creation. -/
abbrev SocketId := Nat

/-- The descriptor the kernel gives to a new socket. -/
def lowestFree (used : List Nat) : Nat :=
  ((List.range (used.length + 1)).find? fun f => f ∉ used).getD 0

/-- `std::map::emplace`: an entry that is there stays. -/
def emplace {β : Type*} (m : Nat → Option β) (k : Nat) (v : β) : Nat → Option β :=
  if (m k).isSome then m else Function.update m k (some v)

structure Selector where
  /-- the descriptors of the process that are no client connections -/
  reserved : List Nat
  /-- `m_fd` of each socket, `none` for -1 -/
  fds : List (Option Nat)
  /-- the interest set of the epoll instance -/
  interest : List Nat
  /-- `m_clients` -/
  clients : Nat → Option SocketId
  /-- not in the source: the socket registered last under a descriptor -/
  last : Nat → Option SocketId
  /-- not in the source: the sockets `erase` was called with -/
  erased : List SocketId

namespace Selector

def new (reserved : List Nat) : Selector := ⟨reserved, [], [], fun _ => none, fun _ => none, []⟩

/-- `FD()`. -/
def fd (n : Selector) (c : SocketId) : Option Nat := (n.fds[c]?).join

/-- The descriptors in use. -/
def used (n : Selector) : List Nat := n.reserved ++ n.fds.filterMap id

/-- `Acceptor::accept` with a connection pending: the new socket. -/
def accept (n : Selector) : SocketId × Selector :=
  (n.fds.length, { n with fds := n.fds ++ [some (lowestFree n.used)] })

/-- `BaseSocket::close`. -/
def close (n : Selector) (c : SocketId) : Selector :=
  match n.fd c with
  | none => n
  | some f => { n with fds := n.fds.set c none, interest := n.interest.filter (· ≠ f) }

/-- `Selector::client`; `ctl` refuses -1 and a descriptor already in the interest set. -/
def client (n : Selector) (c : SocketId) : Bool × Selector :=
  match n.fd c with
  | none => (false, n)
  | some f =>
    if f ∈ n.interest then (false, n)
    else (true, { n with
      interest := f :: n.interest
      clients := emplace n.clients f c
      last := Function.update n.last f (some c) })

/-- `Selector::erase`: every entry whose socket has the same `FD()`. -/
def erase (n : Selector) (c : SocketId) : Selector :=
  { n with
    clients := fun f => (n.clients f).filter fun d => n.fd c ≠ n.fd d
    erased := c :: n.erased }

/-- `Selector::pull`, given the descriptors `epoll_wait` reports. -/
def pull (n : Selector) (reported : List Nat) : Except Fault (List SocketId) :=
  reported.mapM fun f =>
    match n.clients f with
    | some c => .ok c
    | none => .error .outOfRange

end Selector

end Fix42

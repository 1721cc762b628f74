import Fix42.Ipc.Receive

/-!
# The front-end's door to the backend

`FrontManager`: the frames the receive loop passes on are held back until the front-end has shown the
backend's token and then sent the handshake. `forwarded` is what is meant to get through.
-/

namespace Fix42

open Ipc Net

/-- A text of the source, as bytes. -/
def ascii (s : String) : Bytes := s.toList.map fun c => BitVec.ofNat 8 c.toNat

structure FrontManager where
  auth : Bool := false
  handshake : Bool := false
  token : Option Bytes := none
  /-- `m_output` -/
  output : List Buffer := []
  /-- what was sent to the front-end -/
  sent : List Buffer := []
  deriving DecidableEq

namespace FrontManager

/-- `setupToken`: the frames are received from then on. -/
def setupToken (token : Bytes) : FrontManager := { token := some token }

def send (m : FrontManager) (b : Buffer) : FrontManager := { m with sent := m.sent ++ [b] }

def reject (m : FrontManager) (message : String) : FrontManager :=
  m.send (Helper.reject ⟨ascii message⟩)

/-- Whether the message is about the authentication, with the buffer as it is left. -/
def authValidation (m : FrontManager) (buffer : Buffer) : Bool × Buffer × FrontManager :=
  let (header, buffer) := Ipc.Header.extract buffer
  let msgType := header.map Ipc.Header.msgType
  if !m.auth then
    if msgType = some .frontToBackValidToken then
      match m.token with
      | some token =>
        let (front, buffer) := (extract : StateM Buffer FrontToBackValidToken) buffer
        if front.token = token then
          (true, buffer,
            { m.send (Helper.validationTokenBackToFront ⟨front.token⟩) with auth := true })
        else
          (true, buffer, m.reject "Invalid token provided, shuting down connection and process")
      | none =>
        (true, buffer, m.reject "Client is didn't set token before front to back validation")
    else (true, buffer, m.reject "Client is missing token authentication to processed")
  else if !m.handshake then
    if msgType = some .handShakeAuth then (true, buffer, { m with handshake := true })
    else (true, buffer, m.reject "Client is missing handshake to processed")
  else (false, buffer.reset, m)

def onReceive (m : FrontManager) (buffer : Buffer) : FrontManager :=
  match m.authValidation buffer with
  | (true, _, m) => m
  | (false, buffer, m) => { m with output := m.output ++ [buffer] }

/-- The frames `frames`, one after the other, as the receive loop passes them on. -/
def receive (m : FrontManager) (frames : List Frame) : FrontManager :=
  frames.foldl (fun m f => m.onReceive f.buffer) m

/-! ## What is meant to get through -/

/-- A token validation that carries `own`. -/
def isToken (own : Bytes) (f : Frame) : Bool :=
  f.msgType = enumByte 0 MessageType.all .frontToBackValidToken && (stringBytes own).isPrefixOf f.body

def isHandshake (f : Frame) : Bool := f.msgType = enumByte 0 MessageType.all .handShakeAuth

/-- The frames after the first handshake after the first validation of the token `own`. -/
def forwarded (own : Bytes) (frames : List Frame) : List Frame :=
  ((frames.dropWhile fun f => !isToken own f).tail.dropWhile fun f => !isHandshake f).tail

end FrontManager

end Fix42

import NetworkDriver.Net.Ip.Text
import NetworkDriver.Net.Multiplexer.Base

/-! # Sockets and system calls

The socket functions with the system calls they make. What the kernel answers is a parameter; a
function returns its calls, in order, and its result. The `socket_guard` in a factory closes the
socket on every path that does not return it.

* `makeUdpDatagramSocket`, `makeTcpAcceptSocket`, `makeConnectedTcpStreamSocket`: the factories.
* `write`, `read`: datagrams. -/

namespace NetworkDriver.Net.Socket.Model

open NetworkDriver.Net.Datagrams.Model (Endpoint)
open NetworkDriver.Net.Ip.Model
open NetworkDriver.Net.Multiplexer.Base (SocketId invalidSocketId)
open NetworkDriver.Util.Format NetworkDriver.Util.Formatting.Model

/-- The system calls that have a socket address or say what becomes of a socket. -/
inductive SysCall where
  | socket
  | bind (fd : SocketId) (addr : SockaddrIn)
  | listen (fd : SocketId) (backlog : ℤ)
  | connect (fd : SocketId) (addr : SockaddrIn)
  | getsockname (fd : SocketId)
  | sendto (fd : SocketId) (buf : Bytes) (dest : SockaddrIn)
  | recvfrom (fd : SocketId) (size : ℕ)
  | close (fd : SocketId)
  deriving DecidableEq

/-- What the kernel answers in one call of a socket function. -/
structure Kernel where
  socket : SocketId
  bind : SocketId → SockaddrIn → Bool
  listen : SocketId → ℤ → Bool
  connect : SocketId → SockaddrIn → Bool
  getsockname : SocketId → Option SockaddrIn
  sendto : SocketId → Bytes → SockaddrIn → ℤ
  recvfrom : SocketId → ℕ → SockaddrIn × ℤ
  lastError : Bytes

/-- The calls of a function and its result. -/
abbrev Traced (α : Type) := List SysCall × α

def socketError (msg : Bytes) : Error := ⟨.socketOperationFailed, msg⟩

variable (k : Kernel)

/-- `bind`; the result is the error, if there is one. -/
def bind (hdl : SocketId) (ep : Endpoint) : Traced (Option Error) :=
  let sin := toSockaddrIn ep
  ([.bind hdl sin],
    if k.bind hdl sin then none
    else some (socketError (format "Failed to bind socket: {0}".toUTF8.toList [.text k.lastError])))

def listen (sock : SocketId) (connBacklog : ℤ) : Traced (Option Error) :=
  ([.listen sock connBacklog],
    if k.listen sock connBacklog then none
    else some (socketError (format "failed to set socket {0} to listen".toUTF8.toList [.integral sock])))

def portOf (x : SocketId) : Traced (Except Error UInt16) :=
  ([.getsockname x],
    match k.getsockname x with
    | none => .error (socketError k.lastError)
    | some sin => .ok (ntohs sin.sinPort))

/-- `make_udp_datagram_socket`. -/
def makeUdpDatagramSocket (port : UInt16) : Traced (Except Error (SocketId × UInt16)) :=
  let sock := k.socket
  if sock = invalidSocketId then
    ([.socket], .error (socketError "Failed to create socket".toUTF8.toList))
  else
    let bound := bind k sock ⟨anyAddress, htons port⟩
    match bound.2 with
    | some err => (.socket :: (bound.1 ++ [.close sock]), .error err)
    | none =>
      let res := portOf k sock
      match res.2 with
      | .error err => (.socket :: (bound.1 ++ res.1 ++ [.close sock]), .error err)
      | .ok port => (.socket :: (bound.1 ++ res.1), .ok (sock, port))

/-- `make_tcp_accept_socket`. -/
def makeTcpAcceptSocket (ep : Endpoint) (connBacklog : ℤ) : Traced (Except Error (SocketId × UInt16)) :=
  let sock := k.socket
  if sock = invalidSocketId then
    ([.socket],
      .error (socketError (format "Failed to create socket {0}".toUTF8.toList [.text k.lastError])))
  else
    let bound := bind k sock ep
    match bound.2 with
    | some err => (.socket :: (bound.1 ++ [.close sock]), .error err)
    | none =>
      let listening := listen k sock connBacklog
      match listening.2 with
      | some err => (.socket :: (bound.1 ++ listening.1 ++ [.close sock]), .error err)
      | none =>
        let res := portOf k sock
        match res.2 with
        | .error err => (.socket :: (bound.1 ++ listening.1 ++ res.1 ++ [.close sock]), .error err)
        | .ok port => (.socket :: (bound.1 ++ listening.1 ++ res.1), .ok (sock, port))

/-- `make_connected_tcp_stream_socket`. -/
def makeConnectedTcpStreamSocket (ep : Endpoint) : Traced (Except Error SocketId) :=
  if ep.port = 0 then ([], .error ⟨.invalidArgument, "port may not be zero".toUTF8.toList⟩)
  else
    let sock := k.socket
    if sock = invalidSocketId then ([.socket], .error (socketError k.lastError))
    else
      let servaddr := toSockaddrIn ep
      if k.connect sock servaddr then ([.socket, .connect sock servaddr], .ok sock)
      else ([.socket, .connect sock servaddr, .close sock], .error (socketError k.lastError))

/-- `write(udp_datagram_socket, ...)`. -/
def write (hdl : SocketId) (buf : Bytes) (ep : Endpoint) : Traced ℤ :=
  let dest := toSockaddrIn ep
  ([.sendto hdl buf dest], k.sendto hdl buf dest)

/-- `read(udp_datagram_socket, ...)`. -/
def read (hdl : SocketId) (size : ℕ) : Traced (Endpoint × ℤ) :=
  let received := k.recvfrom hdl size
  ([.recvfrom hdl size], (ofSockaddrIn received.1, received.2))

/-! ### The calls -/

/-- The socket address that a call hands to the kernel as a destination or as a local address. -/
def SysCall.addr : SysCall → Option SockaddrIn
  | .bind _ addr => some addr
  | .connect _ addr => some addr
  | .sendto _ _ dest => some dest
  | _ => none

/-- The socket addresses a function hands to the kernel. -/
def addrs {α : Type} (t : Traced α) : List SockaddrIn := t.1.filterMap SysCall.addr

theorem addrs_makeUdpDatagramSocket (port : UInt16) :
    addrs (makeUdpDatagramSocket k port) =
      if k.socket = invalidSocketId then [] else [toSockaddrIn ⟨anyAddress, htons port⟩] := by
  unfold makeUdpDatagramSocket
  dsimp only
  by_cases hsock : k.socket = invalidSocketId
  · rw [if_pos hsock, if_pos hsock]
    rfl
  · rw [if_neg hsock, if_neg hsock]
    cases (bind k k.socket ⟨anyAddress, htons port⟩).2 with
    | some err => rfl
    | none =>
      cases (portOf k k.socket).2 with
      | error err => rfl
      | ok port => rfl

theorem addrs_makeTcpAcceptSocket (ep : Endpoint) (connBacklog : ℤ) :
    addrs (makeTcpAcceptSocket k ep connBacklog) =
      if k.socket = invalidSocketId then [] else [toSockaddrIn ep] := by
  unfold makeTcpAcceptSocket
  dsimp only
  by_cases hsock : k.socket = invalidSocketId
  · rw [if_pos hsock, if_pos hsock]
    rfl
  · rw [if_neg hsock, if_neg hsock]
    cases (bind k k.socket ep).2 with
    | some err => rfl
    | none =>
      cases (listen k k.socket connBacklog).2 with
      | some err => rfl
      | none =>
        cases (portOf k k.socket).2 with
        | error err => rfl
        | ok port => rfl

theorem addrs_makeConnectedTcpStreamSocket (ep : Endpoint) :
    addrs (makeConnectedTcpStreamSocket k ep) =
      if ep.port = 0 ∨ k.socket = invalidSocketId then [] else [toSockaddrIn ep] := by
  unfold makeConnectedTcpStreamSocket
  dsimp only
  by_cases hport : ep.port = 0
  · rw [if_pos hport, if_pos (Or.inl hport)]
    rfl
  · by_cases hsock : k.socket = invalidSocketId
    · rw [if_neg hport, if_pos hsock, if_pos (Or.inr hsock)]
      rfl
    · rw [if_neg hport, if_neg hsock, if_neg (not_or.mpr ⟨hport, hsock⟩)]
      split_ifs <;> rfl

theorem addrs_write (hdl : SocketId) (buf : Bytes) (ep : Endpoint) :
    addrs (write k hdl buf ep) = [toSockaddrIn ep] := rfl

end NetworkDriver.Net.Socket.Model

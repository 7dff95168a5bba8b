import NetworkDriver.Net.Socket.Model

/-! # Byte order

An endpoint has its port in host order and a socket address in network order, in the same type. The
conversion is made once, in `to_sockaddr_in`, except on the way of a UDP socket, whose factory
converts the port as well.

* `carries_toSockaddrIn`: a socket address made from an endpoint carries it.
* `carries_udp_iff`: the socket address of a UDP socket carries its port exactly if the two bytes of
  the port are equal.
* `byte_order_iff`: all the paths together. -/

namespace NetworkDriver.Net.Socket.ByteOrder

open NetworkDriver.Net.Datagrams.Model (Endpoint)
open NetworkDriver.Net.Ip.Model NetworkDriver.Net.Socket.Model
open NetworkDriver.Net.Multiplexer.Base (SocketId invalidSocketId)
open NetworkDriver.Util.Format

/-- The socket address has the bytes of an address and a port in network order. -/
def Carries (saddr : SockaddrIn) (address : UInt32) (port : UInt16) : Prop :=
  addressBytes saddr.sinAddr = addressBytes address ∧ ntohs saddr.sinPort = port

/-- Every socket address that reaches the kernel carries an address and a port. -/
def AllCarry (saddrs : List SockaddrIn) (address : UInt32) (port : UInt16) : Prop :=
  ∀ saddr ∈ saddrs, Carries saddr address port

/-- **A socket address made from an endpoint carries it.** -/
theorem carries_toSockaddrIn (ep : Endpoint) : Carries (toSockaddrIn ep) ep.address ep.port :=
  ⟨rfl, ntohs_htons ep.port⟩

theorem allCarry_singleton (ep : Endpoint) : AllCarry [toSockaddrIn ep] ep.address ep.port := by
  intro saddr hsaddr
  rw [List.mem_singleton.mp hsaddr]
  exact carries_toSockaddrIn ep

theorem allCarry_ite (c : Prop) [Decidable c] (ep : Endpoint) :
    AllCarry (if c then [] else [toSockaddrIn ep]) ep.address ep.port := by
  split_ifs
  · exact fun _ h => absurd h List.not_mem_nil
  · exact allCarry_singleton ep

/-! ### The port of a UDP socket -/

theorem htons_eq_self_iff (port : UInt16) : htons port = port ↔ port.toNat % 256 = port.toNat / 256 := by
  rw [← UInt16.toNat_inj, toNat_htons]
  omega

/-- A kernel that opens a socket. -/
def openKernel : Kernel where
  socket := 3
  bind _ _ := true
  listen _ _ := true
  connect _ _ := true
  getsockname _ := none
  sendto _ _ _ := 0
  recvfrom _ _ := (toSockaddrIn ⟨anyAddress, 0⟩, 0)
  lastError := []

/-- **The socket address of a UDP socket carries its port exactly if the two bytes of the port are
equal.** The factory converts the port, and `bind` converts it again. -/
theorem carries_udp_iff (port : UInt16) :
    (∀ k, AllCarry (addrs (makeUdpDatagramSocket k port)) anyAddress port) ↔
      port.toNat % 256 = port.toNat / 256 := by
  rw [← htons_eq_self_iff]
  constructor
  · intro h
    have hcarries := h openKernel (toSockaddrIn ⟨anyAddress, htons port⟩) (by
      rw [addrs_makeUdpDatagramSocket, if_neg (by decide)]
      exact List.mem_singleton_self _)
    exact (ntohs_htons (htons port)).symm.trans hcarries.2
  · intro h k
    rw [addrs_makeUdpDatagramSocket, h]
    exact allCarry_ite _ ⟨anyAddress, port⟩

/-! ### All paths -/

/-- The paths of an endpoint through the other functions, with the kernel `k`: an accept socket, a
connected one and a datagram carry it, it is read back from its socket address, and a datagram to
the endpoint that `read` reports goes where the one it read came from. -/
structure EndpointPaths (k : Kernel) (ep : Endpoint) : Prop where
  accept : ∀ connBacklog, AllCarry (addrs (makeTcpAcceptSocket k ep connBacklog)) ep.address ep.port
  connect : AllCarry (addrs (makeConnectedTcpStreamSocket k ep)) ep.address ep.port
  write : ∀ hdl buf, AllCarry (addrs (write k hdl buf ep)) ep.address ep.port
  back : ofSockaddrIn (toSockaddrIn ep) = ep
  answer : ∀ hdl size buf, ∀ dest ∈ addrs (Model.write k hdl buf (read k hdl size).2.1),
    dest.sinAddr = (k.recvfrom hdl size).1.sinAddr ∧ dest.sinPort = (k.recvfrom hdl size).1.sinPort

theorem endpointPaths (k : Kernel) (ep : Endpoint) : EndpointPaths k ep where
  accept connBacklog := by
    rw [addrs_makeTcpAcceptSocket]
    exact allCarry_ite _ ep
  connect := by
    rw [addrs_makeConnectedTcpStreamSocket]
    exact allCarry_ite _ ep
  write hdl buf := by
    rw [addrs_write]
    exact allCarry_singleton ep
  back := ofSockaddrIn_toSockaddrIn ep
  answer hdl size buf dest hdest := by
    rw [addrs_write] at hdest
    rw [List.mem_singleton.mp hdest]
    exact ⟨rfl, htons_ntohs _⟩

/-- The byte order of an address and a port is converted exactly once on every path. -/
def ConvertedOnce (address : UInt32) (port : UInt16) : Prop :=
  ∀ k, AllCarry (addrs (makeUdpDatagramSocket k port)) anyAddress port ∧ EndpointPaths k ⟨address, port⟩

/-- **Every path converts once, if the two bytes of the port are equal, and only then**: the paths of
endpoints do so always, and the UDP factory twice. -/
theorem byte_order_iff (address : UInt32) (port : UInt16) :
    (ConvertedOnce address port ↔ port.toNat % 256 = port.toNat / 256) ∧
      ∀ k, EndpointPaths k ⟨address, port⟩ := by
  refine ⟨?_, fun k => endpointPaths k _⟩
  rw [← carries_udp_iff]
  exact ⟨fun h k => (h k).1, fun h k => ⟨h k, endpointPaths k _⟩⟩

/-- Port 80 in hexadecimal is `0x0050`; the socket is bound to `0x5000`. -/
theorem byte_order_port_80 : ¬ ConvertedOnce localhost 80 := by
  intro h
  have hport := (h openKernel).1 ⟨afInet, 80, anyAddress⟩ (by decide)
  exact absurd hport.2 (by decide)

end NetworkDriver.Net.Socket.ByteOrder

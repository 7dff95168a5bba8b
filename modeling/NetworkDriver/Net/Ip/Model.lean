import NetworkDriver.Library.Codec
import NetworkDriver.Net.Datagrams.Model
import NetworkDriver.Util.Formatting.Model

/-! # Addresses and endpoints

`v4_address` is a union of a number and four octets: the octets are the bytes of the number in
memory, lowest first. A `v4_endpoint` has the number of its address and a port in host order.
`htons` and `ntohs` swap the bytes of a port.

* `addressBytes_ofOctets`, `ofOctets_addressBytes`: the two views of an address.
* `ntohs_htons`: the conversions cancel.
* `ofSockaddrIn_toSockaddrIn`: an endpoint survives the way through a socket address. -/

namespace NetworkDriver.Net.Ip.Model

open NetworkDriver.Library.Codec
open NetworkDriver.Net.Datagrams.Model (Endpoint)
open NetworkDriver.Util.Format NetworkDriver.Util.Formatting.Model

/-! ### Errors -/

/-- The values of `error_code` in use here. -/
inductive ErrorCode where
  | runtimeError
  | parserError
  | socketOperationFailed
  | invalidArgument
  deriving DecidableEq, Repr

/-- `util::error`. -/
structure Error where
  code : ErrorCode
  msg : Bytes
  deriving DecidableEq, Repr

def parserError (msg : Bytes) : Error := ⟨.parserError, msg⟩

/-! ### Addresses -/

/-- `v4_address::bytes()`. -/
def addressBytes (bits : UInt32) : List UInt8 := toLE 4 bits.toNat

/-- `v4_address{bytes}`. -/
def ofOctets (bytes : List UInt8) : UInt32 := UInt32.ofNat (ofLE bytes)

/-- `v4_address::any`. -/
def anyAddress : UInt32 := ofOctets [0, 0, 0, 0]

/-- `v4_address::localhost`. -/
def localhost : UInt32 := ofOctets [127, 0, 0, 1]

def dot : UInt8 := 46

def colon : UInt8 := 58

/-- `"{0}.{1}.{2}.{3}"`. -/
def addressForm : Bytes := [123, 48, 125, 46, 123, 49, 125, 46, 123, 50, 125, 46, 123, 51, 125]

/-- `"{0}:{1}"`. -/
def endpointForm : Bytes := [123, 48, 125, 58, 123, 49, 125]

/-- `to_string(const v4_address&)`. -/
def addressToString (addr : UInt32) : Bytes :=
  format addressForm ((addressBytes addr).map fun byte => .integral byte.toNat)

/-- The loop of `parse_v4_address` over the parts. -/
def parseOctets : List Bytes → Except Error (List UInt8)
  | [] => .ok []
  | part :: parts =>
    match parse (fromCharsUnsigned (2 ^ 8) UInt8.ofNat) part with
    | some value => (parseOctets parts).map fun bytes => value :: bytes
    | none =>
      .error (parserError ("Parsing to v4_address failed: failed to parse octet '".toUTF8.toList ++
        part ++ "'".toUTF8.toList))

/-- `parse_v4_address`. -/
def parseV4Address (str : Bytes) : Except Error UInt32 :=
  let parts := split str dot
  if parts.length ≠ 4 then
    .error (parserError "Parsing to v4_address failed: needs exactly 4 octets".toUTF8.toList)
  else (parseOctets parts).map ofOctets

/-! ### Endpoints -/

/-- `to_string(const v4_endpoint&)`. -/
def endpointToString (ep : Endpoint) : Bytes :=
  format endpointForm [.text (addressToString ep.address), .integral ep.port.toNat]

/-- `parse_v4_endpoint`. -/
def parseV4Endpoint (str : Bytes) : Except Error Endpoint :=
  match split str colon with
  | [front, back] =>
    match parseV4Address front with
    | .error err => .error err
    | .ok addr =>
      match parse (fromCharsUnsigned (2 ^ 16) UInt16.ofNat) back with
      | none => .error (parserError "Could not parse the port".toUTF8.toList)
      | some port => .ok ⟨addr, port⟩
  | _ =>
    .error (parserError
      "Parsing to v4_endpoint failed: needs address and port, separated by ':'".toUTF8.toList)

/-! ### Socket addresses -/

/-- `AF_INET`. -/
def afInet : UInt16 := 2

/-- `sockaddr_in`. -/
structure SockaddrIn where
  sinFamily : UInt16
  sinPort : UInt16
  sinAddr : UInt32
  deriving DecidableEq, Repr

/-- `htons`: the number with the bytes of `port` the other way round. -/
def htons (port : UInt16) : UInt16 := UInt16.ofNat (ofLE (toLE 2 port.toNat).reverse)

/-- `ntohs`. -/
def ntohs (port : UInt16) : UInt16 := htons port

/-- `v4_endpoint(sockaddr_in)`. -/
def ofSockaddrIn (saddr : SockaddrIn) : Endpoint := ⟨saddr.sinAddr, ntohs saddr.sinPort⟩

/-- `to_sockaddr_in`. -/
def toSockaddrIn (ep : Endpoint) : SockaddrIn := ⟨afInet, htons ep.port, ep.address⟩

/-! ### Conversions -/

theorem ofOctets_addressBytes (bits : UInt32) : ofOctets (addressBytes bits) = bits := by
  have hlt : bits.toNat < 256 ^ 4 := bits.toNat_lt
  unfold ofOctets addressBytes
  rw [ofLE_toLE_of_lt hlt, UInt32.ofNat_toNat]

theorem addressBytes_ofOctets {bytes : List UInt8} (h : bytes.length = 4) :
    addressBytes (ofOctets bytes) = bytes := by
  have hlt : ofLE bytes < UInt32.size := by
    have hbytes := ofLE_lt bytes
    rw [h] at hbytes
    exact hbytes
  unfold addressBytes ofOctets
  rw [UInt32.toNat_ofNat_of_lt' hlt, ← h, toLE_ofLE]

/-- Two octets as a port. -/
theorem toNat_htons (port : UInt16) :
    (htons port).toNat = port.toNat % 256 * 256 + port.toNat / 256 := by
  have hlow : port.toNat % 256 < 256 := Nat.mod_lt _ (by decide)
  have hhigh : port.toNat / 256 < 256 := Nat.div_lt_of_lt_mul port.toNat_lt
  change (UInt16.ofNat ((UInt8.ofNat (port.toNat / 256)).toNat +
    256 * ((UInt8.ofNat port.toNat).toNat + 256 * 0))).toNat = _
  rw [UInt16.toNat_ofNat', UInt8.toNat_ofNat', UInt8.toNat_ofNat', Nat.mod_eq_of_lt hhigh]
  omega

theorem ntohs_htons (port : UInt16) : ntohs (htons port) = port := by
  have hlt := port.toNat_lt
  refine UInt16.toNat_inj.mp ?_
  unfold ntohs
  rw [toNat_htons, toNat_htons]
  omega

theorem htons_ntohs (port : UInt16) : htons (ntohs port) = port := ntohs_htons port

/-- **An endpoint survives the way through a socket address.** -/
theorem ofSockaddrIn_toSockaddrIn (ep : Endpoint) : ofSockaddrIn (toSockaddrIn ep) = ep := by
  unfold ofSockaddrIn toSockaddrIn
  rw [ntohs_htons]

end NetworkDriver.Net.Ip.Model

import LineStore.IOFault

/-!
# The network

What the operating system answers when a program binds to an address or calls
one.  A program takes its network as an argument, so that it can be run, and
reasoned about, on any.

* `Network.loopback` is a network on which every call gets through.
* `Network.isolated` is a machine without any interface that is up: an address
  can be bound to, but nothing can be reached, and no name can be looked up.
-/

namespace LineStore

/-- The network of a machine, by host and port. -/
structure Network where
  /-- The fault of binding to an address, if there is one. -/
  bindFault? : String → Nat → Option IOFault
  /-- The fault of calling an address, if there is one. -/
  callFault? : String → Nat → Option IOFault

namespace Network

/-- Tells whether a text is a number from 0 to 255, without zeros in front. -/
def isOctet (digits : List Char) : Bool :=
  digits ≠ [] && digits.length ≤ 3 && digits.all Char.isDigit &&
    (digits.head? ≠ some '0' || digits.length == 1) &&
    digits.foldl (fun number c => 10 * number + (c.toNat - '0'.toNat)) 0 ≤ 255

/-- Tells whether a host is an address of four octets. -/
def isDottedQuad (host : String) : Bool :=
  let parts := host.splitOn "."
  parts.length == 4 && parts.all fun part => isOctet part.toList

/-- Tells whether a host has the look of an address in hexadecimal groups. -/
def isGrouped (host : String) : Bool :=
  host.contains ':' && host.toList.all fun c =>
    c == ':' || c == '.' || c.isDigit || ('a' ≤ c.toLower && c.toLower ≤ 'f')

def unreachable : IOFault :=
  .numbered .networkUnreachable "Network is unreachable" 101

def notAvailable : IOFault :=
  .numbered .addrNotAvailable "Cannot assign requested address" 99

def unknownName : IOFault :=
  ⟨.other, "failed to lookup address information: Temporary failure in name resolution"⟩

/-- A network on which every call gets through. -/
def loopback : Network := ⟨fun _ _ => none, fun _ _ => none⟩

/-- A machine without any interface that is up. -/
def isolated : Network :=
  { bindFault? := fun host _ =>
      if isDottedQuad host || host == "localhost" then none
      else if isGrouped host then some notAvailable
      else some unknownName
    callFault? := fun host _ =>
      if isDottedQuad host || host == "localhost" || isGrouped host then some unreachable
      else some unknownName }

end Network

end LineStore

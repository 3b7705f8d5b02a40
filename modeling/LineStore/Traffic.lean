/-!
# Traffic

The counters of a server's connections.  They wrap at `2 ^ 64`.
-/

namespace LineStore

/-- How many connections there have been and what went over them. -/
structure Traffic where
  /-- The connections opened. -/
  accepted : UInt64
  /-- The connections opened and not yet closed. -/
  active : UInt64
  /-- The request lines answered. -/
  commands : UInt64
  /-- The bytes received. -/
  bytesRead : UInt64
  /-- The bytes of the replies sent in full. -/
  bytesWritten : UInt64
  deriving DecidableEq, Repr

namespace Traffic

def zero : Traffic := ⟨0, 0, 0, 0, 0⟩

def opened (traffic : Traffic) : Traffic :=
  { traffic with accepted := traffic.accepted + 1, active := traffic.active + 1 }

def closed (traffic : Traffic) : Traffic :=
  { traffic with active := traffic.active - 1 }

def processed (traffic : Traffic) : Traffic :=
  { traffic with commands := traffic.commands + 1 }

def received (traffic : Traffic) (count : Nat) : Traffic :=
  { traffic with bytesRead := traffic.bytesRead + UInt64.ofNat count }

def sent (traffic : Traffic) (count : Nat) : Traffic :=
  { traffic with bytesWritten := traffic.bytesWritten + UInt64.ofNat count }

end Traffic

end LineStore

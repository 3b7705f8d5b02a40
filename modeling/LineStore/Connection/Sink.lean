import LineStore.IOFault

/-!
# Writing to the client's stream

A sink is the sending half of a client's stream, as far as it behaves in ways
the server can notice: how much it takes in one write, when its writes wait
and when they fail.  Only the number of bytes matters, so this module counts.

* `Sink.offer` is one write.
* `Sink.push` writes until all is taken, or a write waits or fails.  No byte
  is offered twice once it is taken.
* `Sink.flush` is one flush.
-/

namespace LineStore

/-- The sending half of a stream. -/
structure Sink where
  /-- The most bytes that one write takes. -/
  perWrite? : Option Nat
  /-- The bytes that writes still take before they fail. -/
  room? : Option Nat
  /-- How a write fails once there is no room.  Without a fault it takes
  nothing, which ends the stream as well. -/
  writeFault? : Option IOFault
  /-- How a flush fails once no more of them succeed.  Without a fault all of
  them succeed. -/
  flushFault? : Option IOFault
  /-- The bytes that writes still take before they wait. -/
  allowance? : Option Nat
  /-- The flushes that still succeed before they fail, if they have a fault. -/
  flushes : Nat := 0
  deriving DecidableEq, Repr

namespace Sink

/-- A sink that takes everything. -/
def unlimited : Sink := ⟨none, none, none, none, none, 0⟩

/-- The smaller of a number and a bound, if there is one. -/
def bounded (count : Nat) : Option Nat → Nat
  | none => count
  | some bound => min count bound

/-- What becomes of one write. -/
inductive Offer
  | waits
  | fails (fault : IOFault)
  | takes (count : Nat) (next : Sink)
  deriving DecidableEq, Repr

/-- One write of `size` bytes. -/
def offer (sink : Sink) (size : Nat) : Offer :=
  if sink.allowance? = some 0 then .waits
  else if sink.room? = some 0 then
    match sink.writeFault? with
    | some fault => .fails fault
    | none => .takes 0 sink
  else
    let count := bounded (bounded (bounded size sink.perWrite?) sink.room?) sink.allowance?
    .takes count
      { sink with
        room? := sink.room?.map (· - count)
        allowance? := sink.allowance?.map (· - count) }

/-- Fewer bytes than this are collected before they are written. -/
def collectSize : Nat := 8192

/-- The fault of a write that takes nothing, with `left` bytes to go.  Bytes
that are written straight through and bytes that were collected first have
their own wordings. -/
def writeZero (left : Nat) : IOFault :=
  if collectSize ≤ left then ⟨.writeZero, "write zero"⟩
  else ⟨.writeZero, "failed to write the buffered data"⟩

/-- Why a run of writes stopped. -/
inductive Stop
  | complete
  | waiting
  | failed (fault : IOFault)
  deriving DecidableEq, Repr

/-- The result of a run of writes: how many bytes were taken, why it stopped,
and the sink after it. -/
structure Pushed where
  taken : Nat
  stop : Stop
  sink : Sink
  deriving DecidableEq, Repr

/-- Writes `left` bytes, after `taken` earlier ones, until all are taken, or a
write waits or fails. -/
def pushFrom (sink : Sink) (left taken : Nat) : Pushed :=
  if left = 0 then ⟨taken, .complete, sink⟩
  else
    match sink.offer left with
    | .waits => ⟨taken, .waiting, sink⟩
    | .fails fault => ⟨taken, .failed fault, sink⟩
    | .takes count next =>
      if count = 0 then ⟨taken, .failed (writeZero left), next⟩
      else pushFrom next (left - count) (taken + count)
termination_by left

/-- Writes `size` bytes until all are taken, or a write waits or fails. -/
def push (sink : Sink) (size : Nat) : Pushed :=
  sink.pushFrom size 0

/-- One flush: how it fails, or the sink after it. -/
def flush (sink : Sink) : Except IOFault Sink :=
  match sink.flushFault? with
  | none => .ok sink
  | some fault =>
    if sink.flushes = 0 then .error fault
    else .ok { sink with flushes := sink.flushes - 1 }

/-- A run of writes waits only when no byte may be taken. -/
theorem allowance?_of_waiting {sink : Sink} {left taken : Nat}
    (h : (sink.pushFrom left taken).stop = .waiting) :
    (sink.pushFrom left taken).sink.allowance? = some 0 := by
  fun_induction pushFrom sink left taken with
  | case1 => simp at h
  | case2 sink left taken _ ho =>
    by_cases ha : sink.allowance? = some 0
    · exact ha
    · rw [offer, if_neg ha] at ho
      grind
  | case3 => simp at h
  | case4 => simp at h
  | case5 _ _ _ _ _ _ _ _ ih => exact ih h

end Sink

end LineStore

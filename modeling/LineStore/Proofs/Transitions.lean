import LineStore.Connection.Step
import LineStore.Proofs.Lines

/-!
# What a step of a connection can do

`Connection.step` has many branches.  `Connection.Transition` lists them once,
each with its guards and its result, and `transition_step` says that the list
is complete.  Every fact about steps is a case analysis on it.

The rest of the module is what such an analysis gives.

* `Event.line?`, `Event.reply?` and `Event.output` read the lines executed, the
  replies made, and the bytes sent off the events of a step.
* `executeLines_of_step`: a step does to the store what its lines ask for.
* `pendingBytes_of_step`: the bytes of the client are in the lines executed, in
  the buffer, or still to arrive.
* `line_of_step`: a line that is executed is one line, within the limit.
-/

namespace LineStore

/-- The reply that a record tells of. -/
def Execution.Record.reply : Execution.Record → Reply
  | rejected _ => .invalidInput
  | executed _ reply => reply

namespace Command

theorem reply_record_executeLine (store : Store) (line : Bytes) :
    (executeLine store line).record.reply = (executeLine store line).reply := by
  unfold executeLine
  cases (ofLine line).map (map Text.Word.bytes) with
  | error => rfl
  | ok command => rfl

@[simp] theorem executeLines_nil (store : Store) : executeLines store [] = ([], store) := rfl

theorem executeLines_append (store : Store) (lines more : List Bytes) :
    executeLines store (lines ++ more) =
      ((executeLines store lines).1 ++ (executeLines (executeLines store lines).2 more).1,
        (executeLines (executeLines store lines).2 more).2) := by
  induction lines generalizing store with
  | nil => rfl
  | cons line lines ih =>
    simp only [List.cons_append, executeLines, ih]

theorem length_executeLines (store : Store) (lines : List Bytes) :
    (executeLines store lines).1.length = lines.length := by
  induction lines generalizing store with
  | nil => rfl
  | cons line lines ih => simp [executeLines, ih]

end Command

namespace Connection

/-! ## Reading events -/

/-- The line that an event says was executed. -/
@[simp] def Event.line? : Event → Option Bytes
  | framed line _ => some line
  | _ => none

@[simp] def Event.reply? : Event → Option Reply
  | answered record => some record.reply
  | _ => none

@[simp] def Event.output : Event → Bytes
  | accepted bytes => bytes
  | _ => []

@[simp] def Event.outcome? : Event → Option Outcome
  | ended _ outcome => some outcome
  | _ => none

/-! ## Reading the result of a step -/

@[simp] def Progress.events : Progress → List Event
  | waits => []
  | goes _ _ events => events
  | ends _ events => events

@[simp] def Progress.shared (before : Shared) : Progress → Shared
  | waits => before
  | goes shared _ _ => shared
  | ends shared _ => shared

/-- The connection after a step, unless the step ended it. -/
@[simp] def Progress.next? (before : Connection) : Progress → Option Connection
  | waits => some before
  | goes _ next _ => some next
  | ends _ _ => none

/-! ## The list of steps -/

/-- A connection that reads: there is no line left in its buffer, the buffer
is within the limit, and nothing tells it to close. -/
structure IsReading (connection : Connection) (shared : Shared) : Prop where
  phase : connection.phase = .reading
  noLine : Bytes.lineEnd? connection.buffer = none
  short : connection.buffer.length ≤ connection.maxLine
  unsignalled : connection.listener.signalled = false
  undisturbed : connection.listener.hears shared.signal = false

/-- The events of a part of a reply that was taken. -/
def takenEvents (rest : Bytes) (taken : Nat) : List Event :=
  if taken = 0 then [] else [.accepted (rest.take taken)]

/-- How the sending of a reply fails now, if it does: a write fails, or the
flush behind the last write. -/
def sendFault? (connection : Connection) : Option IOFault :=
  match connection.phase with
  | .replying _ rest =>
    match (connection.sink.push rest.length).stop with
    | .waiting => none
    | .failed fault => some fault
    | .complete =>
      match (connection.sink.push rest.length).sink.flush with
      | .error fault => some fault
      | .ok _ => none
  | _ => none

/-- The steps of a connection, with their guards. -/
inductive Transition (connection : Connection) (shared : Shared) : Progress → Prop
  | starts (hp : connection.phase = .fresh) :
    Transition connection shared
      (.goes shared { connection with phase := .reading } [.connected])
  | answers {size : Nat} (hp : connection.phase = .reading)
      (hl : Bytes.lineEnd? connection.buffer = some size) (hs : size ≤ connection.maxLine) :
    Transition connection shared (connection.answerLine shared size)
  /-- It ends because of a line, or the start of one, that is too long. -/
  | exceeds {size : Nat} (hp : connection.phase = .reading) (hs : connection.maxLine < size)
      (hl : Bytes.lineEnd? connection.buffer = some size ∨
        Bytes.lineEnd? connection.buffer = none ∧ size = connection.buffer.length ∧
          connection.listener.signalled = false) :
    Transition connection shared (connection.finishTooLong shared size)
  | closes (hp : connection.phase = .reading)
      (hl : Bytes.lineEnd? connection.buffer = none)
      (hs : connection.listener.signalled = true) :
    Transition connection shared (connection.finish shared [] .closed)
  | notices (hp : connection.phase = .reading)
      (hl : Bytes.lineEnd? connection.buffer = none)
      (hs : connection.listener.signalled = false)
      (hb : connection.buffer.length ≤ connection.maxLine)
      (hh : connection.listener.hears shared.signal = true) :
    Transition connection shared
      (.goes shared
        { connection with listener := { connection.listener with signalled := true } }
        [.closing])
  | reads {bytes : Bytes} {arrivals : List Arrival} (hr : connection.IsReading shared)
      (ha : connection.arrivals = .data bytes :: arrivals) (hb : bytes ≠ []) :
    Transition connection shared
      (.goes { shared with traffic := shared.traffic.received bytes.length }
        { connection with arrivals, buffer := connection.buffer ++ bytes } [.received bytes])
  | streamEnds {arrivals : List Arrival} (hr : connection.IsReading shared)
      (ha : connection.arrivals = .streamEnd :: arrivals ∨
        connection.arrivals = .data [] :: arrivals) :
    Transition connection shared
      (connection.finish shared []
        (.failed (if connection.buffer.isEmpty then .clientDisconnected else .unexpectedEof)))
  | readFails {fault : IOFault} {arrivals : List Arrival} (hr : connection.IsReading shared)
      (ha : connection.arrivals = .fault fault :: arrivals) :
    Transition connection shared (connection.finish shared [] (.failed (.io fault)))
  | idles (hr : connection.IsReading shared) (ha : connection.arrivals = []) :
    Transition connection shared .waits
  | stalls {reply : Reply} {rest : Bytes} (hp : connection.phase = .replying reply rest)
      (hw : (connection.sink.push rest.length).stop = .waiting)
      (ht : (connection.sink.push rest.length).taken = 0) :
    Transition connection shared .waits
  | sendsPart {reply : Reply} {rest : Bytes} (hp : connection.phase = .replying reply rest)
      (hw : (connection.sink.push rest.length).stop = .waiting)
      (ht : (connection.sink.push rest.length).taken ≠ 0) :
    Transition connection shared
      (.goes shared
        { connection with
          sink := (connection.sink.push rest.length).sink
          phase := .replying reply (rest.drop (connection.sink.push rest.length).taken) }
        (takenEvents rest (connection.sink.push rest.length).taken))
  | sendFails {reply : Reply} {rest : Bytes} {fault : IOFault}
      (hp : connection.phase = .replying reply rest) (hf : connection.sendFault? = some fault) :
    Transition connection shared
      (connection.finish shared (takenEvents rest (connection.sink.push rest.length).taken)
        (.failed (.io fault)))
  | sends {reply : Reply} {rest : Bytes} {sink : Sink}
      (hp : connection.phase = .replying reply rest)
      (hc : (connection.sink.push rest.length).stop = .complete)
      (hf : (connection.sink.push rest.length).sink.flush = .ok sink) :
    Transition connection shared
      (.goes { shared with traffic := shared.traffic.sent reply.wire.length }
        { connection with sink, phase := .reading }
        (takenEvents rest (connection.sink.push rest.length).taken ++ [.sent reply]))

variable {connection : Connection} {shared : Shared}

theorem transition_sendRest {reply : Reply} {rest : Bytes}
    (hp : connection.phase = .replying reply rest) :
    Transition connection shared (connection.sendRest shared reply rest) := by
  unfold sendRest
  dsimp only
  split
  · rename_i hw
    split
    · rename_i ht
      exact .stalls hp hw ht
    · rename_i ht
      have h : Transition connection shared _ := .sendsPart hp hw ht
      rwa [takenEvents, if_neg ht] at h
  · rename_i fault hs
    exact .sendFails hp (by simp [sendFault?, hp, hs])
  · rename_i hc
    split
    · rename_i fault hf
      exact .sendFails hp (by simp [sendFault?, hp, hc, hf])
    · rename_i hf
      exact .sends hp hc hf

theorem transition_read (hr : connection.IsReading shared) :
    Transition connection shared (connection.read shared) := by
  unfold read
  dsimp only
  split
  · rename_i ha
    exact .idles hr ha
  · rename_i ha
    exact .streamEnds hr (.inl ha)
  · rename_i ha
    exact .readFails hr ha
  · rename_i bytes arrivals ha
    split
    · rename_i hb
      rw [List.isEmpty_iff] at hb
      subst hb
      exact .streamEnds hr (.inr ha)
    · rename_i hb
      rw [List.isEmpty_iff] at hb
      exact .reads hr ha hb

theorem transition_readMore (hp : connection.phase = .reading)
    (hl : Bytes.lineEnd? connection.buffer = none) :
    Transition connection shared (connection.readMore shared) := by
  unfold readMore
  split
  · rename_i hs
    exact .closes hp hl hs
  · rename_i hs
    rw [Bool.not_eq_true] at hs
    split
    · rename_i hb
      exact .exceeds hp hb (.inr ⟨hl, rfl, hs⟩)
    · rename_i hb
      rw [Nat.not_lt] at hb
      split
      · rename_i listener hpoll
        simp only [Listener.poll, hs, Bool.false_or, Prod.mk.injEq] at hpoll
        obtain ⟨hh, rfl⟩ := hpoll
        rw [hh]
        exact .notices hp hl hs hb hh
      · rename_i hpoll
        simp only [Listener.poll, hs, Bool.false_or, Prod.mk.injEq] at hpoll
        exact transition_read ⟨hp, hl, hb, hs, hpoll.1⟩

/-- Every step is one of the list. -/
theorem transition_step (connection : Connection) (shared : Shared) :
    Transition connection shared (connection.step shared) := by
  unfold step
  split
  · rename_i hp
    exact .starts hp
  · rename_i hp
    exact transition_sendRest hp
  · rename_i hp
    split
    · rename_i size hl
      split
      · rename_i hs
        exact .exceeds hp hs (.inl hl)
      · rename_i hs
        exact .answers hp hl (Nat.not_lt.mp hs)
    · rename_i hl
      exact transition_readMore hp hl

/-! ## What every step keeps -/

/-- The events of a write do not show in a view of the others. -/
theorem filterMap_takenEvents {α : Type} {view : Event → Option α}
    (h : ∀ bytes, view (.accepted bytes) = none) (rest : Bytes) (taken : Nat) :
    (takenEvents rest taken).filterMap view = [] := by
  unfold takenEvents
  split
  · rfl
  · rw [List.filterMap_cons_none (h _), List.filterMap_nil]

@[simp] theorem filterMap_line?_takenEvents (rest : Bytes) (taken : Nat) :
    (takenEvents rest taken).filterMap Event.line? = [] :=
  filterMap_takenEvents (fun _ => rfl) rest taken

@[simp] theorem filterMap_reply?_takenEvents (rest : Bytes) (taken : Nat) :
    (takenEvents rest taken).filterMap Event.reply? = [] :=
  filterMap_takenEvents (fun _ => rfl) rest taken

@[simp] theorem flatMap_output_takenEvents (rest : Bytes) (taken : Nat) :
    (takenEvents rest taken).flatMap Event.output = rest.take taken := by
  unfold takenEvents
  split
  · rename_i ht
    rw [ht, List.take_zero]
    rfl
  · simp [Event.output]

/-- A step changes neither the client's address nor how the connection was set
up. -/
theorem setup_of_step {next : Connection}
    (h : (connection.step shared).next? connection = some next) :
    next.client = connection.client ∧ next.maxLine = connection.maxLine ∧
      next.detached = connection.detached := by
  have ht := transition_step connection shared
  generalize connection.step shared = progress at h ht
  cases ht <;>
    simp only [Progress.next?, answerLine, finish, finishTooLong, Option.some.injEq,
      reduceCtorEq] at h <;>
    subst h <;> exact ⟨rfl, rfl, rfl⟩

/-- A step does to the store what its lines ask for, and makes the replies to
them.  A step without a line leaves the store as it is. -/
theorem executeLines_of_step (connection : Connection) (shared : Shared) :
    Command.executeLines shared.store
        ((connection.step shared).events.filterMap Event.line?) =
      ((connection.step shared).events.filterMap Event.reply?,
        ((connection.step shared).shared shared).store) := by
  have ht := transition_step connection shared
  generalize connection.step shared = progress at ht
  cases ht with
  | answers hp hl hs =>
    simp [answerLine, List.filterMap_cons, Command.executeLines,
      Command.reply_record_executeLine]
  | _ => simp [finish, finishTooLong, List.filterMap_cons]

/-! ## No byte of the client is lost -/

def arrivalBytes (arrivals : List Arrival) : Bytes :=
  arrivals.flatMap fun
    | .data bytes => bytes
    | _ => []

/-- The bytes that are in the buffer or still to arrive. -/
def pendingBytes (connection : Connection) : Bytes :=
  connection.buffer ++ arrivalBytes connection.arrivals

/-- A step takes whole lines off the front of the bytes that are pending, and
nothing else. -/
theorem pendingBytes_of_step {next : Connection}
    (h : (connection.step shared).next? connection = some next) :
    connection.pendingBytes =
      Bytes.endLines ((connection.step shared).events.filterMap Event.line?) ++
        next.pendingBytes := by
  have ht := transition_step connection shared
  generalize connection.step shared = progress at h ht
  cases ht with
  | answers hp hl hs =>
    simp only [answerLine, Progress.next?, Option.some.injEq] at h
    subst h
    simp only [pendingBytes, answerLine, Progress.events, List.filterMap_cons, Event.line?,
      List.filterMap_nil, Bytes.endLines_cons, Bytes.endLines_nil]
    conv => lhs; rw [Bytes.eq_of_lineEnd? hl]
    simp
  | reads hr ha hb =>
    simp only [Progress.next?, Option.some.injEq] at h
    subst h
    simp [pendingBytes, List.filterMap_cons, ha, arrivalBytes]
  | _ =>
    simp only [Progress.next?, finish, finishTooLong, Option.some.injEq, reduceCtorEq] at h <;>
      subst h <;> simp [pendingBytes, List.filterMap_cons]

/-- A step that ends a connection executes nothing. -/
theorem lines_of_ended
    (h : (connection.step shared).next? connection = none) :
    (connection.step shared).events.filterMap Event.line? = [] := by
  have ht := transition_step connection shared
  generalize connection.step shared = progress at h ht
  cases ht <;> simp_all [finish, finishTooLong, answerLine, List.filterMap_cons]

/-- A line that is executed has no newline in it and is within the limit. -/
theorem line_of_step {line : Bytes}
    (h : line ∈ (connection.step shared).events.filterMap Event.line?) :
    Bytes.newline ∉ line ∧ line.length ≤ connection.maxLine := by
  have ht := transition_step connection shared
  generalize connection.step shared = progress at h ht
  cases ht with
  | answers hp hl hs =>
    simp only [answerLine, Progress.events, List.filterMap_cons, Event.line?,
      List.filterMap_nil, List.mem_singleton] at h
    subst h
    rw [Bytes.length_take_of_lineEnd? hl]
    exact ⟨Bytes.newline_notMem_of_lineEnd? hl, hs⟩
  | _ => simp [finish, finishTooLong, List.filterMap_cons] at h

end Connection

end LineStore

import LineStore.Proofs.Accounts
import LineStore.Proofs.SinkFaults

/-!
# Connections under the shutdown signal

A connection that follows the signal does not read while the signal is given.
It goes on with what it has: the reply that it is sending and the lines in its
buffer.

* `Connection.Draining` and `Connection.Drained` say what a connection does
  under the signal, as long as it is there and in all.  `Draining.trans` and
  `Draining.drained` put one part behind another.
* `Connection.Ending` lists the ends.  `Drained.ends_of_lasts` leaves the two
  that are not failures, where the client's stream takes all that is sent.
* `draining_of_step` and `drained_of_step`: each step is of this kind.
* `drains_settle`: so are all steps together, and a connection that is still
  there waits within a reply.
-/

namespace LineStore

namespace Sink

variable {sink next : Sink}

theorem allowance?_pushFrom (h : sink.allowance? = none) (left taken : Nat) :
    (sink.pushFrom left taken).sink.allowance? = none := by
  have hoffer : ∀ {sink next : Sink} {size count : Nat}, sink.allowance? = none →
      sink.offer size = .takes count next → next.allowance? = none := by
    intro sink next size count ha htakes
    have ho := offering_offer sink size
    rw [htakes] at ho
    cases ho with
    | full => exact ha
    | takes => simp [ha]
  fun_induction pushFrom sink left taken with
  | case1 | case2 | case3 => exact h
  | case4 _ _ _ _ _ ho => exact hoffer h ho
  | case5 _ _ _ _ _ _ ho _ ih => exact ih (hoffer h ho)

theorem allowance?_of_flush (h : sink.flush = .ok next) :
    next.allowance? = sink.allowance? := by
  unfold flush at h
  split at h
  · rw [Except.ok.inj h]
  · split at h
    · simp at h
    · rw [← Except.ok.inj h]

end Sink

namespace Connection

open Bytes

variable {connection next : Connection} {shared : Shared} {start : Connection}
  {events : List Event}

/-! ## What a connection still does under the signal -/

/-- What the client's stream has not taken of a reply that was made. -/
def unsent (connection : Connection) : Bytes :=
  match connection.phase with
  | .replying _ rest => rest
  | _ => []

theorem unsent_of_replying {reply : Reply} {rest : Bytes}
    (h : connection.phase = .replying reply rest) : connection.unsent = rest := by
  rw [unsent, h]

theorem unsent_of_reading (h : connection.phase = .reading) : connection.unsent = [] := by
  rw [unsent, h]

/-- A connection that follows the signal and has started. -/
structure Follows (connection : Connection) : Prop where
  attached : connection.listener.attached = true
  started : connection.phase ≠ .fresh
  latched : connection.Latched

/-- What a connection does under the signal as long as it is there: it reads
nothing, and executes lines from the front of its buffer. -/
structure Draining (start : Connection) (events : List Event) (now : Connection) : Prop where
  follows : now.Follows
  setup : now.maxLine = start.maxLine
  spent : start.sink.Spent (events.flatMap Event.output).length
    (events.filterMap Event.sent?).length now.sink
  unread : ∀ bytes, Event.received bytes ∉ events
  unended : events.filterMap Event.outcome? = []
  answered : (events.filterMap Event.line?).length = (events.filterMap Event.reply?).length
  lines : linesWithin start.maxLine start.buffer =
    events.filterMap Event.line? ++ linesWithin start.maxLine now.buffer
  fits : Fits start.maxLine start.buffer ↔ Fits start.maxLine now.buffer
  replies : start.phase.pending?.toList ++ events.filterMap Event.reply? =
    events.filterMap Event.sent? ++ now.phase.pending?.toList
  sent : events.flatMap Event.output ++ now.unsent =
    start.unsent ++ Reply.wires (events.filterMap Event.reply?)

/-- How a connection ends under the signal, if it has done the given things
since it was `start`. -/
inductive Ending (start : Connection) (events : List Event) : Outcome → Prop
  /-- All lines in its buffer were executed and answered. -/
  | closed (hfits : Fits start.maxLine start.buffer)
      (hlines : events.filterMap Event.line? = (cutLines start.buffer).1)
      (hreplies : start.phase.pending?.toList ++ events.filterMap Event.reply? =
        events.filterMap Event.sent?)
      (hsent : events.flatMap Event.output =
        start.unsent ++ Reply.wires (events.filterMap Event.reply?)) :
    Ending start events .closed
  /-- The lines in front of a piece that is too long were executed and
  answered. -/
  | tooLong (hexceeds : ¬ Fits start.maxLine start.buffer)
      (hlines : events.filterMap Event.line? = linesWithin start.maxLine start.buffer)
      (hreplies : start.phase.pending?.toList ++ events.filterMap Event.reply? =
        events.filterMap Event.sent?)
      (hsent : events.flatMap Event.output =
        start.unsent ++ Reply.wires (events.filterMap Event.reply?)) :
    Ending start events (.failed (.lineTooLong start.maxLine))
  /-- A write of the last reply failed, with the bytes `left` to go, or the flush
  behind it. -/
  | failed {fault : IOFault} (reply : Reply) (left : Bytes)
      (hfails : start.sink.Fails (events.flatMap Event.output).length
        (events.filterMap Event.sent?).length left.length fault)
      (hlines : events.filterMap Event.line? <+: linesWithin start.maxLine start.buffer)
      (hreplies : start.phase.pending?.toList ++ events.filterMap Event.reply? =
        events.filterMap Event.sent? ++ [reply])
      (hsent : events.flatMap Event.output ++ left =
        start.unsent ++ Reply.wires (events.filterMap Event.reply?)) :
    Ending start events (.failed (.io fault))

/-- What a connection has done when it has ended under the signal. -/
structure Drained (start : Connection) (events : List Event) : Prop where
  unread : ∀ bytes, Event.received bytes ∉ events
  answered : (events.filterMap Event.line?).length = (events.filterMap Event.reply?).length
  ending : ∃ outcome, events.filterMap Event.outcome? = [outcome] ∧ Ending start events outcome

/-- A connection whose client's stream takes all that is sent ends in one of two
ways, and its buffer decides which. -/
theorem Drained.ends_of_lasts (h : Drained start events)
    (hl : start.sink.Lasts
      (start.unsent ++ Reply.wires (events.filterMap Event.reply?)).length
      (start.phase.pending?.toList ++ events.filterMap Event.reply?).length) :
    Fits start.maxLine start.buffer ∧ events.filterMap Event.outcome? = [.closed] ∨
      ¬ Fits start.maxLine start.buffer ∧
        events.filterMap Event.outcome? = [.failed (.lineTooLong start.maxLine)] := by
  obtain ⟨-, -, outcome, houtcome, hending⟩ := h
  cases hending with
  | closed hfits => exact .inl ⟨hfits, houtcome⟩
  | tooLong hexceeds => exact .inr ⟨hexceeds, houtcome⟩
  | failed reply left hfails hlines hreplies hsent =>
    rw [← hsent, hreplies, List.length_append, List.length_append] at hl
    exact absurd hfails (hl.not_fails (Nat.le_refl _) (Nat.lt_succ_self _))

variable {now : Connection} {more : List Event}

theorem draining_refl (h : start.Follows) : Draining start [] start where
  follows := h
  setup := rfl
  spent := Sink.spent_refl start.sink
  unread _ := List.not_mem_nil
  unended := rfl
  answered := rfl
  lines := rfl
  fits := Iff.rfl
  replies := by simp
  sent := by simp

theorem Draining.trans (h : Draining start events now) (h' : Draining now more next) :
    Draining start (events ++ more) next where
  follows := h'.follows
  setup := h'.setup.trans h.setup
  spent := by
    simp only [List.flatMap_append, List.filterMap_append, List.length_append]
    exact h.spent.trans h'.spent
  unread bytes hmem := (List.mem_append.mp hmem).elim (h.unread bytes) (h'.unread bytes)
  unended := by rw [List.filterMap_append, h.unended, h'.unended, List.append_nil]
  answered := by
    simp only [List.filterMap_append, List.length_append, h.answered, h'.answered]
  lines := by
    rw [h.lines, List.filterMap_append, List.append_assoc, ← h.setup, h'.lines]
  fits := by
    rw [h.fits, ← h.setup, h'.fits]
  replies := by
    simp only [List.filterMap_append]
    rw [← List.append_assoc, h.replies, List.append_assoc, h'.replies, List.append_assoc]
  sent := by
    rw [List.flatMap_append, List.append_assoc, h'.sent, ← List.append_assoc, h.sent,
      List.filterMap_append, Reply.wires_append, List.append_assoc]

/-- A connection ends as it would without what it did before. -/
theorem Draining.ending {outcome : Outcome} (h : Draining start events now)
    (h' : Ending now more outcome) : Ending start (events ++ more) outcome := by
  have hlines := h.lines
  have hfits := h.fits
  rw [← h.setup] at hlines hfits
  have hsent : start.unsent ++ Reply.wires ((events ++ more).filterMap Event.reply?) =
      events.flatMap Event.output ++
        (now.unsent ++ Reply.wires (more.filterMap Event.reply?)) := by
    rw [List.filterMap_append, Reply.wires_append, ← List.append_assoc, ← h.sent,
      List.append_assoc]
  have hreplies : start.phase.pending?.toList ++ (events ++ more).filterMap Event.reply? =
      events.filterMap Event.sent? ++
        (now.phase.pending?.toList ++ more.filterMap Event.reply?) := by
    rw [List.filterMap_append, ← List.append_assoc, h.replies, List.append_assoc]
  cases h' with
  | closed hf hl hr hs =>
    have hstart : Fits start.maxLine start.buffer := h.setup ▸ hfits.mpr hf
    refine .closed hstart ?_ ?_ ?_
    · rw [List.filterMap_append, hl, ← linesWithin_of_fits hf, ← hlines, h.setup,
        linesWithin_of_fits hstart]
    · rw [hreplies, hr, List.filterMap_append]
    · rw [hsent, List.flatMap_append, hs]
  | tooLong hf hl hr hs =>
    rw [h.setup]
    refine .tooLong (fun hstart => hf (hfits.mp (h.setup.symm ▸ hstart))) ?_ ?_ ?_
    · rw [List.filterMap_append, hl, ← hlines, h.setup]
    · rw [hreplies, hr, List.filterMap_append]
    · rw [hsent, List.flatMap_append, hs]
  | failed reply left hf hl hr hs =>
    refine .failed reply left ?_ ?_ ?_ ?_
    · simp only [List.flatMap_append, List.filterMap_append, List.length_append]
      exact h.spent.fails hf
    · rw [List.filterMap_append, ← h.setup, hlines]
      exact (List.prefix_append_right_inj _).mpr hl
    · rw [hreplies, hr, List.filterMap_append, List.append_assoc]
    · rw [hsent, List.flatMap_append, List.append_assoc, hs]

theorem Draining.drained (h : Draining start events now) (h' : Drained now more) :
    Drained start (events ++ more) := by
  obtain ⟨hunread, hanswered, outcome, houtcome, hending⟩ := h'
  refine ⟨?_, ?_, outcome, ?_, h.ending hending⟩
  · exact fun bytes hmem => (List.mem_append.mp hmem).elim (h.unread bytes) (hunread bytes)
  · simp only [List.filterMap_append, List.length_append, h.answered, hanswered]
  · rw [List.filterMap_append, h.unended, houtcome, List.nil_append]

/-- What became of a connection under the signal: it waits within a reply, or
it has ended. -/
def Drains (start : Connection) (events : List Event) : Option Connection → Prop
  | some now => Draining start events now ∧ now.Blocked
  | none => Drained start events

theorem Draining.drains {now? : Option Connection} (h : Draining start events now)
    (h' : Drains now more now?) : Drains start (events ++ more) now? := by
  cases now? with
  | some last => exact ⟨h.trans h'.1, h'.2⟩
  | none => exact h.drained h'

/-! ## Steps under the signal -/

theorem Follows.hears (h : connection.Follows) (hv : shared.signal.value = true) :
    connection.listener.hears shared.signal = true := by
  rw [Listener.hears, h.attached, hv]
  rfl

theorem Follows.step (h : connection.Follows)
    (hn : (connection.step shared).next? connection = some next) : next.Follows where
  attached := (attached_of_step hn).trans h.attached
  latched := h.latched.step hn
  started := by
    have hstarted := h.started
    have ht := transition_step connection shared
    generalize connection.step shared = progress at hn ht
    cases ht <;>
      simp only [Progress.next?, answerLine, finish, finishTooLong, Option.some.injEq,
        reduceCtorEq] at hn <;>
      subst hn <;> simp_all

theorem received_notMem_takenEvents (rest : Bytes) (taken : Nat) (bytes : Bytes) :
    Event.received bytes ∉ takenEvents rest taken := by
  unfold takenEvents
  split <;> simp

/-- Each step under the signal is a part of what is still to do. -/
theorem draining_of_step (h : connection.Follows) (hv : shared.signal.value = true)
    (hn : (connection.step shared).next? connection = some next) :
    Draining connection (connection.step shared).events next := by
  have hfollows := h.step hn
  have hhears := h.hears hv
  have hanswered := length_lines_of_step connection shared
  have hreplies := pending_of_step hn
  have ht := transition_step connection shared
  generalize connection.step shared = progress at hn ht hanswered hreplies
  cases ht with
  | starts hp => exact absurd hp h.started
  | @answers size hp hl hs =>
    obtain rfl : _ = next := Option.some.inj hn
    have hlines := linesWithin_of_lineEnd? hl hs []
    have hfits := fits_of_lineEnd? hl hs []
    simp only [List.append_nil] at hlines hfits
    exact
      { follows := hfollows
        setup := rfl
        spent := by
          simpa [answerLine, List.filterMap_cons] using Sink.spent_refl connection.sink
        unread := by simp [answerLine]
        unended := by simp [answerLine, List.filterMap_cons]
        answered := hanswered
        lines := by simpa [answerLine, List.filterMap_cons] using hlines
        fits := hfits
        replies := hreplies
        sent := by
          simp [answerLine, List.filterMap_cons, unsent, hp, Command.reply_record_executeLine] }
  | notices hp hl hs hb =>
    obtain rfl : _ = next := Option.some.inj hn
    exact
      { follows := hfollows
        setup := rfl
        spent := Sink.spent_refl connection.sink
        unread := by simp
        unended := rfl
        answered := hanswered
        lines := rfl
        fits := Iff.rfl
        replies := hreplies
        sent := by simp [List.filterMap_cons, unsent] }
  | reads hr => exact absurd (hhears.symm.trans hr.undisturbed) (by simp)
  | idles hr => exact absurd (hhears.symm.trans hr.undisturbed) (by simp)
  | stalls =>
    obtain rfl : connection = next := Option.some.inj hn
    exact draining_refl h
  | @sendsPart reply rest hp hw ht =>
    obtain rfl : _ = next := Option.some.inj hn
    exact
      { follows := hfollows
        setup := rfl
        spent := by
          simpa [Sink.taken_push_le] using Sink.spent_push connection.sink rest.length
        unread := received_notMem_takenEvents _ _
        unended := by simp
        answered := hanswered
        lines := by simp
        fits := Iff.rfl
        replies := hreplies
        sent := by simp [unsent, hp] }
  | @sends reply rest sink hp hc hf =>
    obtain rfl : _ = next := Option.some.inj hn
    have hall := Sink.taken_push_of_complete hc
    have hspent := (Sink.spent_push connection.sink rest.length).trans (Sink.spent_of_flush hf)
    exact
      { follows := hfollows
        setup := rfl
        spent := by simpa [List.filterMap_cons, hall] using hspent
        unread := by simp [received_notMem_takenEvents]
        unended := by simp [List.filterMap_cons]
        answered := hanswered
        lines := by simp [List.filterMap_cons]
        fits := Iff.rfl
        replies := hreplies
        sent := by simp [List.filterMap_cons, unsent, hp, hall] }
  | exceeds | closes | streamEnds | readFails | sendFails =>
    exact absurd hn (by simp [finish, finishTooLong])

/-- Sending that fails now fails with what is left behind the last write. -/
theorem fails_of_sendFault {fault : IOFault} {reply : Reply} {rest : Bytes}
    (hp : connection.phase = .replying reply rest) (h : connection.sendFault? = some fault) :
    connection.sink.Fails (connection.sink.push rest.length).taken 0
      (rest.length - (connection.sink.push rest.length).taken) fault := by
  unfold sendFault? at h
  rw [hp] at h
  dsimp only at h
  split at h
  · simp at h
  · rename_i hs
    obtain rfl := Option.some.inj h
    exact Sink.fails_push hs
  · rename_i hc
    split at h
    · rename_i hf
      obtain rfl := Option.some.inj h
      have hfails := (Sink.spent_push connection.sink rest.length).fails (Sink.fails_of_flush hf)
      rw [Sink.taken_push_of_complete hc] at hfails ⊢
      rwa [Nat.sub_self]
    · simp at h

/-- The last step under the signal. -/
theorem drained_of_step (h : connection.Follows) (hv : shared.signal.value = true)
    (hn : (connection.step shared).next? connection = none) :
    Drained connection (connection.step shared).events := by
  have hhears := h.hears hv
  have hanswered := length_lines_of_step connection shared
  have ht := transition_step connection shared
  generalize connection.step shared = progress at hn ht hanswered
  cases ht with
  | @exceeds size hp hs hl =>
    have hlong : linesWithin connection.maxLine connection.buffer = [] ∧
        ¬ Fits connection.maxLine connection.buffer := by
      rw [← List.append_nil connection.buffer]
      rcases hl with hl | ⟨hl, rfl, -⟩
      · exact tooLong_of_lineEnd? hl hs []
      · exact tooLong_of_length hl hs []
    refine ⟨by simp [finishTooLong, finish], hanswered, _, rfl, .tooLong hlong.2 ?_ ?_ ?_⟩
    · rw [hlong.1]
      rfl
    · rw [hp]
      rfl
    · rw [unsent_of_reading hp]
      rfl
  | closes hp hl hs =>
    obtain ⟨-, -, -, hb⟩ := h.latched hs
    have hcut : cutLines connection.buffer = ([], connection.buffer) :=
      cutLines_of_notMem (lineEnd?_eq_none_iff.mp hl)
    refine ⟨by simp [finish], hanswered, _, rfl, .closed ?_ ?_ ?_ ?_⟩
    · simpa [Fits, linesAndTail, hcut] using hb
    · rw [hcut]
      rfl
    · rw [hp]
      rfl
    · rw [unsent_of_reading hp]
      rfl
  | @sendFails reply rest fault hp hf =>
    have hfails := fails_of_sendFault hp hf
    refine ⟨?_, hanswered, .failed (.io fault), ?_,
      .failed reply (rest.drop (connection.sink.push rest.length).taken) ?_ ?_ ?_ ?_⟩
    · simp [finish, received_notMem_takenEvents]
    · simp [finish]
    · simpa [finish, List.filterMap_cons, Sink.taken_push_le] using hfails
    · simp [finish, List.filterMap_cons]
    · simp [finish, List.filterMap_cons, hp]
    · rw [unsent_of_replying hp]
      simp [finish, List.filterMap_cons]
  | streamEnds hr | readFails hr => exact absurd (hhears.symm.trans hr.undisturbed) (by simp)
  | _ => simp [answerLine] at hn

/-! ## Runs of steps under the signal -/

/-- A connection that settles under the signal ends, or waits within a
reply. -/
theorem drains_settle (h : connection.Follows) (hv : shared.signal.value = true) :
    Drains connection (connection.settle shared).events
      (connection.settle shared).connection? := by
  induction connection, shared using settle_induction with
  | waits connection shared hstep =>
    exact ⟨draining_refl h, blocked_of_waits hstep (h.hears hv)⟩
  | ends connection shared nextShared events hstep =>
    have hn : (connection.step shared).next? connection = none := by rw [hstep]; rfl
    have hdrained := drained_of_step h hv hn
    rwa [hstep] at hdrained
  | goes connection shared nextShared next events hstep ih =>
    have hn : (connection.step shared).next? connection = some next := by rw [hstep]; rfl
    have hdraining := draining_of_step h hv hn
    have hsignal := signal_of_step connection shared
    rw [hstep] at hdraining hsignal
    exact hdraining.drains (ih hdraining.follows (hsignal ▸ hv))

theorem allowance?_of_step (ha : connection.sink.allowance? = none)
    (hn : (connection.step shared).next? connection = some next) :
    next.sink.allowance? = none := by
  have ht := transition_step connection shared
  generalize connection.step shared = progress at hn ht
  cases ht with
  | sendsPart =>
    obtain rfl : _ = next := Option.some.inj hn
    exact Sink.allowance?_pushFrom ha _ _
  | sends _ _ hf =>
    obtain rfl : _ = next := Option.some.inj hn
    exact (Sink.allowance?_of_flush hf).trans (Sink.allowance?_pushFrom ha _ _)
  | _ =>
    simp only [Progress.next?, answerLine, finish, finishTooLong, Option.some.injEq,
      reduceCtorEq] at hn <;>
    subst hn <;> exact ha

/-- Under the signal, nothing holds a connection up whose client's stream never
waits. -/
theorem settle_of_allowance (h : connection.Follows) (hv : shared.signal.value = true)
    (ha : connection.sink.allowance? = none) :
    (connection.settle shared).connection? = none := by
  induction connection, shared using settle_induction with
  | waits connection shared hstep =>
    obtain ⟨reply, rest, -, -, hzero⟩ := blocked_of_waits hstep (h.hears hv)
    rw [ha] at hzero
    exact absurd hzero (by simp)
  | ends => rfl
  | goes connection shared nextShared next events hstep ih =>
    have hn : (connection.step shared).next? connection = some next := by rw [hstep]; rfl
    have hsignal := signal_of_step connection shared
    rw [hstep] at hsignal
    exact ih (h.step hn) (hsignal ▸ hv) (allowance?_of_step ha hn)

end Connection

end LineStore

import LineStore.Proofs.Lives
import LineStore.Proofs.RequestGrammar
import Mathlib.Data.List.Forall2

/-!
# UTF-8, line by line

A connection takes lines out of a stream of bytes before anything decodes them.
That is safe, because a newline is never within a character.

* `Bytes.isText_append_newline_iff` judges the bytes on the two sides of a newline
  apart.  `Bytes.isText_iff_pieces` does so for all newlines of a stream.
* `Command.Judges` says that what became of a line is told by its own bytes as far
  as UTF-8 goes, and `Life.judges` finds that of all lines that a connection
  executes.
* `Life.isText_of_mem`: a stream that is UTF-8 has no other lines, however it is
  cut into reads.
-/

namespace LineStore

/-! ## Streams that are UTF-8 -/

namespace Bytes

/-- A byte string that is UTF-8, which means that it is the encoding of a text. -/
def IsText (bytes : Bytes) : Prop :=
  ∃ text : List Char, Utf8.encode text = bytes

theorem isText_iff_decode {bytes : Bytes} :
    IsText bytes ↔ ∃ text, Utf8.decode bytes = .ok text :=
  exists_congr fun _ => Utf8.decode_eq_ok_iff.symm

/-- A newline is never within a character, so the bytes in front of it and those
behind it can be judged apart. -/
theorem isText_append_newline_iff {first rest : Bytes} :
    IsText (first ++ newline :: rest) ↔ IsText first ∧ IsText rest := by
  constructor
  · rintro ⟨text, h⟩
    obtain ⟨front, back, -, hfront, hback⟩ := Utf8.encode_eq_append_newline_iff.mp h
    exact ⟨⟨front, hfront⟩, ⟨back, hback⟩⟩
  · rintro ⟨⟨front, hfront⟩, ⟨back, hback⟩⟩
    exact ⟨front ++ '\n' :: back,
      Utf8.encode_eq_append_newline_iff.mpr ⟨front, back, rfl, hfront, hback⟩⟩

theorem isText_endLines_append_iff {lines : List Bytes} {rest : Bytes} :
    IsText (endLines lines ++ rest) ↔ (∀ line ∈ lines, IsText line) ∧ IsText rest := by
  induction lines with
  | nil => simp
  | cons line lines ih =>
    rw [endLines_cons, List.append_assoc, List.cons_append, isText_append_newline_iff, ih,
      List.forall_mem_cons, and_assoc]

/-- A stream is UTF-8 if each of its pieces is, and not otherwise. -/
theorem isText_iff_pieces {stream : Bytes} :
    IsText stream ↔ ∀ piece ∈ linesAndTail stream, IsText piece := by
  conv => lhs; rw [← endLines_cutLines stream]
  rw [isText_endLines_append_iff, linesAndTail, List.forall_mem_append, List.forall_mem_singleton]

end Bytes

open Bytes

/-! ## Lines that are refused -/

namespace Command

theorem exists_ofLine_eq_notUtf8_iff_not_isText {line : Bytes} :
    (∃ fault, ofLine line = .error (.notUtf8 fault)) ↔ ¬ IsText line := by
  rw [exists_ofLine_eq_notUtf8_iff, IsText, not_exists]

/-- Tells whether a record judges a line by its own bytes: it says that the line
is not UTF-8 if it is not, and does not say so otherwise. -/
def Judges (line : Bytes) (record : Execution.Record) : Prop :=
  (∃ fault, record = .rejected (.notUtf8 fault)) ↔ ¬ IsText line

theorem judges_executeLine (store : Store) (line : Bytes) :
    Judges line (executeLine store line).record := by
  unfold Judges
  rw [← exists_ofLine_eq_notUtf8_iff_not_isText]
  unfold executeLine
  cases ofLine line with
  | error error => simp [executeRead, Except.map]
  | ok command => simp [executeRead, execute, Except.map]

end Command

namespace Connection

variable {start connection : Connection} {sent : Bytes} {events : List Event}
  {connection? : Option Connection}

/-- What an event says of the line that was executed. -/
@[simp] def Event.record? : Event → Option Execution.Record
  | answered record => some record
  | _ => none

@[simp] theorem filterMap_record?_takenEvents (rest : Bytes) (taken : Nat) :
    (takenEvents rest taken).filterMap Event.record? = [] :=
  filterMap_takenEvents (fun _ => rfl) rest taken

theorem judges_of_step (connection : Connection) (shared : Shared) :
    List.Forall₂ Command.Judges ((connection.step shared).events.filterMap Event.line?)
      ((connection.step shared).events.filterMap Event.record?) := by
  have ht := transition_step connection shared
  generalize connection.step shared = progress at ht
  cases ht with
  | answers =>
    simpa [answerLine, List.filterMap_cons] using Command.judges_executeLine _ _
  | _ => simp [finish, finishTooLong, List.filterMap_cons]

/-- Whatever was sent and however it arrived, each line is judged by its own
bytes. -/
theorem Life.judges (h : Life start sent events connection?) :
    List.Forall₂ Command.Judges (events.filterMap Event.line?)
      (events.filterMap Event.record?) := by
  induction h with
  | opens => exact .nil
  | @advances _ _ connection shared _ ih =>
    rw [List.filterMap_append, List.filterMap_append]
    exact List.rel_append ih (judges_of_step connection shared)
  | arrives _ _ ih | allows _ _ ih | drops _ ih | misses _ _ ih => exact ih

/-- The lines that are taken out of a stream that is UTF-8 are UTF-8. -/
theorem Life.isText_of_mem (h : Life start sent events connection?)
    (hstart : start.pendingBytes = []) {stream : Bytes} (hs : sent <+: stream)
    (ht : IsText stream) {line : Bytes} (hmem : line ∈ events.filterMap Event.line?) :
    IsText line := by
  have hfirst : events.filterMap Event.line? <+: (cutLines stream).1 :=
    prefix_cutLines (h.framed hstart).whole ((h.framed hstart).front.trans hs)
  refine isText_iff_pieces.mp ht line ?_
  exact List.mem_append_left _ (hfirst.mem hmem)

/-! ## The main result -/

/-- A stream is judged as its lines are, and a line is judged by nothing but its
own bytes.

* A stream is UTF-8 if and only if its lines and its tail are.  To be UTF-8 means
  to be the encoding of a text, and decoding succeeds on just these bytes.
* A line is refused for not being UTF-8 if and only if it is not UTF-8.
* The lines that a connection executes are the first lines of what its client has
  sent, whatever the reads are.  What becomes of each is judged by its own bytes.
* If the client sends a stream that is UTF-8, or any first part of it, then all
  these lines are UTF-8, and none is refused for not being so. -/
theorem utf8_judged_by_line :
    (∀ stream : Bytes,
      (IsText stream ↔ ∃ text, Utf8.decode stream = .ok text) ∧
        (IsText stream ↔ ∀ piece ∈ linesAndTail stream, IsText piece)) ∧
      (∀ line : Bytes,
        (∃ fault, Command.ofLine line = .error (.notUtf8 fault)) ↔ ¬ IsText line) ∧
      ∀ (setup : Hub.Setup) (sent : Bytes) (events : List Event)
        (connection? : Option Connection),
        Life setup.connection sent events connection? →
        let lines := events.filterMap Event.line?
        let records := events.filterMap Event.record?
        lines <+: (cutLines sent).1 ∧
          List.Forall₂ Command.Judges lines records ∧
          ∀ stream : Bytes, sent <+: stream → IsText stream →
            List.Forall₂ (fun line record =>
              IsText line ∧ ∀ fault, record ≠ .rejected (.notUtf8 fault)) lines records := by
  refine ⟨fun stream => ⟨isText_iff_decode, isText_iff_pieces⟩,
    fun line => Command.exists_ofLine_eq_notUtf8_iff_not_isText, ?_⟩
  intro setup sent events connection? h lines records
  have hjudges : List.Forall₂ Command.Judges lines records := h.judges
  refine ⟨h.lines_prefix rfl, hjudges, ?_⟩
  intro stream hs ht
  have htexts : ∀ line ∈ lines, IsText line := fun line hmem => h.isText_of_mem rfl hs ht hmem
  refine ((List.forall₂_and_left lines records).mpr ⟨htexts, hjudges⟩).imp ?_
  rintro line record ⟨htext, hjudge⟩
  exact ⟨htext, fun fault hrefused => hjudge.mp ⟨fault, hrefused⟩ htext⟩

/-- A stream comes in two reads, and the cut is within its only character of two
bytes: none of its lines is refused.  In another stream that character lacks its
second byte, right in front of a newline: this line alone is refused. -/
theorem utf8_judged_by_line_cut_character :
    let setup : Hub.Setup := ⟨"127.0.0.1:50000", 64, true, true, .unlimited⟩
    let opened := (Hub.new .new (.new false)).apply (.connect 1 setup)
    let moves (first second : Bytes) : List Hub.Move :=
      [.advance 1, .stimulus (.send 1 first), .advance 1, .stimulus (.send 1 second)] ++
        List.replicate 7 (.advance 1)
    let events (first second : Bytes) : List Event :=
      Hub.eventsOf 1 (opened.play (moves first second)).2
    let front := Utf8.ofString "PUT k " ++ [0xC3]
    let whole := events front ([0xA9] ++ Utf8.ofString "\nGET k\n")
    let broken := events front (Utf8.ofString "\nGET k\n")
    (whole.filterMap Event.line? = [Utf8.ofString "PUT k é", Utf8.ofString "GET k"] ∧
        List.Forall₂ (fun line record =>
            IsText line ∧ ∀ fault, record ≠ .rejected (.notUtf8 fault))
          (whole.filterMap Event.line?) (whole.filterMap Event.record?)) ∧
      (broken.filterMap Event.line? = [front, Utf8.ofString "GET k"] ∧
        List.Forall₂ Command.Judges [front, Utf8.ofString "GET k"]
          [.rejected (.notUtf8 (.unfinished 6)),
            .executed (.get (Utf8.ofString "k")) .notFound]) := by
  intro setup opened moves events front whole broken
  obtain ⟨-, -, hresult⟩ := utf8_judged_by_line
  have hlife : ∀ first second, Life setup.connection (Hub.sentTo 1 (moves first second))
      (events first second) ((opened.play (moves first second)).1.live.lookup 1) := by
    intro first second
    have hconnects : ∀ move ∈ moves first second, move.connects 1 = false := by
      simp [moves, Hub.Move.connects, Hub.Stimulus.send]
    generalize hmoves : moves first second = script at hconnects
    simp only [events, hmoves]
    exact Hub.life_of_play (Hub.new .new (.new false)) 1 setup hconnects
  refine ⟨⟨by decide +kernel, ?_⟩, by decide +kernel, ?_⟩
  · obtain ⟨-, -, hclean⟩ := hresult setup _ _ _
      (hlife front ([0xA9] ++ Utf8.ofString "\nGET k\n"))
    have htext : IsText (Utf8.ofString "PUT k é\nGET k\n") :=
      ⟨"PUT k é\nGET k\n".toList, by decide +kernel⟩
    exact hclean _ (by decide +kernel) htext
  · have hlines : broken.filterMap Event.line? =
        [front, Utf8.ofString "GET k"] := by decide +kernel
    have hrecords : broken.filterMap Event.record? =
        [.rejected (.notUtf8 (.unfinished 6)),
          .executed (.get (Utf8.ofString "k")) .notFound] := by decide +kernel
    obtain ⟨-, hjudged, -⟩ := hresult setup _ _ _ (hlife front (Utf8.ofString "\nGET k\n"))
    rw [← hlines, ← hrecords]
    exact hjudged

end Connection

end LineStore

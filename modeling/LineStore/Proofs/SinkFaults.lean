import LineStore.Proofs.Sending

/-!
# How sending fails

A client's stream may have room for a number of bytes, and take a number of
flushes, before it fails.  This module keeps count of both.

* `Sink.Spent` is what a sink has taken since it was another one.
  `Sink.spent_push` and `Sink.spent_of_flush` are one run of writes and one
  flush.
* `Sink.Fails` says exactly when and how a write or a flush fails, in terms of
  what was taken since.  `Sink.fails_push` and `Sink.fails_of_flush` are the two
  ways to fail.
* `Sink.Lasts` is a sink with enough room, which fails in neither way.
-/

namespace LineStore

namespace Sink

/-- What has become of `sink` when it has taken `given` bytes and `flushed`
flushes. -/
structure Spent (sink : Sink) (given flushed : Nat) (now : Sink) : Prop where
  perWrite : now.perWrite? = sink.perWrite?
  writeFault : now.writeFault? = sink.writeFault?
  flushFault : now.flushFault? = sink.flushFault?
  room : sink.room? = now.room?.map (· + given)
  flushes : sink.flushFault? ≠ none → sink.flushes = now.flushes + flushed

/-- How sending fails, with a sink that has taken `given` bytes and `flushed`
flushes since it was `sink`, when `left` bytes are still to be written. -/
inductive Fails (sink : Sink) (given flushed left : Nat) : IOFault → Prop
  /-- The room is used up, and the next write fails. -/
  | refused {fault : IOFault} (hleft : left ≠ 0) (hroom : sink.room? = some given)
      (hfault : sink.writeFault? = some fault) : Fails sink given flushed left fault
  /-- The room is used up, and the next write takes nothing. -/
  | full (hleft : left ≠ 0) (hroom : sink.room? = some given)
      (hfault : sink.writeFault? = none) : Fails sink given flushed left (writeZero left)
  /-- There is room, but no write ever takes anything. -/
  | stuck (hleft : left ≠ 0) (hroom : sink.room? ≠ some given)
      (hnothing : sink.perWrite? = some 0) : Fails sink given flushed left (writeZero left)
  /-- All is written, and the flush behind it fails. -/
  | unflushed {fault : IOFault} (hleft : left = 0) (hflushes : sink.flushes = flushed)
      (hfault : sink.flushFault? = some fault) : Fails sink given flushed left fault

/-- A sink that takes `size` bytes and `count` flushes without a failure. -/
structure Lasts (sink : Sink) (size count : Nat) : Prop where
  perWrite : sink.perWrite? ≠ some 0
  room : ∀ room ∈ sink.room?, size ≤ room
  flushes : sink.flushFault? = none ∨ count ≤ sink.flushes

instance (sink : Sink) (size count : Nat) : Decidable (sink.Lasts size count) :=
  decidable_of_iff
    (sink.perWrite? ≠ some 0 ∧ (∀ room ∈ sink.room?, size ≤ room) ∧
      (sink.flushFault? = none ∨ count ≤ sink.flushes))
    ⟨fun ⟨hper, hroom, hflushes⟩ => ⟨hper, hroom, hflushes⟩,
      fun ⟨hper, hroom, hflushes⟩ => ⟨hper, hroom, hflushes⟩⟩

variable {sink now next : Sink} {fault : IOFault}
  {given flushed more later left size count taken : Nat}

theorem Lasts.not_fails (h : sink.Lasts size count) (hsize : given + left ≤ size)
    (hcount : flushed < count) : ¬ sink.Fails given flushed left fault := by
  intro hfails
  cases hfails with
  | refused hleft hroom | full hleft hroom =>
    have hle := h.room given hroom
    omega
  | stuck _ _ hnothing => exact h.perWrite hnothing
  | unflushed _ hflushes hfault =>
    rcases h.flushes with hnone | hle
    · rw [hnone] at hfault
      exact absurd hfault (by simp)
    · omega

theorem spent_refl (sink : Sink) : sink.Spent 0 0 sink where
  perWrite := rfl
  writeFault := rfl
  flushFault := rfl
  room := by simp
  flushes _ := rfl

theorem Spent.trans (h : sink.Spent given flushed now) (h' : now.Spent more later next) :
    sink.Spent (given + more) (flushed + later) next where
  perWrite := h'.perWrite.trans h.perWrite
  writeFault := h'.writeFault.trans h.writeFault
  flushFault := h'.flushFault.trans h.flushFault
  room := by
    rw [h.room, h'.room, Option.map_map]
    congr 1
    funext room
    show room + more + given = room + (given + more)
    omega
  flushes hfault := by
    have hnow := h'.flushes (h.flushFault ▸ hfault)
    have hstart := h.flushes hfault
    omega

/-- A sink fails as it would without what it has taken before. -/
theorem Spent.fails (h : sink.Spent given flushed now) (h' : now.Fails more later left fault) :
    sink.Fails (given + more) (flushed + later) left fault := by
  have hroom : sink.room? = some (given + more) ↔ now.room? = some more := by
    rw [h.room, Option.map_eq_some_iff]
    constructor
    · rintro ⟨room, hroom, hsum⟩
      rw [hroom, show room = more by omega]
    · intro hroom
      exact ⟨more, hroom, Nat.add_comm more given⟩
  cases h' with
  | refused hleft hnow hfault => exact .refused hleft (hroom.mpr hnow) (h.writeFault ▸ hfault)
  | full hleft hnow hfault => exact .full hleft (hroom.mpr hnow) (h.writeFault ▸ hfault)
  | stuck hleft hnow hnothing =>
    exact .stuck hleft (mt hroom.mp hnow) (h.perWrite ▸ hnothing)
  | unflushed hleft hflushes hfault =>
    have hsame : sink.flushFault? = some fault := h.flushFault ▸ hfault
    have hsum := h.flushes (by simp [hsame])
    exact .unflushed hleft (by omega) hsame

theorem spent_of_offer (h : sink.offer size = .takes count next) : sink.Spent count 0 next := by
  have ho := offering_offer sink size
  rw [h] at ho
  cases ho with
  | full => exact spent_refl sink
  | takes _ _ hroom =>
    refine ⟨rfl, rfl, rfl, ?_, fun _ => rfl⟩
    cases hr : sink.room? with
    | none => rfl
    | some room => exact congrArg some (Nat.sub_add_cancel (hroom room hr)).symm

theorem fails_of_offer (hs : size ≠ 0) (h : sink.offer size = .fails fault) (flushed : Nat) :
    sink.Fails 0 flushed size fault := by
  have ho := offering_offer sink size
  rw [h] at ho
  cases ho with
  | fails hr hf => exact .refused hs hr hf

theorem fails_of_offer_nothing (hs : size ≠ 0) (h : sink.offer size = .takes 0 next)
    (flushed : Nat) : sink.Fails 0 flushed size (writeZero size) := by
  have ho := offering_offer sink size
  rw [h] at ho
  cases ho with
  | full hr hf => exact .full hs hr hf
  | takes hr _ _ hnothing => exact .stuck hs hr ((hnothing rfl).resolve_left hs)

theorem exists_spent_pushFrom (sink : Sink) (left taken : Nat) :
    ∃ given, (sink.pushFrom left taken).taken = taken + given ∧
      sink.Spent given 0 (sink.pushFrom left taken).sink := by
  fun_induction pushFrom sink left taken with
  | case1 sink | case2 sink | case3 sink => exact ⟨0, rfl, spent_refl sink⟩
  | case4 sink left taken _ next ho => exact ⟨0, rfl, spent_of_offer ho⟩
  | case5 sink left taken _ count next ho _ ih =>
    obtain ⟨given, htaken, hspent⟩ := ih
    exact ⟨count + given, by omega, (spent_of_offer ho).trans hspent⟩

theorem exists_fails_pushFrom (h : (sink.pushFrom left taken).stop = .failed fault)
    (flushed : Nat) :
    ∃ given, (sink.pushFrom left taken).taken = taken + given ∧
      sink.Fails given flushed (left - given) fault := by
  fun_induction pushFrom sink left taken with
  | case1 => simp at h
  | case2 => simp at h
  | case3 sink left taken hl _ ho =>
    obtain rfl := Stop.failed.inj h
    exact ⟨0, rfl, fails_of_offer hl ho flushed⟩
  | case4 sink left taken hl next ho =>
    obtain rfl := Stop.failed.inj h
    exact ⟨0, rfl, fails_of_offer_nothing hl ho flushed⟩
  | case5 sink left taken _ count next ho _ ih =>
    obtain ⟨given, htaken, hfails⟩ := ih h
    refine ⟨count + given, by omega, ?_⟩
    rw [Nat.sub_add_eq, ← Nat.zero_add flushed]
    exact (spent_of_offer ho).fails hfails

theorem taken_pushFrom_le (sink : Sink) (left taken : Nat) :
    (sink.pushFrom left taken).taken ≤ taken + left := by
  fun_induction pushFrom sink left taken with
  | case1 | case2 | case3 | case4 => exact Nat.le_add_right _ _
  | case5 _ left taken _ count _ ho _ ih =>
    have hle : count ≤ left := count_le_of_offer ho
    omega

theorem taken_push_le (sink : Sink) (size : Nat) : (sink.push size).taken ≤ size := by
  have hle := taken_pushFrom_le sink size 0
  rwa [Nat.zero_add] at hle

theorem spent_push (sink : Sink) (size : Nat) :
    sink.Spent (sink.push size).taken 0 (sink.push size).sink := by
  obtain ⟨given, htaken, hspent⟩ := exists_spent_pushFrom sink size 0
  rw [Nat.zero_add] at htaken
  exact htaken.symm ▸ hspent

theorem fails_push (h : (sink.push size).stop = .failed fault) :
    sink.Fails (sink.push size).taken 0 (size - (sink.push size).taken) fault := by
  obtain ⟨given, htaken, hfails⟩ := exists_fails_pushFrom h 0
  rw [Nat.zero_add] at htaken
  exact htaken.symm ▸ hfails

theorem spent_of_flush (h : sink.flush = .ok next) : sink.Spent 0 1 next := by
  unfold flush at h
  split at h
  · rename_i hnone
    obtain rfl := Except.ok.inj h
    exact ⟨rfl, rfl, rfl, by simp, fun hfault => absurd hnone hfault⟩
  · split at h
    · simp at h
    · obtain rfl := Except.ok.inj h
      exact ⟨rfl, rfl, rfl, by simp, fun _ => by dsimp only; omega⟩

theorem fails_of_flush (h : sink.flush = .error fault) : sink.Fails 0 0 0 fault := by
  unfold flush at h
  split at h
  · simp at h
  · rename_i hfault
    split at h
    · rename_i hflushes
      obtain rfl := Except.error.inj h
      exact .unflushed rfl hflushes hfault
    · simp at h

end Sink

end LineStore

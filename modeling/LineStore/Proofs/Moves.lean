import LineStore.Hub
import LineStore.Proofs.Transitions

/-!
# Interleavings of connections

`Hub.run` lets every connection go on until it waits before anything else
happens.  A server with many threads does not: between any two steps of a
connection, another one may step, and bytes may arrive.

`Hub.play` follows any such schedule.  A `Hub.Move` is a stimulus from outside
or one step of one connection, and the moves come in any order.  The states
between moves are all the states that a hub can reach.

* `play_append` divides a schedule.
* `run_eq_play`: the run of a script is one schedule of it.  What is proved of
  every schedule holds for every run, in all states on the way.
-/

namespace LineStore.Hub

open Connection

/-- What happens next in a hub. -/
inductive Move
  | stimulus (outside : Stimulus)
  | advance (id : Nat)

def Move.stimulus? : Move → Option Stimulus
  | stimulus outside => some outside
  | advance _ => none

/-- The live connections, with one of them changed or ended. -/
def replace (live : List (Nat × Connection)) (id : Nat) (next? : Option Connection) :
    List (Nat × Connection) :=
  live.filterMap fun (other, connection) =>
    if other = id then next?.map fun next => (id, next) else some (other, connection)

/-- One step of the live connection with a number, if there is one. -/
def advance (hub : Hub) (id : Nat) : Hub × List Occurrence :=
  match hub.live.lookup id with
  | none => (hub, [])
  | some connection =>
    let progress := connection.step hub.shared
    ({ shared := progress.shared hub.shared
       live := replace hub.live id (progress.next? connection) },
      progress.events.map fun event => ⟨id, connection.client, event⟩)

def move (hub : Hub) : Move → Hub × List Occurrence
  | .stimulus outside => (hub.apply outside, [])
  | .advance id => hub.advance id

/-- A sequence of moves, and what they lead to. -/
def play (hub : Hub) : List Move → Hub × List Occurrence
  | [] => (hub, [])
  | first :: rest =>
    let (next, now) := hub.move first
    let (last, later) := play next rest
    (last, now ++ later)

@[simp] theorem play_nil (hub : Hub) : hub.play [] = (hub, []) := rfl

theorem play_cons (hub : Hub) (first : Move) (rest : List Move) :
    hub.play (first :: rest) =
      (((hub.move first).1.play rest).1, (hub.move first).2 ++ ((hub.move first).1.play rest).2) :=
  rfl

theorem play_append (hub : Hub) (moves more : List Move) :
    hub.play (moves ++ more) =
      (((hub.play moves).1.play more).1,
        (hub.play moves).2 ++ ((hub.play moves).1.play more).2) := by
  induction moves generalizing hub with
  | nil => rfl
  | cons first rest ih => simp only [List.cons_append, play_cons, ih, List.append_assoc]

theorem play_append_stimulus (hub : Hub) (before during : List Move) (outside : Stimulus) :
    hub.play (before ++ .stimulus outside :: during) =
      ((((hub.play before).1.apply outside).play during).1,
        (hub.play before).2 ++ (((hub.play before).1.apply outside).play during).2) := by
  rw [play_append, play_cons]
  rfl

/-! ## The connection with a number -/

variable {live : List (Nat × Connection)} {id other : Nat}

def ids (live : List (Nat × Connection)) : List Nat :=
  live.map Prod.fst

theorem lookup_eq_none_iff : live.lookup id = none ↔ id ∉ ids live := by
  rw [List.lookup_eq_none_iff, ids, List.mem_map]
  constructor
  · rintro h ⟨entry, hmem, rfl⟩
    exact absurd (h entry hmem) (by simp)
  · intro h entry hmem
    rw [bne_iff_ne]
    rintro rfl
    exact h ⟨entry, hmem, rfl⟩

theorem lookup_cons {β : Type} {entries : List (Nat × β)} (number : Nat) (entry : β) :
    ((number, entry) :: entries).lookup id =
      if id = number then some entry else entries.lookup id := by
  rw [List.lookup_cons]
  split
  · rename_i h
    rw [if_pos (beq_iff_eq.mp h)]
  · rename_i h
    rw [if_neg (beq_eq_false_iff_ne.mp h)]

theorem lookup_filter {β : Type} {entries : List (Nat × β)} :
    (entries.filter fun entry => entry.1 ≠ id).lookup other =
      if other = id then none else entries.lookup other := by
  induction entries with
  | nil => simp
  | cons entry entries ih =>
    obtain ⟨number, entry⟩ := entry
    by_cases hn : number = id
    · subst hn
      rw [List.filter_cons_of_neg (by simp), ih, lookup_cons]
      split <;> rfl
    · rw [List.filter_cons_of_pos (by simpa using hn), lookup_cons, lookup_cons, ih]
      by_cases ho : other = number
      · simp [ho, hn]
      · simp [ho]

theorem lookup_insert (connection : Connection) :
    (insert id connection live).lookup other =
      if other = id then some connection else live.lookup other := by
  induction live with
  | nil => exact lookup_cons id connection
  | cons entry live ih =>
    obtain ⟨number, old⟩ := entry
    rw [insert]
    split
    · rw [lookup_cons]
    · split
      · rename_i _ h
        subst h
        rw [lookup_cons, lookup_cons]
        split <;> rfl
      · rename_i _ h
        rw [lookup_cons, lookup_cons, ih]
        by_cases ho : other = number
        · have hid : other ≠ id := fun hid => h (hid.symm.trans ho)
          rw [if_pos ho, if_neg hid, if_pos ho]
        · rw [if_neg ho, if_neg ho]

theorem replace_append (front live : List (Nat × Connection)) (id : Nat)
    (next? : Option Connection) :
    replace (front ++ live) id next? = replace front id next? ++ replace live id next? :=
  List.filterMap_append

theorem replace_cons (number : Nat) (connection : Connection) (next? : Option Connection) :
    replace ((number, connection) :: live) id next? =
      if number = id then (next?.map fun next => (id, next)).toList ++ replace live id next?
      else (number, connection) :: replace live id next? := by
  unfold replace
  rw [List.filterMap_cons]
  by_cases hn : number = id
  · cases next? <;> simp [hn]
  · simp [hn]

theorem lookup_replace (next? : Option Connection) :
    (replace live id next?).lookup other =
      if other = id then (live.lookup id).bind fun _ => next? else live.lookup other := by
  induction live with
  | nil => simp [replace]
  | cons entry live ih =>
    obtain ⟨number, connection⟩ := entry
    rw [replace_cons]
    by_cases hn : number = id
    · subst hn
      rw [if_pos rfl]
      cases next? with
      | none =>
        by_cases ho : other = number
        · simpa [ho] using ih
        · simpa [ho, lookup_cons] using ih
      | some next =>
        by_cases ho : other = number
        · simp [ho]
        · simpa [ho, lookup_cons] using ih
    · rw [if_neg hn, lookup_cons, lookup_cons, lookup_cons, ih]
      by_cases ho : other = number
      · simp [ho, hn]
      · simp [ho, Ne.symm hn]

theorem lookup_modify (hub : Hub) (change : Connection → Connection) :
    (hub.modify id change).live.lookup other =
      if other = id then (hub.live.lookup id).map change else hub.live.lookup other := by
  unfold modify
  dsimp only
  induction hub.live with
  | nil => simp
  | cons entry live ih =>
    obtain ⟨number, connection⟩ := entry
    rw [List.map_cons, lookup_cons, lookup_cons, lookup_cons, ih]
    by_cases ho : other = number
    · subst ho
      by_cases hid : other = id
      · simp [hid]
      · simp [hid]
    · by_cases hid : other = id
      · subst hid
        simp [ho]
      · simp [ho, hid]

/-! ## The order of the live connections -/

/-- The numbers of the live connections ascend. -/
def Ordered (live : List (Nat × Connection)) : Prop :=
  (ids live).Pairwise (· < ·)

theorem Ordered.nodup (h : Ordered live) : (ids live).Nodup :=
  h.imp Nat.ne_of_lt

/-- The number of one connection is not among those before and behind it. -/
theorem Ordered.notMem_ids {front rest : List (Nat × Connection)} {connection : Connection}
    (h : Ordered (front ++ (id, connection) :: rest)) : id ∉ ids front ∧ id ∉ ids rest := by
  have hnodup := h.nodup
  simp only [ids, List.map_append, List.map_cons] at hnodup
  obtain ⟨-, hrest, hdisjoint⟩ := List.nodup_append.mp hnodup
  refine ⟨?_, (List.nodup_cons.mp hrest).1⟩
  intro hmem
  exact hdisjoint id hmem id List.mem_cons_self rfl

theorem exists_middle (ho : Ordered live) (hid : id ∈ ids live) :
    ∃ front connection rest, live = front ++ (id, connection) :: rest ∧
      id ∉ ids front ∧ id ∉ ids rest := by
  obtain ⟨⟨number, connection⟩, hmem, rfl⟩ := List.mem_map.mp hid
  obtain ⟨front, rest, rfl⟩ := List.append_of_mem hmem
  exact ⟨front, connection, rest, rfl, ho.notMem_ids⟩

theorem ordered_new (store : Store) (signal : Signal) : Ordered (Hub.new store signal).live :=
  List.Pairwise.nil

theorem Ordered.sublist {fewer : List (Nat × Connection)} (h : Ordered live)
    (hs : (ids fewer).Sublist (ids live)) : Ordered fewer :=
  List.Pairwise.sublist hs h

theorem mem_ids_insert {connection : Connection} :
    other ∈ ids (insert id connection live) ↔ other = id ∨ other ∈ ids live := by
  rw [← not_iff_not, not_or, ← lookup_eq_none_iff, ← lookup_eq_none_iff, lookup_insert]
  by_cases ho : other = id
  · simp [ho]
  · simp [ho]

theorem Ordered.insert (h : Ordered live) (id : Nat) (connection : Connection) :
    Ordered (insert id connection live) := by
  induction live with
  | nil => exact List.pairwise_singleton _ _
  | cons entry live ih =>
    obtain ⟨number, old⟩ := entry
    obtain ⟨hfirst, hrest⟩ := List.pairwise_cons.mp h
    rw [Hub.insert]
    split
    · rename_i hlt
      refine List.pairwise_cons.mpr ⟨?_, h⟩
      intro other ho
      rcases List.mem_cons.mp ho with rfl | hmem
      · exact hlt
      · exact Nat.lt_trans hlt (hfirst other hmem)
    · rename_i hge
      split
      · rename_i heq
        subst heq
        exact List.pairwise_cons.mpr ⟨hfirst, hrest⟩
      · rename_i hne
        refine List.pairwise_cons.mpr ⟨?_, ih hrest⟩
        intro other ho
        rcases mem_ids_insert.mp ho with rfl | hmem
        · show number < other
          omega
        · exact hfirst other hmem

theorem ids_modify (hub : Hub) (id : Nat) (change : Connection → Connection) :
    ids (hub.modify id change).live = ids hub.live := by
  simp [ids, modify, Function.comp_def]

theorem ids_replace_sublist (live : List (Nat × Connection)) (id : Nat)
    (next? : Option Connection) : (ids (replace live id next?)).Sublist (ids live) := by
  induction live with
  | nil => exact List.Sublist.slnil
  | cons entry live ih =>
    obtain ⟨number, connection⟩ := entry
    rw [replace_cons]
    by_cases hn : number = id
    · subst hn
      rw [if_pos rfl]
      cases next? with
      | none => exact ih.cons number
      | some next => exact ih.cons_cons number
    · rw [if_neg hn]
      exact ih.cons_cons number

theorem Ordered.modify {hub : Hub} (h : Ordered hub.live) (id : Nat)
    (change : Connection → Connection) : Ordered (hub.modify id change).live := by
  unfold Ordered
  rwa [ids_modify]

theorem Ordered.apply {hub : Hub} (h : Ordered hub.live) (stimulus : Stimulus) :
    Ordered (hub.apply stimulus).live := by
  cases stimulus with
  | connect id setup => exact h.insert id setup.connection
  | deliver | streamEnd | readFault | allow =>
    exact h.modify _ _
  | abort id => exact h.sublist (List.Sublist.map Prod.fst List.filter_sublist)
  | signal | dropSender => exact h

/-- A step of a connection brings no new number. -/
theorem ids_advance_sublist (hub : Hub) (id : Nat) :
    (ids (hub.advance id).1.live).Sublist (ids hub.live) := by
  unfold advance
  cases hub.live.lookup id with
  | none => exact List.Sublist.refl _
  | some connection => exact ids_replace_sublist _ _ _

theorem Ordered.advance {hub : Hub} (h : Ordered hub.live) (id : Nat) :
    Ordered (hub.advance id).1.live :=
  h.sublist (ids_advance_sublist hub id)

theorem Ordered.move {hub : Hub} (h : Ordered hub.live) (move : Move) :
    Ordered (hub.move move).1.live := by
  cases move with
  | stimulus outside => exact h.apply outside
  | advance id => exact h.advance id

theorem Ordered.play {hub : Hub} (h : Ordered hub.live) (moves : List Move) :
    Ordered (hub.play moves).1.live := by
  induction moves generalizing hub with
  | nil => exact h
  | cons first rest ih => exact ih (h.move first)

/-! ## Runs are schedules -/

theorem replace_of_notMem (h : id ∉ ids live) (next? : Option Connection) :
    replace live id next? = live := by
  induction live with
  | nil => rfl
  | cons entry live ih =>
    obtain ⟨number, connection⟩ := entry
    obtain ⟨hn, hrest⟩ := not_or.mp (mt List.mem_cons.mpr h)
    rw [replace_cons, if_neg (Ne.symm hn), ih hrest]

/-- The connection behind `front` is changed or ended where it stands. -/
theorem replace_middle {front rest : List (Nat × Connection)} (connection : Connection)
    (hfront : id ∉ ids front) (hrest : id ∉ ids rest) (next? : Option Connection) :
    replace (front ++ (id, connection) :: rest) id next? =
      front ++ ((next?.map fun next => (id, next)).toList ++ rest) := by
  rw [replace_append, replace_cons, if_pos rfl, replace_of_notMem hfront,
    replace_of_notMem hrest]

theorem lookup_middle {front rest : List (Nat × Connection)} (connection : Connection)
    (hfront : id ∉ ids front) :
    (front ++ (id, connection) :: rest).lookup id = some connection := by
  rw [List.lookup_append, lookup_eq_none_iff.mpr hfront, lookup_cons, if_pos rfl]
  rfl

/-- A connection settles by steps of its own. -/
theorem exists_play_settle {front rest : List (Nat × Connection)} (shared : Shared)
    (connection : Connection) (hfront : id ∉ ids front) (hrest : id ∉ ids rest) :
    ∃ moves : List Move, moves.filterMap Move.stimulus? = [] ∧
      Hub.play ⟨shared, front ++ (id, connection) :: rest⟩ moves =
        (⟨(connection.settle shared).shared,
            front ++ (((connection.settle shared).connection?.map fun next =>
              (id, next)).toList ++ rest)⟩,
          (connection.settle shared).events.map fun event => ⟨id, connection.client, event⟩) := by
  -- `settle` recurses on the work that is left, so the schedule is found along it
  induction hw : connection.work using Nat.strongRecOn generalizing shared connection with
  | ind work ih =>
    have hadvance : Hub.advance ⟨shared, front ++ (id, connection) :: rest⟩ id =
        (⟨(connection.step shared).shared shared,
            front ++ ((((connection.step shared).next? connection).map fun next =>
              (id, next)).toList ++ rest)⟩,
          (connection.step shared).events.map fun event =>
            ⟨id, connection.client, event⟩) := by
      unfold Hub.advance
      dsimp only
      rw [lookup_middle connection hfront]
      dsimp only
      rw [replace_middle connection hfront hrest]
    cases hstep : connection.step shared with
    | waits =>
      rw [settle_of_waits hstep]
      exact ⟨[], rfl, rfl⟩
    | ends nextShared events =>
      rw [settle_of_ends hstep]
      rw [hstep] at hadvance
      refine ⟨[.advance id], rfl, ?_⟩
      rw [play_cons, play_nil, Hub.move, hadvance, List.append_nil]
      rfl
    | goes nextShared next events =>
      have hlt : next.work < work := hw ▸ work_lt_of_goes hstep
      have hnext : (connection.step shared).next? connection = some next := by rw [hstep]; rfl
      have hclient : next.client = connection.client := (setup_of_step hnext).1
      obtain ⟨moves, hmoves, hplay⟩ := ih next.work hlt nextShared next rfl
      rw [settle_of_goes hstep]
      rw [hstep] at hadvance
      refine ⟨.advance id :: moves, hmoves, ?_⟩
      rw [play_cons, Hub.move, hadvance]
      simp only [Progress.shared, Progress.next?, Progress.events, Option.map_some,
        Option.toList_some, List.singleton_append, hplay, hclient, List.map_append]

/-- All connections settle, one after another, by steps of their own. -/
theorem exists_play_settleAll (shared : Shared) (front : List (Nat × Connection))
    (h : Ordered (front ++ live)) :
    ∃ moves : List Move, moves.filterMap Move.stimulus? = [] ∧
      Hub.play ⟨shared, front ++ live⟩ moves =
        (⟨(settleAll shared live).1.shared, front ++ (settleAll shared live).1.live⟩,
          (settleAll shared live).2) := by
  induction live generalizing shared front with
  | nil => exact ⟨[], rfl, rfl⟩
  | cons entry rest ih =>
    obtain ⟨id, connection⟩ := entry
    obtain ⟨hfront, hrest⟩ := h.notMem_ids
    obtain ⟨moves, hmoves, hplay⟩ := exists_play_settle shared connection hfront hrest
    have hordered : Ordered (front ++ (((connection.settle shared).connection?.map fun next =>
        (id, next)).toList ++ rest)) := by
      rw [← replace_middle connection hfront hrest]
      exact h.sublist (ids_replace_sublist _ _ _)
    rw [← List.append_assoc] at hordered hplay
    obtain ⟨more, hmore, hlater⟩ := ih (connection.settle shared).shared _ hordered
    refine ⟨moves ++ more, ?_, ?_⟩
    · rw [List.filterMap_append, hmoves, hmore]
      rfl
    · rw [play_append, hplay, hlater, List.append_assoc]
      rfl

/-- A run of a script is a schedule with the script's stimuli, and the steps
that the connections make after each of them. -/
theorem run_eq_play {hub : Hub} (h : Ordered hub.live) (script : List Stimulus) :
    ∃ moves : List Move, moves.filterMap Move.stimulus? = script ∧
      hub.play moves = ((hub.run script).1, (hub.run script).2.flatten) := by
  induction script generalizing hub with
  | nil => exact ⟨[], rfl, rfl⟩
  | cons stimulus rest ih =>
    obtain ⟨moves, hmoves, hplay⟩ :=
      exists_play_settleAll (hub.apply stimulus).shared [] (h.apply stimulus)
    have hstep : hub.play (.stimulus stimulus :: moves) = hub.step stimulus := hplay
    have hordered : Ordered (hub.step stimulus).1.live := hstep ▸ h.play _
    obtain ⟨more, hmore, hlater⟩ := ih hordered
    refine ⟨(.stimulus stimulus :: moves) ++ more, ?_, ?_⟩
    · rw [List.filterMap_append, List.filterMap_cons, hmoves, hmore]
      rfl
    · rw [play_append, hstep, hlater]
      rfl

end LineStore.Hub

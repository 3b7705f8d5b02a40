import LineStore.Proofs.Metering

/-!
# Which connections are active

The number of active connections goes up when a connection is opened and down
when one has come to an end of its own, whatever the end is.  A connection that
is dropped, because somebody aborts it or because another client takes its
number, does not come to an end of its own.  So the number is that of the live
connections and of the dropped ones together.

* `Hub.dropped` counts the connections that a schedule drops.
* `Hub.length_live_of_play` is the balance: every connection opened is live, has
  ended, or was dropped.
* `Connection.Life.outcomes` is about one connection.  It ends at most once, and
  not as long as it is there.
-/

namespace LineStore

/-! ## The end of one connection -/

namespace Connection

/-- A step that ends the connection has one outcome, and another step has
none. -/
theorem length_outcomes_of_step (connection : Connection) (shared : Shared) :
    ((connection.step shared).events.filterMap Event.outcome?).length =
      if ((connection.step shared).next? connection).isNone then 1 else 0 := by
  have ht := transition_step connection shared
  generalize connection.step shared = progress at ht
  cases ht <;> simp [finish, finishTooLong, answerLine, List.filterMap_cons]

variable {start : Connection} {sent : Bytes} {events : List Event}
  {connection? : Option Connection}

/-- A connection ends at most once.  As long as it is there it has not ended. -/
theorem Life.outcomes (h : Life start sent events connection?) :
    (events.filterMap Event.outcome?).length ≤ 1 ∧
      (connection?.isSome → events.filterMap Event.outcome? = []) := by
  induction h with
  | opens => exact ⟨Nat.zero_le 1, fun _ => rfl⟩
  | @advances _ _ connection shared _ ih =>
    have hlength := length_outcomes_of_step connection shared
    rw [List.filterMap_append, ih.2 rfl, List.nil_append]
    cases hn : (connection.step shared).next? connection with
    | none =>
      rw [hn] at hlength
      exact ⟨Nat.le_of_eq hlength, fun hsome => Bool.noConfusion hsome⟩
    | some next =>
      rw [hn] at hlength
      exact ⟨hlength ▸ Nat.zero_le 1, fun _ => List.eq_nil_of_length_eq_zero hlength⟩
  | arrives _ _ ih | allows _ _ ih => exact ⟨ih.1, fun _ => ih.2 rfl⟩
  | drops _ ih | misses _ _ ih => exact ⟨ih.1, fun hsome => Bool.noConfusion hsome⟩

end Connection

namespace Hub

open Connection

theorem length_endings (occurrences : List Occurrence) :
    (endings occurrences).length =
      ((occurrences.map Occurrence.event).filterMap Event.outcome?).length := by
  induction occurrences with
  | nil => rfl
  | cons occurrence occurrences ih =>
    unfold endings at ih ⊢
    rw [List.filterMap_cons, List.map_cons, List.filterMap_cons]
    cases occurrence.event with
    | ended detached outcome => exact congrArg (· + 1) ih
    | _ => exact ih

/-- The endings with the number of one connection are its outcomes. -/
theorem outcomes_endings (id : Nat) (occurrences : List Occurrence) :
    ((endings occurrences).filter fun ending => ending.1 = id).map (fun ending => ending.2.2) =
      (eventsOf id occurrences).filterMap Event.outcome? := by
  induction occurrences with
  | nil => rfl
  | cons occurrence occurrences ih =>
    unfold endings eventsOf at ih ⊢
    rw [List.filterMap_cons, List.filterMap_cons]
    by_cases hid : occurrence.id = id
    · cases occurrence.event <;> simp [hid, ih, List.filterMap_cons]
    · cases occurrence.event <;> simp [hid, ih]

theorem endings_append (occurrences more : List Occurrence) :
    endings (occurrences ++ more) = endings occurrences ++ endings more :=
  List.filterMap_append

/-! ## Connections that are dropped -/

/-- How many connections a move drops. -/
def Move.drops (hub : Hub) : Move → Nat
  | stimulus (.connect id _) | stimulus (.abort id) => if id ∈ ids hub.live then 1 else 0
  | _ => 0

/-- How many connections a schedule drops. -/
def dropped (hub : Hub) : List Move → Nat
  | [] => 0
  | first :: rest => first.drops hub + dropped (hub.move first).1 rest

/-! ## How many connections are live -/

variable {hub : Hub} {id : Nat} {live : List (Nat × Connection)}

theorem mem_ids_cons {other : Nat} {connection : Connection} :
    other ∈ ids ((id, connection) :: live) ↔ other = id ∨ other ∈ ids live :=
  List.mem_cons

theorem length_insert (ho : Ordered live) (id : Nat) (connection : Connection) :
    (insert id connection live).length + (if id ∈ ids live then 1 else 0) =
      live.length + 1 := by
  induction live with
  | nil => rfl
  | cons entry live ih =>
    obtain ⟨number, old⟩ := entry
    obtain ⟨hfirst, hrest⟩ := List.pairwise_cons.mp ho
    rw [insert]
    split
    · rename_i hlt
      have hnot : id ∉ ids ((number, old) :: live) := by
        intro hmem
        rcases mem_ids_cons.mp hmem with rfl | hlater
        · exact Nat.lt_irrefl _ hlt
        · exact Nat.lt_asymm hlt (hfirst id hlater)
      rw [if_neg hnot]
      rfl
    · split
      · rename_i heq
        rw [if_pos (mem_ids_cons.mpr (.inl heq))]
        rfl
      · rename_i hne
        have hlength := ih hrest
        simp only [mem_ids_cons, hne, false_or, List.length_cons]
        omega

theorem length_replace (ho : Ordered live) (id : Nat) (next? : Option Connection) :
    (replace live id next?).length + (if id ∈ ids live ∧ next?.isNone then 1 else 0) =
      live.length := by
  by_cases hid : id ∈ ids live
  · obtain ⟨front, connection, rest, hlive, hfront, hrest⟩ := exists_middle ho hid
    rw [hlive, replace_middle connection hfront hrest, ← hlive]
    have hlength : live.length = front.length + (rest.length + 1) := by
      rw [hlive, List.length_append, List.length_cons]
    cases next? with
    | none => simp [hid, hlength, Nat.add_assoc]
    | some next => simp [hlength]
  · rw [replace_of_notMem hid, if_neg fun h => hid h.1]
    rfl

theorem filter_eq_replace (live : List (Nat × Connection)) (id : Nat) :
    live.filter (fun entry => entry.1 ≠ id) = replace live id none := by
  induction live with
  | nil => rfl
  | cons entry live ih =>
    obtain ⟨number, connection⟩ := entry
    rw [List.filter_cons, ih, replace_cons]
    by_cases hn : number = id
    · simp [hn]
    · simp [hn]

theorem isSome_lookup_iff : (live.lookup id).isSome ↔ id ∈ ids live := by
  rw [Option.isSome_iff_ne_none, ne_eq, lookup_eq_none_iff, not_not]

theorem length_live_of_advance (ho : Ordered hub.live) (id : Nat) :
    (hub.advance id).1.live.length + (endings (hub.advance id).2).length =
      hub.live.length := by
  rw [length_endings]
  unfold advance
  cases hl : hub.live.lookup id with
  | none => rfl
  | some connection =>
    have hlength := length_replace ho id ((connection.step hub.shared).next? connection)
    simp only [isSome_lookup_iff.mp (Option.isSome_of_mem hl), true_and] at hlength
    simpa only [List.map_map, Function.comp_def, List.map_id', length_outcomes_of_step]
      using hlength

/-- A move changes the number of live connections by those that it opens, ends
and drops. -/
theorem length_live_of_move (ho : Ordered hub.live) (move : Move) :
    (hub.move move).1.live.length + (endings (hub.move move).2).length + move.drops hub =
      hub.live.length + [move].countP Move.opens := by
  cases move with
  | stimulus outside =>
    cases outside with
    | connect id setup => exact length_insert ho id setup.connection
    | deliver | streamEnd | readFault | allow =>
      exact List.length_map ..
    | abort id =>
      have hlength := length_replace ho id none
      rw [← filter_eq_replace] at hlength
      simpa [Hub.move, apply, Move.drops, Move.opens, endings] using hlength
    | signal | dropSender => rfl
  | advance id => exact length_live_of_advance ho id

/-- Every connection that was there or was opened is live, has ended, or was
dropped. -/
theorem length_live_of_play (ho : Ordered hub.live) (moves : List Move) :
    (hub.play moves).1.live.length + (endings (hub.play moves).2).length +
        hub.dropped moves =
      hub.live.length + moves.countP Move.opens := by
  induction moves generalizing hub with
  | nil => rfl
  | cons first rest ih =>
    have hfirst := length_live_of_move ho first
    have hrest := ih (ho.move first)
    rw [play_cons, dropped, ← List.singleton_append, List.countP_append]
    dsimp only
    rw [endings_append, List.length_append]
    omega

theorem notMem_ids_abort (hub : Hub) (id : Nat) : id ∉ ids (hub.apply (.abort id)).live := by
  rw [← lookup_eq_none_iff]
  simp only [apply]
  rw [lookup_filter, if_pos rfl]

/-- A new connection that is aborted while it is live has no outcome. -/
theorem outcomes_of_abort (hub : Hub) (id : Nat) (setup : Setup) {first rest : List Move}
    (hc : ∀ move ∈ first ++ .stimulus (.abort id) :: rest, move.connects id = false)
    (hl : id ∈ ids ((hub.apply (.connect id setup)).play first).1.live) :
    (eventsOf id ((hub.apply (.connect id setup)).play
      (first ++ .stimulus (.abort id) :: rest)).2).filterMap Event.outcome? = [] := by
  obtain ⟨hfirst, hlater⟩ := List.forall_mem_append.mp hc
  obtain ⟨-, hrest⟩ := List.forall_mem_cons.mp hlater
  have hgone := notMem_ids_abort ((hub.apply (.connect id setup)).play first).1 id
  have hbefore := (life_of_play hub id setup hfirst).outcomes.2 (isSome_lookup_iff.mpr hl)
  rw [eventsOf_play_of_gone hgone hrest, List.filterMap_append, hbefore]
  rfl

/-! ## The main result -/

/-- The number of active connections is exact.

Every run of a script is one of the schedules, and the following holds in all
states of every schedule.

* The one number is that of the connections opened, and the other one is less by
  those that have ended, in whatever way.
* A connection that was opened and has not ended is live or was dropped.  So the
  number of active connections is that of the live and the dropped ones, and
  there are never more ends than openings.
* On a connection that was never opened nothing happens.  As long as no other
  client takes its number, a connection ends at most once, and not while it is
  live.  If it is aborted while it is live, it never ends. -/
theorem connections_accounted (store : Store) (signal : Signal) :
    (∀ script : List Stimulus, ∃ moves : List Move,
      moves.filterMap Move.stimulus? = script ∧
        (Hub.new store signal).play moves =
          (((Hub.new store signal).run script).1,
            ((Hub.new store signal).run script).2.flatten)) ∧
      ∀ moves : List Move,
        let hub := ((Hub.new store signal).play moves).1
        let occurrences := ((Hub.new store signal).play moves).2
        let dropped := (Hub.new store signal).dropped moves
        (hub.shared.traffic.accepted = UInt64.ofNat (moves.countP Move.opens) ∧
          hub.shared.traffic.active =
            hub.shared.traffic.accepted - UInt64.ofNat (endings occurrences).length) ∧
          (hub.live.length + (endings occurrences).length + dropped =
              moves.countP Move.opens ∧
            hub.shared.traffic.active = UInt64.ofNat (hub.live.length + dropped)) ∧
          ∀ id : Nat,
            ((∀ move ∈ moves, move.connects id = false) → eventsOf id occurrences = []) ∧
              ∀ (before during : List Move) (setup : Setup),
                moves = before ++ .stimulus (.connect id setup) :: during →
                (∀ move ∈ during, move.connects id = false) →
                let opened := ((Hub.new store signal).play before).1.apply (.connect id setup)
                let ends := (endings (opened.play during).2).filter fun ending => ending.1 = id
                ends.length ≤ 1 ∧ (id ∈ ids hub.live → ends = []) ∧
                  ∀ first rest : List Move, during = first ++ .stimulus (.abort id) :: rest →
                    id ∈ ids (opened.play first).1.live → ends = [] := by
  refine ⟨fun script => run_eq_play (ordered_new store signal) script, ?_⟩
  intro moves hub occurrences dropped
  have htraffic : hub.shared.traffic = Traffic.zero.after _ _ :=
    traffic_of_play (Hub.new store signal) moves
  have hlive : hub.live.length + (endings occurrences).length + dropped = 0 + _ :=
    length_live_of_play (ordered_new store signal) moves
  rw [Nat.zero_add] at hlive
  have haccepted : hub.shared.traffic.accepted = UInt64.ofNat (moves.countP Move.opens) := by
    rw [htraffic]
    exact UInt64.zero_add _
  have hactive : hub.shared.traffic.active =
      hub.shared.traffic.accepted - UInt64.ofNat (endings occurrences).length := by
    rw [htraffic, length_endings]
    rfl
  refine ⟨⟨haccepted, hactive⟩, ⟨hlive, ?_⟩, ?_⟩
  · rw [hactive, haccepted, ← hlive]
    simp only [UInt64.ofNat_add]
    grind
  · intro id
    refine ⟨fun hc => gone_play List.not_mem_nil hc, ?_⟩
    rintro before during setup rfl hc opened ends
    have hlast : (opened.play during).1 = hub :=
      (congrArg Prod.fst (play_append_stimulus _ before during _)).symm
    have houtcomes := (life_of_play ((Hub.new store signal).play before).1 id setup hc).outcomes
    rw [← outcomes_endings, List.length_map, List.map_eq_nil_iff, isSome_lookup_iff] at houtcomes
    refine ⟨houtcomes.1, hlast ▸ houtcomes.2, ?_⟩
    rintro first rest rfl hfirst
    rw [← List.map_eq_nil_iff, outcomes_endings]
    exact outcomes_of_abort _ id setup hc hfirst

/-- Three connections that end in three ways, one whose number is taken by
another client, and one that is aborted within a reply. -/
theorem connections_accounted_dropped :
    let setup : Setup := ⟨"127.0.0.1:50000", 8, true, true, .unlimited⟩
    let stuck : Setup := { setup with sink := { Sink.unlimited with allowance? := some 0 } }
    let before : List Move :=
      [.stimulus (.connect 1 setup), .stimulus (.connect 2 setup), .stimulus (.connect 3 setup),
        .stimulus (.send 1 (Utf8.ofString "DELETE key")),
        .stimulus (.readFault 2 ⟨.connectionReset, "connection reset"⟩),
        .stimulus (.streamEnd 3), .advance 1, .advance 2, .advance 3, .advance 1, .advance 2,
        .advance 3, .advance 1, .stimulus (.connect 5 setup), .advance 5,
        .stimulus (.connect 5 setup)]
    let first : List Move :=
      [.advance 4, .stimulus (.send 4 (Utf8.ofString "GET key\n")), .advance 4, .advance 4]
    let during : List Move := first ++ .stimulus (.abort 4) :: [.advance 4, .advance 5]
    let moves := before ++ .stimulus (.connect 4 stuck) :: during
    let hub := ((Hub.new .new (.new false)).play moves).1
    let occurrences := ((Hub.new .new (.new false)).play moves).2
    let opened := ((Hub.new .new (.new false)).play before).1.apply (.connect 4 stuck)
    (endings occurrences).map (fun ending => ending.2.2) =
        [.failed (.io ⟨.connectionReset, "connection reset"⟩), .failed .clientDisconnected,
          .failed (.lineTooLong 8)] ∧
      hub.shared.traffic.accepted = 6 ∧ hub.live.length = 1 ∧ hub.shared.traffic.active = 3 ∧
      ((endings (opened.play during).2).filter fun ending => ending.1 = 4) = [] := by
  intro setup stuck before first during moves hub occurrences opened
  obtain ⟨⟨haccepted, -⟩, ⟨hlive, hactive⟩, hlives⟩ :=
    (connections_accounted .new (.new false)).2 moves
  have hopened : moves.countP Move.opens = 6 := by decide
  have hdropped : (Hub.new .new (.new false)).dropped moves = 2 := by decide +kernel
  have houtcomes : (endings occurrences).map (fun ending => ending.2.2) =
      [.failed (.io ⟨.connectionReset, "connection reset"⟩), .failed .clientDisconnected,
        .failed (.lineTooLong 8)] := by
    decide +kernel
  have hended : (endings occurrences).length = 3 := by
    rw [← List.length_map, houtcomes]
    rfl
  have hbalance : hub.live.length + (endings occurrences).length +
      (Hub.new .new (.new false)).dropped moves = moves.countP Move.opens := hlive
  have hone : hub.live.length = 1 := by omega
  have hc : ∀ move ∈ during, move.connects 4 = false := by decide
  refine ⟨houtcomes, ?_, hone, ?_, ?_⟩
  · rw [haccepted, hopened]
    rfl
  · rw [hactive, hone, hdropped]
    rfl
  · obtain ⟨-, -, habort⟩ := (hlives 4).2 before during stuck rfl hc
    exact habort first [.advance 4, .advance 5] rfl (by decide +kernel)

end Hub

end LineStore

import LineStore.Proofs.Dictionary
import LineStore.Server

/-!
# A server and its clients

Any number of clients connect to a server and call it, one call after another
and in any order.  This module follows the server, its connections and its
clients through such a history, and compares the results with those of a
dictionary.

* `Running.Act` is a connection or a call, and `Running.perform` a history of
  them.
* `Running.Serves` is the invariant: the hub is quiet, the store mirrors the
  dictionary, and no client has anything left to read.
* `Serves.connect` and `Serves.call` keep it, and `serves_perform` carries it
  through a history.
* The main result is about all histories from the start of the server.
-/

namespace LineStore.Server.Running

open Client Hub

/-- Something that clients do, one of them at a time. -/
inductive Act
  | connect (id : Nat)
  | call (id : Nat) (command : Command String)

/-- One act, and the result if it is the call of a client that is there. -/
def act (running : Running) : Act → Option (Except ClientError Returned) × Running
  | .connect id => (none, running.connect id false)
  | .call id command =>
    match running.remote? id with
    | none => (none, running)
    | some remote =>
      let (result, next) := running.call id remote (.ofCommand command)
      (some result, next)

/-- Acts one after another. -/
def perform (running : Running) :
    List Act → List (Option (Except ClientError Returned)) × Running
  | [] => ([], running)
  | first :: rest =>
    let (result, next) := running.act first
    let (results, last) := next.perform rest
    (result :: results, last)

/-- What a dictionary answers to acts: nothing to a client that connects, and
to every call what it returns. -/
def answers (dictionary : Dictionary) :
    List Act → List (Option (Except ClientError Returned)) × Dictionary
  | [] => ([], dictionary)
  | .connect _ :: rest =>
    let (results, last) := answers dictionary rest
    (none :: results, last)
  | .call _ command :: rest =>
    let (result, next) := dictionary.answer command
    let (results, last) := answers next rest
    (some result :: results, last)

/-- The invariant of a server that is called by one client after another. -/
structure Serves (running : Running) (dictionary : Dictionary) : Prop where
  quiet : running.hub.Quiet running.settings.maxLine
  mirrors : dictionary.Mirrors running.hub.shared.store
  remotes : ∀ id remote, running.remote? id = some remote →
    remote.unread = [] ∧ id ∈ ids running.hub.live

variable {running : Running} {dictionary : Dictionary} {id other : Nat}

theorem remote?_setRemote (running : Running) (id : Nat) (remote : Remote) (other : Nat) :
    (running.setRemote id remote).remote? other =
      if other = id then some remote else running.remote? other := by
  unfold remote? setRemote
  dsimp only
  rw [List.lookup_append, lookup_filter, lookup_cons]
  split
  · rfl
  · rw [List.lookup_nil, Option.or_none]

theorem serves_empty (settings : Settings) :
    Serves (empty settings) fun _ => none where
  quiet := ⟨ordered_new _ _, fun _ h => absurd h List.not_mem_nil, rfl⟩
  mirrors :=
    { distinct := Store.keysDistinct_empty Store.spread
      reads := fun key => Store.get?_empty Store.spread (Utf8.ofString key)
      words := fun _ _ h => nomatch h }
  remotes _ _ h := nomatch h

/-! ## The acts -/

theorem Serves.connect (h : Serves running dictionary) (id : Nat) :
    Serves (running.connect id false) dictionary := by
  have hsink : (setup running.settings "127.0.0.1:50000").sink = .unlimited := rfl
  obtain ⟨hquiet, hstore, hids⟩ := h.quiet.step_connect id hsink rfl
  refine ⟨hquiet, ?_, ?_⟩
  · exact hstore.symm ▸ h.mirrors
  · intro other remote hremote
    rw [Running.connect, remote?_setRemote] at hremote
    by_cases ho : other = id
    · rw [if_pos ho] at hremote
      obtain rfl := Option.some.inj hremote
      exact ⟨rfl, (hids other).mpr (.inl ho)⟩
    · rw [if_neg ho] at hremote
      obtain ⟨hunread, hlive⟩ := h.remotes other remote hremote
      exact ⟨hunread, (hids other).mpr (.inr hlive)⟩

/-- The server after a call that its client has read the reply to. -/
theorem Serves.setRemote (h : Serves running dictionary) {remote : Remote}
    (hremote : running.remote? id = some remote) {hub : Hub} {next : Dictionary}
    (hquiet : hub.Quiet running.settings.maxLine) (hlive : ids hub.live = ids running.hub.live)
    (hmirrors : next.Mirrors hub.shared.store) :
    Serves ({ running with hub }.setRemote id { remote with unread := [] }) next := by
  refine ⟨hquiet, hmirrors, ?_⟩
  intro other found hfound
  show found.unread = [] ∧ other ∈ ids hub.live
  rw [remote?_setRemote] at hfound
  rw [hlive]
  by_cases ho : other = id
  · rw [if_pos ho] at hfound
    obtain rfl := Option.some.inj hfound
    exact ⟨rfl, ho ▸ (h.remotes id remote hremote).2⟩
  · rw [if_neg ho] at hfound
    exact h.remotes other found hfound

/-- A call returns what the dictionary answers. -/
theorem Serves.call (h : Serves running dictionary) {remote : Remote}
    (hremote : running.remote? id = some remote) {command : Command String}
    (hfit : command.Sendable → command.requestBytes.length ≤ running.settings.maxLine) :
    ∃ hub : Hub,
      running.call id remote (.ofCommand command) =
          ((dictionary.answer command).1,
            { running with hub }.setRemote id { remote with unread := [] }) ∧
        Serves ({ running with hub }.setRemote id { remote with unread := [] })
          (dictionary.answer command).2 := by
  obtain ⟨hunread, hid⟩ := h.remotes id remote hremote
  cases hrefused : refusal? command with
  | some error =>
    have hanswer : dictionary.answer command = (.error error, dictionary) := by
      unfold Dictionary.answer
      rw [hrefused]
    refine ⟨running.hub, ?_, ?_⟩
    · simp only [Running.call, call_ofCommand, hrefused, hanswer, start, hunread]
    · rw [hanswer]
      exact h.setRemote hremote h.quiet rfl h.mirrors
  | none =>
    have hs : command.Sendable := refusal?_eq_none_iff.mp hrefused
    obtain ⟨text, hsaid, hread, hmirrors⟩ := h.mirrors.agrees hs
    obtain ⟨after, hstep, hsignal, hstore, houtput⟩ :=
      h.quiet.step_send hid (Command.newline_notMem_requestBytes hs) (hfit hs)
    rw [Dictionary.executeLine_requestBytes hs] at hstore houtput
    have hreact : (Hub.peer id).react running.hub (command.requestBytes ++ [Bytes.newline]) =
        (_, ⟨after, running.hub.live⟩) := Prod.ext houtput hstep
    have hcall : Client.call (Hub.peer id) (.start running.hub remote.unread)
        (.ofCommand command) = _ := call_of_reply hs hsaid hunread hreact
    refine ⟨⟨after, running.hub.live⟩, ?_, ?_⟩
    · simp only [Running.call, hcall, hread]
    · refine h.setRemote hremote ?_ rfl (hstore ▸ hmirrors)
      exact ⟨h.quiet.ordered, h.quiet.idle, hsignal ▸ h.quiet.unsignalled⟩

/-! ## Histories -/

/-- Every client that calls has connected before, or is known already. -/
def CallersConnected (known : List Nat) : List Act → Prop
  | [] => True
  | .connect id :: rest => CallersConnected (id :: known) rest
  | .call id _ :: rest => id ∈ known ∧ CallersConnected known rest

instance decidableCallersConnected (known : List Nat) (acts : List Act) :
    Decidable (CallersConnected known acts) :=
  match acts with
  | [] => isTrue trivial
  | .connect id :: rest => decidableCallersConnected (id :: known) rest
  | .call id _ :: rest =>
    have := decidableCallersConnected known rest
    inferInstanceAs (Decidable (id ∈ known ∧ CallersConnected known rest))

/-- The line that is sent for an act, if one is sent, is within a limit. -/
def Act.Fits (maxLine : Nat) : Act → Prop
  | .connect _ => True
  | .call _ command => command.Sendable → command.requestBytes.length ≤ maxLine

instance (maxLine : Nat) : DecidablePred (Act.Fits maxLine)
  | .connect _ => isTrue trivial
  | .call _ command =>
    inferInstanceAs (Decidable (command.Sendable → command.requestBytes.length ≤ maxLine))

theorem isSome_remote?_setRemote (running : Running) (id : Nat) (remote : Remote)
    (h : other = id ∨ (running.remote? other).isSome) :
    ((running.setRemote id remote).remote? other).isSome := by
  rw [remote?_setRemote]
  split
  · rfl
  · rename_i hne
    exact h.resolve_left hne

/-- A server returns what its dictionary answers to a history in which every
caller has connected and every line is within the limit. -/
theorem serves_perform (h : Serves running dictionary) {known : List Nat} {acts : List Act}
    (hknown : ∀ id ∈ known, (running.remote? id).isSome)
    (hcallers : CallersConnected known acts)
    (hfits : ∀ act ∈ acts, act.Fits running.settings.maxLine) :
    (running.perform acts).1 = (answers dictionary acts).1 ∧
      Serves (running.perform acts).2 (answers dictionary acts).2 := by
  induction acts generalizing running dictionary known with
  | nil => exact ⟨rfl, h⟩
  | cons first rest ih =>
    obtain ⟨hfit, hfitsRest⟩ := List.forall_mem_cons.mp hfits
    cases first with
    | connect id =>
      -- the client that connects is known from now on
      have hknownNext : ∀ other ∈ id :: known,
          ((running.connect id false).remote? other).isSome := fun other hmem =>
        isSome_remote?_setRemote _ _ _ ((List.mem_cons.mp hmem).imp_right (hknown other))
      obtain ⟨hresults, hserves⟩ := ih (h.connect id) hknownNext hcallers hfitsRest
      exact ⟨congrArg (none :: ·) hresults, hserves⟩
    | call id command =>
      obtain ⟨hcaller, hcallersRest⟩ := hcallers
      obtain ⟨remote, hremote⟩ := Option.isSome_iff_exists.mp (hknown id hcaller)
      obtain ⟨hub, hcall, hnext⟩ := h.call hremote hfit
      obtain ⟨hresults, hserves⟩ := ih hnext
        (fun other hmem => isSome_remote?_setRemote _ _ _ (.inr (hknown other hmem)))
        hcallersRest hfitsRest
      simp only [perform, act, hremote, hcall, answers, hresults]
      exact ⟨trivial, hserves⟩

/-- What a dictionary never answers: that a request was none, or that a reply
makes no sense. -/
theorem answer_ne (dictionary : Dictionary) (command : Command String) {error : ClientError}
    (h : (dictionary.answer command).1 = .error error) :
    error ≠ .invalidInput ∧ ∀ reply, error ≠ .unexpectedReply reply := by
  unfold Dictionary.answer at h
  cases hrefused : refusal? command with
  | some refusal =>
    rw [hrefused] at h
    obtain ⟨reason, rfl⟩ := refusal?_eq_some hrefused
    cases h
    exact ⟨by simp, by simp⟩
  | none =>
    rw [hrefused] at h
    cases command with
    | put key value =>
      dsimp only at h
      split at h
      · cases h
        exact ⟨by simp, by simp⟩
      · cases h
    | get key => cases h
    | delete key =>
      dsimp only at h
      split at h
      · cases h
      · cases h
        exact ⟨by simp, by simp⟩

/-- The errors among the answers to acts are answers to single calls. -/
theorem exists_of_mem_answers {acts : List Act} {error : ClientError}
    (h : some (.error error) ∈ (answers dictionary acts).1) :
    ∃ (before : Dictionary) (command : Command String),
      (before.answer command).1 = .error error := by
  induction acts generalizing dictionary with
  | nil => exact absurd h List.not_mem_nil
  | cons first rest ih =>
    cases first with
    | connect id => exact ih ((List.mem_cons.mp h).resolve_left (by simp))
    | call id command =>
      rcases List.mem_cons.mp h with hfirst | hrest
      · exact ⟨dictionary, command, (Option.some.inj hfirst).symm⟩
      · exact ih hrest

/-- Clients that call a server one after another, in any order, get the results
of one dictionary, and the store is left with its bindings.  The clients connect
at any time before their first calls, and each line that is sent is within the
limit of the server.

No call ever returns that its request was none, or that its reply makes no
sense. -/
theorem perform_eq_answers (settings : Settings) {acts : List Act}
    (hcallers : CallersConnected [] acts) (hfits : ∀ act ∈ acts, act.Fits settings.maxLine) :
    ((empty settings).perform acts).1 = (answers (fun _ => none) acts).1 ∧
      (∀ key : String,
        ((empty settings).perform acts).2.hub.shared.store.get? (Utf8.ofString key) =
          ((answers (fun _ => none) acts).2 key).map Utf8.ofString) ∧
      ∀ error, some (.error error) ∈ ((empty settings).perform acts).1 →
        error ≠ .invalidInput ∧ ∀ reply, error ≠ .unexpectedReply reply := by
  have hnone : ∀ id ∈ ([] : List Nat), ((empty settings).remote? id).isSome :=
    fun _ hmem => absurd hmem List.not_mem_nil
  obtain ⟨hresults, hserves⟩ := serves_perform (serves_empty settings) hnone hcallers hfits
  refine ⟨hresults, hserves.mirrors.reads, ?_⟩
  intro error hmem
  rw [hresults] at hmem
  obtain ⟨before, command, hanswer⟩ := exists_of_mem_answers hmem
  exact answer_ne before command hanswer

/-- Two clients, and values that look like replies. -/
theorem perform_eq_answers_look_alikes :
    let acts : List Act :=
      [.connect 1, .call 1 (.put "k" "OK"), .connect 2, .call 2 (.get "k"),
        .call 2 (.put "k" "NOT FOUND"), .call 1 (.put "k" "__TOMBSTONE__"),
        .call 2 (.delete "k"), .call 1 (.get "k"), .call 1 (.delete "k")]
    ((empty .default).perform acts).1 =
      [none, some (.ok .done), none, some (.ok (.value (some "OK"))),
        some (.error (.invalidArgument "value contains whitespace")),
        some (.error (.reservedKeyword "__TOMBSTONE__")), some (.ok .done),
        some (.ok (.value none)), some (.error .notFound)] := by
  intro acts
  have hfits : ∀ act ∈ acts, act.Fits Settings.default.maxLine := by decide
  exact (perform_eq_answers .default (by decide) hfits).1.trans (by decide)

end LineStore.Server.Running

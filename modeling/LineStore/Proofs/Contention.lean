import LineStore.Proofs.Conservation
import LineStore.Proofs.Encoding
import Mathlib.Tactic.Ring

/-!
# A workload whose outcome no schedule changes

Threads work on keys of their own, and race for one key at the end.  Whatever
their order, the answers that they get add up to the same.

* `keyOf_inj` and `keyOf_ne_contended`: the names tell the keys of all threads
  apart.
* `Interleaving.filter_eq` and `filter_results` look at one key at a time.  What
  an interleaving does to the key of one thread is what this thread does to it,
  and the answers to that depend on nothing else.
* `own_results` and `contended_results` are the answers for one key: for a key of
  a thread, and for the key that all threads race for.
* `countP_threads` counts tasks.  From these, the main result counts the answers.
-/

namespace LineStore

/-! ## The names of the keys -/

namespace Workload

theorem toList_key (i j : Nat) :
    (s!"key-{i}-{j}").toList =
      "key-".toList ++ (Nat.toDigits 10 i ++ '-' :: Nat.toDigits 10 j) := by
  show ("key-" ++ toString i ++ "-" ++ toString j).toList = _
  simp [Nat.toString_eq_repr, Nat.toList_repr]

theorem hyphen_notMem_toDigits (n : Nat) : '-' ∉ Nat.toDigits 10 n := by
  intro h
  have hdigit := Nat.isDigit_of_mem_toDigits (by decide) (by decide) h
  exact absurd hdigit (by decide)

theorem toDigits_injective : Function.Injective (Nat.toDigits 10) := by
  intro m n h
  have hm : Nat.ofDigitChars 10 (Nat.toDigits 10 m) 0 = m := Nat.ofDigitChars_ten_toDigits
  rwa [h, Nat.ofDigitChars_ten_toDigits, eq_comm] at hm

/-- The name of a key tells its thread and its number. -/
theorem keyOf_inj {i j i' j' : Nat} : keyOf i j = keyOf i' j' ↔ i = i' ∧ j = j' := by
  constructor
  · intro h
    have htext := congrArg String.toList (Utf8.ofString_injective h)
    rw [toList_key, toList_key, List.append_cancel_left_eq] at htext
    rcases (List.append_cons_inj_of_notMem (hyphen_notMem_toDigits i')
      (hyphen_notMem_toDigits j')).mp htext.symm with ⟨hi, -, hj⟩
    exact ⟨toDigits_injective hi.symm, toDigits_injective hj.symm⟩
  · rintro ⟨rfl, rfl⟩
    rfl

theorem keyOf_ne_contended (i j : Nat) : keyOf i j ≠ contended := by
  intro h
  have htext := congrArg String.toList (Utf8.ofString_injective h)
  rw [toList_key] at htext
  exact absurd (congrArg List.head? htext) (by simp)

theorem valueOf_ne_reserved (i j : Nat) : valueOf i j ≠ Store.reserved := by
  intro h
  have htext := congrArg String.toList (Utf8.ofString_injective h)
  rw [show s!"value-{i * j}" = "value-" ++ toString (i * j) from rfl, String.toList_append] at htext
  exact absurd (congrArg List.head? htext) (by simp)

/-! ## One thread among others -/

/-- The tasks of one kind in an interleaving are those of one thread, if no other
thread has such tasks. -/
theorem Interleaving.filter_eq {α : Type} {threads : List (List α)} {order : List α}
    (h : Interleaving threads order) {isOwn : α → Bool} {i : Nat} {thread : List α}
    (hi : threads[i]? = some thread)
    (hothers : ∀ j other, threads[j]? = some other → j ≠ i → ∀ task ∈ other, isOwn task = false) :
    order.filter isOwn = thread.filter isOwn := by
  induction h generalizing thread with
  | done isOver => rw [isOver thread (List.mem_of_getElem? hi)]
  | @next before after task rest order _ ih =>
    -- the step changes one thread and leaves the others where they are
    have hlater : ∀ j, (before ++ rest :: after)[j]? =
        if j = before.length then some rest else (before ++ (task :: rest) :: after)[j]? := by
      intro j
      grind
    have hothersLater : ∀ j other, (before ++ rest :: after)[j]? = some other → j ≠ i →
        ∀ task ∈ other, isOwn task = false := by
      intro j other hj hne
      rw [hlater] at hj
      split at hj
      · rename_i hmoved
        have hrest : rest = other := Option.some.inj hj
        have hmove := hothers j (task :: rest) (by rw [hmoved]; simp) hne
        intro task hmem
        exact hmove task (List.mem_cons_of_mem _ (hrest ▸ hmem))
      · exact hothers j other hj hne
    by_cases hmoved : i = before.length
    · have hthread : task :: rest = thread := by
        rw [hmoved] at hi
        simpa using hi
      have hfilter := ih (by rw [hlater, if_pos hmoved]) hothersLater
      rw [← hthread, List.filter_cons, List.filter_cons, hfilter]
    · have hfilter := ih (by rw [hlater, if_neg hmoved]; exact hi) hothersLater
      have htask : isOwn task = false :=
        hothers before.length (task :: rest) (by simp) (Ne.symm hmoved) task List.mem_cons_self
      rw [List.filter_cons_of_neg (by simp [htask]), hfilter]

end Workload

/-! ## Answers about one key -/

namespace Workload

/-- The operation of a task. -/
def Task.command : Task → Command Bytes
  | quiet command => command
  | check command _ => command
  | contest command _ => command

/-- A task that was done, with the answer to its operation. -/
abbrev Result := Task × Store.Answer

namespace Result

/-- Tells whether a check succeeded. -/
def succeeded : Result → Bool
  | (.check _ expected, answer) => answer = expected
  | _ => false

/-- Tells whether a contest was won. -/
def won : Result → Bool
  | (.contest _ expected, answer) => answer = expected
  | _ => false

end Result

/-- Tasks done one after another on one map, each with its answer. -/
def results (map : FlatMap) : List Task → List Result
  | [] => []
  | task :: rest =>
    (task, (map.respond task.command).1) :: results (map.respond task.command).2 rest

theorem map_fst_results (map : FlatMap) (tasks : List Task) :
    (results map tasks).map Prod.fst = tasks := by
  induction tasks generalizing map with
  | nil => rfl
  | cons task rest ih => exact congrArg (task :: ·) (ih _)

/-- The answers about one key are those to the tasks for this key alone, on any
map that reads the same for the key. -/
theorem filter_results {map map' : FlatMap} {key : Bytes} (h : map key = map' key)
    (tasks : List Task) :
    (results map tasks).filter (fun result => result.1.command.key = key) =
      results map' (tasks.filter fun task => task.command.key = key) := by
  induction tasks generalizing map map' with
  | nil => rfl
  | cons task rest ih =>
    by_cases hkey : task.command.key = key
    · have hcongr := FlatMap.respond_congr (hkey ▸ h : map task.command.key = map' task.command.key)
      have hrest := ih (hcongr.2 key h)
      rw [results, List.filter_cons_of_pos (by simp [hkey]),
        List.filter_cons_of_pos (by simp [hkey]), results, hcongr.1, hrest]
    · have hother : (map.respond task.command).2 key = map' key := by
        rw [FlatMap.respond_of_ne (Ne.symm hkey), h]
      rw [results, List.filter_cons_of_neg (by simp [hkey]),
        List.filter_cons_of_neg (by simp [hkey]), ih hother]

/-- The answers of a store are those of its map. -/
theorem zip_applyAll {store : Store} (h : store.KeysDistinct) (tasks : List Task) :
    tasks.zip (store.applyAll (tasks.map Task.command)).1 = results store.get? tasks := by
  induction tasks generalizing store with
  | nil => rfl
  | cons task rest ih =>
    rcases Store.apply_eq_respond h task.command with ⟨happly, hdistinct⟩
    have hrest := ih hdistinct
    rw [results, ← happly, ← hrest]
    rfl

/-- What threads do to a store is told by their answers. -/
theorem history_eq {store : Store} (h : store.KeysDistinct) (tasks : List Task) :
    store.history (tasks.map Task.command) =
      (results store.get? tasks).map (Prod.map Task.command id) := by
  rw [Store.history, List.zip_map_left, zip_applyAll h]

theorem step_eq (tally : Tally) (store : Store) (task : Task) :
    step (tally, store) task =
      (⟨tally.checks + [(task, (store.apply task.command).1)].countP Result.succeeded,
        tally.winners + [(task, (store.apply task.command).1)].countP Result.won⟩,
        (store.apply task.command).2) := by
  cases task with
  | quiet command => rfl
  | check command expected =>
    simp [step, Task.command, List.countP_cons, Result.succeeded, Result.won]
  | contest command expected =>
    simp [step, Task.command, List.countP_cons, Result.succeeded, Result.won]

/-- A run tallies the checks that succeeded and the contests that were won. -/
theorem foldl_step {store : Store} (h : store.KeysDistinct) (tally : Tally) (tasks : List Task) :
    tasks.foldl step (tally, store) =
      (⟨tally.checks + (results store.get? tasks).countP Result.succeeded,
        tally.winners + (results store.get? tasks).countP Result.won⟩,
        (store.applyAll (tasks.map Task.command)).2) := by
  induction tasks generalizing store tally with
  | nil => rfl
  | cons task rest ih =>
    rcases Store.apply_eq_respond h task.command with ⟨happly, hdistinct⟩
    have hfirst : results store.get? (task :: rest) =
        [(task, (store.apply task.command).1)] ++
          results (store.apply task.command).2.get? rest := by
      rw [results, ← happly]
      rfl
    rw [List.foldl_cons, step_eq, ih hdistinct, hfirst, List.countP_append, List.countP_append,
      Nat.add_assoc, Nat.add_assoc]
    rfl

/-! ## The tasks for one key -/

/-- What every thread does at the end. -/
def contest : Task := .contest (.delete contended) (.deleted true)

variable {keys deleteEvery count i j : Nat} {task : Task} {order : List Task}

theorem key_of_mem_keyTasks (h : task ∈ keyTasks deleteEvery i j) :
    task.command.key = keyOf i j := by
  unfold keyTasks at h
  split at h <;> simp at h <;> grind [Task.command, Command.key]

theorem mem_thread_iff :
    task ∈ thread keys deleteEvery i ↔
      (∃ j, j < keys ∧ task ∈ keyTasks deleteEvery i j) ∨ task = contest := by
  simp [thread, contest]

theorem getElem?_threads (h : i < count) :
    (threads count keys deleteEvery)[i]? = some (thread keys deleteEvery i) := by
  simp [threads, h]

/-- Among the tasks of its thread, those for a key are the ones that were meant
for it. -/
theorem filter_thread (hj : j < keys) :
    (thread keys deleteEvery i).filter (fun task => task.command.key = keyOf i j) =
      keyTasks deleteEvery i j := by
  have hown : ∀ bound, ((List.range bound).flatMap (keyTasks deleteEvery i)).filter
      (fun task => task.command.key = keyOf i j) =
        if j < bound then keyTasks deleteEvery i j else [] := by
    intro bound
    induction bound with
    | zero => rfl
    | succ bound ih =>
      rw [List.range_succ, List.flatMap_append, List.filter_append, ih, List.flatMap_singleton]
      by_cases hlast : j = bound
      · subst hlast
        have hall : (keyTasks deleteEvery i j).filter
            (fun task => task.command.key = keyOf i j) = keyTasks deleteEvery i j :=
          List.filter_eq_self.mpr fun task hmem => by simp [key_of_mem_keyTasks hmem]
        rw [hall]
        simp
      · have hnone : (keyTasks deleteEvery i bound).filter
            (fun task => task.command.key = keyOf i j) = [] := by
          refine List.filter_eq_nil_iff.mpr ?_
          intro task hmem
          rw [key_of_mem_keyTasks hmem]
          simp [keyOf_inj, Ne.symm hlast]
        rw [hnone, List.append_nil]
        split
        · rw [if_pos (by omega)]
        · rw [if_neg (by omega)]
  have hcontest : contest.command.key ≠ keyOf i j := (keyOf_ne_contended i j).symm
  show ((List.range keys).flatMap (keyTasks deleteEvery i) ++ [contest]).filter _ = _
  rw [List.filter_append, hown, if_pos hj, List.filter_cons_of_neg (by simpa using hcontest)]
  simp

/-- The number of keys that each thread removes again. -/
def removed (keys deleteEvery : Nat) : Nat :=
  (List.range keys).countP (removes deleteEvery)

/-- How many tasks of a kind a thread has, if it has `a` for each of its keys, and
`b` more for each key that it removes. -/
theorem countP_thread {isSuch : Task → Bool} {a b : Nat}
    (h : ∀ j, (keyTasks deleteEvery i j).countP isSuch =
      a + if removes deleteEvery j then b else 0) :
    (thread keys deleteEvery i).countP isSuch =
      a * keys + b * removed keys deleteEvery + [contest].countP isSuch := by
  show ((List.range keys).flatMap (keyTasks deleteEvery i) ++ [contest]).countP isSuch = _
  rw [List.countP_append, removed]
  congr 1
  induction keys with
  | zero => rfl
  | succ keys ih =>
    rw [List.range_succ, List.flatMap_append, List.countP_append, List.countP_append, ih,
      List.flatMap_singleton, h]
    split
    · rename_i hremoves
      rw [List.countP_cons_of_pos hremoves, List.countP_nil]
      ring
    · rename_i hremoves
      rw [List.countP_cons_of_neg hremoves, List.countP_nil]
      ring

theorem countP_threads {isSuch : Task → Bool} {a b : Nat}
    (h : ∀ i j, (keyTasks deleteEvery i j).countP isSuch =
      a + if removes deleteEvery j then b else 0) :
    (threads count keys deleteEvery).flatten.countP isSuch =
      count * (a * keys + b * removed keys deleteEvery + [contest].countP isSuch) := by
  rw [List.countP_flatten, threads, List.map_map]
  have hconst : (List.range count).map (List.countP isSuch ∘ thread keys deleteEvery) =
      List.replicate count (a * keys + b * removed keys deleteEvery + [contest].countP isSuch) := by
    refine List.eq_replicate_iff.mpr ⟨by simp, ?_⟩
    intro n hmem
    rcases List.mem_map.mp hmem with ⟨i, -, rfl⟩
    exact countP_thread (h i)
  rw [hconst, List.sum_replicate_nat]

/-- In any order, the tasks for the key of a thread are those of this thread, one
after another. -/
theorem filter_order_own (h : Interleaving (threads count keys deleteEvery) order)
    (hi : i < count) (hj : j < keys) :
    order.filter (fun task => task.command.key = keyOf i j) = keyTasks deleteEvery i j := by
  rw [h.filter_eq (getElem?_threads hi), filter_thread hj]
  intro other thread hother hne task hmem
  have hlt : other < count := by
    have hlength := (List.getElem?_eq_some_iff.mp hother).1
    simpa [threads] using hlength
  rw [getElem?_threads hlt] at hother
  rw [← Option.some.inj hother, mem_thread_iff] at hmem
  rcases hmem with ⟨number, -, hmem⟩ | hcontest
  · rw [key_of_mem_keyTasks hmem]
    simp [keyOf_inj, hne]
  · rw [hcontest]
    exact decide_eq_false (keyOf_ne_contended i j).symm

/-- In any order, the tasks for the contended key are one contest for each
thread. -/
theorem filter_order_contended (h : Interleaving (threads count keys deleteEvery) order) :
    order.filter (fun task => task.command.key = contended) = List.replicate count contest := by
  refine List.eq_replicate_iff.mpr ⟨?_, ?_⟩
  · have hother : ∀ i j, (keyTasks deleteEvery i j).countP
        (fun task => task.command.key = contended) =
          0 + if removes deleteEvery j then 0 else 0 := by
      intro i j
      rw [ite_self, List.countP_eq_zero]
      intro task hmem
      rw [key_of_mem_keyTasks hmem]
      simpa using keyOf_ne_contended i j
    rw [← List.countP_eq_length_filter, h.perm.countP_eq, countP_threads hother,
      List.countP_singleton]
    simp [contest, Task.command, Command.key]
  · intro task hmem
    rcases List.mem_filter.mp hmem with ⟨horder, hkey⟩
    rcases h.mem_iff.mp horder with ⟨thread, hthread, htask⟩
    rcases List.mem_map.mp hthread with ⟨i, -, rfl⟩
    rcases mem_thread_iff.mp htask with ⟨j, -, hown⟩ | hcontest
    · rw [key_of_mem_keyTasks hown, decide_eq_true_eq] at hkey
      exact absurd hkey (keyOf_ne_contended i j)
    · exact hcontest

/-! ## The answers for one key -/

/-- A task with the answer that its thread gets when it is alone. -/
def expectedResult : Task → Result
  | .quiet command => (.quiet command, .stored true)
  | .check command expected => (.check command expected, expected)
  | .contest command expected => (.contest command expected, expected)

/-- Tells whether a task is the one for the contended key. -/
def Task.isContest : Task → Bool
  | .contest .. => true
  | _ => false

/-- A key of a thread that is not bound at first gets the answers that are
expected. -/
theorem own_results {map : FlatMap} (h : map (keyOf i j) = none) :
    results map (keyTasks deleteEvery i j) =
      (keyTasks deleteEvery i j).map expectedResult := by
  unfold keyTasks
  split <;>
    simp [results, Task.command, FlatMap.respond, valueOf_ne_reserved, h, expectedResult]

theorem respond_contest (map : FlatMap) :
    map.respond contest.command =
      (.deleted (map contended).isSome, Function.update map contended none) := rfl

/-- The answers for the contended key: the first thread wins, and the others
lose. -/
def contestResults : Nat → List Result
  | 0 => []
  | losers + 1 => (contest, .deleted true) :: List.replicate losers (contest, .deleted false)

theorem lost_results {map : FlatMap} (h : map contended = none) (losers : Nat) :
    results map (List.replicate losers contest) =
      List.replicate losers (contest, .deleted false) := by
  induction losers generalizing map with
  | zero => rfl
  | succ losers ih =>
    have hnext : Function.update map contended none contended = none :=
      Function.update_self contended none map
    rw [List.replicate_succ, results, respond_contest, ih hnext, h, List.replicate_succ]
    rfl

theorem contended_results {map : FlatMap} (h : (map contended).isSome = true) (count : Nat) :
    results map (List.replicate count contest) = contestResults count := by
  cases count with
  | zero => rfl
  | succ losers =>
    have hnext : Function.update map contended none contended = none :=
      Function.update_self contended none map
    rw [List.replicate_succ, results, respond_contest, lost_results hnext, h, contestResults]

/-! ## The answers of all threads -/

/-- Tells whether a map is as it is when the threads start: the contended key is
bound, and no key of a thread is. -/
structure Ready (map : FlatMap) : Prop where
  contended : (map contended).isSome = true
  own : ∀ i j, map (keyOf i j) = none

/-- In any order, all tasks but the contests get the answers that are
expected. -/
theorem result_of_mem {map : FlatMap} (hready : Ready map)
    (h : Interleaving (threads count keys deleteEvery) order) {result : Result}
    (hmem : result ∈ results map order) (hown : result.1.isContest = false) :
    result = expectedResult result.1 := by
  have hfirst : result.1 ∈ order := by
    rw [← map_fst_results map order]
    exact List.mem_map_of_mem hmem
  rcases h.mem_iff.mp hfirst with ⟨thread, hthread, htask⟩
  rcases List.mem_map.mp hthread with ⟨i, hi, rfl⟩
  rcases mem_thread_iff.mp htask with ⟨j, hj, hkey⟩ | hcontest
  · -- among the results for its own key, the result is that of a thread alone
    have hfilter := @filter_results map map (keyOf i j) rfl order
    rw [filter_order_own h (List.mem_range.mp hi) hj, own_results (hready.own i j)] at hfilter
    have hsame : result ∈ (keyTasks deleteEvery i j).map expectedResult := by
      rw [← hfilter, List.mem_filter]
      exact ⟨hmem, decide_eq_true (key_of_mem_keyTasks hkey)⟩
    rcases List.mem_map.mp hsame with ⟨task, -, rfl⟩
    cases task <;> rfl
  · rw [hcontest] at hown
    exact Bool.noConfusion hown

theorem isContest_of_mem_keyTasks (h : task ∈ keyTasks deleteEvery i j) :
    task.isContest = false := by
  unfold keyTasks at h
  split at h <;> simp at h <;> grind [Task.isContest]

/-- The contests are the tasks for the contended key. -/
theorem isContest_iff (h : Interleaving (threads count keys deleteEvery) order)
    (hmem : task ∈ order) : task.isContest = decide (task.command.key = contended) := by
  rcases h.mem_iff.mp hmem with ⟨thread, hthread, htask⟩
  rcases List.mem_map.mp hthread with ⟨i, -, rfl⟩
  rcases mem_thread_iff.mp htask with ⟨j, -, hown⟩ | hcontest
  · rw [isContest_of_mem_keyTasks hown, key_of_mem_keyTasks hown]
    exact (decide_eq_false (keyOf_ne_contended i j)).symm
  · rw [hcontest]
    rfl

/-- In any order, the answers are those that the threads get when they are alone,
but for the contests, of which one is won. -/
theorem perm_results {map : FlatMap} (hready : Ready map)
    (h : Interleaving (threads count keys deleteEvery) order) :
    (results map order).Perm
      (((threads count keys deleteEvery).flatten.filter fun task => !task.isContest).map
          expectedResult ++ contestResults count) := by
  have hfirst : ∀ result ∈ results map order, result.1 ∈ order := by
    intro result hmem
    rw [← map_fst_results map order]
    exact List.mem_map_of_mem hmem
  have hcontests : (results map order).filter (fun result => result.1.isContest) =
      contestResults count := by
    rw [List.filter_congr fun result hmem => isContest_iff h (hfirst result hmem),
      @filter_results map map contended rfl, filter_order_contended h,
      contended_results hready.contended]
  have hothers : (results map order).filter (fun result => !result.1.isContest) =
      (order.filter fun task => !task.isContest).map expectedResult := by
    have hexpected : (results map order).filter (fun result => !result.1.isContest) =
        ((results map order).filter fun result => !result.1.isContest).map
          (expectedResult ∘ Prod.fst) := by
      symm
      refine (List.map_congr_left ?_).trans (List.map_id _)
      intro result hmem
      rcases List.mem_filter.mp hmem with ⟨hresult, hown⟩
      exact (result_of_mem hready h hresult (by simpa using hown)).symm
    have htasks : ((results map order).filter fun result => !result.1.isContest).map Prod.fst =
        order.filter fun task => !task.isContest := by
      conv => rhs; rw [← map_fst_results map order, List.filter_map]
      rfl
    rw [hexpected, ← List.map_map, htasks]
  have hparts := List.filter_append_perm (fun result : Result => result.1.isContest)
    (results map order)
  rw [hcontests, hothers] at hparts
  refine hparts.symm.trans (List.perm_append_comm.trans ?_)
  exact ((h.perm.filter _).map _).append_right _

/-- How many tasks of a thread for one key are such that their expected answers are
of some kind, if puts, gets and deletes have answers of this kind as `put`, `get`
and `delete` say. -/
theorem countP_keyTasks (isSuch : Result → Bool) (put get delete : Bool)
    (hput : ∀ key value, isSuch (.quiet (.put key value), .stored true) = put)
    (hget : ∀ key value,
      isSuch (.check (.get key) (.found (some value)), .found (some value)) = get)
    (hdelete : ∀ key, isSuch (.check (.delete key) (.deleted true), .deleted true) = delete)
    (i j : Nat) :
    (keyTasks deleteEvery i j).countP
        (fun task => !task.isContest && isSuch (expectedResult task)) =
      (put.toNat + get.toNat) + if removes deleteEvery j then delete.toNat else 0 := by
  unfold keyTasks
  split
  · simp only [List.cons_append, List.nil_append, List.countP_cons, List.countP_nil,
      expectedResult, Task.isContest, hput, hget, hdelete]
    cases put <;> cases get <;> cases delete <;> rfl
  · simp only [List.append_nil, List.countP_cons, List.countP_nil, expectedResult,
      Task.isContest, hput, hget]
    cases put <;> cases get <;> rfl

/-- The number of contests that are won. -/
def wins (count : Nat) : Nat := if 0 < count then 1 else 0

theorem countP_contestResults (isSuch : Result → Bool) {won lost : Bool}
    (hwon : isSuch (contest, .deleted true) = won)
    (hlost : isSuch (contest, .deleted false) = lost) (count : Nat) :
    (contestResults count).countP isSuch = won.toNat * wins count + lost.toNat * (count - 1) := by
  cases count with
  | zero => simp [contestResults, wins]
  | succ losers =>
    have hwins : wins (losers + 1) = 1 := if_pos (Nat.succ_pos losers)
    rw [contestResults, List.countP_cons, List.countP_replicate, hwon, hlost, hwins]
    cases won <;> cases lost <;> simp [Nat.add_comm]

/-- How many answers of some kind there are in any order. -/
theorem countP_results {map : FlatMap} (hready : Ready map)
    (h : Interleaving (threads count keys deleteEvery) order) (isSuch : Result → Bool)
    (put get delete won lost : Bool)
    (hput : ∀ key value, isSuch (.quiet (.put key value), .stored true) = put)
    (hget : ∀ key value,
      isSuch (.check (.get key) (.found (some value)), .found (some value)) = get)
    (hdelete : ∀ key, isSuch (.check (.delete key) (.deleted true), .deleted true) = delete)
    (hwon : isSuch (contest, .deleted true) = won)
    (hlost : isSuch (contest, .deleted false) = lost) :
    (results map order).countP isSuch =
      count * ((put.toNat + get.toNat) * keys + delete.toNat * removed keys deleteEvery) +
        (won.toNat * wins count + lost.toNat * (count - 1)) := by
  have hkeys := @countP_keyTasks deleteEvery isSuch put get delete hput hget hdelete
  have hcomm : (fun task => (isSuch ∘ expectedResult) task && !task.isContest) =
      fun task : Task => !task.isContest && isSuch (expectedResult task) :=
    funext fun task => Bool.and_comm _ _
  rw [(perm_results hready h).countP_eq, List.countP_append, List.countP_map, List.countP_filter,
    hcomm, countP_threads hkeys, countP_contestResults isSuch hwon hlost]
  rfl

/-! ## The main result -/

section Start

variable (place : Bytes → Fin Store.shardCount)

theorem counters_start :
    (start (Store.empty place)).counters = ⟨1, 0, 1, 0, 0⟩ := by
  have hvalue : Utf8.ofString "value" ≠ Store.reserved := by decide
  rw [start, Store.put, if_neg hvalue, Store.get?_empty]
  rfl

theorem keysDistinct_start : (start (Store.empty place)).KeysDistinct :=
  Store.keysDistinct_put (Store.keysDistinct_empty place) _ _

theorem ready_start : Ready (start (Store.empty place)).get? := by
  have hvalue : Utf8.ofString "value" ≠ Store.reserved := by decide
  have hget := @Store.get?_put (Store.empty place) _ hvalue contended
  constructor
  · rw [start, hget, if_pos rfl]
    rfl
  · intro i j
    rw [start, hget, if_neg (keyOf_ne_contended i j), Store.get?_empty]

end Start

theorem removed_le (keys deleteEvery : Nat) : removed keys deleteEvery ≤ keys :=
  List.countP_le_length.trans_eq List.length_range

/-- The keys that were bound, less those that were removed. -/
theorem balance (count keys deleteEvery : Nat) :
    count * (keys - removed keys deleteEvery) + (if count = 0 then 1 else 0) +
        (count * removed keys deleteEvery + wins count) = 1 + count * keys := by
  rcases Nat.le.dest (removed_le keys deleteEvery) with ⟨left, hleft⟩
  have hkept : keys - removed keys deleteEvery = left := by omega
  have hkeys : count * keys = count * removed keys deleteEvery + count * left := by
    rw [← Nat.mul_add, hleft]
  rw [hkept, hkeys]
  unfold wins
  split <;> split <;> omega

/-- The counters after any interleaving. -/
theorem counters_applyAll (place : Bytes → Fin Store.shardCount)
    (h : Interleaving (threads count keys deleteEvery) order) :
    ((start (Store.empty place)).applyAll (order.map Task.command)).2.counters =
      { keys := UInt64.ofNat
          (count * (keys - removed keys deleteEvery) + if count = 0 then 1 else 0)
        gets := UInt64.ofNat (count * keys)
        puts := UInt64.ofNat (count * keys + 1)
        deletes := UInt64.ofNat (count * (removed keys deleteEvery + 1))
        refused := 0 } := by
  have hcount := countP_results (ready_start place) h
  have hcreated := hcount (Store.Operation.creates ∘ Prod.map Task.command id)
    true false false false false (fun _ _ => rfl) (fun _ _ => rfl) (fun _ => rfl) rfl rfl
  have hremoved := hcount (Store.Operation.removes ∘ Prod.map Task.command id)
    false false true true false (fun _ _ => rfl) (fun _ _ => rfl) (fun _ => rfl) rfl rfl
  have hgets := hcount
    ((fun operation => decide (operation.1.verb = .get)) ∘ Prod.map Task.command id)
    false true false false false (fun _ _ => rfl) (fun _ _ => rfl) (fun _ => rfl) rfl rfl
  have hputs := hcount (Store.Operation.isAccepted ∘ Prod.map Task.command id)
    true false false false false (fun _ _ => rfl) (fun _ _ => rfl) (fun _ => rfl) rfl rfl
  have hdeletes := hcount
    ((fun operation => decide (operation.1.verb = .delete)) ∘ Prod.map Task.command id)
    false false true true true (fun _ _ => rfl) (fun _ _ => rfl) (fun _ => rfl) rfl rfl
  have hrefused := hcount (Store.Operation.isRefused ∘ Prod.map Task.command id)
    false false false false false (fun _ _ => rfl) (fun _ _ => rfl) (fun _ => rfl) rfl rfl
  simp only [Bool.toNat_true, Bool.toNat_false, Nat.zero_mul, Nat.one_mul, Nat.add_zero,
    Nat.zero_add, Nat.mul_zero] at hcreated hremoved hgets hputs hdeletes hrefused
  have hkeys : (1 : UInt64) + UInt64.ofNat (count * keys) -
      UInt64.ofNat (count * removed keys deleteEvery + wins count) =
        UInt64.ofNat (count * (keys - removed keys deleteEvery) + if count = 0 then 1 else 0) := by
    have hbalance := congrArg UInt64.ofNat (balance count keys deleteEvery)
    rw [UInt64.ofNat_add _ (count * removed keys deleteEvery + wins count),
      UInt64.ofNat_add 1] at hbalance
    rw [show (1 : UInt64) = UInt64.ofNat 1 from rfl, ← hbalance, UInt64.add_sub_cancel]
  have hcontests : count * removed keys deleteEvery + (wins count + (count - 1)) =
      count * (removed keys deleteEvery + 1) := by
    unfold wins
    rw [Nat.mul_succ]
    split <;> omega
  rw [Store.counters_applyAll, counters_start, history_eq (keysDistinct_start place)]
  simp only [Store.Counters.after, List.countP_map, hcreated, hremoved, hgets, hputs, hdeletes,
    hrefused, hkeys, hcontests]
  simp [UInt64.add_comm]

/-- Threads that each work on keys of their own and race for one key, in any
interleaving, on a store in which only this key is bound.  The outcome is the same
for all of them.

* Every check succeeds: a thread gets the value that it has just put, and removes
  the keys that it wants to remove.
* One thread wins the race, if there are threads.
* The counters count what all threads did, and the keys that are left. -/
theorem outcome_of_interleaving (place : Bytes → Fin Store.shardCount)
    {count keys deleteEvery : Nat} {order : List Task}
    (h : Interleaving (threads count keys deleteEvery) order) :
    let before := start (Store.empty place)
    let answers := (before.applyAll (order.map Task.command)).1
    let outcome := run before order
    let perThread := removed keys deleteEvery
    (∀ command expected answer, (Task.check command expected, answer) ∈ order.zip answers →
        answer = expected) ∧
      outcome.1.checks = count * (keys + perThread) ∧
      outcome.1.winners = (if 0 < count then 1 else 0) ∧
      (deleteEvery = 0 → perThread = 0) ∧
      outcome.2.counters =
        { keys := UInt64.ofNat (count * (keys - perThread) + if count = 0 then 1 else 0)
          gets := UInt64.ofNat (count * keys)
          puts := UInt64.ofNat (count * keys + 1)
          deletes := UInt64.ofNat (count * (perThread + 1))
          refused := 0 } := by
  have hdistinct := keysDistinct_start place
  have hready := ready_start place
  intro before answers outcome perThread
  have houtcome : outcome = _ := foldl_step hdistinct ⟨0, 0⟩ order
  have hchecks := countP_results hready h Result.succeeded false true true false false
    (fun _ _ => rfl) (fun _ _ => decide_eq_true rfl) (fun _ => rfl) rfl rfl
  have hwinners := countP_results hready h Result.won false false false true false
    (fun _ _ => rfl) (fun _ _ => rfl) (fun _ => rfl) rfl rfl
  simp only [Bool.toNat_true, Bool.toNat_false, Nat.zero_mul, Nat.one_mul, Nat.add_zero,
    Nat.zero_add, Nat.mul_zero] at hchecks hwinners
  refine ⟨?_, ?_, ?_, ?_, ?_⟩
  · intro command expected answer hmem
    rw [zip_applyAll hdistinct] at hmem
    exact congrArg Prod.snd (result_of_mem hready h hmem rfl)
  · rw [houtcome]
    exact (Nat.zero_add _).trans hchecks
  · rw [houtcome]
    exact (Nat.zero_add _).trans hwinners
  · rintro rfl
    simp [perThread, removed, removes]
  · rw [houtcome]
    exact counters_applyAll place h

/-- Two threads, each with one key, which it removes again.  The second thread is
done before the first one removes its key. -/
theorem outcome_of_interleaving_two_threads :
    let order : List Task :=
      [.quiet (.put (keyOf 0 0) (valueOf 0 0)), .quiet (.put (keyOf 1 0) (valueOf 1 0)),
        .check (.get (keyOf 1 0)) (.found (some (valueOf 1 0))),
        .check (.get (keyOf 0 0)) (.found (some (valueOf 0 0))),
        .check (.delete (keyOf 1 0)) (.deleted true), contest,
        .check (.delete (keyOf 0 0)) (.deleted true), contest]
    Interleaving (threads 2 1 1) order ∧
      (run (start Store.new) order).1.checks = 4 ∧
      (run (start Store.new) order).1.winners = 1 ∧
      (run (start Store.new) order).2.counters = ⟨0, 2, 3, 4, 0⟩ := by
  intro order
  -- with variables for the tasks, so that their texts are not computed
  have hshape : ∀ a b c d e f g h : Task,
      Interleaving [[a, b, c, d], [e, f, g, h]] [a, e, f, b, g, h, c, d] :=
    fun _ _ _ _ _ _ _ _ =>
      @Interleaving.next _ [] _ _ _ _ <| @Interleaving.next _ [_] _ _ _ _ <|
        @Interleaving.next _ [_] _ _ _ _ <| @Interleaving.next _ [] _ _ _ _ <|
          @Interleaving.next _ [_] _ _ _ _ <| @Interleaving.next _ [_] _ _ _ _ <|
            @Interleaving.next _ [] _ _ _ _ <| @Interleaving.next _ [] _ _ _ _ <|
              .done (by simp)
  have h : Interleaving (threads 2 1 1) order := hshape _ _ _ _ _ _ _ _
  have hremoved : removed 1 1 = 1 := rfl
  rcases outcome_of_interleaving Store.spread h with ⟨-, hchecks, hwinners, -, hcounters⟩
  rw [hremoved] at hchecks hcounters
  exact ⟨h, hchecks, hwinners, hcounters⟩

end Workload

end LineStore

/-
ArmatureH1.ServerStartup — what `serve_with` comes back with.

`serve_with` (`server.rs`) starts a thread for each worker, waits until each
has announced itself, and then joins them. Threads and the thread that started
them meet in three places: `started`, which each worker raises once when its
listener is registered; the shutdown signal; and the joins. `Serve` puts them
side by side, and a run of `step` is an interleaving: the loop of spawns, one
iteration at a time, with the workers already spawned announcing themselves,
ending or panicking in between.

What a thread does between its announcement and its end is `Server`; here it
is enough that it ends by itself only after the signal, because the sender of
the channel outlives `serve_with`. What may fail is part of an event: a
listener that could not be cloned, a spawn, a runtime or a registration (a
thread that ends without having announced itself). A load of `started` returns
what it is at that moment, and the two loads of a start that failed, the test
and the one for the message, are two steps: a worker may announce itself in
between, and the message then counts it.

Workers are also retired by others than `serve_with`: one that leaves its loop
retires itself, and one that cannot hand a connection on retires the other.
That is in `Server`; here it is only which ones `serve_with` retires. The inbox
of a worker is there when its turn comes, since each is taken once.
-/
import Mathlib.Data.List.FinRange
import Mathlib.Data.Fintype.Basic
import Mathlib.Data.Fintype.Card

namespace ArmatureH1.Startup

variable {n : Nat}

/-! ## 1. The threads and the one that started them -/

/-- A worker, as `serve_with` sees it. -/
inductive Thread where
  /-- Its turn in the loop of spawns has not come. -/
  | waiting
  /-- It has no listener. -/
  | skipped
  /-- Its thread could not be spawned. -/
  | refused
  | running (announced : Bool)
  | finished (announced panicked : Bool)
  deriving DecidableEq

namespace Thread

def spawned : Thread → Bool
  | running _ | finished _ _ => true
  | _ => false

def announced : Thread → Bool
  | running a | finished a _ => a
  | _ => false

def panicked : Thread → Bool
  | finished _ p => p
  | _ => false

def isFinished : Thread → Bool
  | finished _ _ => true
  | _ => false

/-- Its turn has come, and nothing went wrong with it. -/
def settled : Thread → Bool
  | waiting | refused => false
  | _ => true

end Thread

/-- Why `join_all` is called. -/
inductive After where
  | spawnFailed
  /-- With `live`, for the message. -/
  | startFailed (live : Nat)
  | served
  deriving DecidableEq

/-- The `io::Result<()>`: an error is the spawn's own, or one of the two
messages with its numbers. -/
inductive Result where
  | ok
  | spawnFailed
  | startFailed (live expected : Nat)
  | panicked (count : Nat)
  deriving DecidableEq

/-- What is returned behind `join_all`. -/
def After.result (expected panicked : Nat) : After → Result
  | spawnFailed => .spawnFailed
  | startFailed live => .startFailed live expected
  | served => if 0 < panicked then .panicked panicked else .ok

/-- Where `serve_with` is. -/
inductive Main (n : Nat) where
  /-- The loop of spawns, with the workers whose turn is still to come. -/
  | spawning (rest : List (Fin n))
  /-- The loop that waits for `started`. -/
  | watching
  /-- Behind a test that came too late, in front of the load for the message. -/
  | reporting
  /-- `join_all`, with the handles still to join. -/
  | joining (rest : List (Fin n)) (panicked : Nat) (after : After)
  | returned (r : Result)
  deriving DecidableEq

structure Serve (n : Nat) where
  thread : Fin n → Thread
  /-- For which workers `serve_with` called `balance.retire`. -/
  retiredUnstarted : Fin n → Bool
  handles : List (Fin n)
  started : Nat
  shutdown : Bool
  main : Main n

/-- How the next iteration of the loop of spawns goes. -/
inductive Spawn where
  | noListener
  | spawned
  | failed
  deriving DecidableEq

/-- What can happen next. -/
inductive Event (n : Nat) where
  | iterate (o : Spawn)
  /-- The test of `started`, and whether `WORKER_START_TIMEOUT` has passed. -/
  | check (late : Bool)
  /-- The load for the message, and what is done about it. -/
  | report
  | join
  /-- `started.fetch_add(1)` -/
  | announce (w : Fin n)
  /-- The thread ends. -/
  | finish (w : Fin n) (panicked : Bool)
  /-- `ServerHandle::shutdown` -/
  | signal

namespace Serve

def start (n : Nat) : Serve n where
  thread _ := .waiting
  retiredUnstarted _ := false
  handles := []
  started := 0
  shutdown := false
  main := .spawning (List.finRange n)

/-- `let _ = tx.send_replace(true); join_all(handles)` -/
def stop (s : Serve n) (after : After) : Serve n :=
  { s with shutdown := true, main := .joining s.handles 0 after }

/-- The loop of spawns. -/
def iterate (s : Serve n) (o : Spawn) : List (Fin n) → Serve n
  | [] => { s with main := .watching }
  | w :: rest =>
    match o with
    | .noListener =>
      { s with
        thread := Function.update s.thread w .skipped
        retiredUnstarted := Function.update s.retiredUnstarted w true
        main := .spawning rest }
    | .spawned =>
      { s with
        thread := Function.update s.thread w (.running false)
        handles := s.handles ++ [w]
        main := .spawning rest }
    | .failed => { s with thread := Function.update s.thread w .refused }.stop .spawnFailed

/-- The loop that waits for `started`. -/
def check (s : Serve n) (late : Bool) : Serve n :=
  if s.started < s.handles.length then
    if late then { s with main := .reporting } else s
  else { s with main := .joining s.handles 0 .served }

/-- `join_all`. A join waits until the thread is over. -/
def join (s : Serve n) (panicked : Nat) (after : After) : List (Fin n) → Serve n
  | [] => { s with main := .returned (after.result s.handles.length panicked) }
  | w :: rest =>
    match s.thread w with
    | .finished _ p => { s with main := .joining rest (panicked + p.toNat) after }
    | _ => s

def step (s : Serve n) : Event n → Serve n
  | .iterate o =>
    match s.main with
    | .spawning rest => s.iterate o rest
    | _ => s
  | .check late =>
    match s.main with
    | .watching => s.check late
    | _ => s
  | .report =>
    match s.main with
    | .reporting => s.stop (.startFailed s.started)
    | _ => s
  | .join =>
    match s.main with
    | .joining rest panicked after => s.join panicked after rest
    | _ => s
  | .announce w =>
    match s.thread w with
    | .running false =>
      { s with
        thread := Function.update s.thread w (.running true)
        started := s.started + 1 }
    | _ => s
  | .finish w panicked =>
    match s.thread w with
    | .running announced =>
      -- a worker that serves leaves its loop for the signal
      if panicked || !announced || s.shutdown then
        { s with thread := Function.update s.thread w (.finished announced panicked) }
      else s
    | _ => s
  | .signal => { s with shutdown := true }

def run (s : Serve n) (es : List (Event n)) : Serve n := es.foldl step s

end Serve

/-! ## 2. The invariant -/

/-- The workers that have announced themselves. -/
def announcers (thread : Fin n → Thread) : Finset (Fin n) :=
  Finset.univ.filter fun w => (thread w).announced = true

/-- What is known when `join_all` is called, and ever after. -/
def Serve.Because (s : Serve n) : After → Prop
  | .spawnFailed => s.shutdown = true ∧ ∃ w, s.thread w = .refused
  | .startFailed live => s.shutdown = true ∧ live ≤ s.handles.length ∧
      ∀ w, (s.thread w).settled = true
  | .served => (∀ w ∈ s.handles, (s.thread w).announced = true) ∧
      ∀ w, (s.thread w).settled = true

/-- Those joined so far are over, and the panics among them are counted. -/
structure Serve.Joined (s : Serve n) (joined : List (Fin n)) (panicked : Nat) : Prop where
  finished : ∀ w ∈ joined, (s.thread w).isFinished = true
  panics : panicked = joined.countP fun w => (s.thread w).panicked

/-- What is known at each point of `serve_with`. -/
def Serve.At (s : Serve n) : Main n → Prop
  | .spawning rest => rest.Nodup ∧ (∀ w, s.thread w = .waiting ↔ w ∈ rest) ∧
      ∀ w, s.thread w ≠ .refused
  | .watching | .reporting => ∀ w, (s.thread w).settled = true
  | .joining rest panicked after =>
      (∃ joined, s.handles = joined ++ rest ∧ s.Joined joined panicked) ∧ s.Because after
  | .returned r => ∃ panicked after, s.Joined s.handles panicked ∧ s.Because after ∧
      r = after.result s.handles.length panicked

/-- What holds of every state of a run. -/
structure Good (s : Serve n) : Prop where
  nodup : s.handles.Nodup
  spawned : ∀ w, w ∈ s.handles ↔ (s.thread w).spawned = true
  started : s.started = (announcers s.thread).card
  clean : ∀ w, s.thread w = .finished true false → s.shutdown = true
  retired : ∀ w, s.retiredUnstarted w = true ↔ s.thread w = .skipped
  main : s.At s.main

/-! ## 3. A step of a thread -/

/-- What a thread that was spawned can become by itself. -/
structure Thread.Onward (t t' : Thread) : Prop where
  spawned : t'.spawned = t.spawned
  settled : t'.settled = t.settled
  announced : t.announced = true → t'.announced = true
  finished : t.isFinished = true → t' = t
  waiting : t' = .waiting ↔ t = .waiting
  skipped : t' = .skipped ↔ t = .skipped
  refused : t' = .refused ↔ t = .refused

theorem Thread.Onward.refl (t : Thread) : t.Onward t :=
  ⟨rfl, rfl, fun h => h, fun _ => rfl, .rfl, .rfl, .rfl⟩

theorem Thread.onward_announce : (Thread.running false).Onward (.running true) := by
  constructor <;> decide

theorem Thread.onward_finish (announced panicked : Bool) :
    (Thread.running announced).Onward (.finished announced panicked) := by
  revert announced panicked
  intro announced panicked
  constructor <;> simp [Thread.spawned, Thread.settled, Thread.announced, Thread.isFinished]

section Steps

variable {s s' : Serve n}

/-- One thread goes on. -/
theorem onward_update {w : Fin n} {t : Thread} (h : (s.thread w).Onward t) (v : Fin n) :
    (s.thread v).Onward (Function.update s.thread w t v) := by
  by_cases hv : v = w
  · subst hv
    rw [Function.update_self]
    exact h
  · rw [Function.update_of_ne hv]
    exact .refl _

theorem Serve.Because.onward (hthread : ∀ w, (s.thread w).Onward (s'.thread w))
    (hhandles : s'.handles = s.handles) (hshutdown : s.shutdown = true → s'.shutdown = true)
    {after : After} (h : s.Because after) : s'.Because after := by
  cases after with
  | spawnFailed =>
      obtain ⟨hstop, w, hw⟩ := h
      exact ⟨hshutdown hstop, w, (hthread w).refused.mpr hw⟩
  | startFailed live =>
      obtain ⟨hstop, hlive, hsettled⟩ := h
      exact ⟨hshutdown hstop, hhandles ▸ hlive, fun w => (hthread w).settled.trans (hsettled w)⟩
  | served =>
      obtain ⟨hannounced, hsettled⟩ := h
      refine ⟨fun w hw => (hthread w).announced (hannounced w (hhandles ▸ hw)), fun w => ?_⟩
      exact (hthread w).settled.trans (hsettled w)

theorem Serve.Joined.onward (hthread : ∀ w, (s.thread w).Onward (s'.thread w))
    {joined : List (Fin n)} {panicked : Nat} (h : s.Joined joined panicked) :
    s'.Joined joined panicked := by
  have hsame : ∀ w ∈ joined, s'.thread w = s.thread w := fun w hw =>
    (hthread w).finished (h.finished w hw)
  refine ⟨fun w hw => (hsame w hw).symm ▸ h.finished w hw, h.panics.trans ?_⟩
  exact List.countP_congr fun w hw => by rw [hsame w hw]

/-- What is known at a point of `serve_with` stays known while the threads go
on. -/
theorem Serve.At.onward (s' : Serve n) (hthread : ∀ w, (s.thread w).Onward (s'.thread w))
    (hhandles : s'.handles = s.handles) (hshutdown : s.shutdown = true → s'.shutdown = true)
    {m : Main n} (h : s.At m) : s'.At m := by
  cases m with
  | spawning rest =>
      obtain ⟨hnodup, hwaiting, hrefused⟩ := h
      refine ⟨hnodup, fun w => (hthread w).waiting.trans (hwaiting w), fun w hw => ?_⟩
      exact hrefused w ((hthread w).refused.mp hw)
  | watching | reporting => exact fun w => (hthread w).settled.trans (h w)
  | joining rest panicked after =>
      obtain ⟨⟨joined, hall, hjoined⟩, hbecause⟩ := h
      exact ⟨⟨joined, hhandles.trans hall, hjoined.onward hthread⟩,
        hbecause.onward hthread hhandles hshutdown⟩
  | returned r =>
      obtain ⟨panicked, after, hjoined, hbecause, hr⟩ := h
      refine ⟨panicked, after, ?_, hbecause.onward hthread hhandles hshutdown, ?_⟩
      · exact hhandles.symm ▸ hjoined.onward hthread
      · exact hhandles.symm ▸ hr

theorem announcers_update {thread : Fin n → Thread} {w : Fin n} {t : Thread}
    (h : t.announced = (thread w).announced) :
    announcers (Function.update thread w t) = announcers thread := by
  refine Finset.filter_congr fun v _ => ?_
  by_cases hv : v = w
  · subst hv
    rw [Function.update_self, h]
  · rw [Function.update_of_ne hv]

theorem announcers_announce {thread : Fin n → Thread} {w : Fin n}
    (h : (thread w).announced = false) :
    (announcers (Function.update thread w (.running true))).card
      = (announcers thread).card + 1 := by
  have hinsert : announcers (Function.update thread w (.running true))
      = insert w (announcers thread) := by
    ext v
    rw [Finset.mem_insert, announcers, announcers, Finset.mem_filter, Finset.mem_filter]
    by_cases hv : v = w
    · subst hv
      simp [Thread.announced]
    · simp [hv]
  have hnew : w ∉ announcers thread := by simp [announcers, h]
  rw [hinsert, Finset.card_insert_of_notMem hnew]

/-- A step of one thread. -/
theorem Good.thread (g : Good s) {w : Fin n} {t : Thread} (h : (s.thread w).Onward t)
    {started : Nat} (hstarted : started = (announcers (Function.update s.thread w t)).card)
    (hclean : t = .finished true false → s.shutdown = true) :
    Good { s with thread := Function.update s.thread w t, started } where
  nodup := g.nodup
  spawned v := (g.spawned v).trans (by rw [← (onward_update h v).spawned])
  started := hstarted
  clean v hv := by
    by_cases hvw : v = w
    · subst hvw
      exact hclean ((Function.update_self ..).symm.trans hv)
    · exact g.clean v ((Function.update_of_ne hvw ..).symm.trans hv)
  retired v := (g.retired v).trans (onward_update h v).skipped.symm
  main := g.main.onward { s with thread := Function.update s.thread w t, started }
    (fun v => onward_update h v) rfl fun hstop => hstop

theorem Good.announce (g : Good s) (w : Fin n) : Good (s.step (.announce w)) := by
  cases hw : s.thread w with
  | running announced =>
      cases announced with
      | true => simpa only [Serve.step, hw] using g
      | false =>
          simp only [Serve.step, hw]
          refine g.thread (hw ▸ Thread.onward_announce) ?_ (by rintro ⟨⟩)
          rw [announcers_announce (by rw [hw]; rfl), g.started]
  | _ => simpa only [Serve.step, hw] using g

theorem Good.finish (g : Good s) (w : Fin n) (panicked : Bool) :
    Good (s.step (.finish w panicked)) := by
  cases hw : s.thread w with
  | running announced =>
      simp only [Serve.step, hw]
      split
      · rename_i hends
        refine g.thread (hw ▸ Thread.onward_finish announced panicked) ?_ ?_
        · rw [announcers_update (by rw [hw]; rfl), g.started]
        · rintro ⟨⟩
          simpa using hends
      · exact g
  | _ => simpa only [Serve.step, hw] using g

theorem Good.signal (g : Good s) : Good (s.step .signal) := by
  have hmain : Serve.At { s with shutdown := true } s.main :=
    Serve.At.onward (s := s) { s with shutdown := true } (fun _ => .refl _) rfl
      (fun _ => rfl) g.main
  exact ⟨g.nodup, g.spawned, g.started, fun _ _ => rfl, g.retired, hmain⟩

end Steps

/-! ## 4. A step of `serve_with` -/

section Main

variable {s : Serve n}

theorem Serve.Joined.nil (s : Serve n) : s.Joined [] 0 :=
  ⟨fun _ hw => absurd hw List.not_mem_nil, rfl⟩

/-- `join_all` is called. -/
theorem Good.stop (g : Good s) {after : After}
    (hbecause : (s.stop after).Because after) : Good (s.stop after) where
  nodup := g.nodup
  spawned := g.spawned
  started := g.started
  clean _ _ := rfl
  retired := g.retired
  main := ⟨⟨[], rfl, .nil _⟩, hbecause⟩

/-- The turn of `w`: what becomes of it is not an end, and not an announcement
either. -/
structure Turned (s : Serve n) (w : Fin n) (rest : List (Fin n)) (t : Thread) : Prop where
  fresh : w ∉ s.handles
  nodup : rest.Nodup
  waiting : ∀ v, Function.update s.thread w t v = .waiting ↔ v ∈ rest
  started : s.started = (announcers (Function.update s.thread w t)).card
  clean : ∀ v, Function.update s.thread w t v = .finished true false → s.shutdown = true

theorem Good.turned (g : Good s) {w : Fin n} {rest : List (Fin n)}
    (hmain : s.main = .spawning (w :: rest)) {t : Thread} (hwaiting : t ≠ .waiting)
    (hannounced : t.announced = false) : Turned s w rest t := by
  obtain ⟨hnodup, hwait, -⟩ : s.At (.spawning (w :: rest)) := hmain ▸ g.main
  obtain ⟨hfirst, hrest⟩ := List.nodup_cons.mp hnodup
  have hw : s.thread w = .waiting := (hwait w).mpr List.mem_cons_self
  refine ⟨?_, hrest, fun v => ?_, ?_, fun v hover => ?_⟩
  · rw [g.spawned w, hw]
    rintro ⟨⟩
  · by_cases hv : v = w
    · subst hv
      rw [Function.update_self]
      exact ⟨fun h => absurd h hwaiting, fun h => absurd h hfirst⟩
    · rw [Function.update_of_ne hv, hwait v, List.mem_cons, or_iff_right hv]
  · rw [announcers_update (by rw [hannounced, hw]; rfl), g.started]
  · by_cases hv : v = w
    · subst hv
      rw [Function.update_self] at hover
      rw [hover] at hannounced
      cases hannounced
    · exact g.clean v ((Function.update_of_ne hv ..).symm.trans hover)

/-- A worker whose turn comes. -/
theorem Good.iterate (g : Good s) {rest : List (Fin n)} (hmain : s.main = .spawning rest)
    (o : Spawn) : Good (s.iterate o rest) := by
  obtain ⟨-, hwait, hrefused⟩ : s.At (.spawning rest) := hmain ▸ g.main
  cases rest with
  | nil =>
      refine ⟨g.nodup, g.spawned, g.started, g.clean, g.retired, fun w => ?_⟩
      cases hw : s.thread w with
      | waiting => exact absurd ((hwait w).mp hw) List.not_mem_nil
      | refused => exact absurd hw (hrefused w)
      | _ =>
          show (s.thread w).settled = true
          rw [hw]
          rfl
  | cons w rest =>
      have hw : s.thread w = .waiting := (hwait w).mpr List.mem_cons_self
      cases o with
      | noListener =>
          have turned := g.turned hmain (t := .skipped) (by rintro ⟨⟩) rfl
          refine ⟨g.nodup, fun v => ?_, turned.started, turned.clean, fun v => ?_,
            turned.nodup, turned.waiting, fun v => ?_⟩ <;> by_cases hv : v = w
          · subst hv
            simp [Serve.iterate, turned.fresh, Thread.spawned]
          · simpa [Serve.iterate, hv] using g.spawned v
          · subst hv
            simp [Serve.iterate]
          · simpa [Serve.iterate, hv] using g.retired v
          · subst hv
            simp [Serve.iterate]
          · simpa [Serve.iterate, hv] using hrefused v
      | spawned =>
          have turned := g.turned hmain (t := .running false) (by rintro ⟨⟩) rfl
          have hnodup : (s.handles ++ [w]).Nodup := by
            simpa [List.nodup_append, g.nodup] using
              fun v hv => ne_of_mem_of_not_mem hv turned.fresh
          refine ⟨hnodup, fun v => ?_, turned.started, turned.clean, fun v => ?_,
            turned.nodup, turned.waiting, fun v => ?_⟩ <;> by_cases hv : v = w
          · subst hv
            simp [Serve.iterate, Thread.spawned]
          · simpa [Serve.iterate, hv] using g.spawned v
          · subst hv
            simpa [Serve.iterate, hw] using g.retired v
          · simpa [Serve.iterate, hv] using g.retired v
          · subst hv
            simp [Serve.iterate]
          · simpa [Serve.iterate, hv] using hrefused v
      | failed =>
          have turned := g.turned hmain (t := .refused) (by rintro ⟨⟩) rfl
          refine ⟨g.nodup, fun v => ?_, turned.started, fun _ _ => rfl, fun v => ?_,
            ⟨[], rfl, .nil _⟩, rfl, w, Function.update_self ..⟩ <;> by_cases hv : v = w
          · subst hv
            simp [Serve.iterate, Serve.stop, turned.fresh, Thread.spawned]
          · simpa [Serve.iterate, Serve.stop, hv] using g.spawned v
          · subst hv
            simpa [Serve.iterate, Serve.stop, hw] using g.retired v
          · simpa [Serve.iterate, Serve.stop, hv] using g.retired v

theorem Good.announcers_subset (g : Good s) : announcers s.thread ⊆ s.handles.toFinset := by
  intro w hw
  rw [List.mem_toFinset, g.spawned w]
  have hannounced : (s.thread w).announced = true := (Finset.mem_filter.mp hw).2
  cases hw : s.thread w <;> simp_all [Thread.announced, Thread.spawned]

/-- Only who was spawned announces itself. -/
theorem Good.started_le (g : Good s) : s.started ≤ s.handles.length := by
  rw [g.started, ← List.toFinset_card_of_nodup g.nodup]
  exact Finset.card_le_card g.announcers_subset

/-- The wait for `started` ends for one of two reasons: as many announcements
as handles, or the deadline. -/
theorem Good.check (g : Good s) (hmain : s.main = .watching) (late : Bool) :
    Good (s.check late) := by
  have hsettled : s.At .watching := hmain ▸ g.main
  unfold Serve.check
  split
  · split
    · exact ⟨g.nodup, g.spawned, g.started, g.clean, g.retired, hsettled⟩
    · exact g
  · rename_i hall
    -- the announcements cannot be fewer than the handles, so they are all of them
    have heq : announcers s.thread = s.handles.toFinset := by
      refine Finset.eq_of_subset_of_card_le g.announcers_subset ?_
      rw [List.toFinset_card_of_nodup g.nodup, ← g.started]
      omega
    refine ⟨g.nodup, g.spawned, g.started, g.clean, g.retired, ⟨[], rfl, .nil _⟩, ?_, hsettled⟩
    intro w hw
    have hmem : w ∈ announcers s.thread := heq ▸ List.mem_toFinset.mpr hw
    exact (Finset.mem_filter.mp hmem).2

theorem Good.report (g : Good s) (hmain : s.main = .reporting) :
    Good (s.stop (.startFailed s.started)) := by
  have hsettled : s.At .reporting := hmain ▸ g.main
  exact g.stop ⟨rfl, g.started_le, hsettled⟩

/-- A join, or the return behind the last. -/
theorem Good.join (g : Good s) {rest : List (Fin n)} {panicked : Nat} {after : After}
    (hmain : s.main = .joining rest panicked after) : Good (s.join panicked after rest) := by
  obtain ⟨⟨joined, hall, hjoined⟩, hbecause⟩ : s.At (.joining rest panicked after) :=
    hmain ▸ g.main
  cases rest with
  | nil =>
      have hjoined : s.Joined s.handles panicked := by
        rw [hall, List.append_nil]
        exact hjoined
      exact ⟨g.nodup, g.spawned, g.started, g.clean, g.retired, panicked, after,
        ⟨hjoined.finished, hjoined.panics⟩, hbecause, rfl⟩
  | cons w rest =>
      cases hw : s.thread w with
      | finished announced p =>
          simp only [Serve.join, hw]
          refine ⟨g.nodup, g.spawned, g.started, g.clean, g.retired,
            ⟨joined ++ [w], by simp [hall], fun v hv => ?_, ?_⟩, hbecause⟩
          · rcases List.mem_append.mp hv with hv | hv
            · exact hjoined.finished v hv
            · rw [List.mem_singleton.mp hv, hw]
              rfl
          · rw [List.countP_append, ← hjoined.panics, List.countP_singleton, hw]
            cases p <;> rfl
      | _ => simpa only [Serve.join, hw] using g

end Main

/-! ## 5. Runs -/

theorem Good.start (n : Nat) : Good (Serve.start n) where
  nodup := List.nodup_nil
  spawned w := by simp [Serve.start, Thread.spawned]
  started := by simp [Serve.start, announcers, Thread.announced]
  clean w h := by cases h
  retired w := by simp [Serve.start]
  main := ⟨List.nodup_finRange n, fun w => by simp [Serve.start], fun w => by rintro ⟨⟩⟩

/-- What one step preserves. -/
theorem Good.step {s : Serve n} (g : Good s) (e : Event n) : Good (s.step e) := by
  cases e with
  | iterate o =>
      cases hmain : s.main with
      | spawning rest => simpa only [Serve.step, hmain] using g.iterate hmain o
      | _ => simpa only [Serve.step, hmain] using g
  | check late =>
      cases hmain : s.main with
      | watching => simpa only [Serve.step, hmain] using g.check hmain late
      | _ => simpa only [Serve.step, hmain] using g
  | report =>
      cases hmain : s.main with
      | reporting => simpa only [Serve.step, hmain] using g.report hmain
      | _ => simpa only [Serve.step, hmain] using g
  | join =>
      cases hmain : s.main with
      | joining rest panicked after => simpa only [Serve.step, hmain] using g.join hmain
      | _ => simpa only [Serve.step, hmain] using g
  | announce w => exact g.announce w
  | finish w panicked => exact g.finish w panicked
  | signal => exact g.signal

/-- What a whole run preserves. -/
theorem Good.run {s : Serve n} (g : Good s) (es : List (Event n)) : Good (s.run es) := by
  induction es generalizing s with
  | nil => exact g
  | cons e es ih => exact ih (g.step e)

/-! ## 6. What comes back -/

/-- The workers of which `p` holds. -/
def Serve.count (s : Serve n) (p : Thread → Bool) : Nat :=
  (Finset.univ.filter fun w => p (s.thread w) = true).card

/-- What a result says of the workers, every thread being over. -/
def Serve.Says (s : Serve n) : Result → Prop
  | .ok => ∀ w, s.thread w = .skipped ∨ s.thread w = .finished true false ∧ s.shutdown = true
  | .spawnFailed => s.shutdown = true ∧ ∃ w, s.thread w = .refused
  | .startFailed live expected => s.shutdown = true ∧ live ≤ expected ∧
      expected = s.count Thread.spawned ∧
      ∀ w, s.thread w = .skipped ∨ (s.thread w).isFinished = true
  | .panicked count => 0 < count ∧ count = s.count Thread.panicked ∧
      ∀ w, s.thread w = .skipped ∨ ∃ p, s.thread w = .finished true p

section Returned

variable {s : Serve n}

/-- A worker that nothing went wrong with is without a listener, or has been
joined. -/
theorem Good.skipped_or_joined (g : Good s) {panicked : Nat}
    (hjoined : s.Joined s.handles panicked) (hsettled : ∀ w, (s.thread w).settled = true)
    (w : Fin n) : s.thread w = .skipped ∨ w ∈ s.handles ∧ (s.thread w).isFinished = true := by
  have hw := hsettled w
  have hspawned := g.spawned w
  cases hthread : s.thread w with
  | waiting | refused =>
      rw [hthread] at hw
      cases hw
  | skipped => exact .inl rfl
  | running | finished =>
      have hmem : w ∈ s.handles := hspawned.mpr (by rw [hthread]; rfl)
      exact .inr ⟨hmem, hthread ▸ hjoined.finished w hmem⟩

/-- Counting along the handles is counting over the workers spawned. -/
theorem Good.countP_handles (g : Good s) {p : Thread → Bool}
    (hp : ∀ t : Thread, p t = true → t.spawned = true) :
    (s.handles.countP fun w => p (s.thread w)) = s.count p := by
  rw [List.countP_eq_length_filter, ← List.toFinset_card_of_nodup (g.nodup.filter _),
    Serve.count]
  congr 1
  ext w
  rw [List.mem_toFinset, List.mem_filter, Finset.mem_filter, g.spawned w]
  exact ⟨fun h => ⟨Finset.mem_univ w, h.2⟩, fun h => ⟨hp _ h.2, h.2⟩⟩

theorem Good.length_handles (g : Good s) : s.handles.length = s.count Thread.spawned := by
  rw [← g.countP_handles fun t ht => ht, List.countP_eq_length.mpr fun w hw => (g.spawned w).mp hw]

theorem Good.result (g : Good s) {r : Result} (hmain : s.main = .returned r) : s.Says r := by
  obtain ⟨panicked, after, hjoined, hbecause, rfl⟩ : s.At (.returned r) := hmain ▸ g.main
  have hpanics : panicked = s.count Thread.panicked := by
    rw [hjoined.panics, ← g.countP_handles fun t ht => ?_]
    cases t <;> first | rfl | cases ht
  cases after with
  | spawnFailed => exact hbecause
  | startFailed live =>
      obtain ⟨hstop, hlive, hsettled⟩ := hbecause
      refine ⟨hstop, hlive, g.length_handles, fun w => ?_⟩
      exact (g.skipped_or_joined hjoined hsettled w).imp_right And.right
  | served =>
      obtain ⟨hannounced, hsettled⟩ := hbecause
      -- each thread joined had announced itself
      have hover : ∀ w, s.thread w = .skipped ∨ ∃ p, s.thread w = .finished true p := by
        intro w
        refine (g.skipped_or_joined hjoined hsettled w).imp_right fun ⟨hmem, hover⟩ => ?_
        have h := hannounced w hmem
        cases hthread : s.thread w with
        | finished announced p =>
            rw [hthread] at h
            exact ⟨p, by rw [show announced = true from h]⟩
        | _ =>
            rw [hthread] at hover
            cases hover
      show s.Says (if 0 < panicked then .panicked panicked else .ok)
      split
      · rename_i hpos
        exact ⟨hpos, hpanics, hover⟩
      · rename_i hzero
        intro w
        refine (hover w).imp_right fun ⟨p, hp⟩ => ?_
        cases p with
        | false => exact ⟨hp, g.clean w hp⟩
        | true =>
            have hmem : w ∈ Finset.univ.filter fun w => (s.thread w).panicked = true :=
              Finset.mem_filter.mpr ⟨Finset.mem_univ w, by rw [hp]; rfl⟩
            have hcard : 0 < s.count Thread.panicked := Finset.card_pos.mpr ⟨w, hmem⟩
            omega

/-- No thread is left behind. -/
theorem Good.none_running (g : Good s) {r : Result} (hmain : s.main = .returned r)
    (announced : Bool) (w : Fin n) : s.thread w ≠ .running announced := by
  obtain ⟨panicked, after, hjoined, -, -⟩ : s.At (.returned r) := hmain ▸ g.main
  intro hw
  have hover := hjoined.finished w ((g.spawned w).mpr (by rw [hw]; rfl))
  rw [hw] at hover
  cases hover

/-- And nothing happens any more, a signal apart. -/
theorem Good.stays (g : Good s) {r : Result} (hmain : s.main = .returned r)
    (es : List (Event n)) :
    (s.run es).main = .returned r ∧ (s.run es).thread = s.thread := by
  induction es generalizing s with
  | nil => exact ⟨hmain, rfl⟩
  | cons e es ih =>
      have hstep : (s.step e).main = s.main ∧ (s.step e).thread = s.thread := by
        cases e with
        | iterate o | check late | report | join => simp [Serve.step, hmain]
        | announce w | finish w panicked =>
            cases hw : s.thread w with
            | running announced => exact absurd hw (g.none_running hmain announced w)
            | _ => simp [Serve.step, hw]
        | signal => exact ⟨rfl, rfl⟩
      obtain ⟨hmain', hthread⟩ := ih (g.step e) (hstep.1.trans hmain)
      exact ⟨hmain', hthread.trans hstep.2⟩

end Returned

/-! ## 7. How a failed start came about -/

/-- The count of a failed start, from its load to the return. -/
def Main.live : Main n → Option Nat
  | .joining _ _ (.startFailed live) => some live
  | .returned (.startFailed live _) => some live
  | _ => none

/-- What holds now and not at first, began to hold at some moment. -/
theorem Serve.since {P Q : Serve n → Prop} (hstart : ¬ P (Serve.start n))
    (hstep : ∀ s e, P (s.step e) → P s ∨ Q s) (es : List (Event n))
    (h : P ((Serve.start n).run es)) :
    ∃ before, before <+: es ∧ Q ((Serve.start n).run before) := by
  induction es using List.reverseRecOn with
  | nil => exact absurd h hstart
  | append_singleton es e ih =>
      have hlast : (Serve.start n).run (es ++ [e]) = ((Serve.start n).run es).step e := by
        simp [Serve.run]
      rw [hlast] at h
      rcases hstep _ e h with hp | hq
      · obtain ⟨before, hbefore, hq⟩ := ih hp
        exact ⟨before, hbefore.trans (List.prefix_append _ _), hq⟩
      · exact ⟨es, List.prefix_append _ _, hq⟩

/-- Where one step takes `serve_with`. -/
inductive Serve.Goes (s : Serve n) : Main n → Prop
  | stays : s.Goes s.main
  | turned {rest rest' : List (Fin n)} : s.main = .spawning rest → s.Goes (.spawning rest')
  | spawned {rest : List (Fin n)} : s.main = .spawning rest → s.Goes .watching
  | refused {rest handles : List (Fin n)} : s.main = .spawning rest →
      s.Goes (.joining handles 0 .spawnFailed)
  | complete : s.main = .watching → s.Goes (.joining s.handles 0 .served)
  | late : s.main = .watching → s.started < s.handles.length → s.Goes .reporting
  | reported : s.main = .reporting → s.Goes (.joining s.handles 0 (.startFailed s.started))
  | joined {w : Fin n} {rest : List (Fin n)} {panicked panicked' : Nat} {after : After} :
      s.main = .joining (w :: rest) panicked after → s.Goes (.joining rest panicked' after)
  | returned {panicked : Nat} {after : After} : s.main = .joining [] panicked after →
      s.Goes (.returned (after.result s.handles.length panicked))

section Moments

variable {s : Serve n}

theorem Serve.goes_same {e : Event n} (h : s.step e = s) : s.Goes (s.step e).main := by
  rw [h]
  exact .stays

theorem Serve.goes (s : Serve n) (e : Event n) : s.Goes (s.step e).main := by
  cases e with
  | iterate o =>
      cases hmain : s.main with
      | spawning rest =>
          simp only [Serve.step, hmain]
          cases rest with
          | nil => exact .spawned hmain
          | cons w rest =>
              cases o with
              | failed => exact .refused hmain
              | _ => exact .turned hmain
      | _ => exact Serve.goes_same (by simp only [Serve.step, hmain])
  | check late =>
      cases hmain : s.main with
      | watching =>
          simp only [Serve.step, hmain, Serve.check]
          split
          · rename_i hmissing
            split
            · exact .late hmain hmissing
            · exact .stays
          · exact .complete hmain
      | _ => exact Serve.goes_same (by simp only [Serve.step, hmain])
  | report =>
      cases hmain : s.main with
      | reporting =>
          simp only [Serve.step, hmain]
          exact .reported hmain
      | _ => exact Serve.goes_same (by simp only [Serve.step, hmain])
  | join =>
      cases hmain : s.main with
      | joining rest panicked after =>
          simp only [Serve.step, hmain]
          cases rest with
          | nil => exact .returned hmain
          | cons w rest =>
              simp only [Serve.join]
              split
              · exact .joined hmain
              · exact .stays
      | _ => exact Serve.goes_same (by simp only [Serve.step, hmain])
  | announce w | finish w panicked =>
      simp only [Serve.step]
      repeat' split
      all_goals exact .stays
  | signal => exact .stays

/-- Behind the loop of spawns, who was spawned stays the same. -/
theorem Serve.handles_step (h : ∀ rest, s.main ≠ .spawning rest) (e : Event n) :
    (s.step e).handles = s.handles := by
  cases e with
  | iterate o =>
      cases hmain : s.main with
      | spawning rest => exact absurd hmain (h rest)
      | _ => simp only [Serve.step, hmain]
  | check late =>
      simp only [Serve.step, Serve.check]
      repeat' split
      all_goals rfl
  | report | announce w | finish w panicked =>
      simp only [Serve.step]
      repeat' split
      all_goals rfl
  | join =>
      cases hmain : s.main with
      | joining rest panicked after =>
          simp only [Serve.step, hmain]
          cases rest with
          | nil => rfl
          | cons w rest =>
              simp only [Serve.join]
              split <;> rfl
      | _ => simp only [Serve.step, hmain]
  | signal => rfl

/-- The count of the message is what the load found. -/
theorem Serve.live_step {e : Event n} {live : Nat} (h : (s.step e).main.live = some live) :
    s.main.live = some live ∨ s.main = .reporting ∧ live = s.started := by
  have hgoes := s.goes e
  generalize (s.step e).main = m at h hgoes
  cases hgoes with
  | stays => exact .inl h
  | reported hmain => exact .inr ⟨hmain, (Option.some.inj h).symm⟩
  | @joined _ _ _ _ after hmain =>
      rw [hmain]
      cases after with
      | startFailed => exact .inl h
      | _ => cases h
  | @returned panicked after hmain =>
      rw [hmain]
      cases after with
      | startFailed => exact .inl h
      | spawnFailed => cases h
      | served =>
          simp only [After.result] at h
          split at h <;> cases h
  | _ => cases h

/-- A test that came too late found announcements missing. -/
theorem Serve.reporting_step {e : Event n} (h : (s.step e).main = .reporting) :
    s.main = .reporting ∨ s.main = .watching ∧ s.started < s.handles.length := by
  have hgoes := s.goes e
  rw [h] at hgoes
  generalize hm : Main.reporting = m at hgoes
  cases hgoes with
  | stays => exact .inl rfl
  | late hmain hmissing => exact .inr ⟨hmain, hmissing⟩
  | _ => cases hm

end Moments

/-- The load for the message of a failed start. Who was spawned is settled by
then, so it is out of the same number. -/
theorem loaded (es : List (Event n)) {live expected : Nat}
    (h : ((Serve.start n).run es).main.live = some live)
    (hexpected : ((Serve.start n).run es).handles.length = expected) :
    ∃ before, before <+: es ∧ ((Serve.start n).run before).main = .reporting ∧
      live = ((Serve.start n).run before).started ∧
      ((Serve.start n).run before).handles.length = expected := by
  have hstep : ∀ (s : Serve n) (e : Event n),
      (s.step e).main.live = some live ∧ (s.step e).handles.length = expected →
      (s.main.live = some live ∧ s.handles.length = expected) ∨
        s.main = .reporting ∧ live = s.started ∧ s.handles.length = expected := by
    rintro s e ⟨hlive, hlen⟩
    have hspawned : (∀ rest, s.main ≠ .spawning rest) → s.handles.length = expected := by
      intro hmain
      rwa [Serve.handles_step hmain e] at hlen
    rcases Serve.live_step hlive with hsame | ⟨hreporting, hload⟩
    · exact .inl ⟨hsame, hspawned fun rest hmain => by rw [hmain] at hsame; cases hsame⟩
    · exact .inr ⟨hreporting, hload, hspawned (by simp [hreporting])⟩
  exact Serve.since (P := fun s => s.main.live = some live ∧ s.handles.length = expected)
    (by rintro ⟨⟨⟩, -⟩) hstep es ⟨h, hexpected⟩

/-- The test in front of that load. -/
theorem tested_late (es : List (Event n)) {expected : Nat}
    (h : ((Serve.start n).run es).main = .reporting)
    (hexpected : ((Serve.start n).run es).handles.length = expected) :
    ∃ before, before <+: es ∧ ((Serve.start n).run before).main = .watching ∧
      ((Serve.start n).run before).started < expected := by
  have hstep : ∀ (s : Serve n) (e : Event n),
      (s.step e).main = .reporting ∧ (s.step e).handles.length = expected →
      (s.main = .reporting ∧ s.handles.length = expected) ∨
        s.main = .watching ∧ s.started < expected := by
    rintro s e ⟨hreporting, hlen⟩
    have hspawned : (∀ rest, s.main ≠ .spawning rest) → s.handles.length = expected := by
      intro hmain
      rwa [Serve.handles_step hmain e] at hlen
    rcases Serve.reporting_step hreporting with hsame | ⟨hwatching, hmissing⟩
    · exact .inl ⟨hsame, hspawned (by simp [hsame])⟩
    · rw [hspawned (by simp [hwatching])] at hmissing
      exact .inr ⟨hwatching, hmissing⟩
  exact Serve.since (P := fun s => s.main = .reporting ∧ s.handles.length = expected)
    (by rintro ⟨⟨⟩, -⟩) hstep es ⟨h, hexpected⟩

/-- The numbers of a failed start: when the test was made that came too late,
fewer than `expected` workers had announced themselves, and when the count for
the message was read, `live` had. -/
def Counted (es : List (Event n)) (live expected : Nat) : Prop :=
  ∃ tested reported, tested <+: reported ∧ reported <+: es ∧
    ((Serve.start n).run tested).main = .watching ∧
    ((Serve.start n).run tested).count Thread.announced < expected ∧
    ((Serve.start n).run reported).main = .reporting ∧
    live = ((Serve.start n).run reported).count Thread.announced

theorem counted (es : List (Event n)) {live expected : Nat}
    (h : ((Serve.start n).run es).main = .returned (.startFailed live expected)) :
    Counted es live expected := by
  have hexpected : ((Serve.start n).run es).handles.length = expected := by
    obtain ⟨panicked, after, -, -, hr⟩ : ((Serve.start n).run es).At
        (.returned (.startFailed live expected)) := h ▸ ((Good.start n).run es).main
    cases after with
    | startFailed =>
        cases hr
        rfl
    | spawnFailed => cases hr
    | served =>
        simp only [After.result] at hr
        split at hr <;> cases hr
  obtain ⟨reported, hprefix, hreporting, hlive, hhandles⟩ :=
    loaded es (by rw [h]; rfl) hexpected
  obtain ⟨tested, hprefix', hwatching, hmissing⟩ := tested_late reported hreporting hhandles
  refine ⟨tested, reported, hprefix', hprefix, hwatching, ?_, hreporting, ?_⟩
  · rw [((Good.start n).run tested).started] at hmissing
    exact hmissing
  · exact hlive.trans ((Good.start n).run reported).started

/-- In every interleaving, `serve_with` returns with every thread it spawned
over, whatever the result, and it has itself retired exactly the workers without
a listener. `Ok` is a clean shutdown: it was signalled, unless there was nobody
to serve, and every worker but those without a listener had announced itself and
ended without a panic. A failure says what failed, in the numbers of a failed
start how many workers had announced themselves and how many were started, and
by then the workers that did start have been stopped. -/
theorem serve_returns (es : List (Event n)) {r : Result}
    (hreturned : ((Serve.start n).run es).main = .returned r) :
    ((Serve.start n).run es).Says r ∧
    (∀ live expected, r = .startFailed live expected → Counted es live expected) ∧
    (∀ w announced, ((Serve.start n).run es).thread w ≠ .running announced) ∧
    (∀ w, ((Serve.start n).run es).retiredUnstarted w = true ↔
      ((Serve.start n).run es).thread w = .skipped) ∧
    ∀ es', (((Serve.start n).run es).run es').main = .returned r ∧
      (((Serve.start n).run es).run es').thread = ((Serve.start n).run es).thread := by
  have g : Good ((Serve.start n).run es) := (Good.start n).run es
  refine ⟨g.result hreturned, ?_, fun w announced => g.none_running hreturned announced w,
    g.retired, g.stays hreturned⟩
  rintro live expected rfl
  exact counted es hreturned

/-- Two workers, the second of which cannot build its runtime. -/
def halfStarted : List (Event 2) :=
  let first : Fin 2 := ⟨0, by decide⟩
  let second : Fin 2 := ⟨1, by decide⟩
  [.iterate .spawned, .announce first, .iterate .spawned, .iterate .noListener,
    .finish second false, .check false, .check true, .report, .join, .finish first false, .join,
    .join, .join]

theorem serve_returns_half_started :
    ((Serve.start 2).run halfStarted).main = .returned (.startFailed 1 2) ∧
    ((Serve.start 2).run halfStarted).Says (.startFailed 1 2) ∧ Counted halfStarted 1 2 := by
  have hreturned : ((Serve.start 2).run halfStarted).main = .returned (.startFailed 1 2) := by
    decide +kernel
  exact ⟨hreturned, (serve_returns halfStarted hreturned).1,
    (serve_returns halfStarted hreturned).2.1 1 2 rfl⟩

end ArmatureH1.Startup

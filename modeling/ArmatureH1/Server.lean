/-
ArmatureH1.Server — the workers of `server.rs` and what they share.

Every worker runs `worker_loop` on its own thread, and they meet in
`Balance`: one connection count and one handoff inbox per worker. Here a
worker is a machine. A `Pc` is a point between two accesses to what is
shared, and `turn` takes one worker from one such point to the next, so a
run of `step` over a list of events is an interleaving of single loads,
compare-exchanges, fetch_adds, fetch_subs, stores, sends and receives, in
any order, of any number of workers.

Every access is `Relaxed`. A read-modify-write acts on the counter itself;
a plain load may return an older value, so what a load returns is part of
the event, like everything else the code does not decide: which branch of a
`select!` is ready, whether a `compare_exchange_weak` fails spuriously,
whether `into_std` and `from_std` succeed, when a connection ends.

The channels are tokio's: a send after the close fails and gives the message
back, and `recv` returns `None` only when the channel is closed and empty.
A worker whose thread never reaches its loop, or panics, is not modelled.
-/
import Mathlib.Data.List.FinRange
import Mathlib.Data.Fintype.Basic

namespace ArmatureH1.Workers

/-! ## 1. `Balance` -/

/-- `Handoff`: an accepted stream and its peer, named by the number of
connections the server had accepted before it. -/
abbrev Handoff := Nat

/-- `HANDOFF_MARGIN`. -/
def handoffMargin : Nat := 2

/-- `PICK_SAMPLES`. -/
def pickSamples : Nat := 3

/-- `RETIRED`, that is `usize::MAX / 2`. -/
def retiredCount : UInt64 := 0x7FFFFFFFFFFFFFFF

/-- `next_random`: xorshift64. -/
def nextRandom (x : UInt64) : UInt64 :=
  let x := x ^^^ (x <<< 13)
  let x := x ^^^ (x >>> 7)
  x ^^^ (x <<< 17)

/-- `Balance`, with each receiver beside its sender. `retired` remembers for
which workers `retire` has run; the code does not read it. -/
structure Balance (n : Nat) where
  count : Fin n → UInt64
  inbox : Fin n → List Handoff
  closed : Fin n → Bool
  freed : Fin n → Bool
  cap : UInt64
  retired : Fin n → Bool

namespace Balance

variable {n : Nat}

/-- `Balance::new`. -/
def new (n : Nat) (cap : UInt64) : Balance n where
  count _ := 0
  inbox _ := []
  closed _ := false
  freed _ := false
  cap := max cap 1
  retired _ := false

/-- One successful `compare_exchange_weak` of `reserve`, from `seen` to
`seen + 1`. -/
def exchange (b : Balance n) (w : Fin n) (seen : UInt64) : Balance n :=
  { b with count := Function.update b.count w (seen + 1) }

/-- `Balance::release`. -/
def release (b : Balance n) (w : Fin n) : Balance n :=
  { b with
    count := Function.update b.count w (b.count w - 1)
    freed := Function.update b.freed w true }

/-- The `fetch_add` with which a retired worker counts a connection again. -/
def recount (b : Balance n) (w : Fin n) : Balance n :=
  { b with count := Function.update b.count w (b.count w + 1) }

/-- `Balance::retire`. -/
def retire (b : Balance n) (w : Fin n) : Balance n :=
  { b with
    count := Function.update b.count w retiredCount
    retired := Function.update b.retired w true }

/-- `UnboundedSender::send` on a channel that is open. -/
def send (b : Balance n) (w : Fin n) (c : Handoff) : Balance n :=
  { b with inbox := Function.update b.inbox w (b.inbox w ++ [c]) }

/-- `UnboundedReceiver::recv`, with `rest` what it leaves queued. -/
def recv (b : Balance n) (w : Fin n) (rest : List Handoff) : Balance n :=
  { b with inbox := Function.update b.inbox w rest }

/-- `UnboundedReceiver::close`. -/
def close (b : Balance n) (w : Fin n) : Balance n :=
  { b with closed := Function.update b.closed w true }

/-- `Notify::notified` takes the permit. -/
def notified (b : Balance n) (w : Fin n) : Balance n :=
  { b with freed := Function.update b.freed w false }

end Balance

/-! ## 2. `pick` -/

/-- `best` and `best_open` of `pick`. -/
structure Best (n : Nat) where
  worker : Fin n
  count : UInt64
  deriving DecidableEq

/-- The closure `consider` of `pick`, once the load has returned `seen`. -/
def Best.consider {n : Nat} (best : Best n) (w : Fin n) (seen : UInt64) : Best n :=
  if seen < best.count then ⟨w, seen⟩ else best

/-- The last lines of `pick`. -/
def Best.choose {n : Nat} (best : Best n) (me : Fin n) (mine : UInt64) : Fin n :=
  if handoffMargin ≤ mine.toNat - best.count.toNat then best.worker else me

/-- A random worker. -/
def sample {n : Nat} (me : Fin n) (x : UInt64) : Fin n := ⟨x.toNat % n, Nat.mod_lt _ me.pos⟩

/-- `k` random workers, and the sampler's state behind them. -/
def samples {n : Nat} (me : Fin n) : Nat → UInt64 → List (Fin n) × UInt64
  | 0, rng => ([], rng)
  | k + 1, rng =>
    let x := nextRandom rng
    let (ws, rng') := samples me k x
    (sample me x :: ws, rng')

/-- The workers `pick` looks at. -/
def probes {n : Nat} (me : Fin n) (rng : UInt64) : List (Fin n) × UInt64 :=
  if n ≤ pickSamples + 1 then (List.finRange n, rng) else samples me pickSamples rng

/-- The workers `place` tries to reserve on, in order, when `pick` has
answered `target`. -/
def candidates {n : Nat} (me target : Fin n) : List (Fin n) :=
  (if target = me then [] else [target]) ++ me :: List.finRange n

/-! ## 3. A worker between two shared accesses -/

/-- Who called `route`, and so where its result is assigned: the top of the
loop for the connection held back, or the accept branch for one whose target
had closed its inbox. -/
inductive Route where
  | held
  | bounced
  deriving DecidableEq

/-- The connection being placed: just accepted, or in the hands of `route`. -/
inductive Errand where
  | accepted (c : Handoff)
  | routing (c : Handoff) (r : Route)
  deriving DecidableEq

def Errand.conn : Errand → Handoff
  | accepted c => c
  | routing c _ => c

/-- After a send that failed, `route` has the connection. -/
def Errand.bounce : Errand → Errand
  | accepted c => routing c .bounced
  | routing c r => routing c r

/-- Where the worker goes on after `adopt` or `release`. -/
inductive Next where
  | loop
  | routed (r : Route)
  | drain
  deriving DecidableEq

/-- The points of `worker_loop` between two shared accesses. -/
inductive Pc (n : Nat) where
  /-- The shutdown check at the top of the loop. -/
  | top
  /-- `pending.take()` -/
  | held
  /-- The load of the worker's own count in front of the two `select!`s. -/
  | gate
  /-- `has_room`, with the workers still to look at. -/
  | room (rest : List (Fin n))
  /-- The `select!` of a worker with nowhere to put another connection. -/
  | parked
  /-- The load in the precondition of the sleep in the second `select!`. -/
  | arm
  /-- The `select!` that accepts, with the sleep armed or not. -/
  | accepting (armed : Bool)
  /-- `ACCEPT_BACKOFF`. -/
  | backoff
  /-- The first load of `pick`. -/
  | mine (h : Errand)
  /-- `pick`, with the workers still to look at. -/
  | probe (h : Errand) (mine : UInt64) (best : Best n) (rest : List (Fin n))
  /-- `place`, with the workers still to try, in front of the load of
  `reserve`. -/
  | reserve (h : Errand) (rest : List (Fin n))
  /-- The loop of `reserve(w)`, in front of its test and the compare-exchange. -/
  | exchange (h : Errand) (w : Fin n) (seen : UInt64) (rest : List (Fin n))
  /-- `place` has returned `Some(w)`. -/
  | placed (h : Errand) (w : Fin n)
  /-- The send to the inbox of `w`. -/
  | sending (h : Errand) (w : Fin n)
  /-- The send has failed: `retire(w)` is next. -/
  | refused (h : Errand) (w : Fin n)
  /-- `adopt(c)` -/
  | adopting (c : Handoff) (next : Next)
  /-- `into_std` or `from_std` has failed: `release(w)` is next. -/
  | releasing (w : Fin n) (next : Next)
  /-- Out of the loop: `retire` of itself. -/
  | retire
  /-- `inbox.close()` -/
  | close
  /-- `pending.take()` behind the close. -/
  | drainHeld
  /-- `recv` of the drain loop. -/
  | drain
  /-- The `fetch_add` of the drain loop. -/
  | recount (c : Handoff)
  /-- The drain loop is over. -/
  | left
  deriving DecidableEq

/-- One worker: `pending`, the sampler, and the connections whose tasks run
in its `LocalSet`, each with its `ConnSlot`. -/
structure Worker (n : Nat) where
  pc : Pc n
  pending : Option Handoff
  rng : UInt64
  live : List Handoff

namespace Worker

variable {n : Nat}

/-- A worker as it enters its loop. -/
def new (w : Fin n) : Worker n where
  pc := .top
  pending := none
  rng := 0x9E3779B97F4A7C15 ^^^ (UInt64.ofNat w + 1)
  live := []

def goto (w : Worker n) (pc : Pc n) : Worker n := { w with pc }

/-- `route` returns: its result is assigned to `pending`. -/
def routed (w : Worker n) (back : Option Handoff) : Route → Worker n
  | .held => { w with pending := back, pc := .gate }
  | .bounced => { w with pending := back, pc := .top }

/-- On from `adopt` or `release`. -/
def resume (w : Worker n) : Next → Worker n
  | .loop => w.goto .top
  | .routed r => w.routed none r
  | .drain => w.goto .drain

/-- `serve`: the connection's task is spawned, and holds its slot. -/
def serve (w : Worker n) (c : Handoff) : Worker n := { w with live := c :: w.live }

end Worker

/-! ## 4. One turn of one worker -/

/-- The branches of the `select!`s. `changed.is_err()` and whether an accept
error warrants the pause come with them. -/
inductive Branch where
  | changed (gone : Bool)
  | freed
  | recv
  | sleep
  | accept
  | acceptError (pause : Bool)
  deriving DecidableEq

/-- What one turn finds outside the worker: the branch that is ready, what a
load returns, whether a compare-exchange fails spuriously, and whether
`into_std` or `from_std` succeeds. A turn reads what its `Pc` asks for. -/
structure Input where
  branch : Branch
  seen : UInt64
  spurious : Bool
  converts : Bool
  deriving DecidableEq

/-- The server. `accepted` counts the connections accepted so far, and
`finished` lists those whose tasks have ended. -/
structure Server (n : Nat) where
  balance : Balance n
  worker : Fin n → Worker n
  shutdown : Bool
  accepted : Nat
  finished : List Handoff

/-- What a turn may change: the shared state, the number of accepted
connections, and the worker itself. -/
structure Turn (n : Nat) where
  balance : Balance n
  accepted : Nat
  worker : Worker n

namespace Server

variable {n : Nat}

/-- A server whose workers have all entered their loops. -/
def start (n : Nat) (maxConnections : UInt64) : Server n where
  balance := .new n maxConnections
  worker := .new
  shutdown := false
  accepted := 0
  finished := []

/-- A turn that changes the worker only. -/
def own (s : Server n) (w : Worker n) : Turn n := ⟨s.balance, s.accepted, w⟩

/-- A turn with one shared access. -/
def shared (s : Server n) (b : Balance n) (w : Worker n) : Turn n := ⟨b, s.accepted, w⟩

/-- A `select!` whose `recv` branch is ready. Without a message it is not. -/
def turnRecv (s : Server n) (me : Fin n) : Turn n :=
  match s.balance.inbox me with
  | [] => s.own (s.worker me)
  | c :: rest =>
    s.shared (s.balance.recv me rest) ((s.worker me).goto (.adopting c .loop))

/-- The branch both `select!`s have for the shutdown signal. -/
def turnChanged (s : Server n) (me : Fin n) (gone : Bool) : Turn n :=
  s.own ((s.worker me).goto (if gone || s.shutdown then .retire else .top))

/-- The `select!` of a worker with nowhere to put another connection. -/
def turnParked (s : Server n) (me : Fin n) : Branch → Turn n
  | .changed gone => s.turnChanged me gone
  | .freed =>
    if s.balance.freed me then s.shared (s.balance.notified me) ((s.worker me).goto .top)
    else s.own (s.worker me)
  | .recv => s.turnRecv me
  | .sleep => s.own ((s.worker me).goto .top)
  | .accept | .acceptError _ => s.own (s.worker me)

/-- The `select!` that accepts. -/
def turnAccepting (s : Server n) (me : Fin n) (armed : Bool) : Branch → Turn n
  | .changed gone => s.turnChanged me gone
  | .recv => s.turnRecv me
  | .sleep => s.own (if armed then (s.worker me).goto .top else s.worker me)
  | .accept =>
    ⟨s.balance, s.accepted + 1, (s.worker me).goto (.mine (.accepted s.accepted))⟩
  | .acceptError pause => s.own ((s.worker me).goto (if pause then .backoff else .top))
  | .freed => s.own (s.worker me)

/-- `place` has returned `None`: `route` gives the connection back, the accept
branch detaches it first. -/
def turnNowhere (s : Server n) (me : Fin n) (i : Input) : Errand → Turn n
  | .accepted c =>
    s.own (if i.converts then { s.worker me with pending := some c, pc := .top }
      else (s.worker me).goto .top)
  | .routing c r => s.own ((s.worker me).routed (some c) r)

/-- `place` has returned `Some(w)`. -/
def turnPlaced (s : Server n) (me : Fin n) (i : Input) (w : Fin n) : Errand → Turn n
  | .accepted c =>
    if w = me then s.own (((s.worker me).serve c).goto .top)
    else if i.converts then s.own ((s.worker me).goto (.sending (.accepted c) w))
    else s.own ((s.worker me).goto (.releasing w .loop))
  | .routing c r =>
    if w = me then s.own ((s.worker me).goto (.adopting c (.routed r)))
    else s.own ((s.worker me).goto (.sending (.routing c r) w))

/-- The send has succeeded. -/
def afterSend (w : Worker n) : Errand → Worker n
  | .accepted _ => w.goto .top
  | .routing _ r => w.routed none r

/-- `worker_loop`, from one shared access to the next. -/
def turn (s : Server n) (me : Fin n) (i : Input) : Turn n :=
  let w := s.worker me
  let b := s.balance
  match w.pc with
  | .top => s.own (w.goto (if s.shutdown then .retire else .held))
  | .held =>
    match w.pending with
    | none => s.own (w.goto .gate)
    | some c => s.own { w with pending := none, pc := .mine (.routing c .held) }
  | .gate =>
    if w.pending.isSome then s.own (w.goto .parked)
    else s.own (w.goto (if b.cap ≤ i.seen then .room (List.finRange n) else .arm))
  | .room [] => s.own (w.goto .parked)
  | .room (_ :: rest) => s.own (w.goto (if i.seen < b.cap then .arm else .room rest))
  | .parked => s.turnParked me i.branch
  | .arm => s.own (w.goto (.accepting (b.cap ≤ i.seen)))
  | .accepting armed => s.turnAccepting me armed i.branch
  | .backoff => s.own (w.goto .top)
  | .mine h =>
    if i.seen.toNat < handoffMargin then s.own (w.goto (.reserve h (candidates me me)))
    else
      let (ws, rng) := probes me w.rng
      s.own { w with rng, pc := .probe h i.seen ⟨me, i.seen⟩ ws }
  | .probe h mine best [] =>
    s.own (w.goto (.reserve h (candidates me (best.choose me mine))))
  | .probe h mine best (p :: rest) =>
    s.own (w.goto (.probe h mine (best.consider p i.seen) rest))
  | .reserve h [] => s.turnNowhere me i h
  | .reserve h (t :: rest) =>
    s.own (w.goto (.exchange h t i.seen rest))
  | .exchange h t seen rest =>
    if seen < b.cap then
      if b.count t = seen ∧ i.spurious = false then
        s.shared (b.exchange t seen) (w.goto (.placed h t))
      else s.own (w.goto (.exchange h t i.seen rest))
    else s.own (w.goto (.reserve h rest))
  | .placed h t => s.turnPlaced me i t h
  | .sending h t =>
    if b.closed t then s.own (w.goto (.refused h t))
    else s.shared (b.send t h.conn) (afterSend w h)
  | .refused h t => s.shared (b.retire t) (w.goto (.mine h.bounce))
  | .adopting c next =>
    if i.converts then s.own ((w.serve c).resume next)
    else s.own (w.goto (.releasing me next))
  | .releasing t next => s.shared (b.release t) (w.resume next)
  | .retire => s.shared (b.retire me) (w.goto .close)
  | .close => s.shared (b.close me) (w.goto .drainHeld)
  | .drainHeld =>
    match w.pending with
    | none => s.own (w.goto .drain)
    | some c => s.shared (b.recount me) { w with pending := none, pc := .adopting c .drain }
  | .drain =>
    match b.inbox me with
    | [] => if b.closed me then s.own (w.goto .left) else s.own w
    | c :: rest => s.shared (b.recv me rest) (w.goto (.recount c))
  | .recount c => s.shared (b.recount me) (w.goto (.adopting c .drain))
  | .left => s.own w

/-! ## 5. Runs -/

/-- What can happen next: the shutdown is signalled, a connection's task on a
worker ends or is cancelled, or a worker takes a turn. -/
inductive Event (n : Nat) where
  | signal
  | finish (w : Fin n) (c : Handoff)
  | turn (w : Fin n) (i : Input)

/-- `ConnSlot::drop`, as the last act of a connection's task. -/
def finish (s : Server n) (w : Fin n) (c : Handoff) : Server n :=
  if c ∈ (s.worker w).live then
    { s with
      balance := s.balance.release w
      worker := Function.update s.worker w
        { s.worker w with live := (s.worker w).live.erase c }
      finished := c :: s.finished }
  else s

/-- A turn takes effect. -/
def apply (s : Server n) (me : Fin n) (t : Turn n) : Server n :=
  { s with
    balance := t.balance
    accepted := t.accepted
    worker := Function.update s.worker me t.worker }

def step (s : Server n) : Event n → Server n
  | .signal => { s with shutdown := true }
  | .finish w c => s.finish w c
  | .turn w i => s.apply w (s.turn w i)

/-- An interleaving. -/
def run (s : Server n) (es : List (Event n)) : Server n := es.foldl step s

end Server

end ArmatureH1.Workers

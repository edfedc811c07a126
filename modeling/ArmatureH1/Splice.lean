/-
ArmatureH1.Splice — the bare 408 of the hyper backend, and the wire.

When the watchdog reports `Head` or `Handler`, `HyperBackend::serve`
(`backend/hyper/mod.rs`) drops hyper's future and writes a bare 408, unless the
clock says that bytes of a final response are on the wire. The clock never sees
a response; it sees phases, writes and flushes. Here hyper, the service bridge
and the wire are put beside it, and a 408 is followed back to what the peer has
received (`bare_408_only_between_responses`).

hyper itself is not in the repository. What is asked of it:

* it writes bytes of a response that the bridge handed over only until the
  first successful flush after the body's end, at which the response is on the
  wire as a whole;
* for a head that it refuses it may write a response of its own, and from then
  on it neither reads nor calls the service; it refuses a head only when no
  service future is pending, since it parses one head at a time;
* it has one service future at a time, it polls the body that it was handed
  last, and an error from that body ends its own future;
* anything else it writes is an interim response, and that may happen at any
  time. While the handler runs nothing else is left to it (`Wired.quiet`).

The bridge is modelled as it is: a call waits in `leave_write` while a response
is being written, so a pipelined request may be parsed and called for long
before its handler runs.
-/
import ArmatureH1.Watchdog

namespace ArmatureH1

open ByteString

/-! ## 1. Serving -/

/-- A final response that the bridge handed to hyper. -/
structure Final where
  /-- How many of its bytes have reached the transport. -/
  bytes : Nat
  /-- Its body has no more frames. -/
  ended : Bool
  /-- All of it is on the wire. -/
  complete : Bool
  deriving DecidableEq, Repr

/-- A flush that succeeds puts what has ended on the wire. -/
def Final.flushed (r : Final) : Final := if r.ended then { r with complete := true } else r

/-- Where the bridge's future is, if hyper holds one. -/
inductive ServiceFuture where
  | absent
  /-- In `leave_write`. -/
  | waiting
  /-- Past `leave_write`, up to the response. -/
  | running
  deriving DecidableEq, Repr

/-- `HyperBackend::serve`, while hyper's future and the watchdog race. -/
structure Serving where
  timed : Timed
  future : ServiceFuture
  /-- `req_version`. -/
  reqVersion : Version
  /-- The responses of the bridge, the last one first. -/
  wire : List Final
  /-- Whether hyper holds a `HyperOutBody` with frames left. -/
  outBody : Bool
  /-- How many bytes of hyper's own answer to a refused head have reached the
  transport, once it has refused one. -/
  refusal : Option Nat
  /-- hyper's future is done. -/
  resolved : Bool
  deriving DecidableEq

/-- What can happen next. -/
inductive ServeAction where
  | wait (till : Nat)
  | poll (expired : Bool)
  | requestBodyFinished (flag : Nat)
  | read (bytes : Bytes)
  | call
  | enterHandler (version : WireVersion)
  | reject
  | handOver (out : PhaseClock.HandedOver)
  | refuse
  | writeInterim (n : Nat)
  | writeFinal (k n : Nat)
  | writeRefusal (n : Nat)
  | bodyEnd
  | bodyFail
  | flush
  | resolve (upgraded : Bool)
  deriving DecidableEq

/-- The reaction of `serve` to an expiry: the version of the bare 408 it
writes, or a silent close. -/
def onExpiry (c : PhaseClock) (reqVersion : Version) : Phase → Option Version
  | .idle => none
  | .write => none
  | .head => if c.wroteBytes then none else some .http11
  | .handler => if c.wroteBytes then none else some reqVersion

namespace Serving

def start (now : Nat) : Serving where
  timed := .start now
  future := .absent
  reqVersion := .http11
  wire := []
  outBody := false
  refusal := none
  resolved := false

/-- The bare 408, once the watchdog has returned. -/
def bare408 (s : Serving) : Option Version :=
  if s.resolved then none
  else
    match s.timed.dog with
    | .returned p => onExpiry s.timed.clock s.reqVersion p
    | _ => none

section Actions

variable (instantMax : Nat) (limits : Timeouts) (ripe : Nat → Nat → Nat → Bool)

/-- An event on the clock. -/
def event (s : Serving) (e : ClockEvent) : Serving :=
  { s with timed := s.timed.event instantMax limits e }

/-- One action of a connection that is still served. -/
def next (s : Serving) : ServeAction → Option Serving
  | .wait till =>
    (s.timed.act instantMax limits ripe (.wait till)).map fun t => { s with timed := t }
  | .poll expired =>
    (s.timed.act instantMax limits ripe (.poll expired)).map fun t => { s with timed := t }
  | .requestBodyFinished flag => some (s.event instantMax limits (.requestBodyFinished flag))
  | .read bytes =>
    if s.refusal = none then some (s.event instantMax limits (.read bytes)) else none
  | .call =>
    if s.refusal = none ∧ s.future = .absent then some { s with future := .waiting } else none
  | .enterHandler version =>
    if s.future = .waiting ∧ s.timed.clock.phase ≠ .write then
      some { s.event instantMax limits .enterHandler with
        future := .running
        reqVersion := (fromWire version).getD .http11 }
    else none
  | .reject =>
    if s.future = .running then
      some { s.event instantMax limits .reject with
        future := .absent
        wire := ⟨0, true, false⟩ :: s.wire }
    else none
  | .handOver out =>
    if s.future = .running then
      -- hyper never polls the body of a `HEAD` response, nor an empty one
      let ended := out.isHeadRequest || PhaseClock.endsAtOnce out.body
      some { s.event instantMax limits (.handOver out) with
        future := .absent
        wire := ⟨0, ended, false⟩ :: s.wire
        outBody := !ended }
    else none
  | .refuse =>
    if s.refusal = none ∧ s.future = .absent then some { s with refusal := some 0 } else none
  | .writeInterim n => some (s.event instantMax limits (.write n))
  | .writeFinal k n =>
    match s.wire[k]? with
    | some r =>
      if r.complete then none
      else some { s.event instantMax limits (.write n) with
        wire := s.wire.set k { r with bytes := r.bytes + n } }
    | none => none
  | .writeRefusal n =>
    match s.refusal with
    | some m => some { s.event instantMax limits (.write n) with refusal := some (m + n) }
    | none => none
  | .bodyEnd =>
    match s.outBody, s.wire with
    | true, r :: rest =>
      some { s.event instantMax limits .bodyEnd with
        wire := { r with ended := true } :: rest
        outBody := false }
    | _, _ => none
  | .bodyFail =>
    -- the error that the body gives hyper ends its future
    if s.outBody then
      some { s.event instantMax limits .bodyEnd with outBody := false, resolved := true }
    else none
  | .flush => some { s.event instantMax limits .flush with wire := s.wire.map Final.flushed }
  | .resolve upgraded =>
    let clock := if upgraded then s.timed.clock.detach else s.timed.clock
    some { s with timed := { s.timed with clock := clock }, resolved := true }

/-- Nothing happens once hyper's future is done or the watchdog has
returned. -/
def act (s : Serving) (a : ServeAction) : Option Serving :=
  if s.resolved then none
  else
    match s.timed.dog with
    | .returned _ => none
    | _ => s.next instantMax limits ripe a

def run (s : Serving) : List ServeAction → Option Serving
  | [] => some s
  | a :: rest => (s.act instantMax limits ripe a).bind fun s' => run s' rest

end Actions

/-! ## 2. The clock and the wire -/

/-- What ties the clock to the responses. Outside of `Write` all of them are on
the wire as a whole; in `Write` only the last one may be open, and the clock
knows whether its body has ended. -/
structure Wired (c : PhaseClock) (future : ServiceFuture) (wire : List Final) (outBody : Bool)
    (refusal : Option Nat) : Prop where
  past : ∀ r ∈ wire.tail, r.complete = true
  quiet : c.phase ≠ .write → ∀ r ∈ wire, r.complete = true
  ended : ∀ r ∈ wire, r.complete = false → r.ended = c.bodyDone
  outBody : outBody = true → c.phase = .write ∧ c.bodyDone = false
  running : future = .running ↔ c.phase = .handler
  fresh : c.phase = .handler → c.bodyDone = false ∧ c.wroteBytes = false
  /-- A refused head leaves no future behind, and in `Head` its answer is seen
  by the clock. -/
  refused : ∀ n, refusal = some n →
    future = .absent ∧ (c.phase = .head → 0 < n → c.wroteBytes = true)

theorem Wired.start (now : Nat) : Wired (.new .idle now) .absent [] false none where
  past := by intro r h; cases h
  quiet := by intro _ r h; cases h
  ended := by intro r h; cases h
  outBody := by intro h; cases h
  running := by simp [PhaseClock.new]
  fresh := by intro h; cases h
  refused := by intro n h; cases h

section Events

variable {c : PhaseClock} {future : ServiceFuture} {wire : List Final} {outBody : Bool}
  {refusal : Option Nat} {instantMax : Nat} {limits : Timeouts} {now : Nat}

/-- A clock that finds every response on the wire as a whole. -/
theorem Wired.between (hwire : ∀ r ∈ wire, r.complete = true)
    (hrunning : future = .running ↔ c.phase = .handler)
    (hfresh : c.phase = .handler → c.bodyDone = false ∧ c.wroteBytes = false)
    (hrefused : ∀ n, refusal = some n →
      future = .absent ∧ (c.phase = .head → 0 < n → c.wroteBytes = true)) :
    Wired c future wire false refusal where
  past := fun r hr => hwire r (List.mem_of_mem_tail hr)
  quiet := fun _ => hwire
  ended := by
    intro r hr hopen
    rw [hwire r hr] at hopen
    cases hopen
  outBody := by intro h; cases h
  running := hrunning
  fresh := hfresh
  refused := hrefused

theorem Wired.outBody_eq_false (h : Wired c future wire outBody refusal)
    (hphase : c.phase ≠ .write ∨ c.bodyDone = true) : outBody = false := by
  cases hout : outBody with
  | false => rfl
  | true =>
    obtain ⟨hwrite, hdone⟩ := h.outBody hout
    rcases hphase with hne | htrue
    · exact absurd hwrite hne
    · rw [hdone] at htrue
      cases htrue

theorem Wired.not_running (h : Wired c future wire outBody refusal) (hphase : c.phase ≠ .handler) :
    future ≠ .running := fun hrun => hphase (h.running.1 hrun)

theorem Wired.requestBodyFinished (h : Wired c future wire outBody refusal) (flag : Nat) :
    Wired (c.noteRequestBodyFinished flag) future wire outBody refusal :=
  ⟨h.past, h.quiet, h.ended, h.outBody, h.running, h.fresh, h.refused⟩

/-- A read begins a head only between responses. -/
theorem Wired.read (h : Wired c future wire outBody none) (hc : c.detached = false)
    (bytes : Bytes) : Wired (c.noteRead bytes now) future wire outBody none := by
  unfold PhaseClock.noteRead
  split
  · next hidle =>
    have hphase := (PhaseClock.set_spec hc .head now).1
    have hnot : c.phase ≠ .write := by simp [hidle.1]
    obtain rfl := h.outBody_eq_false (.inl hnot)
    refine .between (h.quiet hnot) ?_ ?_ ?_
    · have hrun := h.not_running (by simp [hidle.1])
      simp [hphase, hrun]
    · intro hhandler
      rw [hphase] at hhandler
      cases hhandler
    · intro n hn
      cases hn
  · exact h

/-- A write moves no phase, and one in `Head` is remembered: so the bytes of
the answer to a refused head are. -/
theorem Wired.write (h : Wired c future wire outBody refusal) (hc : c.detached = false) (n : Nat)
    {refusal' : Option Nat}
    (hrefusal : ∀ m', refusal' = some m' → ∃ m, refusal = some m ∧ (0 < m' → 0 < m ∨ 0 < n)) :
    Wired (c.noteWritten n now) future wire outBody refusal' := by
  obtain ⟨hphase, hdone, hwrote⟩ := PhaseClock.noteWritten_spec hc n now
  refine ⟨h.past, ?_, ?_, ?_, ?_, ?_, ?_⟩
  · rw [hphase]
    exact h.quiet
  · rw [hdone]
    exact h.ended
  · rw [hphase, hdone]
    exact h.outBody
  · rw [hphase]
    exact h.running
  · intro hhandler
    rw [hphase] at hhandler
    obtain ⟨hd, hw⟩ := h.fresh hhandler
    rw [hdone, hwrote, hd, hw, hhandler]
    simp
  · intro m' hm'
    obtain ⟨m, hm, hpos⟩ := hrefusal m' hm'
    obtain ⟨habsent, hseen⟩ := h.refused m hm
    refine ⟨habsent, ?_⟩
    intro hhead hm'pos
    rw [hphase] at hhead
    rw [hwrote]
    rcases hpos hm'pos with hmpos | hnpos
    · rw [hseen hhead hmpos]
      rfl
    · simp [hnpos, hhead]

/-- Bytes of an open response change nothing that the clock is tied to. -/
theorem Wired.bytes (h : Wired c future wire outBody refusal) {k : Nat} {r : Final}
    (hr : wire[k]? = some r) (n : Nat) :
    Wired c future (wire.set k { r with bytes := r.bytes + n }) outBody refusal := by
  -- the changed list has the flags of the old one
  have hflags : ∀ r' ∈ wire.set k { r with bytes := r.bytes + n },
      ∃ r₀ ∈ wire, r'.ended = r₀.ended ∧ r'.complete = r₀.complete := by
    intro r' hr'
    rcases List.mem_or_eq_of_mem_set hr' with hmem | rfl
    · exact ⟨r', hmem, rfl, rfl⟩
    · exact ⟨r, List.mem_of_getElem? hr, rfl, rfl⟩
  refine ⟨?_, ?_, ?_, h.outBody, h.running, h.fresh, h.refused⟩
  · intro r' hr'
    cases wire with
    | nil => cases hr'
    | cons r₀ rest =>
      cases k with
      | zero => exact h.past r' hr'
      | succ k =>
        rcases List.mem_or_eq_of_mem_set hr' with hmem | rfl
        · exact h.past r' hmem
        · exact h.past r (List.mem_of_getElem? hr)
  · intro hphase r' hr'
    obtain ⟨r₀, hmem, -, hcomplete⟩ := hflags r' hr'
    rw [hcomplete]
    exact h.quiet hphase r₀ hmem
  · intro r' hr' hopen
    obtain ⟨r₀, hmem, hended, hcomplete⟩ := hflags r' hr'
    rw [hcomplete] at hopen
    rw [hended]
    exact h.ended r₀ hmem hopen

/-- A flush leaves `Write` only with everything on the wire. -/
theorem Wired.flush (h : Wired c future wire outBody refusal) (hc : c.detached = false) :
    Wired (c.noteFlush now) future (wire.map Final.flushed) outBody refusal := by
  -- a flush completes a response or leaves it
  have hflushed : ∀ r : Final, r.flushed.complete = false →
      r.complete = false ∧ r.ended = false ∧ r.flushed = r := by
    intro r hr
    unfold Final.flushed at hr ⊢
    cases hended : r.ended <;> simp_all
  have hkeep : ∀ r : Final, r.complete = true → r.flushed.complete = true := by
    intro r hr
    by_contra hopen
    have hfalse := (hflushed r (Bool.eq_false_iff.2 hopen)).1
    rw [hr] at hfalse
    cases hfalse
  rw [PhaseClock.noteFlush_spec hc]
  split
  · next hdone =>
    obtain ⟨hphase, -, -, -, -, -⟩ := PhaseClock.set_spec hc .idle now
    obtain rfl := h.outBody_eq_false (.inr hdone.2)
    refine .between ?_ ?_ ?_ ?_
    · intro r hr
      obtain ⟨r₀, hmem, rfl⟩ := List.mem_map.1 hr
      by_contra hopen
      obtain ⟨hr₀, hended, -⟩ := hflushed r₀ (Bool.eq_false_iff.2 hopen)
      have heq := h.ended r₀ hmem hr₀
      rw [hended, hdone.2] at heq
      cases heq
    · have hrun := h.not_running (by simp [hdone.1])
      simp [hphase, hrun]
    · intro hhandler
      rw [hphase] at hhandler
      cases hhandler
    · intro n hn
      refine ⟨(h.refused n hn).1, ?_⟩
      intro hhead
      rw [hphase] at hhead
      cases hhead
  · refine ⟨?_, ?_, ?_, h.outBody, h.running, h.fresh, h.refused⟩
    · rw [← List.map_tail]
      intro r hr
      obtain ⟨r₀, hmem, rfl⟩ := List.mem_map.1 hr
      exact hkeep r₀ (h.past r₀ hmem)
    · intro hphase r hr
      obtain ⟨r₀, hmem, rfl⟩ := List.mem_map.1 hr
      exact hkeep r₀ (h.quiet hphase r₀ hmem)
    · intro r hr hopen
      obtain ⟨r₀, hmem, rfl⟩ := List.mem_map.1 hr
      obtain ⟨hr₀, -, heq⟩ := hflushed r₀ hopen
      rw [heq]
      exact h.ended r₀ hmem hr₀

/-- The end of the body that hyper holds is the end of the last response's. -/
theorem Wired.bodyEnd {r : Final} {rest : List Final}
    (h : Wired c future (r :: rest) true refusal) :
    Wired c.noteBodyEnd future ({ r with ended := true } :: rest) false refusal := by
  obtain ⟨hwrite, -⟩ := h.outBody rfl
  refine ⟨h.past, ?_, ?_, ?_, h.running, ?_, h.refused⟩
  · intro hphase
    exact absurd hwrite hphase
  · intro r' hr' hopen
    rcases List.mem_cons.1 hr' with rfl | hmem
    · rfl
    · rw [h.past r' hmem] at hopen
      cases hopen
  · intro hout
    cases hout
  · intro hhandler
    have hboth : Phase.write = .handler := hwrite.symm.trans hhandler
    cases hboth

/-- `leave_write` lets a call through only outside of `Write`, so nothing of an
earlier response is open when its flags are reset. -/
theorem Wired.enterHandler (h : Wired c .waiting wire outBody refusal) (hc : c.detached = false)
    (hphase : c.phase ≠ .write) :
    Wired (c.enterHandler instantMax limits now) .running wire outBody refusal := by
  obtain ⟨hset, -, -, -, hdone, hwrote⟩ := PhaseClock.set_spec hc .handler now
  obtain rfl := h.outBody_eq_false (.inl hphase)
  refine .between (h.quiet hphase) ?_ ?_ ?_
  · exact ⟨fun _ => hset, fun _ => rfl⟩
  · exact fun _ => ⟨hdone, hwrote⟩
  · intro n hn
    cases (h.refused n hn).1

/-- A response is handed over with nothing else open. -/
theorem Wired.opened (h : Wired c .running wire outBody refusal) (ended : Bool) {c' : PhaseClock}
    (hphase : c'.phase = .write) (hdone : c'.bodyDone = ended) :
    Wired c' .absent (⟨0, ended, false⟩ :: wire) (!ended) refusal := by
  have hhandler := h.running.1 rfl
  have hwire := h.quiet (by simp [hhandler])
  refine ⟨hwire, ?_, ?_, ?_, ?_, ?_, ?_⟩
  · intro hnot
    exact absurd hphase hnot
  · intro r hr hopen
    rcases List.mem_cons.1 hr with rfl | hmem
    · exact hdone.symm
    · rw [hwire r hmem] at hopen
      cases hopen
  · intro hout
    refine ⟨hphase, ?_⟩
    rw [hdone]
    simpa using hout
  · simp [hphase]
  · intro hh
    rw [hphase] at hh
    cases hh
  · intro n hn
    cases (h.refused n hn).1

end Events

/-! ## 3. Whole runs -/

/-- What holds while a connection is served. -/
structure Inv (limits : Timeouts) (s : Serving) : Prop where
  timed : s.timed.Inv limits
  reported : ∀ p, s.timed.dog = .returned p → s.timed.clock.phase = p
  wired : Wired s.timed.clock s.future s.wire s.outBody s.refusal

theorem Inv.start (limits : Timeouts) (now : Nat) : Inv limits (Serving.start now) where
  timed := .start limits now
  reported := by intro p h; cases h
  wired := .start now

section Runs

variable {instantMax : Nat} {limits : Timeouts} {ripe : Nat → Nat → Nat → Bool}

/-- An event, with what it does to the rest of the state. -/
theorem Inv.event {s s' : Serving} (h : Inv limits s) (hrunning : ∀ p, s.timed.dog ≠ .returned p)
    (e : ClockEvent) (htimed : s'.timed = s.timed.event instantMax limits e)
    (hwired : Wired (e.apply instantMax limits s.timed.now s.timed.clock) s'.future s'.wire
      s'.outBody s'.refusal) : Inv limits s' where
  timed := by
    rw [htimed]
    exact h.timed.event instantMax e
  reported := by
    intro p hp
    rw [htimed] at hp
    exact absurd hp (hrunning p)
  wired := by
    rw [htimed]
    exact hwired

/-- Waiting and polling leave the clock. -/
theorem clock_of_act {t t' : Timed} {a : TimedAction}
    (ha : t.act instantMax limits ripe a = some t') (hevent : ∀ e, a ≠ .event e) :
    t'.clock = t.clock := by
  obtain ⟨-, ⟨till, -, -, rfl⟩ | ⟨e, he, -⟩ | ⟨expired, -, -, rfl⟩⟩ := Timed.act_cases ha
  · rfl
  · exact absurd he (hevent e)
  · rfl

/-- Waiting and polling keep the invariant, and a phase that is reported is the
clock's. -/
theorem Inv.timedAct {s s' : Serving} (h : Inv limits s) {a : TimedAction}
    (ha : (s.timed.act instantMax limits ripe a).map (fun t => { s with timed := t }) = some s')
    (hevent : ∀ e, a ≠ .event e) : Inv limits s' := by
  obtain ⟨t, ht, rfl⟩ := Option.map_eq_some_iff.1 ha
  refine ⟨h.timed.act ht, ?_, ?_⟩
  · intro p hp
    exact (Timed.act_reported h.timed ht hp).phase
  · show Wired t.clock s.future s.wire s.outBody s.refusal
    rw [clock_of_act ht hevent]
    exact h.wired

/-- One action keeps the invariant. -/
theorem Inv.next {s s' : Serving} (h : Inv limits s) (hrunning : ∀ p, s.timed.dog ≠ .returned p)
    {a : ServeAction} (ha : s.next instantMax limits ripe a = some s') (hs' : s'.resolved = false) :
    Inv limits s' := by
  have hc := h.timed.attached
  cases a with
  | wait till => exact h.timedAct ha (by intro e he; cases he)
  | poll expired => exact h.timedAct ha (by intro e he; cases he)
  | requestBodyFinished flag =>
    obtain rfl := Option.some.inj ha
    exact h.event hrunning (.requestBodyFinished flag) rfl (h.wired.requestBodyFinished flag)
  | read bytes =>
    simp only [Serving.next] at ha
    split_ifs at ha with hrefusal
    obtain rfl := Option.some.inj ha
    have hwired := h.wired
    rw [hrefusal] at hwired
    refine h.event hrunning (.read bytes) rfl ?_
    show Wired _ s.future s.wire s.outBody s.refusal
    rw [hrefusal]
    exact hwired.read hc bytes
  | call =>
    simp only [Serving.next] at ha
    split_ifs at ha with hidle
    obtain rfl := Option.some.inj ha
    refine ⟨h.timed, h.reported, ?_⟩
    have hw := h.wired
    rw [hidle.2] at hw
    refine ⟨hw.past, hw.quiet, hw.ended, hw.outBody, ?_, hw.fresh, ?_⟩
    · rw [← hw.running]
      simp
    · intro n hn
      have hnone : s.refusal = some n := hn
      rw [hidle.1] at hnone
      cases hnone
  | enterHandler version =>
    simp only [Serving.next] at ha
    split_ifs at ha with hleft
    obtain rfl := Option.some.inj ha
    have hwired := h.wired
    rw [hleft.1] at hwired
    exact h.event hrunning .enterHandler rfl (hwired.enterHandler hc hleft.2)
  | reject =>
    simp only [Serving.next] at ha
    split_ifs at ha with hrun
    obtain rfl := Option.some.inj ha
    have hwired := h.wired
    rw [hrun] at hwired
    have hout := hwired.outBody_eq_false (.inl (by simp [hwired.running.1 rfl]))
    refine h.event hrunning .reject rfl ?_
    show Wired (s.timed.clock.reject s.timed.now) .absent (⟨0, true, false⟩ :: s.wire) s.outBody
      s.refusal
    rw [hout, PhaseClock.reject_eq]
    exact hwired.opened true (PhaseClock.set_spec hc .write _).1 rfl
  | handOver out =>
    simp only [Serving.next] at ha
    split_ifs at ha with hrun
    obtain rfl := Option.some.inj ha
    have hwired := h.wired
    rw [hrun] at hwired
    have hfresh := (hwired.fresh (hwired.running.1 rfl)).1
    refine h.event hrunning (.handOver out) rfl ?_
    obtain ⟨hphase, -, -, -, hdone, -⟩ := PhaseClock.set_spec hc .write s.timed.now
    refine hwired.opened (out.isHeadRequest || PhaseClock.endsAtOnce out.body) ?_ ?_
    · show (s.timed.clock.handOver out s.timed.now).phase = .write
      rw [PhaseClock.handOver_eq]
      exact hphase
    · show (s.timed.clock.handOver out s.timed.now).bodyDone = _
      rw [PhaseClock.handOver_eq, hdone, hfresh]
      simp
  | refuse =>
    simp only [Serving.next] at ha
    split_ifs at ha with hidle
    obtain rfl := Option.some.inj ha
    refine ⟨h.timed, h.reported, ?_⟩
    have hw := h.wired
    refine ⟨hw.past, hw.quiet, hw.ended, hw.outBody, hw.running, hw.fresh, ?_⟩
    intro n hn
    obtain rfl := Option.some.inj hn
    exact ⟨hidle.2, fun _ hpos => absurd hpos (Nat.lt_irrefl 0)⟩
  | writeInterim n =>
    obtain rfl := Option.some.inj ha
    exact h.event hrunning (.write n) rfl (h.wired.write hc n fun m hm => ⟨m, hm, .inl⟩)
  | writeFinal k n =>
    simp only [Serving.next] at ha
    split at ha
    · next r hr =>
      split_ifs at ha
      obtain rfl := Option.some.inj ha
      exact h.event hrunning (.write n) rfl
        ((h.wired.write hc n fun m hm => ⟨m, hm, .inl⟩).bytes hr n)
    · cases ha
  | writeRefusal n =>
    simp only [Serving.next] at ha
    split at ha
    · next m hm =>
      obtain rfl := Option.some.inj ha
      refine h.event hrunning (.write n) rfl (h.wired.write hc n ?_)
      intro m' hm'
      obtain rfl := Option.some.inj hm'
      exact ⟨m, hm, fun hpos => by omega⟩
    · cases ha
  | bodyEnd =>
    simp only [Serving.next] at ha
    split at ha
    · next r rest hout hwire =>
      obtain rfl := Option.some.inj ha
      have hwired := h.wired
      rw [hout, hwire] at hwired
      exact h.event hrunning .bodyEnd rfl hwired.bodyEnd
    · cases ha
  | bodyFail =>
    simp only [Serving.next] at ha
    split_ifs at ha
    obtain rfl := Option.some.inj ha
    cases hs'
  | flush =>
    obtain rfl := Option.some.inj ha
    exact h.event hrunning .flush rfl (h.wired.flush hc)
  | resolve upgraded =>
    obtain rfl := Option.some.inj ha
    cases hs'

/-- A run keeps it, as long as hyper's future is not done. -/
theorem Inv.run {s s' : Serving} (h : s.resolved = false → Inv limits s)
    {actions : List ServeAction} (hrun : s.run instantMax limits ripe actions = some s') :
    s'.resolved = false → Inv limits s' := by
  induction actions generalizing s with
  | nil =>
    obtain rfl := Option.some.inj hrun
    exact h
  | cons a rest ih =>
    obtain ⟨mid, ha, hrest⟩ := Option.bind_eq_some_iff.1 hrun
    refine ih ?_ hrest
    intro hmid
    unfold Serving.act at ha
    split_ifs at ha with hs
    split at ha
    · cases ha
    · next hrunning => exact (h (by simpa using hs)).next hrunning ha hmid

/-- In `Handler` no byte of a final response is remembered as written: the
assertion of `serve` holds. -/
theorem handler_wrote_nothing {now : Nat} {actions : List ServeAction} {s : Serving}
    (hrun : (Serving.start now).run instantMax limits ripe actions = some s)
    (hs : s.resolved = false) (hphase : s.timed.clock.phase = .handler) :
    s.timed.clock.wroteBytes = false :=
  ((Inv.run (fun _ => .start limits now) hrun hs).wired.fresh hphase).2

/-- The bare 408 goes out only between responses: in every run, whenever `serve`
writes one, every response of which a byte has reached the transport is on the
wire as a whole, and no byte of an answer to a refused head has reached it. -/
theorem bare_408_only_between_responses {now : Nat} {actions : List ServeAction} {s : Serving}
    {version : Version}
    (hrun : (Serving.start now).run instantMax limits ripe actions = some s)
    (h408 : s.bare408 = some version) :
    (∀ r ∈ s.wire, 0 < r.bytes → r.complete = true) ∧ ∀ n, s.refusal = some n → n = 0 := by
  unfold Serving.bare408 at h408
  split_ifs at h408 with hresolved
  have hinv := Inv.run (fun _ => .start limits now) hrun (by simpa using hresolved)
  split at h408
  · next p hdog =>
    have hphase := hinv.reported p hdog
    have hw := hinv.wired
    -- only an expiry of `Head` or `Handler` with nothing written gets here
    cases p with
    | idle => cases h408
    | write => cases h408
    | head =>
      simp only [onExpiry] at h408
      split_ifs at h408 with hwrote
      refine ⟨fun r hr _ => hw.quiet (by simp [hphase]) r hr, ?_⟩
      intro n hn
      by_contra hpos
      exact hwrote ((hw.refused n hn).2 hphase (Nat.pos_of_ne_zero hpos))
    | handler =>
      refine ⟨fun r hr _ => hw.quiet (by simp [hphase]) r hr, ?_⟩
      intro n hn
      have habsent := (hw.refused n hn).1
      rw [hw.running.2 hphase] at habsent
      cases habsent
  · cases h408

end Runs

/-- A request is answered, the next one's head stalls. -/
def stalledHead : List ServeAction :=
  [.read [0x47], .call, .enterHandler .http11, .handOver ⟨false, false, .full [0x68, 0x69]⟩,
    .writeFinal 0 40, .bodyEnd, .writeFinal 0 2, .flush, .read [0x47], .poll false,
    .wait (10 * 10 ^ 9), .poll true]

theorem bare_408_after_a_response :
    ∃ s, (Serving.start 0).run (2 ^ 63) .default
        (Timed.deadlineRipe (2 ^ 63) (.new 0 (10 ^ 8))) stalledHead = some s ∧
      s.bare408 = some .http11 ∧ s.wire = [⟨42, true, true⟩] ∧
      (∀ r ∈ s.wire, 0 < r.bytes → r.complete = true) ∧ ∀ n, s.refusal = some n → n = 0 := by
  have hend : ((Serving.start 0).run (2 ^ 63) .default
      (Timed.deadlineRipe (2 ^ 63) (.new 0 (10 ^ 8))) stalledHead).map
        (fun s => (s.bare408, s.wire)) = some (some .http11, [⟨42, true, true⟩]) := by
    rw [Timed.deadlineRipe_eq]
    decide
  obtain ⟨s, hrun, hs⟩ := Option.map_eq_some_iff.1 hend
  obtain ⟨h408, hwire⟩ := Prod.mk.inj hs
  exact ⟨s, hrun, h408, hwire, bare_408_only_between_responses hrun h408⟩

end Serving

end ArmatureH1

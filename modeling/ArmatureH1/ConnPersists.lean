/-
ArmatureH1.ConnPersists — behind which responses a connection goes on.

A request is only ever taken up behind a response that keeps the connection
open, and so is an error response that is not the answer to a request of its
own. That matters where a response is delimited by the end of the connection:
nothing may follow it (`last_word`).

The invariant says what is known of the last answer wherever `serve` may turn
to the next request, and, on the way, that every error response has a status
which `reason_phrase` knows.
-/
import ArmatureH1.Handover

namespace ArmatureH1

open ByteString BodyState

/-! ## 1. Statuses of error responses -/

/-- An error that a client can read. -/
structure IsRefusal (status : Nat) : Prop where
  low : 400 ≤ status
  high : status ≤ 599
  phrase : reasonPhrase status ≠ []

theorem ParseError.isRefusal (e : ParseError) : IsRefusal e.status := by
  cases e <;> exact ⟨by decide, by decide, by decide⟩

theorem FramingError.isRefusal (e : FramingError) : IsRefusal e.status := by
  cases e <;> exact ⟨by decide, by decide, by decide⟩

theorem isRefusal_headTooLarge : IsRefusal 431 := ⟨by decide, by decide, by decide⟩

theorem isRefusal_timeout : IsRefusal 408 := ⟨by decide, by decide, by decide⟩

theorem isRefusal_unavailable : IsRefusal 503 := ⟨by decide, by decide, by decide⟩

theorem headRead_failed {limits : Limits} {started : Bool} {b : Bytes} {st st' : IoState}
    {status : Nat} (h : headRead limits started b st = (.failed status, st')) : status = 431 := by
  unfold headRead at h
  simp only at h
  split at h
  · cases h
  · split at h
    · cases h
      rfl
    · cases h

/-- An error response of `serve`. -/
structure Fault.Sound (env : Env) (f : Fault) : Prop where
  refusal : IsRefusal f.status
  dated : ∃ n, f.date = env.date n

namespace Conn

/-! ## 2. The invariant -/

/-- The response to a request, if it has one, keeps the connection open. -/
def Keeps (x : Exchange) : Prop := ∀ r, x.reply = some r → r.answer.keepAlive = true

/-- The last response keeps the connection open. -/
def LastKeeps (c : Conn) : Prop := ∀ x ∈ c.now, Keeps x

/-- What is known where `serve` may turn to the next request, or owes an
error response. -/
def Turning (c : Conn) : Pc → Prop
  | .reading _ | .flushing _ .read => LastKeeps c
  | .settling (.error _ status) => IsRefusal status
  | _ => True

structure Persists (env : Env) (c : Conn) : Prop where
  past : ∀ x ∈ c.past, Keeps x
  /-- An error response stands behind nothing that ends the connection. -/
  fault : ∀ f, c.fault = some f → f.Sound env ∧ LastKeeps c
  turning : Turning c c.pc

theorem lastKeeps_of_unanswered {c : Conn} (h : Unanswered c) : LastKeeps c := by
  obtain ⟨-, x, hx, hreply⟩ := h
  intro y hy r hr
  rw [hx] at hy
  cases hy
  rw [hreply] at hr
  cases hr

section Writing

variable {env : Env} {c : Conn}

/-- Nothing is known where nothing is to be known. -/
theorem persists_of_past (hpast : ∀ x ∈ c.past, Keeps x) (hfault : c.fault = none)
    (hturning : Turning c c.pc) : Persists env c where
  past := hpast
  fault f hf := by
    rw [hfault] at hf
    cases hf
  turning := hturning

theorem flushOr_persists {next : AfterFlush} {done : Conn} (hpast : ∀ x ∈ c.past, Keeps x)
    (hfault : c.fault = none) (hnext : next = .read → LastKeeps c) (hdone : Persists env done) :
    Persists env (flushOr next c done) := by
  unfold flushOr
  split
  · exact hdone
  · refine persists_of_past hpast hfault ?_
    cases next with
    | read => exact hnext rfl
    | _ => trivial

theorem writeErrorHead_persists (hpast : ∀ x ∈ c.past, Keeps x) (hlast : LastKeeps c)
    (version : Version) {status : Nat} (hstatus : IsRefusal status) :
    Persists env (writeErrorHead env version status c) := by
  have hfault : ∀ f, some (⟨version, status, env.date c.heads⟩ : Fault) = some f →
      f.Sound env ∧ LastKeeps c := by
    intro f hf
    cases hf
    exact ⟨⟨hstatus, c.heads, rfl⟩, hlast⟩
  unfold writeErrorHead flushOr
  simp only
  split
  · exact ⟨hpast, hfault, trivial⟩
  · exact ⟨hpast, hfault, trivial⟩

theorem writeError_persists (hpast : ∀ x ∈ c.past, Keeps x) (hfault : c.fault = none)
    (hlast : LastKeeps c) (version : Version) {status : Nat} (hstatus : IsRefusal status) :
    Persists env (writeError env version status c) := by
  unfold writeError settleContinue
  split
  · exact writeErrorHead_persists (c := c.dropContinue) hpast hlast version hstatus
  · split
    · exact writeErrorHead_persists hpast hlast version hstatus
    · exact persists_of_past hpast hfault hstatus

theorem callHandler_persists (hpast : ∀ x ∈ c.past, Keeps x) (hfault : c.fault = none) (h : Head)
    (kind : BodyKind) : Persists env (callHandler env h kind c) := by
  rw [callHandler_eq]
  unfold admitted
  simp only
  split
  · exact persists_of_past hpast hfault trivial
  · split
    · exact persists_of_past hpast hfault trivial
    · exact persists_of_past hpast hfault trivial

/-- The next request is taken up. -/
theorem startRequest_persists (hpast : ∀ x ∈ c.past, Keeps x) (hfault : c.fault = none)
    (hlast : LastKeeps c) : Persists env (startRequest env c) := by
  cases h : c.shared.io.headLength with
  | none =>
      unfold startRequest
      rw [h]
      exact persists_of_past hpast hfault trivial
  | some n =>
      rw [startRequest_eq env h]
      have hpast' : ∀ x ∈ (begun n c).past, Keeps x := by
        intro x hx
        rcases List.mem_append.mp hx with hx | hx
        · exact hpast x hx
        · exact hlast x (by simpa using hx)
      have hlast' : LastKeeps (begun n c) := by
        intro x hx r hr
        cases hx
        cases hr
      unfold judge
      split
      · rename_i e _
        exact writeError_persists hpast' hfault hlast' _ e.isRefusal
      · split
        · rename_i e _
          exact writeError_persists hpast' hfault hlast' _ e.isRefusal
        · exact callHandler_persists hpast' hfault _ _

theorem enterRead_persists (hpast : ∀ x ∈ c.past, Keeps x) (hfault : c.fault = none)
    (hlast : LastKeeps c) : Persists env (enterRead env c) := by
  unfold enterRead
  simp only
  split
  · exact startRequest_persists hpast hfault hlast
  · exact flushOr_persists hpast hfault (fun _ => hlast) (persists_of_past hpast hfault hlast)

/-- Only an answer that keeps the connection open leads on. -/
theorem dispose_persists (hpast : ∀ x ∈ c.past, Keeps x) (hfault : c.fault = none) {a : Answer}
    (hcarries : Carries a c) : Persists env (dispose env c a.disposition) := by
  unfold Answer.disposition
  split
  · unfold dispose
    simp only
    split <;> exact persists_of_past hpast hfault trivial
  · split
    · rename_i hkeep
      refine enterRead_persists hpast hfault fun x hx r hr => ?_
      obtain ⟨y, s, hy, hs, rfl⟩ := hcarries
      rw [hy] at hx
      cases hx
      rw [hs] at hr
      cases hr
      exact hkeep
    · exact persists_of_past hpast hfault trivial

theorem conclude_persists (hpast : ∀ x ∈ c.past, Keeps x) (hfault : c.fault = none) {a : Answer}
    (hcarries : Carries a c) : Persists env (conclude env a c) := by
  have hdispose : ∀ io : IoState, Persists env (dispose env (c.setIo io) a.disposition) := by
    intro io
    exact dispose_persists (c := c.setIo io) hpast hfault hcarries
  have hflush : ∀ io : IoState, Persists env
      (flushOr (.finish a) (c.setIo io) (dispose env (c.setIo io) a.disposition)) := by
    intro io
    exact flushOr_persists (c := c.setIo io) hpast hfault (by simp) (hdispose io)
  unfold conclude
  split
  · simp only
    split
    · exact hdispose _
    · exact hflush _
  · exact hflush c.shared.io

theorem respondHead_persists (hpast : ∀ x ∈ c.past, Keeps x) (hfault : c.fault = none)
    (hnow : c.now.isSome = true) (a : Answer) : Persists env (respondHead env a c) := by
  obtain ⟨x, hx⟩ := Option.isSome_iff_exists.mp hnow
  have hcarries : ∀ out pc, Carries a { c with
      out := out
      pc := pc
      heads := c.heads + 1
      now := c.now.map (Exchange.answer ⟨a, env.date c.heads, [], false⟩) } := by
    intro out pc
    exact ⟨_, _, by rw [hx]; rfl, rfl, rfl⟩
  unfold respondHead
  simp only
  split
  · split
    · refine conclude_persists ?_ ?_ (hcarries _ _)
      · exact hpast
      · exact hfault
    · refine conclude_persists ?_ ?_ (hcarries _ _)
      · exact hpast
      · exact hfault
    · refine flushOr_persists ?_ ?_ (by simp) (persists_of_past ?_ ?_ trivial)
      · exact hpast
      · exact hfault
      · exact hpast
      · exact hfault
  · refine conclude_persists ?_ ?_ (hcarries _ _)
    · exact hpast
    · exact hfault

theorem respond_persists (hpast : ∀ x ∈ c.past, Keeps x) (hfault : c.fault = none)
    (hnow : c.now.isSome = true) (call : Call) (resp : Response) :
    Persists env (respond env call resp c) := by
  have hanswered : ∀ (c' : Conn) (a : Answer), c'.past = c.past → c'.fault = c.fault →
      c'.now = c.now.map (Exchange.responded resp) → Persists env (respondHead env a c') := by
    intro c' a hp hf hn
    refine respondHead_persists (hp ▸ hpast) (hf ▸ hfault) ?_ a
    rw [hn]
    simpa using hnow
  unfold respond settleContinue
  simp only
  split
  · exact hanswered _ _ rfl rfl rfl
  · split
    · exact hanswered _ _ rfl rfl rfl
    · exact persists_of_past hpast hfault trivial

end Writing

/-! ## 3. One step -/

section Steps

variable {env : Env} {c : Conn}

/-- A step that leaves the history alone. -/
theorem Persists.moved (h : Persists env c) {c' : Conn} (hpast : c'.past = c.past)
    (hfault : c'.fault = c.fault) (hnow : c'.now = c.now) (hturning : Turning c' c'.pc) :
    Persists env c' where
  past := hpast ▸ h.past
  fault f hf := by
    obtain ⟨hsound, hlast⟩ := h.fault f (hfault ▸ hf)
    refine ⟨hsound, ?_⟩
    rw [LastKeeps, hnow]
    exact hlast
  turning := hturning

theorem Persists.failFlush (h : Persists env c) (next : AfterFlush) :
    Persists env (failFlush c next) := by
  cases next <;> exact h.moved rfl rfl rfl trivial

theorem stepFlushing_persists (h : Persists env c) (hout : OutputInv env c) (hkept : Kept c)
    {written : Nat} {next : AfterFlush} (hpc : c.pc = .flushing written next) (e : Event) :
    Persists env (stepFlushing env c written next e) := by
  have hplace := hout.place
  have hturning := h.turning
  rw [hpc] at hplace hturning
  unfold stepFlushing
  split
  · split
    · exact h.failFlush next
    · exact h
  · split
    · split
      · exact h.failFlush next
      · refine h.moved rfl rfl rfl ?_
        cases next with
        | read => exact hturning
        | _ => trivial
    · exact h
  · split
    · exact h
    · cases next with
      | read => exact h.moved rfl rfl rfl hturning
      | finish a =>
          have hidle : Idle c := hplace
          have hcarries : Carries a c := by
            rw [Kept, hpc] at hkept
            exact hkept
          exact dispose_persists (c := { c with out := [] }) h.past hidle.2.1 hcarries
      | _ => exact h.moved rfl rfl rfl trivial
  · split
    · exact h
    · exact h.failFlush next
  · exact h.failFlush next
  · exact h

theorem stepSettling_persists (h : Persists env c) (hout : OutputInv env c) {next : AfterSettle}
    (hpc : c.pc = .settling next) (e : Event) : Persists env (stepSettling env c next e) := by
  have hplace := hout.place
  have hturning := h.turning
  rw [hpc] at hplace hturning
  have hunanswered : Unanswered c := hplace.1.1
  have hlast : ∀ io : IoState, LastKeeps (c.record io) := by
    intro io x hx r hr
    obtain ⟨y, hy, rfl⟩ := Option.mem_map.mp hx
    exact lastKeeps_of_unanswered hunanswered y hy r hr
  have hrecord : ∀ (io : IoState) (pc : Pc), Turning { c.record io with pc := pc } pc →
      Persists env { c.record io with pc := pc } := fun io pc hpc' =>
    persists_of_past h.past hunanswered.1 hpc'
  have hstays : ∀ io : IoState, Turning (c.record io) c.pc := by
    intro io
    rw [hpc]
    cases next with
    | error => exact hturning
    | respond => trivial
  have hfail : ∀ io : IoState, Persists env (failSettle (c.record io) next) := by
    intro io
    cases next <;> exact hrecord io _ trivial
  unfold stepSettling
  split
  · split
    · exact persists_of_past h.past hunanswered.1 (hstays _)
    · cases next with
      | respond a =>
          refine respondHead_persists ?_ ?_ ?_ a
          · exact h.past
          · exact hunanswered.1
          · simpa [record] using unanswered_isSome hunanswered
      | error version status =>
          refine writeErrorHead_persists ?_ ?_ version hturning
          · exact h.past
          · exact hlast _
    · exact hfail _
  · cases next <;> exact h.moved rfl rfl rfl trivial
  · exact h

theorem stepReading_persists (h : Persists env c) (hout : OutputInv env c) {started : Bool}
    (hpc : c.pc = .reading started) (e : Event) : Persists env (stepReading env c started e) := by
  have hplace := hout.place
  have hlast := h.turning
  rw [hpc] at hplace hlast
  have hfault : c.fault = none := hplace.1.2.1
  unfold stepReading
  split
  · exact h.moved rfl rfl rfl trivial
  · split
    · exact h.moved rfl rfl rfl trivial
    · split
      · exact startRequest_persists (c := c.setIo _) h.past hfault hlast
      · rename_i hread
        refine writeError_persists ?_ ?_ ?_ _ ?_
        · exact h.past
        · exact hfault
        · exact hlast
        · rw [headRead_failed hread]
          exact isRefusal_headTooLarge
      · exact h.moved rfl rfl rfl hlast
  · split
    · exact writeError_persists h.past hfault hlast _ isRefusal_timeout
    · exact h.moved rfl rfl rfl trivial
  · exact h

theorem stepFirstPoll_persists (h : Persists env c) (hout : OutputInv env c) {call : Call}
    {held : Bytes} (hpc : c.pc = .firstPoll call held) (e : Event) :
    Persists env (stepFirstPoll env c call held e) := by
  have hplace := hout.place
  rw [hpc] at hplace
  obtain ⟨⟨hunanswered, -⟩, -⟩ := hplace
  unfold stepFirstPoll
  split
  · refine flushOr_persists ?_ ?_ (by simp) (persists_of_past ?_ ?_ trivial)
    · exact h.past
    · exact hunanswered.1
    · exact h.past
    · exact hunanswered.1
  · refine respond_persists ?_ ?_ ?_ call _
    · exact h.past
    · exact hunanswered.1
    · exact unanswered_isSome hunanswered
  · exact h.moved rfl rfl rfl trivial
  · exact h

theorem stepHandling_persists (h : Persists env c) (hout : OutputInv env c) {call : Call}
    (hpc : c.pc = .handling call) (e : Event) : Persists env (stepHandling env c call e) := by
  have hplace := hout.place
  rw [hpc] at hplace
  obtain ⟨⟨hunanswered, -⟩, -⟩ := hplace
  have hlast := lastKeeps_of_unanswered hunanswered
  unfold stepHandling
  split
  · exact respond_persists h.past hunanswered.1 (unanswered_isSome hunanswered) call _
  · exact h.moved rfl rfl rfl trivial
  · split
    · exact h
    · exact writeError_persists h.past hunanswered.1 hlast _ isRefusal_timeout
  · exact writeError_persists h.past hunanswered.1 hlast _ isRefusal_unavailable
  · exact h

theorem stepStreaming_persists (h : Persists env c) (hout : OutputInv env c) {a : Answer}
    {parked : Bool} (hpc : c.pc = .streaming a parked) (e : Event) :
    Persists env (stepStreaming env c a parked e) := by
  have hplace := hout.place
  rw [hpc] at hplace
  obtain ⟨⟨-, hfault, x, r, hx, hr, ha, -⟩, -⟩ := hplace
  unfold stepStreaming
  split
  · split
    · exact h
    · exact flushOr_persists h.past hfault (by simp) (persists_of_past h.past hfault trivial)
  · simp only
    split
    · refine flushOr_persists ?_ ?_ (by simp) (persists_of_past ?_ ?_ trivial)
      · exact h.past
      · exact hfault
      · exact h.past
      · exact hfault
    · exact persists_of_past h.past hfault trivial
  · exact flushOr_persists h.past hfault (by simp) (persists_of_past h.past hfault trivial)
  · refine conclude_persists ?_ ?_ ⟨Exchange.onReply Reply.finish x, r.finish, ?_, ?_, ha⟩
    · exact h.past
    · exact hfault
    · simp [addEnd, hx]
    · simp [Exchange.onReply, hr]
  · exact h.moved rfl rfl rfl trivial
  · split
    · exact h.moved rfl rfl rfl trivial
    · exact h
  · exact h

/-- Polling a body tells nothing about the answer. -/
theorem Persists.polled (h : Persists env c) {c' : Conn} {r : PollChunk} {sent : Bytes}
    {unanswered : Bool} (hpast : c'.past = c.past) (hfault : c'.fault = c.fault)
    (hnow : c'.now = c.now.map (Exchange.polled r sent unanswered)) (hpc : c'.pc = c.pc) :
    Persists env c' := by
  have hlast : LastKeeps c → LastKeeps c' := by
    intro hlast x hx reply hr
    rw [hnow] at hx
    obtain ⟨y, hy, rfl⟩ := Option.mem_map.mp hx
    exact hlast y hy reply hr
  refine ⟨hpast ▸ h.past, fun f hf => ?_, ?_⟩
  · obtain ⟨hsound, hkeeps⟩ := h.fault f (hfault ▸ hf)
    exact ⟨hsound, hlast hkeeps⟩
  · have hturning := h.turning
    rw [hpc]
    cases hat : c.pc with
    | reading => rw [hat] at hturning; exact hlast hturning
    | flushing written next =>
        rw [hat] at hturning
        cases next with
        | read => exact hlast hturning
        | _ => trivial
    | settling next =>
        rw [hat] at hturning
        cases next with
        | error => exact hturning
        | respond => trivial
    | _ => trivial

theorem stepBody_persists (h : Persists env c) (b : BodyState) (op : BodyOp) :
    Persists env (stepBody c b op) := by
  cases op with
  | poll a => exact h.polled rfl rfl rfl rfl
  | abandon =>
      simp only [stepBody]
      split
      · exact h
      · exact h.polled rfl rfl rfl rfl
  | drop => exact ⟨h.past, h.fault, h.turning⟩

theorem stepStale_persists (h : Persists env c) (i : Nat) (b : BodyState) (op : BodyOp) :
    Persists env (stepStale c i b op) := by
  cases op with
  | poll a => exact ⟨h.past, h.fault, h.turning⟩
  | abandon =>
      simp only [stepStale]
      split
      · exact h
      · exact ⟨h.past, h.fault, h.turning⟩
  | drop => exact ⟨h.past, h.fault, h.turning⟩

/-- What one step preserves. -/
theorem step_persists (h : Persists env c) (hout : OutputInv env c) (hkept : Kept c) (e : Event) :
    Persists env (step env c e) := by
  have hloop : Persists env (stepPc env c e) := by
    unfold stepPc
    split
    · rename_i hpc; exact stepReading_persists h hout hpc e
    · rename_i hpc; exact stepFlushing_persists h hout hkept hpc e
    · rename_i hpc; exact stepSettling_persists h hout hpc e
    · rename_i hpc; exact stepFirstPoll_persists h hout hpc e
    · rename_i hpc; exact stepHandling_persists h hout hpc e
    · rename_i hpc; exact stepStreaming_persists h hout hpc e
    · exact h
  cases e with
  | body op =>
      unfold step
      cases c.current with
      | none => exact h
      | some b =>
          simp only
          split
          · exact stepBody_persists h b op
          · exact h
  | staleBody i op =>
      unfold step
      simp only
      cases c.stale[i]? with
      | none => exact h
      | some b =>
          simp only
          split
          · exact h
          · exact stepStale_persists h i b op
  | _ => exact hloop

end Steps

/-! ## 4. Every run -/

theorem init_persists (env : Env) (buffered : Bytes) : Persists env (init env buffered) := by
  refine enterRead_persists ?_ rfl ?_
  · intro x hx
    cases hx
  · intro x hx
    cases hx

/-- What a whole run preserves. -/
theorem run_persists (env : Env) (buffered : Bytes) (events : List Event) :
    Persists env (run env buffered events) := by
  induction events using List.reverseRecOn with
  | nil => exact init_persists env buffered
  | append_singleton events e ih =>
      rw [run_append_singleton]
      by_cases hlive : Live (run env buffered events)
      · exact step_persists ih (run_out_of_live env buffered events hlive)
          (run_kept env buffered events hlive) e
      · obtain ⟨r, hr⟩ : ∃ r, (run env buffered events).pc = .ended r := by
          by_contra hno
          exact hlive fun r hr => hno ⟨r, hr⟩
        rw [step_of_ended env hr]
        exact ih

end Conn

end ArmatureH1

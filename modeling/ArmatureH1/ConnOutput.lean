/-
ArmatureH1.ConnOutput — what goes out, and in which order.

The transport has accepted a beginning of `wire`: for each request in turn
its interim response, if one was sent, and its response, and an error
response last. What is missing is in the loop's hands, in `out`, behind the
part of `out` that is written, or in the output held while a handler is
first polled. An interim response goes straight to the transport, so the
loop holds nothing whenever one can be written.
-/
import ArmatureH1.ConnInput

namespace ArmatureH1

open ByteString BodyState

/-! ## 1. The wire -/

/-- A response is complete unless its stream has not ended. -/
def Reply.Complete (r : Reply) : Prop :=
  r.answer.writesBody = true → r.answer.body = .stream → r.ended = true

/-- Only a stream that is written is read to its end. -/
def Reply.Drawn (r : Reply) : Prop :=
  r.ended = true → r.answer.writesBody = true ∧ r.answer.body = .stream

/-- The answer is what `write_response` makes of the response that the
request's handler gave. -/
def Exchange.Makes (env : Env) (x : Exchange) (a : Answer) : Prop :=
  ∃ h kind resp consumed, verdict env x.request.head = some (h, kind) ∧ x.response = some resp ∧
    a = Answer.of env.serverName (Call.ofHead h) resp consumed

/-- The reply is the one that the request's handler gave, dated by the clock. -/
structure Made (env : Env) (x : Exchange) (r : Reply) : Prop where
  answer : x.Makes env r.answer
  drawn : r.Drawn
  dated : ∃ n, r.date = env.date n

/-- `Entry env x p` is what the history holds about a request. Of its
interim response `p` bytes are owed and the rest has been sent, or it was
dropped unsent; it is only ever sent to a client that asked for it and whose
body was polled first. And its reply is the one its handler gave. -/
structure Entry (env : Env) (x : Exchange) (p : Nat) : Prop where
  bound : p ≤ continueBytes.length
  sent : (x.interim = [] ∧ p = 0) ∨ x.interim = continueBytes.take (continueBytes.length - p)
  asked : p ≠ 0 ∨ x.interim ≠ [] →
    ∃ h kind, verdict env x.request.head = some (h, kind) ∧ (Call.ofHead h).expectsContinue = true
  polled : x.interim ≠ [] → x.polledFirst = true
  made : ∀ r, x.reply = some r → Made env x r

/-- The request has a complete response. -/
def Exchange.Answered (x : Exchange) : Prop := ∃ r, x.reply = some r ∧ r.Complete

namespace Conn

def sent (c : Conn) : Bytes := c.shared.io.io.sent

def pending (c : Conn) : Nat := c.shared.io.pendingContinue

/-- Everything that goes out, in order. -/
def wire (c : Conn) : Bytes :=
  c.past.flatMap Exchange.wire ++ c.now.toList.flatMap Exchange.wire
    ++ (c.fault.map Fault.bytes).getD []

/-- What the loop still holds. -/
def unsent (c : Conn) : Bytes :=
  match c.pc with
  | .flushing written _ => c.out.drop written
  | .firstPoll _ held => held ++ c.out
  | _ => c.out

/-- Nothing is owed to the current request. -/
def Idle (c : Conn) : Prop := c.pending = 0 ∧ c.fault = none ∧ ∀ x ∈ c.now, x.Answered

/-- The current request has no response yet. -/
def Unanswered (c : Conn) : Prop := c.fault = none ∧ ∃ x, c.now = some x ∧ x.reply = none

/-- The current request was accepted and is the handler's. -/
def Serving (env : Env) (c : Conn) (call : Call) : Prop :=
  Unanswered c ∧ ∀ x ∈ c.now, ∃ h kind, verdict env x.request.head = some (h, kind) ∧
    call = Call.ofHead h

/-- An interim response that was begun is being finished. -/
def Settling (c : Conn) : Prop :=
  Unanswered c ∧ c.out = [] ∧ ∀ x ∈ c.now, x.polledFirst = true

/-- The response of the current request is being streamed. -/
def Streaming (c : Conn) (a : Answer) : Prop :=
  c.pending = 0 ∧ c.fault = none ∧ ∃ x r, c.now = some x ∧ x.reply = some r ∧ r.answer = a ∧
    r.ended = false ∧ a.writesBody = true ∧ a.body = .stream

/-- The current request has its complete response, or none and an error
response in its place, or one whose stream broke off. -/
def Over (c : Conn) : Prop :=
  ∀ x ∈ c.now, x.Answered ∨ (x.reply = none ∧ c.fault ≠ none) ∨
    (c.fault = none ∧ ∃ r, x.reply = some r ∧ r.answer.body = .stream ∧ r.ended = false)

/-- What the place where the loop waits says about the output. -/
def Place (env : Env) (c : Conn) : Pc → Prop
  | .reading _ => Idle c ∧ c.out = []
  | .flushing _ .read => Idle c
  | .flushing _ (.finish _) => Idle c
  | .flushing _ (.call call) => Serving env c call
  | .flushing _ (.wait call) => Serving env c call ∧ c.pending = 0
  | .firstPoll call _ => Serving env c call ∧ c.pending = 0 ∧ c.out = []
  | .handling call => Serving env c call ∧ c.out = []
  | .settling next => Settling c ∧ ∀ a, next = .respond a → ∀ x ∈ c.now, x.Makes env a
  | .flushing _ (.stream a _) => Streaming c a
  | .streaming a parked => Streaming c a ∧ (parked = true → c.out = [])
  | .flushing _ .close => c.pending = 0 ∧ Over c
  | .flushing _ .errorWritten => c.pending = 0 ∧ Over c
  | .ended .closed => c.out = [] ∧ c.pending = 0 ∧ Over c
  | .ended (.upgraded _) => c.out = [] ∧ Idle c
  | .ended .ioError => c.pending = 0
  | .ended .panicked => Unanswered c ∨ c.pending = 0

/-- What was sent and what is held make up the wire. A panic takes what was
held with it. -/
def Balanced (c : Conn) : Prop :=
  match c.pc with
  | .ended .panicked => c.sent <+: c.wire
  | _ => c.sent ++ c.unsent = c.wire

/-- The invariant of the loop's output. -/
structure OutputInv (env : Env) (c : Conn) : Prop where
  balanced : Balanced c
  past : ∀ x ∈ c.past, Entry env x 0 ∧ x.Answered
  now : ∀ x ∈ c.now, Entry env x c.pending
  place : Place env c c.pc

/-- The invariant between waits, when all that is held is in `out`. -/
structure Core (env : Env) (c : Conn) : Prop where
  bytes : c.sent ++ c.out = c.wire
  past : ∀ x ∈ c.past, Entry env x 0 ∧ x.Answered
  now : ∀ x ∈ c.now, Entry env x c.pending

theorem Core.inv {env : Env} {c : Conn} (h : Core env c) (hunsent : c.unsent = c.out)
    (hplace : Place env c c.pc) (hpanic : c.pc ≠ .ended .panicked) : OutputInv env c where
  balanced := by
    unfold Balanced
    split
    · rename_i hpc; exact absurd hpc hpanic
    · rw [hunsent]; exact h.bytes
  past := h.past
  now := h.now
  place := hplace

/-! ## 2. Errors -/

theorem wire_of_now {c : Conn} {x : Exchange} (h : c.now = some x) :
    c.wire = c.past.flatMap Exchange.wire ++ x.wire ++ (c.fault.map Fault.bytes).getD [] := by
  simp [wire, h]

theorem Idle.over {c : Conn} (h : Idle c) : Over c := fun x hx => Or.inl (h.2.2 x hx)

/-- A request that an error response can still be written for: it has no
response, or its own complete one. -/
def Unbegun (c : Conn) : Prop := c.fault = none ∧ ∀ x ∈ c.now, x.Answered ∨ x.reply = none

theorem Idle.unbegun {c : Conn} (h : Idle c) : Unbegun c :=
  ⟨h.2.1, fun x hx => Or.inl (h.2.2 x hx)⟩

theorem Unanswered.unbegun {c : Conn} (h : Unanswered c) : Unbegun c := by
  obtain ⟨hfault, x, hnow, hreply⟩ := h
  refine ⟨hfault, fun y hy => Or.inr ?_⟩
  rw [hnow] at hy
  cases hy
  exact hreply

theorem writeErrorHead_out {env : Env} {c : Conn} (h : Core env c) (hun : Unbegun c)
    (hp : c.pending = 0) (version : Version) (status : Nat) :
    OutputInv env (writeErrorHead env version status c) := by
  obtain ⟨hfault, hreply⟩ := hun
  have hover : ∀ (pc : Pc) (out : Bytes) (f : Fault), Over { c with
      out := out, heads := c.heads + 1, fault := some f, pc := pc } := by
    intro pc out f x hx
    exact (hreply x hx).imp_right fun hnone => Or.inl ⟨hnone, by simp⟩
  have hcore : ∀ (pc : Pc) (f : Fault), Core env { c with
      out := c.out ++ f.bytes, heads := c.heads + 1, fault := some f, pc := pc } := by
    intro pc f
    refine ⟨?_, h.past, h.now⟩
    have hw : c.wire = c.past.flatMap Exchange.wire ++ c.now.toList.flatMap Exchange.wire := by
      simp [wire, hfault]
    have hb := h.bytes
    rw [hw] at hb
    change c.sent ++ (c.out ++ f.bytes)
      = c.past.flatMap Exchange.wire ++ c.now.toList.flatMap Exchange.wire ++ f.bytes
    rw [← hb, List.append_assoc]
  unfold writeErrorHead flushOr
  simp only
  split
  · rename_i hout
    exact (hcore (.ended .closed) _).inv rfl ⟨hout, hp, hover _ _ _⟩ (by simp)
  · exact (hcore (.flushing 0 .errorWritten) _).inv rfl ⟨hp, hover _ _ _⟩ (by simp)

theorem core_dropContinue {env : Env} {c : Conn} (h : Core env c)
    (hp : c.pending = continueBytes.length) : Core env c.dropContinue where
  bytes := h.bytes
  past := h.past
  now := by
    intro x hx
    have hx' : x ∈ c.now := hx
    have ho := h.now x hx'
    have hnil : x.interim = [] := by
      rcases ho.sent with ⟨h1, _⟩ | h1
      · exact h1
      · rw [hp, Nat.sub_self, List.take_zero] at h1
        exact h1
    exact ⟨Nat.zero_le _, Or.inl ⟨hnil, rfl⟩, fun h => absurd h (by simp [hnil]; rfl), ho.polled,
      ho.made⟩

/-- Neither whole nor untouched, the interim response was begun by a poll of
the body. -/
theorem settling_of_core {env : Env} {c : Conn} (h : Core env c) (hs : Unanswered c)
    (hout : c.out = [])
    (hzero : c.pending ≠ 0) (hfull : c.pending ≠ continueBytes.length) : Settling c := by
  refine ⟨hs, hout, ?_⟩
  intro x hx
  have ho := h.now x hx
  apply ho.polled
  intro hnil
  rcases ho.sent with ⟨_, h1⟩ | h1
  · exact hzero h1
  · rw [hnil] at h1
    have hlen := congrArg List.length h1
    have hb := ho.bound
    simp only [List.length_take, List.length_nil] at hlen
    omega

theorem writeError_out {env : Env} {c : Conn} (h : Core env c) (hun : Unbegun c)
    (hp : c.pending ≠ 0 → Unanswered c ∧ c.out = []) (version : Version) (status : Nat) :
    OutputInv env (writeError env version status c) := by
  unfold writeError settleContinue
  split
  · rename_i hfull
    exact writeErrorHead_out (core_dropContinue h hfull) hun rfl version status
  · rename_i hfull
    split
    · rename_i hzero
      exact writeErrorHead_out h hun hzero version status
    · rename_i hzero
      obtain ⟨hs, hout⟩ := hp hzero
      have hsettling := settling_of_core h hs hout hzero hfull
      exact Core.inv ⟨h.bytes, h.past, h.now⟩ rfl ⟨hsettling, fun a ha => by cases ha⟩ (by simp)

/-! ## 3. The next request -/

theorem callHandler_out {env : Env} {c : Conn} {head : Bytes} {h : Head} {kind : BodyKind}
    (hcore : Core env c) (hfault : c.fault = none) (hnow : c.now = some (Exchange.start head))
    (hv : verdict env head = some (h, kind)) : OutputInv env (callHandler env h kind c) := by
  obtain ⟨hio, hp⟩ := new_keeps kind (Call.ofHead h).expectsContinue env.limits
    ⟨{ c.shared.io with
      pendingContinue := if (Call.ofHead h).expectsContinue then continueBytes.length else 0
      bodyFinished := false }, false⟩
  unfold callHandler
  simp only
  generalize BodyState.new kind (Call.ofHead h).expectsContinue env.limits ⟨{ c.shared.io with
      pendingContinue := if (Call.ofHead h).expectsContinue then continueBytes.length else 0
      bodyFinished := false }, false⟩ = made at hio hp
  obtain ⟨b, sh⟩ := made
  simp only at hio hp ⊢
  have howed : Entry env (Exchange.start head) sh.io.pendingContinue := by
    rw [hp]
    refine ⟨?_, ?_, ?_, fun hne => absurd rfl hne, fun r hr => by cases hr⟩
    · split
      · exact Nat.le_refl _
      · exact Nat.zero_le _
    · split
      · exact Or.inr (by simp [Exchange.start])
      · exact Or.inl ⟨rfl, rfl⟩
    · intro hasked
      refine ⟨h, kind, hv, ?_⟩
      by_contra hno
      rw [if_neg hno] at hasked
      rcases hasked with h | h <;> exact h rfl
  have hcore' : ∀ (pc : Pc), Core env { c with shared := sh, current := some b, pc := pc } := by
    intro pc
    refine ⟨?_, hcore.past, ?_⟩
    · have hsent : ({ c with shared := sh, current := some b, pc := pc } : Conn).sent = c.sent :=
        congrArg Transport.sent hio
      rw [hsent]
      exact hcore.bytes
    · intro x hx
      have hx' : x ∈ c.now := hx
      rw [hnow] at hx'
      cases hx'
      exact howed
  have hserving : ∀ (pc : Pc) (out : Bytes), Serving env
      { c with shared := sh, current := some b, out := out, pc := pc } (Call.ofHead h) := by
    intro pc out
    refine ⟨⟨hfault, _, hnow, rfl⟩, ?_⟩
    intro x hx
    have hx' : x ∈ c.now := hx
    rw [hnow] at hx'
    cases hx'
    exact ⟨h, kind, hv, rfl⟩
  split
  · rename_i hout
    exact (hcore' _).inv rfl ⟨hserving _ _, hout⟩ (by simp)
  · split
    · exact (hcore' _).inv rfl (hserving _ _) (by simp)
    · rename_i hexpects
      have hzero : sh.io.pendingContinue = 0 := by rw [hp, if_neg hexpects]
      have hb := (hcore' (.firstPoll (Call.ofHead h) c.out)).bytes
      refine ⟨?_, hcore.past, (hcore' (.firstPoll (Call.ofHead h) c.out)).now, ?_⟩
      · simpa [Balanced, unsent, sent, wire] using hb
      · exact ⟨hserving _ _, hzero, rfl⟩

theorem startRequest_out {env : Env} {c : Conn} (hcore : Core env c) (hidle : Idle c)
    (hhead : c.shared.io.headLength ≠ none) : OutputInv env (startRequest env c) := by
  unfold startRequest
  split
  · rename_i hnone; exact absurd hnone hhead
  · rename_i len hlen
    simp only
    generalize hc : ({ c.setIo (c.shared.io.splitHead len).2 with
        current := none
        stale := c.current.toList ++ c.stale
        past := c.past ++ c.now.toList
        now := some (Exchange.start (c.shared.io.splitHead len).1) } : Conn) = c'
    have hpending : c'.pending = 0 := by subst hc; exact hidle.1
    have hfault : c'.fault = none := by subst hc; exact hidle.2.1
    have hnow : c'.now = some (Exchange.start (c.shared.io.splitHead len).1) := by subst hc; rfl
    have hcore' : Core env c' := by
      refine ⟨?_, ?_, ?_⟩
      · subst hc
        have hb := hcore.bytes
        simp only [wire, hidle.2.1, Option.map_none, Option.getD_none, List.append_nil] at hb
        simpa [wire, sent, setIo, IoState.splitHead, IoState.resetScan, hidle.2.1, Exchange.wire,
          Exchange.start] using hb
      · subst hc
        intro x hx
        rcases List.mem_append.mp hx with hx | hx
        · exact hcore.past x hx
        · have hx' : x ∈ c.now := by simpa using hx
          have ho := hcore.now x hx'
          rw [hidle.1] at ho
          exact ⟨ho, hidle.2.2 x hx'⟩
      · intro x hx
        rw [hnow] at hx
        cases hx
        rw [hpending]
        exact ⟨Nat.zero_le _, Or.inl ⟨rfl, rfl⟩,
          fun h => by rcases h with h | h <;> exact absurd rfl h,
          fun h => absurd rfl h, fun r hr => by cases hr⟩
    have hun : Unanswered c' := ⟨hfault, _, hnow, rfl⟩
    have hno : c'.pending ≠ 0 → Unanswered c' ∧ c'.out = [] := fun h => absurd hpending h
    split
    · exact writeError_out hcore' hun.unbegun hno _ _
    · rename_i h hparse
      split
      · exact writeError_out hcore' hun.unbegun hno _ _
      · rename_i kind hframe
        refine callHandler_out hcore' hfault hnow ?_
        simp only [verdict, hparse, hframe]

/-- `has_complete_head` writes nothing. -/
theorem core_hasCompleteHead {env : Env} {c : Conn} (h : Core env c) :
    Core env (c.setIo c.shared.io.hasCompleteHead.2) := by
  obtain ⟨_, hio, hp⟩ := IoState.hasCompleteHead_keeps c.shared.io
  have hsent : (c.setIo c.shared.io.hasCompleteHead.2).sent = c.sent := congrArg Transport.sent hio
  refine ⟨by rw [hsent]; exact h.bytes, h.past, ?_⟩
  intro x hx
  have hpending : (c.setIo c.shared.io.hasCompleteHead.2).pending = c.pending := hp
  rw [hpending]
  exact h.now x hx

theorem idle_hasCompleteHead {c : Conn} (h : Idle c) :
    Idle (c.setIo c.shared.io.hasCompleteHead.2) :=
  ⟨(IoState.hasCompleteHead_keeps c.shared.io).2.2.trans h.1, h.2⟩

theorem enterRead_out {env : Env} {c : Conn} (hcore : Core env c) (hidle : Idle c) :
    OutputInv env (enterRead env c) := by
  have hcore' := core_hasCompleteHead hcore
  have hidle' := idle_hasCompleteHead hidle
  unfold enterRead
  simp only
  split
  · rename_i hcomplete
    exact startRequest_out hcore' hidle' (IoState.hasCompleteHead_headLength hcomplete)
  · unfold flushOr
    split
    · rename_i hout
      exact Core.inv ⟨hcore'.bytes, hcore'.past, hcore'.now⟩ rfl
        ⟨hidle', hout⟩ (by simp)
    · exact Core.inv ⟨hcore'.bytes, hcore'.past, hcore'.now⟩ rfl
        hidle' (by simp)

theorem dispose_out {env : Env} {c : Conn} {d : Disposition} (hcore : Core env c) (hidle : Idle c)
    (hout : d = .keepAlive ∨ c.out = []) : OutputInv env (dispose env c d) := by
  have hend : ∀ pc : Pc, Core env { c with pc := pc } :=
    fun pc => ⟨hcore.bytes, hcore.past, hcore.now⟩
  cases d with
  | keepAlive => exact enterRead_out hcore hidle
  | close => exact (hend _).inv rfl ⟨hout.resolve_left (by simp), hidle.1, hidle.over⟩ (by simp)
  | upgrade =>
      have hnil := hout.resolve_left (by simp)
      simp only [dispose]
      split
      · exact (hend _).inv rfl ⟨hnil, hidle.1, hidle.over⟩ (by simp)
      · exact (hend _).inv rfl ⟨hnil, hidle⟩ (by simp)

/-! ## 4. The response -/

theorem finish_out {env : Env} {c : Conn} {a : Answer} (hcore : Core env c) (hidle : Idle c) :
    OutputInv env (flushOr (.finish a) c (dispose env c a.disposition)) := by
  unfold flushOr
  split
  · rename_i hout
    exact dispose_out hcore hidle (Or.inr hout)
  · exact Core.inv ⟨hcore.bytes, hcore.past, hcore.now⟩ rfl
      hidle (by simp)

/-- Held back or flushed, a complete response is on its way. -/
theorem conclude_out {env : Env} {c : Conn} {a : Answer} (hcore : Core env c) (hidle : Idle c) :
    OutputInv env (conclude env a c) := by
  unfold conclude
  split
  · rename_i hcond
    have hdisp : a.disposition = .keepAlive := by
      simp only [Bool.and_eq_true, Bool.not_eq_true'] at hcond
      simp [Answer.disposition, hcond.1.1, hcond.1.2]
    simp only
    split
    · exact dispose_out (core_hasCompleteHead hcore) (idle_hasCompleteHead hidle) (Or.inl hdisp)
    · exact finish_out (core_hasCompleteHead hcore) (idle_hasCompleteHead hidle)
  · exact finish_out hcore hidle

/-- A response's head, and what of its body is written with it. -/
theorem wire_answer {c : Conn} {x : Exchange} (hfault : c.fault = none) (hnow : c.now = some x)
    (hreply : x.reply = none) (r : Reply) (out : Bytes) (n : Nat) :
    ({ c with out := out, heads := n, now := c.now.map (Exchange.answer r) } : Conn).wire
      = c.wire ++ r.bytes := by
  simp [wire, hnow, hfault, Exchange.answer, Exchange.wire, hreply]

theorem respondHead_out {env : Env} {c : Conn} {a : Answer} (hcore : Core env c)
    (hs : Unanswered c) (hmade : ∀ x ∈ c.now, x.Makes env a) (hp : c.pending = 0) :
    OutputInv env (respondHead env a c) := by
  obtain ⟨hfault, x, hnow, hreply⟩ := hs
  have hmade' := hmade x (by rw [hnow]; rfl)
  have howed := hcore.now x (by rw [hnow]; rfl)
  rw [hp] at howed
  have hcore' : ∀ (r : Reply) (out : Bytes), r.answer = a → r.ended = false →
      r.date = env.date c.heads → out = c.out ++ r.bytes → ∀ pc : Pc, Core env { c with
        out := out, heads := c.heads + 1, now := c.now.map (Exchange.answer r), pc := pc } := by
    intro r out hr hended hdate hout pc
    refine ⟨?_, hcore.past, ?_⟩
    · have hw := wire_answer hfault hnow hreply r out (c.heads + 1)
      change c.sent ++ out = _
      rw [hout, ← List.append_assoc, hcore.bytes]
      exact hw.symm
    · intro x' hx'
      have hx'' : x' ∈ c.now.map (Exchange.answer r) := hx'
      rw [hnow] at hx''
      cases hx''
      change Entry env (x.answer r) c.pending
      rw [hp]
      refine ⟨howed.bound, howed.sent, howed.asked, howed.polled, ?_⟩
      intro r' hr'
      cases hr'
      refine ⟨?_, fun h => absurd (hended.symm.trans h) (by simp), c.heads, hdate⟩
      rw [hr]
      exact hmade'
  have hidle : ∀ (r : Reply) (out : Bytes), r.Complete → Idle { c with
      out := out, heads := c.heads + 1, now := c.now.map (Exchange.answer r) } := by
    intro r out hcomplete
    refine ⟨hp, hfault, ?_⟩
    intro x' hx'
    have hx'' : x' ∈ c.now.map (Exchange.answer r) := hx'
    rw [hnow] at hx''
    cases hx''
    exact ⟨r, rfl, hcomplete⟩
  unfold respondHead
  simp only
  split
  · rename_i hwrites
    split
    · rename_i hbody
      refine conclude_out (hcore' _ _ rfl rfl rfl ?_ c.pc) (hidle _ _ ?_)
      · simp [Reply.bytes, Reply.body, hwrites, hbody]
      · intro _ h; simp [hbody] at h
    · rename_i b hbody
      refine conclude_out (hcore' _ _ rfl rfl rfl ?_ c.pc) (hidle _ _ ?_)
      · simp [Reply.bytes, Reply.body, hwrites, hbody]
      · intro _ h; simp [hbody] at h
    · rename_i hbody
      have hstreaming : ∀ (r : Reply) (out : Bytes), r.answer = a → r.ended = false → ∀ pc : Pc,
          Streaming { c with
            out := out, heads := c.heads + 1, now := c.now.map (Exchange.answer r),
            pc := pc } a := by
        intro r out hr hended pc
        refine ⟨hp, hfault, x.answer r, r, ?_, rfl, hr, hended, hwrites, hbody⟩
        change c.now.map (Exchange.answer r) = _
        rw [hnow]
        rfl
      unfold flushOr
      split
      · refine (hcore' ⟨a, env.date c.heads, [], false⟩ _ rfl rfl rfl ?_
          (.streaming a false)).inv rfl
          ⟨hstreaming _ _ rfl rfl _, by simp⟩ (by simp)
        simp [Reply.bytes, Reply.body, hwrites, hbody]
      · refine (hcore' ⟨a, env.date c.heads, [], false⟩ _ rfl rfl rfl ?_
          (.flushing 0 (.stream a false))).inv rfl
          (hstreaming _ _ rfl rfl _) (by simp)
        simp [Reply.bytes, Reply.body, hwrites, hbody]
  · rename_i hwrites
    refine conclude_out (hcore' _ _ rfl rfl rfl ?_ c.pc) (hidle _ _ ?_)
    · simp [Reply.bytes, Reply.body, hwrites]
    · intro h; exact absurd h hwrites

/-- The handler's response enters the history. -/
theorem core_responded {env : Env} {c : Conn} (hcore : Core env c) (hs : Unanswered c)
    (resp : Response) : Core env { c with now := c.now.map (Exchange.responded resp) } := by
  obtain ⟨hfault, x, hnow, hreply⟩ := hs
  refine ⟨?_, hcore.past, ?_⟩
  · have hw : ({ c with now := c.now.map (Exchange.responded resp) } : Conn).wire = c.wire := by
      simp [wire, hnow, Exchange.responded, Exchange.wire]
    rw [hw]
    exact hcore.bytes
  · intro y hy
    have hy' : y ∈ c.now.map (Exchange.responded resp) := hy
    rw [hnow] at hy'
    cases hy'
    have ho := hcore.now x (by rw [hnow]; rfl)
    refine ⟨ho.bound, ho.sent, ho.asked, ho.polled, ?_⟩
    intro r hr
    have hr' : x.reply = some r := hr
    rw [hreply] at hr'
    cases hr'

theorem respond_out {env : Env} {c : Conn} {call : Call} (hcore : Core env c)
    (hs : Serving env c call) (hp : c.pending ≠ 0 → c.out = []) (resp : Response) :
    OutputInv env (respond env call resp c) := by
  obtain ⟨hun, hcall⟩ := hs
  have hcore' := core_responded hcore hun resp
  obtain ⟨hfault, x, hnow, hreply⟩ := hun
  obtain ⟨h, kind, hv, hcall'⟩ := hcall x (by rw [hnow]; rfl)
  have hnow' : c.now.map (Exchange.responded resp) = some (x.responded resp) := by rw [hnow]; rfl
  have hun' : Unanswered { c with now := c.now.map (Exchange.responded resp) } :=
    ⟨hfault, _, hnow', hreply⟩
  have hmade : ∀ y ∈ c.now.map (Exchange.responded resp),
      y.Makes env (Answer.of env.serverName call resp c.shared.bodyRead) := by
    intro y hy
    rw [hnow'] at hy
    cases hy
    exact ⟨h, kind, resp, c.shared.bodyRead, hv, rfl, by rw [hcall']⟩
  unfold respond settleContinue
  simp only
  split
  · rename_i hfull
    exact respondHead_out (core_dropContinue hcore' hfull) hun' hmade rfl
  · rename_i hfull
    split
    · rename_i hzero
      exact respondHead_out hcore' hun' hmade hzero
    · rename_i hzero
      have hsettling := settling_of_core hcore' hun' (hp hzero) hzero hfull
      refine Core.inv ⟨hcore'.bytes, hcore'.past, hcore'.now⟩ rfl ⟨hsettling, ?_⟩ (by simp)
      intro a ha
      cases ha
      exact hmade

/-! ## 5. One step -/

/-- The transport takes what it is given. -/
def WriteOk (a : WriteAnswer) : Prop := a ≠ .err ∧ a ≠ .ok 0

/-- An event without a transport error on the way out, and no expiry of the
write deadline. -/
def WritesOk : Event → Prop
  | .write a => WriteOk a
  | .flush a => a ≠ .err
  | .settle writes flush => (∀ a ∈ writes, WriteOk a) ∧ flush ≠ .err
  | .writeDeadline => False
  | _ => True

/-- The loop has not returned. -/
def Live (c : Conn) : Prop := ∀ r, c.pc ≠ .ended r

/-- A failed flush ends the loop. -/
theorem not_live_failFlush (c : Conn) (next : AfterFlush) : ¬ Live (failFlush c next) := by
  intro h
  cases next <;> exact h _ rfl

theorem not_live_failSettle (c : Conn) (next : AfterSettle) : ¬ Live (failSettle c next) := by
  intro h
  cases next <;> exact h _ rfl

theorem proceed_out {env : Env} {c : Conn} (written : Nat) {next : AfterFlush} (hcore : Core env c)
    (hout : c.out = []) (hplace : Place env c (.flushing written next)) :
    OutputInv env (proceed env c next) := by
  have hcore' : ∀ pc : Pc, Core env { c with pc := pc } :=
    fun pc => ⟨hcore.bytes, hcore.past, hcore.now⟩
  cases next with
  | read =>
      exact (hcore' _).inv rfl ⟨hplace, hout⟩ (by simp)
  | call => exact (hcore' _).inv rfl ⟨hplace, hout⟩ (by simp)
  | wait => exact (hcore' _).inv rfl ⟨hplace.1, hout⟩ (by simp)
  | stream => exact (hcore' _).inv rfl ⟨hplace, fun _ => hout⟩ (by simp)
  | close => exact (hcore' _).inv rfl ⟨hout, hplace⟩ (by simp)
  | finish a => exact dispose_out hcore hplace (Or.inr hout)
  | errorWritten => exact (hcore' _).inv rfl ⟨hout, hplace⟩ (by simp)

theorem stepFlushing_out {env : Env} {c : Conn} {written : Nat} {next : AfterFlush}
    (h : OutputInv env c) (hpc : c.pc = .flushing written next) {e : Event}
    (he : WritesOk e ∨ Live (stepFlushing env c written next e)) :
    OutputInv env (stepFlushing env c written next e) := by
  have hplace := h.place
  have hbytes := h.balanced
  rw [hpc] at hplace
  simp only [Balanced, unsent, hpc] at hbytes
  have hfail : ¬ Live (failFlush c next) := not_live_failFlush c next
  unfold stepFlushing at he ⊢
  split
  · split
    · rename_i hlt
      simp only [if_pos hlt] at he
      exact absurd (he.resolve_right hfail).1 (by simp)
    · exact h
  · rename_i n
    split
    · rename_i hlt
      split
      · rename_i hn
        simp only [if_pos hlt, if_pos hn] at he
        exact absurd (he.resolve_right hfail).2 (by simp [hn])
      · refine ⟨?_, h.past, h.now, ?_⟩
        · simp only [Balanced, unsent]
          change (c.sent ++ (c.out.drop written).take n)
            ++ c.out.drop (written + min n (c.out.length - written)) = c.wire
          rw [← hbytes, List.append_assoc, ← List.drop_drop]
          congr 1
          have hmin : (c.out.drop written).take n
              = (c.out.drop written).take (min n (c.out.length - written)) := by
            rw [List.take_eq_take_iff, List.length_drop]
            omega
          rw [hmin, List.take_append_drop]
        · cases next <;> exact hplace
    · exact h
  · split
    · exact h
    · rename_i hdone
      have hnil : c.out.drop written = [] := List.drop_eq_nil_of_le (by omega)
      rw [hnil, List.append_nil] at hbytes
      refine proceed_out written ⟨?_, h.past, h.now⟩ rfl ?_
      · exact (List.append_nil _).trans hbytes
      cases next <;> exact hplace
  · split
    · exact h
    · rename_i hdone
      simp only [if_neg hdone] at he
      exact absurd (he.resolve_right hfail) (by simp [WritesOk])
  · exact absurd (he.resolve_right hfail) (by simp [WritesOk])
  · exact h

theorem core_of_out {env : Env} {c : Conn} (h : OutputInv env c) (hunsent : c.unsent = c.out)
    (hpanic : c.pc ≠ .ended .panicked) : Core env c := by
  refine ⟨?_, h.past, h.now⟩
  have hb := h.balanced
  unfold Balanced at hb
  split at hb
  · rename_i hpc; exact absurd hpc hpanic
  · rw [hunsent] at hb
    exact hb

/-- Answers without an error never fail the interim response. -/
theorem pollSendContinue_ok {flush : FlushAnswer} (hflush : flush ≠ .err) :
    ∀ (writes : List WriteAnswer) (st : IoState), (∀ a ∈ writes, WriteOk a) →
      (st.pollSendContinue flush writes).1 ≠ .err := by
  have hready : flush.poll ≠ .err := by cases flush <;> simp_all [FlushAnswer.poll]
  intro writes
  induction writes with
  | nil =>
      intro st _
      unfold IoState.pollSendContinue
      split
      · exact hready
      · simp
  | cons a rest ih =>
      intro st hok
      have ha := hok a (by simp)
      unfold IoState.pollSendContinue
      split
      · exact hready
      · cases a with
        | pending => simp
        | err => exact absurd rfl ha.1
        | ok n =>
            simp only
            split
            · rename_i hn; exact absurd (by rw [hn]) ha.2
            · exact ih _ fun b hb => hok b (List.mem_cons_of_mem _ hb)

/-! ## 6. The interim response -/

theorem entry_sent {env : Env} {x x' : Exchange} {p k : Nat} (h : Entry env x p) (hk : k ≤ p)
    (hhead : x'.request.head = x.request.head)
    (hinterim : x'.interim
      = x.interim ++ (continueBytes.drop (continueBytes.length - p)).take k)
    (hpolled : x'.interim ≠ [] → x'.polledFirst = true) (hreply : x'.reply = none) :
    Entry env x' (p - k) := by
  have hb := h.bound
  refine ⟨by omega, ?_, ?_, hpolled, fun r hr => by rw [hreply] at hr; cases hr⟩
  · rcases h.sent with ⟨h1, h2⟩ | h1
    · have hk0 : k = 0 := by omega
      exact Or.inl ⟨by rw [hinterim, h1, hk0]; rfl, by omega⟩
    · refine Or.inr ?_
      rw [hinterim, h1, ← List.take_add]
      congr 1
      omega
  · intro hasked
    rw [hhead]
    apply h.asked
    by_cases hp : p = 0
    · have hk0 : k = 0 := by omega
      rw [hp, hk0] at hasked
      rw [hinterim, hk0, List.take_zero, List.append_nil] at hasked
      rcases hasked with h | h
      · exact absurd rfl h
      · exact Or.inr h
    · exact Or.inl hp

/-- Bytes of the interim response go out while the loop holds nothing. -/
theorem core_interim {env : Env} {c c' : Conn} {x x' : Exchange} {k : Nat} (hcore : Core env c)
    (hfault : c.fault = none) (hnow : c.now = some x) (hreply : x.reply = none) (hout : c.out = [])
    (hk : k ≤ c.pending) (hpast : c'.past = c.past) (hfault' : c'.fault = none)
    (hout' : c'.out = []) (hnow' : c'.now = some x') (hreply' : x'.reply = none)
    (hsent : c'.sent = c.sent ++ c.shared.io.owedContinue.take k)
    (hpending : c'.pending = c.pending - k) (hhead : x'.request.head = x.request.head)
    (hinterim : x'.interim = x.interim ++ c.shared.io.owedContinue.take k)
    (hpolled : x'.interim ≠ [] → x'.polledFirst = true) : Core env c' := by
  refine ⟨?_, hpast ▸ hcore.past, ?_⟩
  · have hb := hcore.bytes
    rw [wire_of_now hnow, hfault, hout, List.append_nil] at hb
    rw [wire_of_now hnow', hfault', hout', hsent, hpast, hb]
    simp [Exchange.wire, hreply, hreply', hinterim]
  · intro y hy
    rw [hnow'] at hy
    cases hy
    rw [hpending]
    exact entry_sent (hcore.now x (by rw [hnow]; rfl)) hk hhead hinterim hpolled hreply'

theorem stepSettling_out {env : Env} {c : Conn} {next : AfterSettle} (h : OutputInv env c)
    (hpc : c.pc = .settling next) {e : Event}
    (he : WritesOk e ∨ Live (stepSettling env c next e)) :
    OutputInv env (stepSettling env c next e) := by
  have hplace := h.place
  rw [hpc] at hplace
  obtain ⟨⟨⟨hfault, x, hnow, hreply⟩, hout, hpolled⟩, hmade⟩ := hplace
  have hpolled' := hpolled x (by rw [hnow]; rfl)
  have hcore : Core env c := core_of_out h (by rw [unsent, hpc]) (by simp [hpc])
  have hbound := (hcore.now x (by rw [hnow]; rfl)).bound
  unfold stepSettling at he ⊢
  split
  · rename_i writes flush
    obtain ⟨k, hk, hio, hready⟩ := pollSendContinue_spec flush writes c.shared.io hbound
    have hsent : (continued c.shared.io k).io.sent.drop c.shared.io.io.sent.length
        = c.shared.io.owedContinue.take k := by
      simp [continued, IoState.send]
    have hnow' : (c.record (continued c.shared.io k)).now
        = some (x.sentInterim (c.shared.io.owedContinue.take k)) := by
      simp [record, hnow, hsent]
    have hcore' : Core env (c.record (continued c.shared.io k)) :=
      core_interim hcore hfault hnow hreply hout hk rfl hfault hout hnow' hreply rfl rfl rfl rfl
        fun _ => hpolled'
    have hun : Unanswered (c.record (continued c.shared.io k)) := ⟨hfault, _, hnow', hreply⟩
    have hmade' : ∀ a, next = .respond a →
        ∀ y ∈ (c.record (continued c.shared.io k)).now, y.Makes env a := by
      intro a ha y hy
      rw [hnow'] at hy
      cases hy
      exact hmade a ha x (by rw [hnow]; rfl)
    rcases hpoll : c.shared.io.pollSendContinue flush writes with ⟨_ | _ | _, io⟩
    · rw [hpoll] at hio
      subst hio
      refine hcore'.inv ?_ ?_ ?_
      · simp only [unsent, record, setIo, hpc]
      · change Place env _ c.pc
        rw [hpc]
        refine ⟨⟨hun, hout, ?_⟩, hmade'⟩
        intro y hy
        rw [hnow'] at hy
        cases hy
        exact hpolled'
      · change c.pc ≠ _
        simp [hpc]
    · rw [hpoll] at hio hready
      subst hio
      have hzero : (c.record (continued c.shared.io k)).pending = 0 := by
        change c.shared.io.pendingContinue - k = 0
        rw [hready rfl]
        exact Nat.sub_self _
      cases next with
      | respond a => exact respondHead_out hcore' hun (hmade' a rfl) hzero
      | error version status => exact writeErrorHead_out hcore' hun.unbegun hzero version status
    · simp only [hpoll] at he
      have hwrites := he.resolve_right (not_live_failSettle _ next)
      have hok := pollSendContinue_ok hwrites.2 writes c.shared.io hwrites.1
      rw [hpoll] at hok
      exact absurd rfl hok
  · exact absurd (he.resolve_right (not_live_failSettle c next)) (by simp [WritesOk])
  · exact h

/-! ## 7. Reading, handling, streaming -/

theorem stepReading_out {env : Env} {c : Conn} {started : Bool} (h : OutputInv env c)
    (hpc : c.pc = .reading started) (e : Event) : OutputInv env (stepReading env c started e) := by
  have hplace := h.place
  rw [hpc] at hplace
  obtain ⟨hidle, hout⟩ := hplace
  have hcore : Core env c := core_of_out h (by rw [unsent, hpc]) (by simp [hpc])
  have hended : ∀ r : Ended, Place env { c with pc := .ended r } (.ended r) → r ≠ .panicked →
      OutputInv env { c with pc := .ended r } := by
    intro r hr hpanic
    exact Core.inv ⟨hcore.bytes, hcore.past, hcore.now⟩ rfl hr (by simp [hpanic])
  unfold stepReading
  split
  · exact hended _ hidle.1 (by simp)
  · rename_i b
    split
    · exact hended _ ⟨hout, hidle.1, hidle.over⟩ (by simp)
    · obtain ⟨_, hio, hp⟩ := IoState.hasCompleteHead_keeps (c.shared.io.readMore b)
      have hread := headRead_io env.limits started b c.shared.io
      rcases hstep : headRead env.limits started b c.shared.io with ⟨step, io⟩
      rw [hstep] at hread
      have hio' : io = (c.shared.io.readMore b).hasCompleteHead.2 := hread
      have hsent : (c.setIo io).sent = c.sent := by
        change io.io.sent = _
        rw [hio', hio]
        rfl
      have hpending : (c.setIo io).pending = c.pending := by
        change io.pendingContinue = _
        rw [hio', hp]
        rfl
      have hcore' : ∀ pc : Pc, Core env { c.setIo io with pc := pc } := by
        intro pc
        refine ⟨?_, hcore.past, ?_⟩
        · change (c.setIo io).sent ++ c.out = c.wire
          rw [hsent]
          exact hcore.bytes
        · intro x hx
          change Entry env x (c.setIo io).pending
          rw [hpending]
          exact hcore.now x hx
      have hidle' : Idle (c.setIo io) := ⟨hpending.trans hidle.1, hidle.2⟩
      cases step with
      | ready => exact startRequest_out (hcore' c.pc) hidle' (headRead_ready hstep)
      | failed status =>
          exact writeError_out (hcore' c.pc) hidle'.unbegun (fun hne => absurd hidle'.1 hne) _ _
      | more started' => exact (hcore' (.reading started')).inv rfl ⟨hidle', hout⟩ (by simp)
  · split
    · exact writeError_out hcore hidle.unbegun (fun hne => absurd hidle.1 hne) _ _
    · exact hended _ ⟨hout, hidle.1, hidle.over⟩ (by simp)
  · exact h

theorem stepFirstPoll_out {env : Env} {c : Conn} {call : Call} {held : Bytes} (h : OutputInv env c)
    (hpc : c.pc = .firstPoll call held) (e : Event) :
    OutputInv env (stepFirstPoll env c call held e) := by
  have hplace := h.place
  have hbytes := h.balanced
  rw [hpc] at hplace
  simp only [Balanced, unsent, hpc] at hbytes
  obtain ⟨hs, hp, hout⟩ := hplace
  have hcore : ∀ pc : Pc, Core env { c with out := held ++ c.out, pc := pc } :=
    fun pc => ⟨hbytes, h.past, h.now⟩
  unfold stepFirstPoll
  split
  · unfold flushOr
    simp only
    split
    · rename_i hnil
      exact (hcore (.handling call)).inv rfl ⟨hs, hnil⟩ (by simp)
    · exact (hcore (.flushing 0 (.wait call))).inv rfl ⟨hs, hp⟩ (by simp)
  · exact respond_out (hcore c.pc) hs (fun hne => absurd hp hne) _
  · rename_i n
    refine ⟨?_, h.past, h.now, Or.inr hp⟩
    refine ⟨held.drop n ++ c.out, ?_⟩
    change c.sent ++ held.take n ++ (held.drop n ++ c.out) = c.wire
    rw [← hbytes, List.append_assoc, ← List.append_assoc (held.take n), List.take_append_drop]
  · exact h

theorem stepHandling_out {env : Env} {c : Conn} {call : Call} (h : OutputInv env c)
    (hpc : c.pc = .handling call) (e : Event) : OutputInv env (stepHandling env c call e) := by
  have hplace := h.place
  rw [hpc] at hplace
  obtain ⟨hs, hout⟩ := hplace
  have hcore : Core env c := core_of_out h (by rw [unsent, hpc]) (by simp [hpc])
  have herror := fun status =>
    writeError_out hcore hs.1.unbegun (fun _ => ⟨hs.1, hout⟩) call.version status
  unfold stepHandling
  split
  · exact respond_out hcore hs (fun _ => hout) _
  · refine ⟨?_, h.past, h.now, Or.inl hs.1⟩
    exact ⟨c.out, hcore.bytes⟩
  · split
    · exact h
    · exact herror _
  · exact herror _
  · exact h

/-- An item of the stream is written behind what there is. -/
theorem Reply.bytes_addItem {r : Reply} (hwrites : r.answer.writesBody = true)
    (hbody : r.answer.body = .stream) (hended : r.ended = false) (b : Bytes) :
    (r.addItem b).bytes = r.bytes ++ r.answer.frame b := by
  simp [Reply.bytes, Reply.body, Reply.addItem, hwrites, hbody, hended]

theorem Reply.bytes_finish {r : Reply} (hwrites : r.answer.writesBody = true)
    (hbody : r.answer.body = .stream) (hended : r.ended = false) :
    r.finish.bytes = r.bytes ++ r.answer.terminator := by
  simp [Reply.bytes, Reply.body, Reply.finish, hwrites, hbody, hended]

/-- An update of the reply being streamed. -/
theorem wire_onReply {c : Conn} {x : Exchange} {r : Reply} {f : Reply → Reply} {d : Bytes}
    (hfault : c.fault = none) (hnow : c.now = some x) (hreply : x.reply = some r)
    (hd : (f r).bytes = r.bytes ++ d) (c' : Conn) (hpast : c'.past = c.past)
    (hfault' : c'.fault = c.fault) (hnow' : c'.now = c.now.map (Exchange.onReply f)) :
    c'.wire = c.wire ++ d := by
  simp [wire, hpast, hfault', hfault, hnow', hnow, Exchange.onReply, Exchange.wire, hreply, hd]

theorem entry_onReply {env : Env} {x : Exchange} {p : Nat} (h : Entry env x p) {f : Reply → Reply}
    (hf : ∀ r, (f r).answer = r.answer ∧ (f r).date = r.date)
    (hdrawn : ∀ r, x.reply = some r → (f r).Drawn) : Entry env (x.onReply f) p := by
  refine ⟨h.bound, h.sent, h.asked, h.polled, ?_⟩
  intro r hr
  obtain ⟨r₀, hr₀, rfl⟩ := Option.map_eq_some_iff.mp hr
  have hmade := h.made r₀ hr₀
  refine ⟨?_, hdrawn r₀ hr₀, ?_⟩
  · rw [(hf r₀).1]
    exact hmade.answer
  · rw [(hf r₀).2]
    exact hmade.dated

theorem stepStreaming_out {env : Env} {c : Conn} {a : Answer} {parked : Bool} (h : OutputInv env c)
    (hpc : c.pc = .streaming a parked) (e : Event) :
    OutputInv env (stepStreaming env c a parked e) := by
  have hplace := h.place
  rw [hpc] at hplace
  have hcore : Core env c := core_of_out h (by rw [unsent, hpc]) (by simp [hpc])
  obtain ⟨hstreaming, hparked⟩ := hplace
  obtain ⟨hp, hfault, x, r, hnow, hreply, ha, hended, hwrites, hbody⟩ := hstreaming
  have hstreaming : ∀ pc : Pc, Streaming { c with pc := pc } a :=
    fun pc => ⟨hp, hfault, x, r, hnow, hreply, ha, hended, hwrites, hbody⟩
  have hover : ∀ pc : Pc, Over { c with pc := pc } := by
    intro pc y hy
    rw [hnow] at hy
    cases hy
    exact Or.inr (Or.inr ⟨hfault, r, hreply, by rw [ha]; exact hbody, hended⟩)
  have hpc' : ∀ pc : Pc, Core env { c with pc := pc } :=
    fun pc => ⟨hcore.bytes, hcore.past, hcore.now⟩
  have hnow' : ∀ f : Reply → Reply, (∀ r, (f r).answer = r.answer ∧ (f r).date = r.date) →
      ∀ y ∈ c.now.map (Exchange.onReply f), Entry env y c.pending := by
    intro f hf y hy
    rw [hnow] at hy
    cases hy
    refine entry_onReply (hcore.now x (by rw [hnow]; rfl)) hf ?_
    intro r' hr' _
    obtain rfl := Option.some.inj (hreply.symm.trans hr')
    rw [(hf r).1, ha]
    exact ⟨hwrites, hbody⟩
  have hitem : ∀ (b : Bytes) (pc : Pc), Core env { addItem a b c with pc := pc } := by
    intro b pc
    refine ⟨?_, hcore.past, hnow' (Reply.addItem b) fun _ => ⟨rfl, rfl⟩⟩
    have hd := Reply.bytes_addItem (r := r) (ha ▸ hwrites) (ha ▸ hbody) hended b
    rw [ha] at hd
    refine Eq.trans ?_ (wire_onReply hfault hnow hreply hd { addItem a b c with pc := pc }
      rfl rfl rfl).symm
    rw [← hcore.bytes]
    exact (List.append_assoc _ _ _).symm
  have hstream' : ∀ (b : Bytes) (pc : Pc), Streaming { addItem a b c with pc := pc } a := by
    intro b pc
    refine ⟨hp, hfault, x.onReply (Reply.addItem b), Reply.addItem b r, ?_, ?_, ha, hended, hwrites,
      hbody⟩
    · simp [addItem, hnow]
    · simp [Exchange.onReply, hreply]
  have hend : Core env (addEnd a c) := by
    refine ⟨?_, hcore.past, hnow' Reply.finish fun _ => ⟨rfl, rfl⟩⟩
    have hd := Reply.bytes_finish (r := r) (ha ▸ hwrites) (ha ▸ hbody) hended
    rw [ha] at hd
    rw [wire_onReply hfault hnow hreply hd (addEnd a c) rfl rfl rfl, ← hcore.bytes]
    exact (List.append_assoc _ _ _).symm
  have hidle : Idle (addEnd a c) := by
    refine ⟨hp, hfault, ?_⟩
    intro y hy
    have hy' : y ∈ c.now.map (Exchange.onReply Reply.finish) := hy
    rw [hnow] at hy'
    cases hy'
    exact ⟨r.finish, by simp [Exchange.onReply, hreply], fun _ _ => rfl⟩
  unfold stepStreaming
  split
  · split
    · exact h
    · unfold flushOr
      split
      · rename_i hout
        exact (hpc' _).inv rfl ⟨hstreaming _, fun _ => hout⟩ (by simp)
      · exact (hpc' _).inv rfl (hstreaming _) (by simp)
  · rename_i b
    simp only
    split
    · unfold flushOr
      split
      · exact (hitem b _).inv rfl ⟨hstream' b _, by simp⟩ (by simp)
      · exact (hitem b _).inv rfl (hstream' b _) (by simp)
    · exact (hitem b _).inv rfl ⟨hstream' b _, by simp⟩ (by simp)
  · unfold flushOr
    split
    · rename_i hout
      exact (hpc' (.ended .closed)).inv rfl ⟨hout, hp, hover _⟩ (by simp)
    · exact (hpc' (.flushing 0 .close)).inv rfl ⟨hp, hover _⟩ (by simp)
  · exact conclude_out hend hidle
  · refine ⟨?_, h.past, h.now, Or.inr hp⟩
    exact ⟨c.out, hcore.bytes⟩
  · split
    · rename_i hcond
      simp only [Bool.and_eq_true] at hcond
      exact (hpc' (.ended .closed)).inv rfl ⟨hparked hcond.1, hp, hover _⟩ (by simp)
    · exact h
  · exact h

/-! ## 8. Bodies -/

/-- A change of the history that puts nothing on the wire. -/
structure Unheard (f : Exchange → Exchange) : Prop where
  response : ∀ x, (f x).response = x.response
  reply : ∀ x, (f x).reply = x.reply
  interim : ∀ x, (f x).interim = x.interim
  head : ∀ x, (f x).request.head = x.request.head
  polled : ∀ x, x.polledFirst = true → (f x).polledFirst = true

theorem Unheard.makes {f : Exchange → Exchange} (hf : Unheard f) {env : Env} {x : Exchange}
    {a : Answer} (h : x.Makes env a) : (f x).Makes env a := by
  obtain ⟨hd, kind, resp, consumed, h1, h2, h3⟩ := h
  exact ⟨hd, kind, resp, consumed, by rw [hf.head]; exact h1, (hf.response x).trans h2, h3⟩

/-- Two states with the same output side, up to such a change. -/
structure SameOutput (f : Exchange → Exchange) (c c' : Conn) : Prop where
  sent : c'.sent = c.sent
  pending : c'.pending = c.pending
  out : c'.out = c.out
  past : c'.past = c.past
  fault : c'.fault = c.fault
  pc : c'.pc = c.pc
  now : c'.now = c.now.map f

theorem SameOutput.place {f : Exchange → Exchange} {c c' : Conn} (h : SameOutput f c c')
    (hf : Unheard f) {env : Env} {pc : Pc} (hplace : Place env c pc) : Place env c' pc := by
  have hidle : Idle c → Idle c' := by
    intro hi
    refine ⟨h.pending.trans hi.1, h.fault.trans hi.2.1, ?_⟩
    intro y hy
    rw [h.now, Option.mem_map] at hy
    obtain ⟨x, hx, rfl⟩ := hy
    obtain ⟨r, hr, hcomplete⟩ := hi.2.2 x hx
    exact ⟨r, (hf.reply x).trans hr, hcomplete⟩
  have hun : Unanswered c → Unanswered c' := by
    intro hs
    obtain ⟨hfault, x, hnow, hreply⟩ := hs
    exact ⟨h.fault.trans hfault, f x, by rw [h.now, hnow]; rfl, (hf.reply x).trans hreply⟩
  have hover : Over c → Over c' := by
    intro ho y hy
    rw [h.now, Option.mem_map] at hy
    obtain ⟨x, hx, rfl⟩ := hy
    have hx' := ho x hx
    unfold Exchange.Answered at hx' ⊢
    rw [hf.reply, h.fault]
    exact hx'
  have hserving : ∀ {call}, Serving env c call → Serving env c' call := by
    intro call hs
    refine ⟨hun hs.1, ?_⟩
    intro y hy
    rw [h.now, Option.mem_map] at hy
    obtain ⟨x, hx, rfl⟩ := hy
    rw [hf.head]
    exact hs.2 x hx
  have hstreaming : ∀ {a}, Streaming c a → Streaming c' a := by
    intro a hs
    obtain ⟨hp, hfault, x, r, hnow, hreply, hrest⟩ := hs
    exact ⟨h.pending.trans hp, h.fault.trans hfault, f x, r, by rw [h.now, hnow]; rfl,
      (hf.reply x).trans hreply, hrest⟩
  cases pc with
  | reading => exact ⟨hidle hplace.1, h.out.trans hplace.2⟩
  | flushing _ next =>
      cases next with
      | read => exact hidle hplace
      | call => exact hserving hplace
      | wait => exact ⟨hserving hplace.1, h.pending.trans hplace.2⟩
      | stream => exact hstreaming hplace
      | close => exact ⟨h.pending.trans hplace.1, hover hplace.2⟩
      | finish => exact hidle hplace
      | errorWritten => exact ⟨h.pending.trans hplace.1, hover hplace.2⟩
  | settling next =>
      obtain ⟨⟨h1, h2, h3⟩, h4⟩ := hplace
      refine ⟨⟨hun h1, h.out.trans h2, ?_⟩, ?_⟩
      · intro y hy
        rw [h.now, Option.mem_map] at hy
        obtain ⟨x, hx, rfl⟩ := hy
        exact hf.polled x (h3 x hx)
      · intro a ha y hy
        rw [h.now, Option.mem_map] at hy
        obtain ⟨x, hx, rfl⟩ := hy
        exact hf.makes (h4 a ha x hx)
  | firstPoll =>
      exact ⟨hserving hplace.1, h.pending.trans hplace.2.1, h.out.trans hplace.2.2⟩
  | handling => exact ⟨hserving hplace.1, h.out.trans hplace.2⟩
  | streaming => exact ⟨hstreaming hplace.1, fun hp => h.out.trans (hplace.2 hp)⟩
  | ended r =>
      cases r with
      | closed => exact ⟨h.out.trans hplace.1, h.pending.trans hplace.2.1, hover hplace.2.2⟩
      | upgraded => exact ⟨h.out.trans hplace.1, hidle hplace.2⟩
      | ioError => exact h.pending.trans hplace
      | panicked => exact hplace.imp hun fun hp => h.pending.trans hp

theorem SameOutput.inv {env : Env} {f : Exchange → Exchange} {c c' : Conn} (h : SameOutput f c c')
    (hf : Unheard f) (hinv : OutputInv env c) : OutputInv env c' := by
  have hwire : c'.wire = c.wire := by
    have hone : ∀ x, (f x).wire = x.wire := fun x => by
      rw [Exchange.wire, Exchange.wire, hf.interim, hf.reply]
    cases hnow : c.now with
    | none => simp [wire, h.past, h.fault, h.now, hnow]
    | some x => simp [wire, h.past, h.fault, h.now, hnow, hone]
  have hunsent : c'.unsent = c.unsent := by simp only [unsent, h.pc, h.out]
  refine ⟨?_, h.past ▸ hinv.past, ?_, ?_⟩
  · unfold Balanced
    rw [h.pc, h.sent, hwire, hunsent]
    exact hinv.balanced
  · intro y hy
    rw [h.now, Option.mem_map] at hy
    obtain ⟨x, hx, rfl⟩ := hy
    have ho := hinv.now x hx
    rw [h.pending]
    refine ⟨ho.bound, by rw [hf.interim]; exact ho.sent,
      by rw [hf.interim, hf.head]; exact ho.asked, ?_, ?_⟩
    · rw [hf.interim]
      exact fun hne => hf.polled x (ho.polled hne)
    · rw [hf.reply]
      exact fun r hr =>
        ⟨hf.makes (ho.made r hr).answer, (ho.made r hr).drawn, (ho.made r hr).dated⟩
  · rw [h.pc]
    exact h.place hf hinv.place

theorem unheard_id : Unheard id :=
  ⟨fun _ => rfl, fun _ => rfl, fun _ => rfl, fun _ => rfl, fun _ h => h⟩

theorem unheard_polled (r : PollChunk) (unanswered : Bool) :
    Unheard (Exchange.polled r [] unanswered) :=
  ⟨fun _ => rfl, fun _ => rfl, fun _ => List.append_nil _, fun _ => rfl,
    fun x h => by simp [Exchange.polled, h]⟩

/-- While an interim response is owed and the body can be polled, the loop
waits for the handler or for that response, and holds nothing. -/
theorem unanswered_of_pending {env : Env} {c : Conn} (h : OutputInv env c) (hp : c.pending ≠ 0)
    (hheld : c.bodyHeld = true) :
    (∃ call, c.pc = .handling call ∧ Serving env c call ∧ c.out = []) ∨
      (∃ next, c.pc = .settling next ∧ Settling c ∧
        ∀ a, next = .respond a → ∀ x ∈ c.now, x.Makes env a) := by
  have hplace := h.place
  cases hpc : c.pc with
  | reading => rw [hpc] at hplace; exact absurd hplace.1.1 hp
  | flushing w next =>
      rw [hpc] at hplace
      cases next with
      | read => exact absurd hplace.1 hp
      | call => simp [bodyHeld, hpc] at hheld
      | wait => exact absurd hplace.2 hp
      | stream => exact absurd hplace.1 hp
      | close => exact absurd hplace.1 hp
      | finish => exact absurd hplace.1 hp
      | errorWritten => exact absurd hplace.1 hp
  | settling next => rw [hpc] at hplace; exact Or.inr ⟨next, rfl, hplace⟩
  | firstPoll => rw [hpc] at hplace; exact absurd hplace.2.1 hp
  | handling call => rw [hpc] at hplace; exact Or.inl ⟨call, rfl, hplace⟩
  | streaming => rw [hpc] at hplace; exact absurd hplace.1.1 hp
  | ended => simp [bodyHeld, hpc] at hheld

/-- The bytes of the interim response that a poll of the body puts out. -/
theorem polledInterim_out {env : Env} {c c' : Conn} {x : Exchange} {k : Nat} (x' : Exchange)
    (h : OutputInv env c) (hp : c.pending ≠ 0) (hheld : c.bodyHeld = true) (hnow : c.now = some x)
    (hk : k ≤ c.pending) (hpast : c'.past = c.past) (hfault' : c'.fault = c.fault)
    (hout' : c'.out = c.out) (hpc' : c'.pc = c.pc) (hnow' : c'.now = some x')
    (hreply' : x'.reply = x.reply) (hresponse' : x'.response = x.response)
    (hsent : c'.sent = c.sent ++ c.shared.io.owedContinue.take k)
    (hpending : c'.pending = c.pending - k) (hhead : x'.request.head = x.request.head)
    (hinterim : x'.interim = x.interim ++ c.shared.io.owedContinue.take k)
    (hpolled : c.fault = none → x.reply = none → x'.polledFirst = true) : OutputInv env c' := by
  have hplace := unanswered_of_pending h hp hheld
  have hun : Unanswered c ∧ c.out = [] := by
    rcases hplace with ⟨_, _, hs, hout⟩ | ⟨_, _, hs, _⟩
    · exact ⟨hs.1, hout⟩
    · exact ⟨hs.1, hs.2.1⟩
  obtain ⟨⟨hfault, y, hy, hreply⟩, hout⟩ := hun
  obtain rfl := Option.some.inj (hnow.symm.trans hy)
  have hunsent : c.unsent = c.out ∧ c.pc ≠ .ended .panicked := by
    rcases hplace with ⟨_, hpc, _⟩ | ⟨_, hpc, _⟩ <;> simp [unsent, hpc]
  have hunsent' : c'.unsent = c'.out ∧ c'.pc ≠ .ended .panicked := by
    rcases hplace with ⟨_, hpc, _⟩ | ⟨_, hpc, _⟩ <;> simp [unsent, hpc', hpc]
  have hfirst := hpolled hfault hreply
  have hcore' : Core env c' :=
    core_interim (core_of_out h hunsent.1 hunsent.2) hfault hnow hreply hout hk hpast
      (hfault'.trans hfault) (hout'.trans hout) hnow' (hreply'.trans hreply) hsent hpending hhead
      hinterim fun _ => hfirst
  have hun' : Unanswered c' := ⟨hfault'.trans hfault, x', hnow', hreply'.trans hreply⟩
  refine hcore'.inv hunsent'.1 ?_ hunsent'.2
  rcases hplace with ⟨call, hpc, hs, _⟩ | ⟨next, hpc, hs, hmade⟩
  · rw [hpc', hpc]
    refine ⟨⟨hun', ?_⟩, hout'.trans hout⟩
    intro z hz
    rw [hnow'] at hz
    cases hz
    rw [hhead]
    exact hs.2 x (by rw [hnow]; rfl)
  · rw [hpc', hpc]
    refine ⟨⟨hun', hout'.trans hout, ?_⟩, ?_⟩
    · intro z hz
      rw [hnow'] at hz
      cases hz
      exact hfirst
    · intro a ha z hz
      rw [hnow'] at hz
      cases hz
      obtain ⟨hd, kind, resp, consumed, h1, h2, h3⟩ := hmade a ha x (by rw [hnow]; rfl)
      exact ⟨hd, kind, resp, consumed, by rw [hhead]; exact h1, hresponse'.trans h2, h3⟩

/-- A poll that nothing is owed to, or that comes after the end, sends
nothing. -/
theorem pollBody_same {env : Env} {c : Conn} {b : BodyState} {a : PollAnswers}
    (hin : InputInv env c) (hb : c.current = some b)
    (hp : c.pending = 0 ∨ b.done = true) :
    ∃ f, Unheard f ∧ SameOutput f c (stepBody c b (.poll a)) := by
  cases hd : b.done with
  | true =>
      have hpoll := (pollChunk_of_done hd a c.shared).1
      have hstep : stepBody c b (.poll a) = { c with
          current := some b, now := c.now.map (Exchange.polled .ended [] c.fault.isNone) } := by
        simp only [stepBody, hpoll, List.drop_length]
      rw [hstep]
      exact ⟨_, unheard_polled .ended c.fault.isNone, rfl, rfl, rfl, rfl, rfl, rfl, rfl⟩
  | false =>
      have hp := hp.resolve_right (by simp [hd])
      cases hin.stream with
      | settled hs => exact absurd hs (not_settled hb hd _)
      | spent _ _ h3 _ =>
          have := h3 b (by rw [hb]; rfl)
          rw [hd] at this
          cases this
      | @underway pre used n x' hd' kind b' h1 h2 h3 hb' hk hlog ho =>
          obtain rfl := Option.some.inj (hb.symm.trans hb')
          have hbound : c.shared.io.pendingContinue ≤ continueBytes.length := by
            have : c.shared.io.pendingContinue = 0 := hp
            omega
          obtain ⟨k, hkle, hsent, hpending⟩ := pollChunk_sends ho hbound a
          have hk0 : k = 0 := by
            have : k ≤ c.pending := hkle
            omega
          rw [hk0, List.take_zero, List.append_nil] at hsent
          rw [hk0] at hpending
          refine ⟨_, unheard_polled (pollChunk a c.shared b).1 c.fault.isNone,
            hsent, hpending, rfl, rfl, rfl, rfl, ?_⟩
          simp only [stepBody, hsent, List.drop_length]

theorem sameOutput_refl (c : Conn) : SameOutput id c c :=
  ⟨rfl, rfl, rfl, rfl, rfl, rfl, (Option.map_id_apply).symm⟩

/-- So does every other operation on the body. -/
theorem stepBody_same {env : Env} {c : Conn} {b : BodyState} {op : BodyOp} (hin : InputInv env c)
    (hb : c.current = some b) (hp : ∀ a, op = .poll a → c.pending = 0 ∨ b.done = true) :
    ∃ f, Unheard f ∧ SameOutput f c (stepBody c b op) := by
  cases op with
  | poll a => exact pollBody_same hin hb (hp a rfl)
  | abandon =>
      simp only [stepBody]
      split
      · exact ⟨id, unheard_id, sameOutput_refl c⟩
      · have hf := frame_fail c.shared b
        exact ⟨_, unheard_polled (.error .tooLarge) false, hf.sent, hf.pending, rfl, rfl,
          rfl, rfl, rfl⟩
  | drop =>
      have hf := frame_notifyFinished c.shared b
      exact ⟨id, unheard_id, hf.sent, hf.pending, rfl, rfl, rfl, rfl, (Option.map_id_apply).symm⟩

theorem stepStale_same {env : Env} {c : Conn} {i : Nat} {b : BodyState} (hin : InputInv env c)
    (hb : c.stale[i]? = some b) (op : BodyOp) : SameOutput id c (stepStale c i b op) := by
  have hd := hin.stale b (List.mem_of_getElem? hb)
  cases op with
  | poll a =>
      simp only [stepStale, (pollChunk_of_done hd a c.shared).1]
      exact ⟨rfl, rfl, rfl, rfl, rfl, rfl, (Option.map_id_apply).symm⟩
  | abandon =>
      simp only [stepStale, hd, if_true]
      exact sameOutput_refl c
  | drop =>
      have hf := frame_notifyFinished c.shared b
      exact ⟨hf.sent, hf.pending, rfl, rfl, rfl, rfl, (Option.map_id_apply).symm⟩

/-- A poll of the current body sends what it sends of the interim response
in its place. -/
theorem pollBody_out {env : Env} {c : Conn} {b : BodyState} {a : PollAnswers}
    (h : OutputInv env c) (hin : InputInv env c) (hb : c.current = some b)
    (hheld : c.bodyHeld = true) (hp : c.pending ≠ 0) (hd : b.done = false) :
    OutputInv env (stepBody c b (.poll a)) := by
  cases hin.stream with
  | settled hs => exact absurd hs (not_settled hb hd _)
  | spent _ _ h3 _ =>
      have := h3 b (by rw [hb]; rfl)
      rw [hd] at this
      cases this
  | @underway pre used n x' hd' kind b' h1 h2 h3 hb' hk hlog ho =>
      obtain rfl := Option.some.inj (hb.symm.trans hb')
      obtain ⟨x, hnow⟩ : ∃ x, c.now = some x := by
        cases hnow : c.now with
        | none => simp [request, hnow] at h2
        | some x => exact ⟨x, rfl⟩
      have howed := h.now x (by rw [hnow]; rfl)
      obtain ⟨k, hkle, hsent, hpending⟩ := pollChunk_sends ho howed.bound a
      have hdelta : (pollChunk a c.shared b).2.1.io.io.sent.drop c.shared.io.io.sent.length
          = c.shared.io.owedContinue.take k := by
        rw [hsent, List.drop_left]
      refine polledInterim_out (x.polled (pollChunk a c.shared b).1
        (c.shared.io.owedContinue.take k) c.fault.isNone) h hp hheld hnow hkle rfl rfl rfl rfl
        ?_ rfl rfl hsent hpending rfl rfl ?_
      · simp only [stepBody, hnow, hdelta, Option.map_some]
      · intro hfault hreply
        simp [Exchange.polled, hfault, hreply]

theorem stepBody_out {env : Env} {c : Conn} {b : BodyState} (h : OutputInv env c)
    (hin : InputInv env c) (hb : c.current = some b) (hheld : c.bodyHeld = true) (op : BodyOp) :
    OutputInv env (stepBody c b op) := by
  by_cases hp : ∀ a, op = .poll a → c.pending = 0 ∨ b.done = true
  · obtain ⟨f, hf, hsame⟩ := stepBody_same hin hb hp
    exact hsame.inv hf h
  · simp only [not_forall, not_or, Bool.not_eq_true] at hp
    obtain ⟨a, rfl, hpending, hd⟩ := hp
    exact pollBody_out h hin hb hheld hpending hd

theorem stepStale_out {env : Env} {c : Conn} {i : Nat} {b : BodyState} (h : OutputInv env c)
    (hin : InputInv env c) (hb : c.stale[i]? = some b) (op : BodyOp) :
    OutputInv env (stepStale c i b op) :=
  (stepStale_same hin hb op).inv unheard_id h

/-! ## 9. Every run -/

theorem step_out {env : Env} {c : Conn} (h : OutputInv env c) (hin : InputInv env c) {e : Event}
    (he : WritesOk e ∨ Live (step env c e)) : OutputInv env (step env c e) := by
  unfold step at he ⊢
  split
  · split
    · rename_i b hb
      split
      · rename_i hheld; exact stepBody_out h hin hb hheld _
      · exact h
    · exact h
  · split
    · rename_i b hb
      split
      · exact h
      · exact stepStale_out h hin hb _
    · exact h
  · split
    · rename_i hpc; exact stepReading_out h hpc e
    · rename_i hpc
      simp only [hpc] at he
      exact stepFlushing_out h hpc he
    · rename_i hpc
      simp only [hpc] at he
      exact stepSettling_out h hpc he
    · rename_i hpc; exact stepFirstPoll_out h hpc e
    · rename_i hpc; exact stepHandling_out h hpc e
    · rename_i hpc; exact stepStreaming_out h hpc e
    · exact h

theorem init_out (env : Env) (buffered : Bytes) : OutputInv env (init env buffered) :=
  enterRead_out ⟨rfl, by simp, by simp⟩ ⟨rfl, rfl, by simp⟩

theorem run_out (env : Env) (buffered : Bytes) {events : List Event}
    (hok : ∀ e ∈ events, WritesOk e) : OutputInv env (run env buffered events) := by
  have hboth : InputInv env (run env buffered events) ∧ OutputInv env (run env buffered events) :=
    List.foldlRecOn events (step env) (motive := fun c => InputInv env c ∧ OutputInv env c)
      ⟨init_inv env buffered, init_out env buffered⟩
      fun c hc e he => ⟨step_inv hc.1 e, step_out hc.2 hc.1 (Or.inl (hok e he))⟩
  exact hboth.2

theorem run_append_singleton (env : Env) (buffered : Bytes) (events : List Event) (e : Event) :
    run env buffered (events ++ [e]) = step env (run env buffered events) e := by
  simp [run, List.foldl_append]

/-- A loop that has returned does nothing more. -/
theorem step_of_ended (env : Env) {c : Conn} {r : Ended} (h : c.pc = .ended r) (e : Event) :
    step env c e = c := by
  unfold step
  split
  · split
    · simp [bodyHeld, h]
    · rfl
  · split
    · simp only [h]
    · rfl
  · simp only [h]

theorem live_of_step {env : Env} {c : Conn} {e : Event} (h : Live (step env c e)) : Live c := by
  intro r hpc
  rw [step_of_ended env hpc] at h
  exact h r hpc

/-- Whatever the transport answers, the invariant holds until the loop
returns. -/
theorem run_out_of_live (env : Env) (buffered : Bytes) (events : List Event)
    (hlive : Live (run env buffered events)) : OutputInv env (run env buffered events) := by
  induction events using List.reverseRecOn with
  | nil => exact init_out env buffered
  | append_singleton events e ih =>
      rw [run_append_singleton] at hlive ⊢
      exact step_out (ih (live_of_step hlive)) (run_inv env buffered events) (Or.inr hlive)

end Conn

end ArmatureH1

/-
ArmatureH1.Handover — what `serve` hands over when a handler upgrades a
connection.

`UpgradeConsumer` takes over the transport and the bytes that were read past
the request's head, and is told to process those first. What it may rely on
beyond that is here: that it is alone with the transport, that everything
HTTP/1 owed the peer is out, and that the last of it is the head of a 101 to
a request that asked for the upgrade. (That the bytes it gets are what the
stream holds behind the request is the other half, with the boundaries of
requests.)

Only one step hands a connection over: the flush behind a response that
upgrades, coming back. So the loop's invariants are needed in the state
before that step alone, where nothing has failed yet.
-/
import ArmatureH1.ConnPast
import ArmatureH1.ConnFlush
import ArmatureH1.Persistence

namespace ArmatureH1

open ByteString BodyState

namespace Conn

/-! ## 1. The one step that hands over -/

/-- The current request has been answered with `a`. -/
def Carries (a : Answer) (c : Conn) : Prop :=
  ∃ x r, c.now = some x ∧ x.reply = some r ∧ r.answer = a

/-- The last flush of a response is about the answer the request got, and
nothing has been handed over. -/
def Kept (c : Conn) : Prop :=
  match c.pc with
  | .flushing _ (.finish a) => Carries a c
  | .ended (.upgraded _) => False
  | _ => True

theorem flushOr_kept {next : AfterFlush} {c done : Conn}
    (hnext : ∀ a, next = .finish a → Carries a c)
    (hdone : c.out = [] → Kept done) : Kept (flushOr next c done) := by
  unfold flushOr
  split
  · rename_i hout
    exact hdone hout
  · cases next with
    | finish a => exact hnext a rfl
    | _ => trivial

theorem settleContinue_kept {P : Conn → Prop} {next : AfterSettle} {c : Conn} {go : Conn → Conn}
    (hgo : ∀ c', P c' → Kept (go c')) (h : P c) (hdrop : P c.dropContinue) :
    Kept (settleContinue next c go) := by
  unfold settleContinue
  split
  · exact hgo _ hdrop
  · split
    · exact hgo _ h
    · trivial

theorem writeErrorHead_kept (env : Env) (version : Version) (status : Nat) (c : Conn) :
    Kept (writeErrorHead env version status c) :=
  flushOr_kept (by simp) fun _ => trivial

theorem writeError_kept (env : Env) (version : Version) (status : Nat) (c : Conn) :
    Kept (writeError env version status c) :=
  settleContinue_kept (P := fun _ => True) (fun c' _ => writeErrorHead_kept env version status c')
    trivial trivial

theorem callHandler_kept (env : Env) (h : Head) (kind : BodyKind) (c : Conn) :
    Kept (callHandler env h kind c) := by
  rw [callHandler_eq]
  unfold admitted
  simp only
  split
  · trivial
  · split <;> trivial

theorem startRequest_kept (env : Env) (c : Conn) : Kept (startRequest env c) := by
  cases h : c.shared.io.headLength with
  | none =>
      unfold startRequest
      rw [h]
      trivial
  | some n =>
      rw [startRequest_eq env h]
      unfold judge
      split
      · exact writeError_kept env _ _ _
      · split
        · exact writeError_kept env _ _ _
        · exact callHandler_kept env _ _ _

theorem enterRead_kept (env : Env) (c : Conn) : Kept (enterRead env c) := by
  unfold enterRead
  simp only
  split
  · exact startRequest_kept env _
  · exact flushOr_kept (by simp) fun _ => trivial

theorem dispose_kept (env : Env) (c : Conn) {a : Answer} (h : a.upgrading = false) :
    Kept (dispose env c a.disposition) := by
  unfold Answer.disposition
  rw [h]
  cases a.keepAlive with
  | true => exact enterRead_kept env c
  | false => trivial

/-- A response that upgrades leaves something to flush. -/
theorem conclude_kept (env : Env) {a : Answer} {c : Conn} (h : Carries a c)
    (hout : a.upgrading = true → c.out ≠ []) : Kept (conclude env a c) := by
  have hflush : ∀ io : IoState, Kept
      (flushOr (.finish a) (c.setIo io) (dispose env (c.setIo io) a.disposition)) := by
    intro io
    refine flushOr_kept (fun a' ha => by cases ha; exact h) fun hempty => dispose_kept env _ ?_
    cases hup : a.upgrading with
    | false => rfl
    | true => exact absurd hempty (hout hup)
  unfold conclude
  split
  · rename_i hhold
    simp only [Bool.and_eq_true, Bool.not_eq_true'] at hhold
    simp only
    split
    · exact dispose_kept env _ hhold.1.2
    · exact hflush _
  · exact hflush c.shared.io

theorem respondHead_kept (env : Env) (a : Answer) {c : Conn} (hnow : c.now.isSome = true) :
    Kept (respondHead env a c) := by
  obtain ⟨x, hx⟩ := Option.isSome_iff_exists.mp hnow
  have hhead : c.out ++ a.head (env.date c.heads) ≠ [] := by simp [head_ne_nil]
  have hcarries : ∀ out pc, Carries a { c with
      out := out
      pc := pc
      heads := c.heads + 1
      now := c.now.map (Exchange.answer ⟨a, env.date c.heads, [], false⟩) } := by
    intro out pc
    exact ⟨_, _, by rw [hx]; rfl, rfl, rfl⟩
  unfold respondHead
  simp only
  split
  · split
    · exact conclude_kept env (hcarries _ _) fun _ => hhead
    · exact conclude_kept env (hcarries _ _) fun _ => by simp [head_ne_nil]
    · exact flushOr_kept (by simp) fun _ => trivial
  · exact conclude_kept env (hcarries _ _) fun _ => hhead

theorem respond_kept (env : Env) (call : Call) (resp : Response) {c : Conn}
    (hnow : c.now.isSome = true) : Kept (respond env call resp c) :=
  settleContinue_kept (P := fun c => c.now.isSome = true) (fun _ h => respondHead_kept env _ h)
    (by simpa using hnow) (by simpa [dropContinue, setIo] using hnow)

theorem failFlush_kept (c : Conn) (next : AfterFlush) : Kept (failFlush c next) := by
  cases next <;> trivial

/-- The flush behind a response comes back. -/
def FinishReturns (c : Conn) (a : Answer) (e : Event) : Prop :=
  e = .flush .ok ∧ ∃ written, c.pc = .flushing written (.finish a) ∧ c.out.length ≤ written

theorem stepFlushing_kept (env : Env) {c : Conn} {written : Nat} {next : AfterFlush} (h : Kept c)
    (hpc : c.pc = .flushing written next) {e : Event}
    (hno : ∀ a, a.upgrading = true → ¬ FinishReturns c a e) :
    Kept (stepFlushing env c written next e) := by
  have hfinish : ∀ a, next = .finish a → Carries a c := by
    intro a ha
    rw [Kept, hpc, ha] at h
    exact h
  unfold stepFlushing
  split
  · split
    · exact failFlush_kept c next
    · exact h
  · split
    · split
      · exact failFlush_kept c next
      · cases next with
        | finish a => exact hfinish a rfl
        | _ => trivial
    · exact h
  · split
    · exact h
    · rename_i hwritten
      cases next with
      | finish a =>
          refine dispose_kept env _ ?_
          cases hup : a.upgrading with
          | false => rfl
          | true => exact absurd ⟨rfl, written, hpc, Nat.le_of_not_lt hwritten⟩ (hno a hup)
      | _ => trivial
  · split
    · exact h
    · exact failFlush_kept c next
  · exact failFlush_kept c next
  · exact h

theorem unanswered_isSome {c : Conn} (h : Unanswered c) : c.now.isSome = true := by
  obtain ⟨-, x, hx, -⟩ := h
  rw [hx]
  rfl

theorem stepSettling_kept (env : Env) {c : Conn} {next : AfterSettle} (hout : OutputInv env c)
    (hpc : c.pc = .settling next) (e : Event) : Kept (stepSettling env c next e) := by
  have hplace := hout.place
  rw [hpc] at hplace
  have hnow := unanswered_isSome hplace.1.1
  have hrecord : ∀ io : IoState, (c.record io).now.isSome = true := by
    intro io
    simpa [record] using hnow
  have hkept : ∀ io : IoState, Kept (c.record io) := by
    intro io
    unfold Kept
    rw [show (c.record io).pc = c.pc from rfl, hpc]
    trivial
  have hfail : ∀ c' : Conn, Kept (failSettle c' next) := by
    intro c'
    cases next <;> trivial
  unfold stepSettling
  split
  · split
    · exact hkept _
    · cases next with
      | respond a => exact respondHead_kept env a (hrecord _)
      | error version status => exact writeErrorHead_kept env version status _
    · exact hfail _
  · exact hfail c
  · rw [Kept, hpc]
    trivial

theorem stepReading_kept (env : Env) {c : Conn} (h : Kept c) (started : Bool) (e : Event) :
    Kept (stepReading env c started e) := by
  unfold stepReading
  split
  · trivial
  · split
    · trivial
    · split
      · exact startRequest_kept env _
      · exact writeError_kept env _ _ _
      · trivial
  · split
    · exact writeError_kept env _ _ _
    · trivial
  · exact h

theorem stepFirstPoll_kept (env : Env) {c : Conn} (h : Kept c) (call : Call) (held : Bytes)
    (hnow : c.now.isSome = true) (e : Event) : Kept (stepFirstPoll env c call held e) := by
  unfold stepFirstPoll
  split
  · exact flushOr_kept (by simp) fun _ => trivial
  · exact respond_kept env call _ hnow
  · trivial
  · exact h

theorem stepHandling_kept (env : Env) {c : Conn} (h : Kept c) (call : Call)
    (hnow : c.now.isSome = true) (e : Event) : Kept (stepHandling env c call e) := by
  unfold stepHandling
  split
  · exact respond_kept env call _ hnow
  · trivial
  · split
    · exact h
    · exact writeError_kept env _ _ _
  · exact writeError_kept env _ _ _
  · exact h

/-- A response that upgrades has no body, so its stream is not written. -/
theorem stepStreaming_kept (env : Env) {c : Conn} (h : Kept c) {a : Answer} (hs : Streaming c a)
    (parked : Bool) (e : Event) : Kept (stepStreaming env c a parked e) := by
  obtain ⟨-, -, x, r, hx, hr, ha, -, hwrites, -⟩ := hs
  unfold stepStreaming
  split
  · split
    · exact h
    · exact flushOr_kept (by simp) fun _ => trivial
  · simp only
    split
    · exact flushOr_kept (by simp) fun _ => trivial
    · trivial
  · exact flushOr_kept (by simp) fun _ => trivial
  · refine conclude_kept env ⟨Exchange.onReply Reply.finish x, r.finish, ?_, ?_, ha⟩ ?_
    · simp [addEnd, hx]
    · simp [Exchange.onReply, hr]
    · intro hup
      simp [Answer.writesBody, hup] at hwrites
  · trivial
  · split
    · trivial
    · exact h
  · exact h

theorem stepBody_kept {c : Conn} (h : Kept c) (b : BodyState) (op : BodyOp) :
    Kept (stepBody c b op) := by
  have hpolled : ∀ (c' : Conn) (r : PollChunk) (sent : Bytes) (unanswered : Bool), c'.pc = c.pc →
      c'.now = c.now.map (Exchange.polled r sent unanswered) → Kept c' := by
    intro c' r sent unanswered hpc hnow
    unfold Kept at h ⊢
    rw [hpc]
    split
    · rename_i heq
      rw [heq] at h
      obtain ⟨x, reply, hx, hreply, ha⟩ := h
      exact ⟨Exchange.polled r sent unanswered x, reply, by rw [hnow, hx]; rfl, hreply, ha⟩
    · rename_i heq; rw [heq] at h; exact h
    · trivial
  cases op with
  | poll a => exact hpolled _ _ _ _ rfl rfl
  | abandon =>
      simp only [stepBody]
      split
      · exact h
      · exact hpolled _ _ _ _ rfl rfl
  | drop => exact h

theorem stepStale_kept {c : Conn} (h : Kept c) (i : Nat) (b : BodyState) (op : BodyOp) :
    Kept (stepStale c i b op) := by
  cases op with
  | poll a => exact h
  | abandon =>
      simp only [stepStale]
      split <;> exact h
  | drop => exact h

/-- **Only the flush behind a response that upgrades hands over.** -/
theorem step_kept {env : Env} {c : Conn} (h : Kept c) (hout : OutputInv env c) {e : Event}
    (hno : ∀ a, a.upgrading = true → ¬ FinishReturns c a e) : Kept (step env c e) := by
  have hplace := hout.place
  have hloop : Kept (stepPc env c e) := by
    unfold stepPc
    split
    · exact stepReading_kept env h _ e
    · rename_i hpc; exact stepFlushing_kept env h hpc hno
    · rename_i hpc; exact stepSettling_kept env hout hpc e
    · rename_i hpc
      rw [hpc] at hplace
      exact stepFirstPoll_kept env h _ _ (unanswered_isSome hplace.1.1) e
    · rename_i hpc
      rw [hpc] at hplace
      exact stepHandling_kept env h _ (unanswered_isSome hplace.1.1) e
    · rename_i hpc
      rw [hpc] at hplace
      exact stepStreaming_kept env h hplace.1 _ e
    · exact h
  cases e with
  | body op =>
      unfold step
      cases c.current with
      | none => exact h
      | some b =>
          simp only
          split
          · exact stepBody_kept h b op
          · exact h
  | staleBody i op =>
      unfold step
      simp only
      cases c.stale[i]? with
      | none => exact h
      | some b =>
          simp only
          split
          · exact h
          · exact stepStale_kept h i b op
  | _ => exact hloop

/-! ## 2. Every run -/

theorem init_kept (env : Env) (buffered : Bytes) : Kept (init env buffered) :=
  enterRead_kept env _

theorem not_upgraded_of_kept {c : Conn} (h : Kept c) (handed : Bytes) :
    c.pc ≠ .ended (.upgraded handed) := by
  intro hpc
  rw [Kept, hpc] at h
  exact h

/-- The step behind the flush of a response that upgrades ends the loop. -/
theorem step_of_finishReturns {env : Env} {c : Conn} {a : Answer} {e : Event}
    (h : FinishReturns c a e) (hup : a.upgrading = true) :
    step env c e = dispose env { c with out := [] } .upgrade := by
  obtain ⟨rfl, written, hpc, hwritten⟩ := h
  have hdisposition : a.disposition = .upgrade := by rw [Answer.disposition, if_pos hup]
  unfold step
  simp only [hpc, stepFlushing, if_neg (Nat.not_lt.mpr hwritten), proceed, hdisposition]

/-- Until the loop returns, nothing has been handed over, and a response that
is being finished is the one the request got. -/
theorem run_kept (env : Env) (buffered : Bytes) (events : List Event)
    (hlive : Live (run env buffered events)) : Kept (run env buffered events) := by
  induction events using List.reverseRecOn with
  | nil => exact init_kept env buffered
  | append_singleton events e ih =>
      rw [run_append_singleton] at hlive ⊢
      refine step_kept (ih (live_of_step hlive)) (run_out_of_live env buffered events
        (live_of_step hlive)) fun a hup hreturns => ?_
      rw [step_of_finishReturns hreturns hup, dispose] at hlive
      split at hlive
      · exact hlive _ rfl
      · exact hlive _ rfl

/-- A loop that handed over did so in one step of the run, and did nothing
behind it. -/
theorem upgraded_at (env : Env) (buffered : Bytes) (events : List Event) {handed : Bytes}
    (hpc : (run env buffered events).pc = .ended (.upgraded handed)) :
    ∃ before e, Live (run env buffered before) ∧
      step env (run env buffered before) e = run env buffered events := by
  induction events using List.reverseRecOn with
  | nil => exact absurd hpc (not_upgraded_of_kept (init_kept env buffered) handed)
  | append_singleton events e ih =>
      by_cases hlive : Live (run env buffered events)
      · exact ⟨events, e, hlive, (run_append_singleton env buffered events e).symm⟩
      · obtain ⟨r, hr⟩ : ∃ r, (run env buffered events).pc = .ended r := by
          by_contra hno
          exact hlive fun r hr => hno ⟨r, hr⟩
        have hsame : run env buffered (events ++ [e]) = run env buffered events := by
          rw [run_append_singleton, step_of_ended env hr]
        rw [hsame] at hpc ⊢
        exact ih hpc

/-- What an answer that upgrades was made from. -/
theorem answer_of_upgrading {env : Env} {x : Exchange} {a : Answer} (hmakes : x.Makes env a)
    (hup : a.upgrading = true) :
    ∃ h kind resp, verdict env x.request.head = some (h, kind) ∧
      (Call.ofHead h).wantsUpgrade = true ∧ x.response = some resp ∧ resp.status = 101 ∧
      a.status = 101 ∧ a.headers = Answer.withServer env.serverName resp.headers := by
  obtain ⟨h, kind, resp, consumed, hverdict, hresponse, rfl⟩ := hmakes
  have hstatus := Answer.upgrading_of hup
  simp only [Answer.of, Bool.and_eq_true, beq_iff_eq] at hup
  have hfinal : isFinalStatus resp.status (Call.ofHead h).wantsUpgrade = true := by
    rw [hup.1.1, hup.1.2]
    decide
  refine ⟨h, kind, resp, hverdict, hup.1.2, hresponse, hup.1.1, hstatus, ?_⟩
  simp [Answer.of, hfinal]

/-- **What a connection is handed over with.** When `serve` hands the
transport over, everything HTTP/1 had to write is out, no request's body
holds on to the transport, and no later event does anything to it. The last
that was written is the head of a 101 with the handler's header fields, to a
request that asked for the upgrade in a version that has it, and nothing is
behind that head. -/
theorem handed_over (env : Env) (buffered : Bytes) (events : List Event) {handed : Bytes}
    (hpc : (run env buffered events).pc = .ended (.upgraded handed)) :
    let c := run env buffered events
    c.out = [] ∧ c.pending = 0 ∧ c.current = none ∧ c.stale = [] ∧ (∀ e, step env c e = c) ∧
      ∃ x r h kind resp, c.now = some x ∧ verdict env x.request.head = some (h, kind) ∧
        (Call.ofHead h).wantsUpgrade = true ∧ x.response = some resp ∧ resp.status = 101 ∧
        x.reply = some r ∧ r.answer.status = 101 ∧
        r.answer.headers = Answer.withServer env.serverName resp.headers ∧
        (x.interim = [] ∨ x.interim = continueBytes) ∧
        c.sent = c.past.flatMap Exchange.wire ++ x.interim ++ r.answer.head r.date := by
  intro c
  obtain ⟨before, e, hlive, hstep⟩ := upgraded_at env buffered events hpc
  have hout := run_out_of_live env buffered before hlive
  have hkept := run_kept env buffered before hlive
  have hended : ∀ e, step env c e = c := fun e => step_of_ended env hpc e
  -- anything but the flush behind an upgrade would have handed nothing over
  obtain ⟨a, hup, hreturns⟩ :
      ∃ a, a.upgrading = true ∧ FinishReturns (run env buffered before) a e := by
    by_contra hno
    refine not_upgraded_of_kept (step_kept hkept hout fun a hup hreturns =>
      hno ⟨a, hup, hreturns⟩) handed ?_
    rw [hstep]
    exact hpc
  have hstep' := hstep
  rw [step_of_finishReturns hreturns hup] at hstep'
  obtain ⟨-, written, hpcb, hwritten⟩ := hreturns
  generalize run env buffered before = b at hlive hout hkept hstep' hpcb hwritten
  have hplace := hout.place
  have hbytes := hout.balanced
  rw [hpcb] at hplace
  obtain ⟨hpending, hfault, -⟩ : Idle b := hplace
  obtain ⟨x, r, hx, hr, ha⟩ : Carries a b := by
    rw [Kept, hpcb] at hkept
    exact hkept
  -- no body is held, or the loop would have closed the connection
  have hfree : ¬ (b.current.isSome = true ∨ b.stale ≠ []) := by
    intro hheld
    have hclosed : c.pc = .ended .closed := by
      change (run env buffered events).pc = _
      rw [← hstep', dispose, if_pos hheld]
    rw [show c.pc = _ from hpc] at hclosed
    cases hclosed
  have hc : c = { b with out := [], pc := .ended (.upgraded b.shared.io.buf) } := by
    change run env buffered events = _
    rw [← hstep', dispose, if_neg hfree]
  obtain ⟨h, kind, resp, hverdict, hwants, hresponse, hstatus, hstatus', hheaders⟩ :=
    answer_of_upgrading (ha ▸ ((hout.now x hx).made r hr).answer) hup
  have hentry : Entry env x 0 := hpending ▸ hout.now x hx
  have hbody : r.body = [] := by simp [Reply.body, ha, Answer.writesBody, hup]
  have hsent : b.sent = b.past.flatMap Exchange.wire ++ x.interim ++ r.answer.head r.date := by
    simp only [Balanced, unsent, hpcb] at hbytes
    rw [List.drop_eq_nil_of_le hwritten, List.append_nil] at hbytes
    simp [hbytes, wire, hx, hfault, Exchange.wire, hr, Reply.bytes, hbody]
  refine ⟨by rw [hc], by rw [hc]; exact hpending, ?_, ?_, hended, x, r, h, kind, resp, ?_, hverdict,
    hwants, hresponse, hstatus, hr, ha ▸ hstatus', ha ▸ hheaders, hentry.whole, ?_⟩
  · rw [hc]
    exact Option.not_isSome_iff_eq_none.mp fun h => hfree (Or.inl h)
  · rw [hc]
    by_contra hne
    exact hfree (Or.inr hne)
  · rw [hc]
    exact hx
  · rw [hc]
    exact hsent

/-- A request for another protocol. -/
def upgradeRequest : Bytes :=
  ascii "GET / HTTP/1.1\r\nHost: a\r\nConnection: upgrade\r\nUpgrade: x\r\n\r\n"

/-- A connection whose tokenizer knows that request. -/
def upgradeEnv : Env where
  limits := Limits.default
  serverName := none
  coalescing := .source
  httparse := fun _ region =>
    if region = upgradeRequest then
      .ok (some ⟨some (ascii "GET"), some (ascii "/"), some 1,
        [(ascii "Host", ascii "a"), (ascii "Connection", ascii "upgrade"),
          (ascii "Upgrade", ascii "x")]⟩)
    else .ok none
  date := fun _ => ascii "Thu, 01 Jan 1970 00:00:00 GMT"

/-- It is accepted, and the first bytes of the other protocol follow it. -/
def upgradedRun : Conn :=
  run upgradeEnv [] [.read (.ok (upgradeRequest ++ ascii "hello")), .body .drop,
    .handler (.ready ⟨101, [], .empty⟩), .write (.ok 1000), .flush .ok]

theorem handed_over_hello : upgradedRun.out = [] ∧ upgradedRun.sent ≠ [] := by
  have hpc : upgradedRun.pc = .ended (.upgraded (ascii "hello")) := rfl
  have h := handed_over upgradeEnv [] _ hpc
  obtain ⟨hout, -, -, -, -, x, r, -, -, -, -, -, -, -, -, -, -, -, -, hsent⟩ := h
  refine ⟨hout, ?_⟩
  rw [show upgradedRun.sent = _ from hsent]
  simp [head_ne_nil]

end Conn

end ArmatureH1

/-
ArmatureH1.ConnFlush — nothing finished is held back while the loop waits.

Output is held back in two places: in `out`, for the next response or the
next chunk to join it, and in the guard around a handler's first poll. Before
the task suspends for something other than a write (the peer's next request,
a handler that is not ready, a stream that has nothing), both are flushed. To
say "flushed" the connection is watched from outside: `Watched` notes how
much the transport had accepted when the loop's last flush came back.

A response enters the history and `out` in one step, so as long as `out` is
not empty nothing has to be known about it; and `out` is emptied by a flush
alone. That is the invariant (`Caught`).
-/
import ArmatureH1.ConnReplies
import ArmatureH1.WriteTheorems

namespace ArmatureH1

open ByteString BodyState

/-- The waits for something other than a write: for the peer's input, for a
handler, and for a stream that was polled and had nothing. -/
def Pc.suspends : Pc → Bool
  | .reading _ => true
  | .handling _ => true
  | .streaming _ parked => parked
  | _ => false

namespace Conn

/-! ## 1. What is held, and what was flushed -/

/-- `HeldOutput`. -/
def heldOutput (c : Conn) : Bytes :=
  match c.pc with
  | .firstPoll _ held => held
  | _ => []

/-- The responses so far: those of the earlier requests and, once it has
begun, the current one with every chunk its stream has yielded. -/
def responses (c : Conn) : Bytes :=
  c.past.flatMap Exchange.wire
    ++ (c.now.toList.filter fun x => x.reply.isSome).flatMap Exchange.wire

/-- A connection, and how much the transport had accepted when the loop's
last flush came back. -/
structure Watched where
  conn : Conn
  flushed : Nat

/-- The event is the return of a flush. -/
def flushReturns (c : Conn) : Event → Bool
  | .flush .ok =>
    match c.pc with
    | .flushing written _ => decide (c.out.length ≤ written)
    | _ => false
  | _ => false

def watch (env : Env) (w : Watched) (e : Event) : Watched where
  conn := step env w.conn e
  flushed := if flushReturns w.conn e then w.conn.sent.length else w.flushed

def watchedRun (env : Env) (buffered : Bytes) (events : List Event) : Watched :=
  events.foldl (watch env) ⟨init env buffered, 0⟩

/-- What the transport has flushed. -/
def flushedBytes (env : Env) (buffered : Bytes) (events : List Event) : Bytes :=
  (run env buffered events).sent.take (watchedRun env buffered events).flushed

theorem watchedRun_append (env : Env) (buffered : Bytes) (events : List Event) (e : Event) :
    watchedRun env buffered (events ++ [e]) = watch env (watchedRun env buffered events) e := by
  simp [watchedRun, List.foldl_append]

/-- Watching changes nothing. -/
theorem watchedRun_conn (env : Env) (buffered : Bytes) (events : List Event) :
    (watchedRun env buffered events).conn = run env buffered events := by
  induction events using List.reverseRecOn with
  | nil => rfl
  | append_singleton events e ih =>
      rw [watchedRun_append, run_append_singleton, watch, ih]

/-! ## 2. The invariant -/

/-- Between waits: with nothing in `out`, the responses are flushed. -/
def Due (n : Nat) (c : Conn) : Prop := c.out = [] → c.responses.length ≤ n

/-- At a wait: with nothing in `out` and nothing in the guard, the responses
are flushed. -/
def Caught (n : Nat) (c : Conn) : Prop :=
  Live c → c.heldOutput ++ c.out = [] → c.responses.length ≤ n

theorem responses_le_wire (c : Conn) : c.responses.length ≤ c.wire.length := by
  unfold responses wire
  cases hnow : c.now with
  | none => simp
  | some x =>
      cases hreply : x.reply with
      | none => simp [hreply]
      | some r => simp [hreply]

theorem caught_ended {n : Nat} {c : Conn} {r : Ended} (h : c.pc = .ended r) : Caught n c :=
  fun hlive => absurd h (hlive r)

/-- A wait that holds no guard and leaves the history alone. -/
theorem Due.caught {n : Nat} {c : Conn} (h : Due n c) {c' : Conn} (hout : c'.out = c.out)
    (hresponses : c'.responses = c.responses) : Caught n c' := by
  intro _ hnil
  rw [hresponses]
  exact h (hout ▸ (List.append_eq_nil_iff.mp hnil).2)

theorem caught_flushOr {n : Nat} {c done : Conn} {next : AfterFlush}
    (h : c.out = [] → Caught n done) : Caught n (flushOr next c done) := by
  unfold flushOr
  split
  · rename_i hout
    exact h hout
  · rename_i hout
    intro _ hnil
    exact absurd (List.append_eq_nil_iff.mp hnil).2 hout

/-! ## 3. Errors and the next request -/

theorem writeErrorHead_caught (n : Nat) (env : Env) (version : Version) (status : Nat) (c : Conn) :
    Caught n (writeErrorHead env version status c) :=
  caught_flushOr fun _ => caught_ended rfl

theorem writeError_caught {n : Nat} {c : Conn} (h : Due n c) (env : Env) (version : Version)
    (status : Nat) : Caught n (writeError env version status c) := by
  unfold writeError settleContinue
  split
  · exact writeErrorHead_caught n env version status _
  · split
    · exact writeErrorHead_caught n env version status _
    · exact h.caught rfl rfl

theorem callHandler_caught {n : Nat} {c : Conn} (h : Due n c) (env : Env) (hd : Head)
    (kind : BodyKind) : Caught n (callHandler env hd kind c) := by
  unfold callHandler
  simp only
  split
  · exact h.caught rfl rfl
  · split
    · exact h.caught rfl rfl
    · intro _ hnil
      exact h (List.append_eq_nil_iff.mp hnil).1

/-- A request that is done with joins the earlier ones. -/
theorem responses_of_done {c : Conn} (hnow : ∀ x ∈ c.now, x.reply.isSome = true) :
    c.responses = (c.past ++ c.now.toList).flatMap Exchange.wire := by
  unfold responses
  cases h : c.now with
  | none => simp
  | some x => simp [hnow x (by rw [h]; rfl)]

theorem startRequest_caught {n : Nat} {c : Conn} (h : Due n c)
    (hnow : ∀ x ∈ c.now, x.reply.isSome = true) (env : Env) : Caught n (startRequest env c) := by
  unfold startRequest
  split
  · exact caught_ended rfl
  · rename_i len hlen
    simp only
    generalize hc : ({ c.setIo (c.shared.io.splitHead len).2 with
        current := none
        stale := c.current.toList ++ c.stale
        past := c.past ++ c.now.toList
        now := some (Exchange.start (c.shared.io.splitHead len).1) } : Conn) = c'
    have hdue : Due n c' := by
      subst hc
      intro hout
      have hlen := h hout
      rw [responses_of_done hnow] at hlen
      simpa [responses, Exchange.start] using hlen
    split
    · exact writeError_caught hdue env _ _
    · split
      · exact writeError_caught hdue env _ _
      · exact callHandler_caught hdue env _ _

theorem enterRead_caught {n : Nat} {c : Conn} (h : Due n c)
    (hnow : ∀ x ∈ c.now, x.reply.isSome = true) (env : Env) : Caught n (enterRead env c) := by
  unfold enterRead
  simp only
  split
  · exact startRequest_caught (c := c.setIo c.shared.io.hasCompleteHead.2) h hnow env
  · exact caught_flushOr fun _ => h.caught rfl rfl

theorem dispose_caught {n : Nat} {c : Conn} (h : Due n c)
    (hnow : ∀ x ∈ c.now, x.reply.isSome = true) (env : Env) (d : Disposition) :
    Caught n (dispose env c d) := by
  cases d with
  | keepAlive => exact enterRead_caught h hnow env
  | close => exact caught_ended rfl
  | upgrade =>
      simp only [dispose]
      split
      · exact caught_ended rfl
      · exact caught_ended rfl

/-! ## 4. The response -/

theorem conclude_caught {n : Nat} {c : Conn} (h : Due n c)
    (hnow : ∀ x ∈ c.now, x.reply.isSome = true) (env : Env) (a : Answer) :
    Caught n (conclude env a c) := by
  have hio : ∀ io : IoState, Caught n (dispose env (c.setIo io) a.disposition) :=
    fun io => dispose_caught (c := c.setIo io) h hnow env _
  unfold conclude
  split
  · simp only
    split
    · exact hio _
    · exact caught_flushOr fun _ => hio _
  · exact caught_flushOr fun _ => dispose_caught h hnow env _

theorem head_ne_nil (a : Answer) (date : Bytes) : a.head date ≠ [] := by
  have hcrlf : crlf ≠ [] := by decide
  simp [Answer.head, writeHeadFor, hcrlf]

/-- The head of a response is in `out`, so there is nothing to show. -/
theorem respondHead_caught (n : Nat) (env : Env) (a : Answer) (c : Conn) :
    Caught n (respondHead env a c) := by
  have hne : c.out ++ a.head (env.date c.heads) ≠ [] := by simp [head_ne_nil]
  have hsome : ∀ r : Reply, ∀ x ∈ c.now.map (Exchange.answer r), x.reply.isSome = true := by
    intro r x hx
    obtain ⟨y, -, rfl⟩ := Option.mem_map.mp hx
    rfl
  unfold respondHead
  simp only
  split
  · split
    · exact conclude_caught (fun hout => absurd hout hne) (hsome _) env a
    · refine conclude_caught (fun hout => absurd (List.append_eq_nil_iff.mp hout).1 hne)
        (hsome _) env a
    · exact caught_flushOr fun hout => absurd hout hne
  · exact conclude_caught (fun hout => absurd hout hne) (hsome _) env a

theorem respond_caught {n : Nat} {c : Conn} (h : Due n c) (env : Env) (call : Call)
    (resp : Response) : Caught n (respond env call resp c) := by
  have hresponses : ({ c with now := c.now.map (Exchange.responded resp) } : Conn).responses
      = c.responses := by
    cases hnow : c.now with
    | none => simp [responses, hnow]
    | some x => cases hreply : x.reply <;>
        simp [responses, hnow, Exchange.responded, Exchange.wire, hreply]
  unfold respond settleContinue
  simp only
  split
  · exact respondHead_caught n env _ _
  · split
    · exact respondHead_caught n env _ _
    · exact h.caught rfl hresponses

/-! ## 5. One step -/

theorem Idle.replied {c : Conn} (h : Idle c) : ∀ x ∈ c.now, x.reply.isSome = true := by
  intro x hx
  obtain ⟨r, hr, -⟩ := h.2.2 x hx
  rw [hr]
  rfl

/-- At a wait without a guard. -/
theorem Caught.due {n : Nat} {c : Conn} (h : Caught n c) (hlive : Live c)
    (hheld : c.heldOutput = []) : Due n c :=
  fun hout => h hlive (by rw [hheld, hout]; rfl)

theorem proceed_caught {n : Nat} {env : Env} {c : Conn} {written : Nat} {next : AfterFlush}
    (h : Due n c) (hplace : Place env c (.flushing written next)) :
    Caught n (proceed env c next) := by
  cases next with
  | read => exact h.caught rfl rfl
  | call => exact h.caught rfl rfl
  | wait => exact h.caught rfl rfl
  | stream => exact h.caught rfl rfl
  | close => exact caught_ended rfl
  | finish a =>
      have hidle : Idle c := hplace
      exact dispose_caught h hidle.replied env _
  | errorWritten => exact caught_ended rfl

theorem failFlush_caught (n : Nat) (c : Conn) (next : AfterFlush) : Caught n (failFlush c next) :=
  fun hlive => absurd hlive (not_live_failFlush c next)

theorem flushReturns_iff {c : Conn} {written : Nat} {next : AfterFlush}
    (hpc : c.pc = .flushing written next) {e : Event} :
    flushReturns c e = true ↔ e = .flush .ok ∧ c.out.length ≤ written := by
  unfold flushReturns
  split
  · simp [hpc]
  · rename_i hflush
    exact ⟨fun h => absurd h (by simp), fun h => absurd h.1 hflush⟩

/-- The one place where more counts as flushed: a flush that comes back has
everything behind it that was sent. -/
theorem stepFlushing_caught {n : Nat} {env : Env} {c : Conn} {written : Nat} {next : AfterFlush}
    (hinv : OutputInv env c) (hpc : c.pc = .flushing written next) (h : Caught n c) (e : Event) :
    Caught (if flushReturns c e then c.sent.length else n) (stepFlushing env c written next e) := by
  have hlive : Live c := by
    intro r hr
    rw [hpc] at hr
    cases hr
  have hdue : Due n c := h.due hlive (by rw [heldOutput, hpc])
  have hbytes := hinv.balanced
  have hplace := hinv.place
  simp only [Balanced, unsent, hpc] at hbytes
  rw [hpc] at hplace
  cases hret : flushReturns c e with
  | true =>
      obtain ⟨rfl, hdone⟩ := (flushReturns_iff hpc).mp hret
      have hnil : c.out.drop written = [] := List.drop_eq_nil_of_le hdone
      rw [hnil, List.append_nil] at hbytes
      rw [if_pos rfl]
      simp only [stepFlushing, if_neg (Nat.not_lt.mpr hdone)]
      refine @proceed_caught _ env { c with out := [] } written next (fun _ => ?_) ?_
      · rw [hbytes]
        exact responses_le_wire c
      · cases next <;> exact hplace
  | false =>
      rw [if_neg (by simp)]
      unfold stepFlushing
      split
      · split
        · exact failFlush_caught n c next
        · exact h
      · split
        · split
          · exact failFlush_caught n c next
          · exact hdue.caught rfl rfl
        · exact h
      · split
        · exact h
        · rename_i hdone
          have hyes := (flushReturns_iff hpc).mpr ⟨rfl, Nat.not_lt.mp hdone⟩
          rw [hyes] at hret
          cases hret
      · split
        · exact h
        · exact failFlush_caught n c next
      · exact failFlush_caught n c next
      · exact h

theorem stepReading_caught {n : Nat} {env : Env} {c : Conn} {started : Bool} (h : Due n c)
    (hidle : Idle c) (e : Event) :
    Caught n (stepReading env c started e) := by
  unfold stepReading
  split
  · exact caught_ended rfl
  · split
    · exact caught_ended rfl
    · rcases headRead env.limits started _ c.shared.io with ⟨step, io⟩
      cases step with
      | ready => exact startRequest_caught (c := c.setIo io) h hidle.replied env
      | failed status => exact writeError_caught (c := c.setIo io) h env _ _
      | more started' => exact h.caught rfl rfl
  · split
    · exact writeError_caught h env _ _
    · exact caught_ended rfl
  · exact h.caught rfl rfl

theorem stepSettling_caught {n : Nat} {env : Env} {c : Conn} {next : AfterSettle} (h : Due n c)
    (hun : Unanswered c) (e : Event) : Caught n (stepSettling env c next e) := by
  obtain ⟨-, x, hnow, hreply⟩ := hun
  have hrecord : ∀ io : IoState, (c.record io).responses = c.responses := by
    intro io
    simp [responses, record, setIo, hnow, hreply, Exchange.sentInterim]
  have hfail : ∀ c' : Conn, Caught n (failSettle c' next) :=
    fun c' hlive => absurd hlive (not_live_failSettle c' next)
  unfold stepSettling
  split
  · rcases c.shared.io.pollSendContinue _ _ with ⟨_ | _ | _, io⟩
    · exact h.caught rfl (hrecord io)
    · cases next with
      | respond a => exact respondHead_caught n env a _
      | error version status => exact writeErrorHead_caught n env version status _
    · exact hfail _
  · exact hfail c
  · exact h.caught rfl rfl

theorem stepFirstPoll_caught {n : Nat} {env : Env} {c : Conn} {call : Call} {held : Bytes}
    (h : Caught n c) (hpc : c.pc = .firstPoll call held) (e : Event) :
    Caught n (stepFirstPoll env c call held e) := by
  have hlive : Live c := by
    intro r hr
    rw [hpc] at hr
    cases hr
  have hdue : Due n { c with out := held ++ c.out } := by
    intro hout
    exact h hlive (by rw [heldOutput, hpc]; exact hout)
  unfold stepFirstPoll
  split
  · exact caught_flushOr fun _ => hdue.caught rfl rfl
  · exact respond_caught hdue env call _
  · exact caught_ended rfl
  · exact h

theorem stepHandling_caught {n : Nat} {env : Env} {c : Conn} {call : Call} (h : Due n c)
    (e : Event) :
    Caught n (stepHandling env c call e) := by
  unfold stepHandling
  split
  · exact respond_caught h env call _
  · exact caught_ended rfl
  · split
    · exact h.caught rfl rfl
    · exact writeError_caught h env _ _
  · exact writeError_caught h env _ _
  · exact h.caught rfl rfl

/-- Without an error response, the responses are the wire as soon as the
current one has begun. -/
theorem responses_eq_wire {c : Conn} {x : Exchange} {r : Reply} (hfault : c.fault = none)
    (hnow : c.now = some x) (hreply : x.reply = some r) : c.responses = c.wire := by
  simp [responses, wire, hfault, hnow, hreply]

/-- What a stream yields is in `out` as soon as it is in the history. -/
theorem due_onReply {n : Nat} {c c' : Conn} {x : Exchange} {r : Reply} {f : Reply → Reply}
    {d : Bytes}
    (h : Due n c) (hfault : c.fault = none) (hnow : c.now = some x) (hreply : x.reply = some r)
    (hd : (f r).bytes = r.bytes ++ d) (hpast : c'.past = c.past) (hfault' : c'.fault = c.fault)
    (hnow' : c'.now = c.now.map (Exchange.onReply f)) (hout : c'.out = c.out ++ d) : Due n c' := by
  intro hnil
  rw [hout, List.append_eq_nil_iff] at hnil
  obtain ⟨hnil, rfl⟩ := hnil
  have hwire := wire_onReply hfault hnow hreply hd c' hpast hfault' hnow'
  have hsome : c'.now = some (x.onReply f) := by rw [hnow', hnow]; rfl
  have hbegun : (x.onReply f).reply = some (f r) := by simp [Exchange.onReply, hreply]
  rw [responses_eq_wire (hfault'.trans hfault) hsome hbegun, hwire, List.append_nil,
    ← responses_eq_wire hfault hnow hreply]
  exact h hnil

theorem stepStreaming_caught {n : Nat} {env : Env} {c : Conn} {a : Answer} {parked : Bool}
    (h : Due n c) (hs : Streaming c a) (e : Event) :
    Caught n (stepStreaming env c a parked e) := by
  obtain ⟨-, hfault, x, r, hnow, hreply, rfl, hended, hwrites, hbody⟩ := hs
  have hitem : ∀ b, Due n (addItem r.answer b c) := fun b =>
    due_onReply h hfault hnow hreply (Reply.bytes_addItem hwrites hbody hended b) rfl rfl rfl rfl
  have hend : Due n (addEnd r.answer c) :=
    due_onReply h hfault hnow hreply (Reply.bytes_finish hwrites hbody hended) rfl rfl rfl rfl
  have hsome : ∀ y ∈ (addEnd r.answer c).now, y.reply.isSome = true := by
    intro y hy
    simp only [addEnd, hnow, Option.map_some, Option.mem_def, Option.some.injEq] at hy
    subst hy
    simp [Exchange.onReply, hreply]
  unfold stepStreaming
  split
  · split
    · exact h.caught rfl rfl
    · exact caught_flushOr fun _ => h.caught rfl rfl
  · rename_i b
    simp only
    split
    · exact caught_flushOr fun _ => (hitem b).caught rfl rfl
    · exact (hitem b).caught rfl rfl
  · exact caught_flushOr fun _ => caught_ended rfl
  · exact conclude_caught hend hsome env _
  · exact caught_ended rfl
  · split
    · exact caught_ended rfl
    · exact h.caught rfl rfl
  · exact h.caught rfl rfl

/-! ## 6. Bodies -/

theorem SameOutput.caught {n : Nat} {f : Exchange → Exchange} {c c' : Conn} (h : SameOutput f c c')
    (hf : Unheard f) (hc : Caught n c) : Caught n c' := by
  have hresponses : c'.responses = c.responses := by
    have hone : ∀ x, (f x).wire = x.wire := fun x => by
      rw [Exchange.wire, Exchange.wire, hf.interim, hf.reply]
    cases hnow : c.now with
    | none => simp [responses, h.past, h.now, hnow]
    | some x =>
        cases hreply : x.reply <;>
          simp [responses, h.past, h.now, hnow, hone, hf.reply, hreply]
  have hheld : c'.heldOutput = c.heldOutput := by simp only [heldOutput, h.pc]
  intro hlive hnil
  rw [hresponses]
  exact hc (fun r hr => hlive r (h.pc.trans hr)) (by rw [← hheld, ← h.out]; exact hnil)

/-- A poll that sends of the interim response finds no response begun. -/
theorem stepBody_caught {n : Nat} {env : Env} {c : Conn} {b : BodyState} (hinv : OutputInv env c)
    (hin : InputInv env c) (hb : c.current = some b) (hheld : c.bodyHeld = true) (h : Caught n c)
    (op : BodyOp) : Caught n (stepBody c b op) := by
  by_cases hp : ∀ a, op = .poll a → c.pending = 0 ∨ b.done = true
  · obtain ⟨f, hf, hsame⟩ := stepBody_same hin hb hp
    exact hsame.caught hf h
  · simp only [not_forall, not_or] at hp
    obtain ⟨a, rfl, hpending, -⟩ := hp
    have hun : Unanswered c := by
      rcases unanswered_of_pending hinv hpending hheld with ⟨_, _, hs, _⟩ | ⟨_, _, hs, _⟩
      · exact hs.1
      · exact hs.1
    obtain ⟨-, x, hnow, hreply⟩ := hun
    have hresponses : (stepBody c b (.poll a)).responses = c.responses := by
      simp [responses, stepBody, hnow, hreply, Exchange.polled]
    intro hlive hnil
    rw [hresponses]
    exact h hlive hnil

/-! ## 7. Every run -/

/-- Outside of a flush nothing more counts as flushed. -/
theorem flushReturns_of_not_flushing {c : Conn} (h : ∀ w next, c.pc ≠ .flushing w next)
    (e : Event) :
    flushReturns c e = false := by
  unfold flushReturns
  split
  · split
    · rename_i w next hpc
      exact absurd hpc (h w next)
    · rfl
  · rfl

theorem step_caught {n : Nat} {env : Env} {c : Conn} (hinv : OutputInv env c) (hin : InputInv env c)
    (h : Caught n c) (e : Event) :
    Caught (if flushReturns c e then c.sent.length else n) (step env c e) := by
  have hplace := hinv.place
  generalize hm : (if flushReturns c e then c.sent.length else n) = m
  unfold step
  split
  · obtain rfl : n = m := hm
    split
    · rename_i b hb
      split
      · rename_i hheld
        exact stepBody_caught hinv hin hb hheld h _
      · exact h
    · exact h
  · obtain rfl : n = m := hm
    split
    · rename_i b hb
      split
      · exact h
      · exact (stepStale_same hin hb _).caught unheard_id h
    · exact h
  · cases hpc : c.pc with
    | flushing written next =>
        subst hm
        exact stepFlushing_caught hinv hpc h e
    | reading started =>
        rw [flushReturns_of_not_flushing (by simp [hpc])] at hm
        obtain rfl : n = m := hm
        rw [hpc] at hplace
        exact stepReading_caught (h.due (by simp [Live, hpc]) (by rw [heldOutput, hpc])) hplace.1 e
    | settling next =>
        rw [flushReturns_of_not_flushing (by simp [hpc])] at hm
        obtain rfl : n = m := hm
        rw [hpc] at hplace
        exact stepSettling_caught (h.due (by simp [Live, hpc]) (by rw [heldOutput, hpc]))
          hplace.1.1 e
    | firstPoll call held =>
        rw [flushReturns_of_not_flushing (by simp [hpc])] at hm
        obtain rfl : n = m := hm
        exact stepFirstPoll_caught h hpc e
    | handling call =>
        rw [flushReturns_of_not_flushing (by simp [hpc])] at hm
        obtain rfl : n = m := hm
        exact stepHandling_caught (h.due (by simp [Live, hpc]) (by rw [heldOutput, hpc])) e
    | streaming a parked =>
        rw [flushReturns_of_not_flushing (by simp [hpc])] at hm
        obtain rfl : n = m := hm
        rw [hpc] at hplace
        exact stepStreaming_caught (h.due (by simp [Live, hpc]) (by rw [heldOutput, hpc]))
          hplace.1 e
    | ended r => exact caught_ended hpc

theorem watchedRun_caught (env : Env) (buffered : Bytes) (events : List Event)
    (hlive : Live (run env buffered events)) :
    Caught (watchedRun env buffered events).flushed (run env buffered events) := by
  induction events using List.reverseRecOn with
  | nil => exact enterRead_caught (fun _ => Nat.le_refl 0) (by simp) env
  | append_singleton events e ih =>
      rw [run_append_singleton] at hlive
      have hbefore := live_of_step hlive
      rw [watchedRun_append, run_append_singleton, watch, watchedRun_conn]
      exact step_caught (run_out_of_live env buffered events hbefore) (run_inv env buffered events)
        (ih hbefore) e

/-- **Nothing finished is held back while the loop waits.** Whatever the peer
sends and in which pieces, whatever the handlers do and whatever the
transport answers: when the task suspends for the peer's next request, for a
handler that is not ready or for a stream that has nothing, `out` and the
guard are empty, every earlier request has its complete response, and these
responses and all that the current stream has yielded have been handed to
the transport and flushed. -/
theorem nothing_held_back (env : Env) (buffered : Bytes) (events : List Event)
    (hwaits : (run env buffered events).pc.suspends = true) :
    (run env buffered events).out = [] ∧ (run env buffered events).heldOutput = [] ∧
    (∀ x ∈ (run env buffered events).past, x.Answered) ∧
    (run env buffered events).responses <+: flushedBytes env buffered events := by
  have hlive : Live (run env buffered events) := by
    intro r hr
    rw [hr] at hwaits
    cases hwaits
  have hinv := run_out_of_live env buffered events hlive
  have hcaught := watchedRun_caught env buffered events hlive
  unfold flushedBytes
  generalize run env buffered events = c at *
  have hplace := hinv.place
  have hout : c.out = [] := by
    cases hpc : c.pc with
    | reading => rw [hpc] at hplace; exact hplace.2
    | handling => rw [hpc] at hplace; exact hplace.2
    | streaming a parked =>
        rw [hpc] at hplace hwaits
        exact hplace.2 hwaits
    | _ => rw [hpc] at hwaits; cases hwaits
  have hheld : c.heldOutput = [] := by
    cases hpc : c.pc with
    | firstPoll => rw [hpc] at hwaits; cases hwaits
    | _ => rw [heldOutput, hpc]
  have hsent : c.sent = c.wire := by
    have hb := hinv.balanced
    have hunsent : c.unsent = [] := by
      cases hpc : c.pc with
      | firstPoll => rw [hpc] at hwaits; cases hwaits
      | flushing => rw [hpc] at hwaits; cases hwaits
      | _ => simpa [unsent, hpc] using hout
    unfold Balanced at hb
    split at hb
    · rename_i hpc
      exact absurd hpc (hlive _)
    · rwa [hunsent, List.append_nil] at hb
  refine ⟨hout, hheld, fun x hx => (hinv.past x hx).2, ?_⟩
  rw [List.prefix_take_iff, hsent]
  refine ⟨?_, hcaught hlive (by rw [hheld, hout]; rfl)⟩
  unfold responses wire
  cases hnow : c.now with
  | none => simp
  | some x => cases hreply : x.reply <;> simp [hreply]

/-- Two requests in one read: the first is answered at once, the handler of
the second answers with a stream that yields one chunk and then has nothing. -/
def parkedEvents : List Event :=
  [.read (.ok (getRequest ++ getRequest)), .handler (.ready ⟨200, [], .full (ascii "hi")⟩),
    .handler (.ready ⟨200, [], .stream⟩), .write (.ok 1000), .flush .ok,
    .stream (.item (ascii "a")), .stream .pending, .write (.ok 1000), .flush .ok]

theorem nothing_held_back_parked :
    (run sampleEnv [] parkedEvents).pc.suspends = true ∧
      (run sampleEnv [] parkedEvents).exchanges.length = 2 ∧
      (run sampleEnv [] parkedEvents).responses <+: flushedBytes sampleEnv [] parkedEvents :=
  ⟨by decide +kernel, by decide +kernel,
    (nothing_held_back sampleEnv [] parkedEvents (by decide +kernel)).2.2.2⟩

end Conn

end ArmatureH1

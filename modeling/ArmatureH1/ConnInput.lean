/-
ArmatureH1.ConnInput — where each request begins.

`Served env xs pre` says that the stream's beginning `pre` is the requests
`xs` in their order: blank lines, a head that was accepted, and the body its
framing announces, which was read to its end. The invariant of the loop is
that what came before the current request is `Served`, that the current
head starts right behind it, and that the loop waits for another head, or
hands the transport over, only when the current request is `Served` as well.

The three buffers meet in `Stream`: while the current body is open, the
bytes behind the head are what it consumed, what it holds, and the
connection's buffer (`Open`); once it has ended, they are the body, and then
the connection's buffer.
-/
import ArmatureH1.BodyRun
import ArmatureH1.HeadReadTheorems
import ArmatureH1.Conn

namespace ArmatureH1

open ByteString BodyState Reading

/-! ## 1. The stream as requests -/

/-- What the loop makes of a head. -/
def verdict (env : Env) (head : Bytes) : Option (Head × BodyKind) :=
  match parseHeadRegion env.httparse head env.limits with
  | .error _ => none
  | .ok h =>
    match decideFraming h env.limits with
    | .error _ => none
    | .ok kind => some (h, kind)

/-- `Served env xs pre`: the bytes `pre` are the requests `xs`, each with
its whole body, and each body was read to its end. Only blank lines stand
between them. -/
inductive Served (env : Env) : List Incoming → Bytes → Prop
  | nil : Served env [] []
  | snoc {xs : List Incoming} {pre body : Bytes} {x : Incoming} {h : Head} {kind : BodyKind}
    {n : Nat} :
      Served env xs pre → verdict env x.head = some (h, kind) → PollLog.atEnd kind x.polls →
      Whole env.limits kind body (PollLog.delivered x.polls) →
      Served env (xs ++ [x]) (pre ++ blankLines n ++ x.head ++ body)

theorem Served.inv {env : Env} {xs : List Incoming} {x : Incoming} {pre : Bytes}
    (h : Served env (xs ++ [x]) pre) :
    ∃ (pre' body : Bytes) (hd : Head) (kind : BodyKind) (n : Nat), Served env xs pre' ∧
      verdict env x.head = some (hd, kind) ∧ PollLog.atEnd kind x.polls ∧
      Whole env.limits kind body (PollLog.delivered x.polls) ∧
      pre = pre' ++ blankLines n ++ x.head ++ body := by
  generalize hys : xs ++ [x] = ys at h
  cases h with
  | nil => simp at hys
  | snoc h1 h2 h3 h4 =>
      obtain ⟨rfl, hx⟩ := List.append_inj' hys rfl
      obtain rfl := List.singleton_inj.mp hx
      exact ⟨_, _, _, _, _, h1, h2, h3, h4, rfl⟩

/-- Polling a body past its end changes nothing. -/
theorem Served.polled_again {env : Env} {xs : List Incoming} {x : Incoming} {pre : Bytes}
    (h : Served env (xs ++ [x]) pre) :
    Served env (xs ++ [{ x with polls := x.polls ++ [.ended] }]) pre := by
  obtain ⟨pre', body, hd, kind, n, h1, h2, ⟨h3, h3'⟩, h4, rfl⟩ := h.inv
  have hd' : PollLog.delivered (x.polls ++ [.ended]) = PollLog.delivered x.polls := by
    simp [PollChunk.bytes]
  refine Served.snoc (x := { x with polls := x.polls ++ [.ended] }) h1 h2 ⟨?_, Or.inl (by simp)⟩
    (by rw [hd']; exact h4)
  intro hf
  obtain ⟨e, he⟩ := hf
  rcases List.mem_append.mp he with he | he
  · exact h3 ⟨e, he⟩
  · simp at he

namespace Conn

/-- The requests before the current one. -/
def earlier (c : Conn) : List Incoming := c.past.map Exchange.request

/-- The current request. -/
def request (c : Conn) : Option Incoming := c.now.map Exchange.request

def received (c : Conn) : Bytes := c.shared.io.io.received

def buf (c : Conn) : Bytes := c.shared.io.buf

/-- Every request so far is served; `n` blank lines behind them are gone. -/
def Settled (env : Env) (c : Conn) (n : Nat) : Prop :=
  (∀ b ∈ c.current, b.done = true) ∧
    ∃ pre, Served env (c.earlier ++ c.request.toList) pre ∧
      c.received = pre ++ blankLines n ++ c.buf

/-- The current request is served as well, and nothing behind it is gone. -/
def Concluded (env : Env) (c : Conn) : Prop := c.request.isSome = true ∧ Settled env c 0

/-- Where the stream stands. -/
inductive Stream (env : Env) (c : Conn) : Prop
  /-- Between requests, as far as reading goes. -/
  | settled {n : Nat} : Settled env c n → Stream env c
  /-- In the middle of a body. -/
  | underway {pre used : Bytes} {n : Nat} {x : Incoming} {h : Head} {kind : BodyKind}
    {b : BodyState} :
      Served env c.earlier pre → c.request = some x → verdict env x.head = some (h, kind) →
      c.current = some b → b.kind = kind → (∀ p ∈ x.polls, Underway p) →
      Open env.limits (pre ++ blankLines n ++ x.head) used (PollLog.delivered x.polls) c.shared b →
      Stream env c
  /-- Behind a head that was refused, or a body that failed or was let go. -/
  | spent {pre rest : Bytes} {n : Nat} {x : Incoming} :
      Served env c.earlier pre → c.request = some x → (∀ b ∈ c.current, b.done = true) →
      c.received = pre ++ blankLines n ++ x.head ++ rest → Stream env c

/-- What the place where the loop waits needs of the stream. -/
def Requires (env : Env) (c : Conn) : Pc → Prop
  | .reading _ => ∃ n, Settled env c n
  | .flushing _ .read => ∃ n, Settled env c n
  | .flushing _ (.call _) => c.shared.bodyRead = true → Concluded env c
  | .flushing _ (.wait _) => c.shared.bodyRead = true → Concluded env c
  | .firstPoll _ _ => c.shared.bodyRead = true → Concluded env c
  | .handling _ => c.shared.bodyRead = true → Concluded env c
  | .flushing _ (.stream a _) => a.keepAlive = true ∨ a.upgrading = true → Concluded env c
  | .settling (.respond a) => a.keepAlive = true ∨ a.upgrading = true → Concluded env c
  | .streaming a _ => a.keepAlive = true ∨ a.upgrading = true → Concluded env c
  | .flushing _ (.finish a) =>
    (a.upgrading = true → Concluded env c) ∧ (a.keepAlive = true → ∃ n, Settled env c n)
  | .ended (.upgraded buffered) => Concluded env c ∧ buffered = c.buf
  | _ => True

/-- The invariant of the loop. -/
structure InputInv (env : Env) (c : Conn) : Prop where
  stale : ∀ b ∈ c.stale, b.done = true
  stream : Stream env c
  requires : Requires env c c.pc

/-! ## 2. What writing leaves alone -/

/-- Two states with the same requests, body and unread bytes. -/
structure SameInput (c c' : Conn) : Prop where
  earlier : c'.earlier = c.earlier
  request : c'.request = c.request
  current : c'.current = c.current
  bodyRead : c'.shared.bodyRead = c.shared.bodyRead
  received : c'.received = c.received
  buf : c'.buf = c.buf

theorem SameInput.settled {env : Env} {c c' : Conn} {n : Nat} (h : SameInput c c')
    (hs : Settled env c n) : Settled env c' n := by
  unfold Settled
  rw [h.current, h.earlier, h.request, h.received, h.buf]
  exact hs

theorem open_congr {limits : Limits} {pre used x : Bytes} {sh sh' : Shared} {b : BodyState}
    (ho : Open limits pre used x sh b) (hread : sh'.bodyRead = sh.bodyRead)
    (hreceived : sh'.io.io.received = sh.io.io.received) (hbuf : sh'.io.buf = sh.io.buf) :
    Open limits pre used x sh' b where
  notDone := ho.notDone
  notRead := hread.trans ho.notRead
  conserved := by rw [hreceived, hbuf]; exact ho.conserved
  apart := by rw [hbuf]; exact ho.apart
  part := ho.part

theorem SameInput.stream {env : Env} {c c' : Conn} (h : SameInput c c') (hs : Stream env c) :
    Stream env c' := by
  cases hs with
  | settled hs => exact .settled (h.settled hs)
  | underway h1 h2 h3 h4 h5 h6 h7 =>
      exact .underway (h.earlier ▸ h1) (h.request.trans h2) h3 (h.current.trans h4) h5 h6
        (open_congr h7 h.bodyRead h.received h.buf)
  | spent h1 h2 h3 h4 =>
      refine .spent (h.earlier ▸ h1) (h.request.trans h2) ?_ (h.received.trans h4)
      rw [h.current]
      exact h3

theorem SameInput.concluded {env : Env} {c c' : Conn} (h : SameInput c c')
    (hc : Concluded env c) : Concluded env c' :=
  ⟨by rw [h.request]; exact hc.1, h.settled hc.2⟩

/-- What a wait needs survives a change that keeps what is settled, and
that marks the body as read only when it is. -/
theorem Requires.mono {env : Env} {c c' : Conn} {pc : Pc} (hr : Requires env c pc)
    (hs : ∀ n, Settled env c n → Settled env c' n) (hc : Concluded env c → Concluded env c')
    (hb : c'.shared.bodyRead = true → c.shared.bodyRead = true ∨ Concluded env c')
    (hbuf : ∀ buffered, pc = .ended (.upgraded buffered) → c'.buf = c.buf) :
    Requires env c' pc := by
  have hex : (∃ n, Settled env c n) → ∃ n, Settled env c' n := fun ⟨n, hn⟩ => ⟨n, hs n hn⟩
  have hread : (c.shared.bodyRead = true → Concluded env c) →
      c'.shared.bodyRead = true → Concluded env c' := by
    intro h hb'
    rcases hb hb' with hb' | hb'
    · exact hc (h hb')
    · exact hb'
  cases pc with
  | reading => exact hex hr
  | flushing _ next =>
      cases next with
      | read => exact hex hr
      | call => exact hread hr
      | wait => exact hread hr
      | stream => exact fun ha => hc (hr ha)
      | finish => exact ⟨fun ha => hc (hr.1 ha), fun ha => hex (hr.2 ha)⟩
      | close => trivial
      | errorWritten => trivial
  | settling next =>
      cases next with
      | respond => exact fun ha => hc (hr ha)
      | error => trivial
  | firstPoll => exact hread hr
  | handling => exact hread hr
  | streaming => exact fun ha => hc (hr ha)
  | ended r =>
      cases r with
      | upgraded buffered => exact ⟨hc hr.1, hr.2.trans (hbuf buffered rfl).symm⟩
      | closed => trivial
      | ioError => trivial
      | panicked => trivial

theorem SameInput.requires {env : Env} {c c' : Conn} (h : SameInput c c') {pc : Pc}
    (hr : Requires env c pc) : Requires env c' pc :=
  hr.mono (fun _ => h.settled) h.concluded (fun hb => Or.inl (h.bodyRead ▸ hb)) fun _ _ => h.buf

/-- A step on the output side, with the place it leads to. -/
theorem SameInput.inv {env : Env} {c c' : Conn} (h : SameInput c c')
    (hstale : ∀ b ∈ c'.stale, b.done = true) (hs : Stream env c) (hr : Requires env c c'.pc) :
    InputInv env c' where
  stale := hstale
  stream := h.stream hs
  requires := h.requires hr

/-! ## 3. Errors -/

/-- `settle_continue` leads to one of three states. -/
theorem settleContinue_cases {next : AfterSettle} {c : Conn} {go : Conn → Conn} {P : Conn → Prop}
    (hdropped : P (go c.dropContinue)) (hnone : P (go c))
    (hwait : P { c with pc := .settling next }) : P (settleContinue next c go) := by
  unfold settleContinue
  split
  · exact hdropped
  · split
    · exact hnone
    · exact hwait

theorem flushOr_cases {next : AfterFlush} {c done : Conn} {P : Conn → Prop}
    (hwait : P { c with pc := .flushing 0 next }) (hdone : P done) : P (flushOr next c done) := by
  unfold flushOr
  split
  · exact hdone
  · exact hwait

theorem writeErrorHead_inv {env : Env} {c : Conn} (hstale : ∀ b ∈ c.stale, b.done = true)
    (hs : Stream env c) (version : Version) (status : Nat) :
    InputInv env (writeErrorHead env version status c) := by
  unfold writeErrorHead
  refine flushOr_cases ?_ ?_
  · exact SameInput.inv (c := c) ⟨rfl, rfl, rfl, rfl, rfl, rfl⟩ hstale hs trivial
  · exact SameInput.inv (c := c) ⟨rfl, rfl, rfl, rfl, rfl, rfl⟩ hstale hs trivial

theorem writeError_inv {env : Env} {c : Conn} (hstale : ∀ b ∈ c.stale, b.done = true)
    (hs : Stream env c) (version : Version) (status : Nat) :
    InputInv env (writeError env version status c) := by
  refine settleContinue_cases ?_ ?_ ?_
  · refine writeErrorHead_inv (c := c.dropContinue) hstale ?_ version status
    exact SameInput.stream (c := c) ⟨rfl, rfl, rfl, rfl, rfl, rfl⟩ hs
  · exact writeErrorHead_inv hstale hs version status
  · exact SameInput.inv (c := c) ⟨rfl, rfl, rfl, rfl, rfl, rfl⟩ hstale hs trivial

/-! ## 4. The next request -/

/-- A request that was accepted: its body is open, or has nothing to read. -/
theorem callHandler_inv {env : Env} {c : Conn} {pre : Bytes} {n : Nat} {x : Incoming} {h : Head}
    {kind : BodyKind} (hstale : ∀ b ∈ c.stale, b.done = true) (hserved : Served env c.earlier pre)
    (hx : c.request = some x) (hpolls : x.polls = []) (hv : verdict env x.head = some (h, kind))
    (hreceived : c.received = pre ++ blankLines n ++ x.head ++ c.buf) :
    InputInv env (callHandler env h kind c) := by
  have hnew := new_spec ⟨{ c.shared.io with
      pendingContinue := if (Call.ofHead h).expectsContinue then continueBytes.length else 0
      bodyFinished := false }, false⟩ env.limits kind (Call.ofHead h).expectsContinue hreceived
  have hkind : (BodyState.new kind (Call.ofHead h).expectsContinue env.limits ⟨{ c.shared.io with
      pendingContinue := if (Call.ofHead h).expectsContinue then continueBytes.length else 0
      bodyFinished := false }, false⟩).1.kind = kind := rfl
  unfold callHandler
  simp only
  generalize BodyState.new kind (Call.ofHead h).expectsContinue env.limits ⟨{ c.shared.io with
      pendingContinue := if (Call.ofHead h).expectsContinue then continueBytes.length else 0
      bodyFinished := false }, false⟩ = made at hnew hkind
  obtain ⟨b, sh⟩ := made
  simp only at hnew hkind ⊢
  -- the state in which the handler is about to be called, wherever the loop waits for that
  have hbase : ∀ c' : Conn, c'.earlier = c.earlier → c'.request = c.request → c'.current = some b →
      c'.shared = sh → Stream env c' ∧ (c'.shared.bodyRead = true → Concluded env c') := by
    intro c' h1 h2 h3 h4
    have hbuf : c'.buf = sh.io.buf := by rw [buf, h4]
    have hrec : c'.received = sh.io.io.received := by rw [received, h4]
    rcases hnew with ho | ⟨hfin, hk⟩
    · constructor
      · refine @Stream.underway _ _ _ [] n _ _ _ _ (h1 ▸ hserved) (h2.trans hx) hv h3 hkind
          (by simp [hpolls]) ?_
        rw [h4, hpolls]
        exact ho
      · intro hread
        rw [h4, ho.notRead] at hread
        cases hread
    · have hat : PollLog.atEnd kind x.polls := by
        refine ⟨by simp [PollLog.failed, hpolls], Or.inr ?_⟩
        rcases hk with hk | hk
        · exact Or.inl hk
        · exact Or.inr (by simp [PollLog.delivered, hpolls, hk])
      have hwhole : Whole env.limits kind [] (PollLog.delivered x.polls) := by
        have := hfin.whole
        rw [hkind] at this
        simpa [PollLog.delivered, hpolls] using this
      have hsettled : Settled env c' 0 := by
        refine ⟨?_, pre ++ blankLines n ++ x.head ++ [], ?_, ?_⟩
        · intro b' hb'
          rw [h3] at hb'
          cases hb'
          exact hfin.done
        · rw [h1, h2, hx]
          exact .snoc hserved hv hat hwhole
        · rw [hrec, hbuf, hfin.conserved]
          simp
      exact ⟨.settled hsettled, fun _ => ⟨by rw [h2, hx]; rfl, hsettled⟩⟩
  split
  · obtain ⟨hs, hr⟩ := hbase
      { c with shared := sh, current := some b, pc := .handling (Call.ofHead h) } rfl rfl rfl rfl
    exact ⟨hstale, hs, hr⟩
  · split
    · obtain ⟨hs, hr⟩ := hbase
        { c with shared := sh, current := some b, pc := .flushing 0 (.call (Call.ofHead h)) }
        rfl rfl rfl rfl
      exact ⟨hstale, hs, hr⟩
    · obtain ⟨hs, hr⟩ := hbase
        { c with
          shared := sh, current := some b, out := [], pc := .firstPoll (Call.ofHead h) c.out }
        rfl rfl rfl rfl
      exact ⟨hstale, hs, hr⟩

/-- A head is split off only when every request before it is served. -/
theorem startRequest_inv {env : Env} {c : Conn} {n : Nat} (hstale : ∀ b ∈ c.stale, b.done = true)
    (hs : Settled env c n) : InputInv env (startRequest env c) := by
  obtain ⟨hcurrent, pre, hserved, hreceived⟩ := hs
  unfold startRequest
  split
  · exact ⟨hstale, .settled ⟨hcurrent, pre, hserved, hreceived⟩, trivial⟩
  · rename_i len hlen
    simp only
    generalize hc : ({ c.setIo (c.shared.io.splitHead len).2 with
        current := none
        stale := c.current.toList ++ c.stale
        past := c.past ++ c.now.toList
        now := some (Exchange.start (c.shared.io.splitHead len).1) } : Conn) = c'
    have hstale' : ∀ b ∈ c'.stale, b.done = true := by
      subst hc
      intro b hb
      rcases List.mem_append.mp hb with hb | hb
      · exact hcurrent b (by simpa using hb)
      · exact hstale b hb
    have hserved' : Served env c'.earlier pre := by
      subst hc
      have : (c.past ++ c.now.toList).map Exchange.request = c.earlier ++ c.request.toList := by
        cases hnow : c.now <;> simp [earlier, request, hnow]
      simpa [earlier, this] using hserved
    have hx : c'.request = some ⟨(c.shared.io.splitHead len).1, []⟩ := by subst hc; rfl
    have hreceived' : c'.received
        = pre ++ blankLines n ++ (c.shared.io.splitHead len).1 ++ c'.buf := by
      subst hc
      have hbuf : c.buf = c.buf.take len ++ c.buf.drop len := (List.take_append_drop len c.buf).symm
      rw [hbuf, ← List.append_assoc] at hreceived
      exact hreceived
    have hnone : c'.current = none := by subst hc; rfl
    have hover : Stream env c' :=
      .spent hserved' hx (by simp [hnone]) hreceived'
    split
    · exact writeError_inv hstale' hover _ _
    · rename_i h hparse
      split
      · exact writeError_inv hstale' hover _ _
      · rename_i kind hframe
        refine callHandler_inv hstale' hserved' hx rfl ?_ hreceived'
        simp only [verdict, hparse, hframe]

/-- `has_complete_head` drops blank lines and nothing else. -/
theorem settled_hasCompleteHead {env : Env} {c : Conn} {n : Nat} (hs : Settled env c n) :
    Settled env (c.setIo c.shared.io.hasCompleteHead.2) (n + blankPairs c.buf) := by
  obtain ⟨hcurrent, pre, hserved, hreceived⟩ := hs
  obtain ⟨hbuf, hio, _⟩ := IoState.hasCompleteHead_keeps c.shared.io
  refine ⟨hcurrent, pre, hserved, ?_⟩
  have hreceived' : (c.setIo c.shared.io.hasCompleteHead.2).received = c.received := by
    simp only [received, setIo, hio]
  rw [hreceived', hreceived, blankLines_add]
  simp only [List.append_assoc]
  rw [← List.append_assoc (blankLines n)]
  simp only [List.append_assoc]
  exact congrArg _ (congrArg _ hbuf)

theorem enterRead_inv {env : Env} {c : Conn} {n : Nat} (hstale : ∀ b ∈ c.stale, b.done = true)
    (hs : Settled env c n) : InputInv env (enterRead env c) := by
  have hs' := settled_hasCompleteHead hs
  unfold enterRead
  simp only
  split
  · exact startRequest_inv hstale hs'
  · refine flushOr_cases ?_ ?_
    · exact SameInput.inv (c := c.setIo c.shared.io.hasCompleteHead.2)
        ⟨rfl, rfl, rfl, rfl, rfl, rfl⟩ hstale (.settled hs') ⟨_, hs'⟩
    · exact SameInput.inv (c := c.setIo c.shared.io.hasCompleteHead.2)
        ⟨rfl, rfl, rfl, rfl, rfl, rfl⟩ hstale (.settled hs') ⟨_, hs'⟩

/-- What `write_response` returns is acted on only as the stream allows. -/
theorem dispose_inv {env : Env} {c : Conn} {a : Answer} (hstale : ∀ b ∈ c.stale, b.done = true)
    (hs : Stream env c) (hup : a.upgrading = true → Concluded env c)
    (hkeep : a.keepAlive = true → ∃ n, Settled env c n) :
    InputInv env (dispose env c a.disposition) := by
  unfold Answer.disposition
  by_cases hu : a.upgrading = true
  · simp only [hu, if_true, dispose]
    split
    · exact SameInput.inv (c := c) ⟨rfl, rfl, rfl, rfl, rfl, rfl⟩ hstale hs trivial
    · exact SameInput.inv (c := c) ⟨rfl, rfl, rfl, rfl, rfl, rfl⟩ hstale hs ⟨hup hu, rfl⟩
  · by_cases hk : a.keepAlive = true
    · obtain ⟨n, hn⟩ := hkeep hk
      simp only [hu, hk, if_true, dispose]
      exact enterRead_inv hstale hn
    · simp only [hu, hk, dispose]
      exact SameInput.inv (c := c) ⟨rfl, rfl, rfl, rfl, rfl, rfl⟩ hstale hs trivial

/-! ## 5. The response -/

theorem finish_inv {env : Env} {c : Conn} {a : Answer} (hstale : ∀ b ∈ c.stale, b.done = true)
    (hs : Stream env c) (hup : a.upgrading = true → Concluded env c)
    (hkeep : a.keepAlive = true → ∃ n, Settled env c n) :
    InputInv env (flushOr (.finish a) c (dispose env c a.disposition)) := by
  refine flushOr_cases ?_ (dispose_inv hstale hs hup hkeep)
  exact SameInput.inv (c := c) ⟨rfl, rfl, rfl, rfl, rfl, rfl⟩ hstale hs ⟨hup, hkeep⟩

theorem conclude_inv {env : Env} {c : Conn} {a : Answer} (hstale : ∀ b ∈ c.stale, b.done = true)
    (hs : Stream env c) (ha : a.keepAlive = true ∨ a.upgrading = true → Concluded env c) :
    InputInv env (conclude env a c) := by
  unfold conclude
  split
  · rename_i hcond
    have hk : a.keepAlive = true ∧ a.upgrading = false := by
      simp only [Bool.and_eq_true, Bool.not_eq_true'] at hcond
      exact hcond.1
    have hs' := settled_hasCompleteHead (ha (Or.inl hk.1)).2
    have hup : a.upgrading = true → Concluded env (c.setIo c.shared.io.hasCompleteHead.2) := by
      intro hu
      rw [hk.2] at hu
      cases hu
    simp only
    split
    · exact dispose_inv hstale (.settled hs') hup fun _ => ⟨_, hs'⟩
    · exact finish_inv hstale (.settled hs') hup fun _ => ⟨_, hs'⟩
  · exact finish_inv hstale hs (fun hu => ha (Or.inr hu)) fun hk => ⟨0, (ha (Or.inl hk)).2⟩

theorem request_map {c : Conn} {f : Exchange → Exchange} (hf : ∀ x, (f x).request = x.request) :
    (c.now.map f).map Exchange.request = c.request := by
  simp [request, Option.map_map, Function.comp_def, hf]

theorem respondHead_inv {env : Env} {c : Conn} {a : Answer} (hstale : ∀ b ∈ c.stale, b.done = true)
    (hs : Stream env c) (ha : a.keepAlive = true ∨ a.upgrading = true → Concluded env c) :
    InputInv env (respondHead env a c) := by
  have hsame : ∀ (out : Bytes) (r : Reply), SameInput c { c with
      out := out, heads := c.heads + 1, now := c.now.map (Exchange.answer r) } :=
    fun out r => ⟨rfl, request_map fun _ => rfl, rfl, rfl, rfl, rfl⟩
  have hconclude : ∀ (out : Bytes) (r : Reply), InputInv env (conclude env a { c with
      out := out, heads := c.heads + 1, now := c.now.map (Exchange.answer r) }) :=
    fun out r => conclude_inv hstale ((hsame out r).stream hs) fun h =>
      (hsame out r).concluded (ha h)
  unfold respondHead
  simp only
  split
  · split
    · exact hconclude _ _
    · exact hconclude _ _
    · refine flushOr_cases ?_ ?_
      · exact SameInput.inv (c := c) ⟨rfl, request_map fun _ => rfl, rfl, rfl, rfl, rfl⟩
          hstale hs ha
      · exact SameInput.inv (c := c) ⟨rfl, request_map fun _ => rfl, rfl, rfl, rfl, rfl⟩
          hstale hs ha
  · exact hconclude _ _

/-- Reuse and upgrade both ask for a body that was read to its end. -/
theorem of_reuses {serverName : Option Bytes} {call : Call} {resp : Response} {bodyConsumed : Bool}
    (h : (Answer.of serverName call resp bodyConsumed).keepAlive = true ∨
      (Answer.of serverName call resp bodyConsumed).upgrading = true) : bodyConsumed = true := by
  cases bodyConsumed with
  | true => rfl
  | false => simp [Answer.of] at h

theorem respond_inv {env : Env} {c : Conn} (hstale : ∀ b ∈ c.stale, b.done = true)
    (hs : Stream env c) (hread : c.shared.bodyRead = true → Concluded env c) (call : Call)
    (resp : Response) : InputInv env (respond env call resp c) := by
  have ha : (Answer.of env.serverName call resp c.shared.bodyRead).keepAlive = true ∨
      (Answer.of env.serverName call resp c.shared.bodyRead).upgrading = true → Concluded env c :=
    fun h => hread (of_reuses h)
  have hsame : SameInput c { c with now := c.now.map (Exchange.responded resp) } :=
    ⟨rfl, request_map fun _ => rfl, rfl, rfl, rfl, rfl⟩
  have hdropped : SameInput c { c with now := c.now.map (Exchange.responded resp) }.dropContinue :=
    ⟨rfl, request_map fun _ => rfl, rfl, rfl, rfl, rfl⟩
  unfold respond
  refine settleContinue_cases ?_ ?_ ?_
  · exact respondHead_inv (c := { c with now := c.now.map (Exchange.responded resp) }.dropContinue)
      hstale (hdropped.stream hs) fun h => hdropped.concluded (ha h)
  · exact respondHead_inv (c := { c with now := c.now.map (Exchange.responded resp) }) hstale
      (hsame.stream hs) fun h => hsame.concluded (ha h)
  · exact SameInput.inv (c := c) ⟨rfl, request_map fun _ => rfl, rfl, rfl, rfl, rfl⟩ hstale hs ha

/-! ## 6. One step -/

theorem proceed_inv {env : Env} {c : Conn} {written : Nat} {next : AfterFlush}
    (hstale : ∀ b ∈ c.stale, b.done = true) (hs : Stream env c)
    (hr : Requires env c (.flushing written next)) : InputInv env (proceed env c next) := by
  have hsame : ∀ pc : Pc, SameInput c { c with pc := pc } :=
    fun pc => ⟨rfl, rfl, rfl, rfl, rfl, rfl⟩
  cases next with
  | read => exact (hsame _).inv hstale hs hr
  | call => exact (hsame _).inv hstale hs hr
  | wait => exact (hsame _).inv hstale hs hr
  | stream => exact (hsame _).inv hstale hs hr
  | close => exact (hsame _).inv hstale hs trivial
  | finish a => exact dispose_inv hstale hs hr.1 hr.2
  | errorWritten => exact (hsame _).inv hstale hs trivial

theorem failFlush_inv {env : Env} {c : Conn} (hstale : ∀ b ∈ c.stale, b.done = true)
    (hs : Stream env c) (next : AfterFlush) : InputInv env (failFlush c next) := by
  have hsame : ∀ pc : Pc, SameInput c { c with out := [], pc := pc } :=
    fun pc => ⟨rfl, rfl, rfl, rfl, rfl, rfl⟩
  cases next <;> exact (hsame _).inv hstale hs trivial

theorem stepFlushing_inv {env : Env} {c : Conn} {written : Nat} {next : AfterFlush}
    (h : InputInv env c) (hpc : c.pc = .flushing written next) (e : Event) :
    InputInv env (stepFlushing env c written next e) := by
  have hr := h.requires
  rw [hpc] at hr
  have hsent : ∀ (b : Bytes) (w : Nat), InputInv env { c.send b with pc := .flushing w next } := by
    intro b w
    refine SameInput.inv (c := c) ⟨rfl, rfl, rfl, rfl, rfl, rfl⟩ h.stale h.stream ?_
    cases next <;> exact hr
  have hdone : InputInv env (proceed env { c with out := [] } next) := by
    have hsame : SameInput c { c with out := [] } := ⟨rfl, rfl, rfl, rfl, rfl, rfl⟩
    exact proceed_inv h.stale (hsame.stream h.stream) (hsame.requires hr)
  have hfail := failFlush_inv h.stale h.stream next
  unfold stepFlushing
  split
  · split
    · exact hfail
    · exact h
  · split
    · split
      · exact hfail
      · exact hsent _ _
    · exact h
  · split
    · exact h
    · exact hdone
  · split
    · exact h
    · exact hfail
  · exact hfail
  · exact h

/-- A poll of the interim response reads nothing. -/
theorem record_same (c : Conn) (flush : FlushAnswer) (writes : List WriteAnswer) :
    SameInput c (c.record (c.shared.io.pollSendContinue flush writes).2) := by
  obtain ⟨hreceived, hbuf⟩ := pollSendContinue_keeps flush writes c.shared.io
  exact ⟨rfl, request_map fun _ => rfl, rfl, rfl, hreceived, hbuf⟩

theorem stepSettling_inv {env : Env} {c : Conn} {next : AfterSettle} (h : InputInv env c)
    (hpc : c.pc = .settling next) (e : Event) : InputInv env (stepSettling env c next e) := by
  have hr := h.requires
  rw [hpc] at hr
  have hfail : ∀ c' : Conn, SameInput c c' → (∀ b ∈ c'.stale, b.done = true) →
      InputInv env (failSettle c' next) := by
    intro c' hsame hstale
    have hsame' : ∀ pc : Pc, SameInput c { c' with pc := pc } := fun pc =>
      ⟨hsame.earlier, hsame.request, hsame.current, hsame.bodyRead, hsame.received, hsame.buf⟩
    cases next <;> exact (hsame' _).inv hstale h.stream trivial
  unfold stepSettling
  split
  · rename_i writes flush
    have hsame := record_same c flush writes
    rcases hpoll : c.shared.io.pollSendContinue flush writes with ⟨_ | _ | _, io⟩
    · rw [hpoll] at hsame
      refine hsame.inv h.stale h.stream ?_
      change Requires env c c.pc
      rw [hpc]
      exact hr
    · rw [hpoll] at hsame
      cases next with
      | respond a =>
          exact respondHead_inv (c := c.record io) h.stale (hsame.stream h.stream)
            fun ha => hsame.concluded (hr ha)
      | error version status =>
          exact writeErrorHead_inv (c := c.record io) h.stale (hsame.stream h.stream) version status
    · rw [hpoll] at hsame
      exact hfail _ hsame h.stale
  · exact hfail c ⟨rfl, rfl, rfl, rfl, rfl, rfl⟩ h.stale
  · exact h

/-- A read extends the stream and the buffer alike. -/
theorem settled_headRead {env : Env} {c : Conn} {n : Nat} (hs : Settled env c n) (started : Bool)
    (b : Bytes) : ∃ m, Settled env (c.setIo (headRead env.limits started b c.shared.io).2) m := by
  have hmore : Settled env (c.setIo (c.shared.io.readMore b)) n := by
    obtain ⟨hcurrent, pre, hserved, hreceived⟩ := hs
    refine ⟨hcurrent, pre, hserved, ?_⟩
    have hr : (c.setIo (c.shared.io.readMore b)).received = c.received ++ b := rfl
    have hb : (c.setIo (c.shared.io.readMore b)).buf = c.buf ++ b := rfl
    rw [hr, hb, hreceived]
    simp only [List.append_assoc]
  have hstep := settled_hasCompleteHead hmore
  refine ⟨n + blankPairs (c.setIo (c.shared.io.readMore b)).buf, ?_⟩
  rw [headRead_io]
  exact hstep

theorem stepReading_inv {env : Env} {c : Conn} {started : Bool} (h : InputInv env c)
    (hpc : c.pc = .reading started) (e : Event) : InputInv env (stepReading env c started e) := by
  have hr := h.requires
  rw [hpc] at hr
  obtain ⟨n, hs⟩ := hr
  have hend : ∀ r : Ended, Requires env c (.ended r) → InputInv env { c with pc := .ended r } :=
    fun r hr => SameInput.inv (c := c) ⟨rfl, rfl, rfl, rfl, rfl, rfl⟩ h.stale h.stream hr
  unfold stepReading
  split
  · exact hend _ trivial
  · rename_i b
    split
    · exact hend _ trivial
    · obtain ⟨m, hm⟩ := settled_headRead hs started b
      rcases hread : headRead env.limits started b c.shared.io with ⟨_ | _ | _, io⟩
      · rw [hread] at hm
        exact startRequest_inv h.stale hm
      · rw [hread] at hm
        exact writeError_inv (c := c.setIo io) h.stale (.settled hm) _ _
      · rw [hread] at hm
        exact SameInput.inv (c := c.setIo io) ⟨rfl, rfl, rfl, rfl, rfl, rfl⟩ h.stale
          (.settled hm) ⟨m, hm⟩
  · split
    · exact writeError_inv h.stale h.stream _ _
    · exact hend _ trivial
  · exact h

theorem stepFirstPoll_inv {env : Env} {c : Conn} {call : Call} {held : Bytes} (h : InputInv env c)
    (hpc : c.pc = .firstPoll call held) (e : Event) :
    InputInv env (stepFirstPoll env c call held e) := by
  have hr := h.requires
  rw [hpc] at hr
  unfold stepFirstPoll
  split
  · refine flushOr_cases ?_ ?_
    · exact SameInput.inv (c := c) ⟨rfl, rfl, rfl, rfl, rfl, rfl⟩ h.stale h.stream hr
    · exact SameInput.inv (c := c) ⟨rfl, rfl, rfl, rfl, rfl, rfl⟩ h.stale h.stream hr
  · rename_i resp
    have hsame : SameInput c { c with out := held ++ c.out } := ⟨rfl, rfl, rfl, rfl, rfl, rfl⟩
    exact respond_inv (c := { c with out := held ++ c.out }) h.stale (hsame.stream h.stream)
      (fun hb => hsame.concluded (hr hb)) call resp
  · exact SameInput.inv (c := c) ⟨rfl, rfl, rfl, rfl, rfl, rfl⟩ h.stale h.stream trivial
  · exact h

theorem stepHandling_inv {env : Env} {c : Conn} {call : Call} (h : InputInv env c)
    (hpc : c.pc = .handling call) (e : Event) : InputInv env (stepHandling env c call e) := by
  have hr := h.requires
  rw [hpc] at hr
  unfold stepHandling
  split
  · exact respond_inv h.stale h.stream hr call _
  · exact SameInput.inv (c := c) ⟨rfl, rfl, rfl, rfl, rfl, rfl⟩ h.stale h.stream trivial
  · split
    · exact h
    · exact writeError_inv h.stale h.stream _ _
  · exact writeError_inv h.stale h.stream _ _
  · exact h

theorem stepStreaming_inv {env : Env} {c : Conn} {a : Answer} {parked : Bool} (h : InputInv env c)
    (hpc : c.pc = .streaming a parked) (e : Event) :
    InputInv env (stepStreaming env c a parked e) := by
  have hr := h.requires
  rw [hpc] at hr
  have hsame : ∀ pc : Pc, SameInput c { c with pc := pc } :=
    fun pc => ⟨rfl, rfl, rfl, rfl, rfl, rfl⟩
  have hitem : ∀ (b : Bytes) (pc : Pc), SameInput c { addItem a b c with pc := pc } :=
    fun b pc => ⟨rfl, request_map fun _ => rfl, rfl, rfl, rfl, rfl⟩
  have hend : SameInput c (addEnd a c) := ⟨rfl, request_map fun _ => rfl, rfl, rfl, rfl, rfl⟩
  unfold stepStreaming
  split
  · split
    · exact h
    · refine flushOr_cases ?_ ?_
      · exact (hsame _).inv h.stale h.stream hr
      · exact (hsame _).inv h.stale h.stream hr
  · rename_i b
    simp only
    split
    · refine flushOr_cases ?_ ?_
      · exact (hitem b _).inv h.stale h.stream hr
      · exact (hitem b _).inv h.stale h.stream hr
    · exact (hitem b _).inv h.stale h.stream hr
  · refine flushOr_cases ?_ ?_
    · exact (hsame _).inv h.stale h.stream trivial
    · exact (hsame _).inv h.stale h.stream trivial
  · exact conclude_inv h.stale (hend.stream h.stream) fun ha => hend.concluded (hr ha)
  · exact (hsame _).inv h.stale h.stream trivial
  · split
    · exact (hsame _).inv h.stale h.stream trivial
    · exact h
  · exact h

/-! ## 7. Bodies -/

/-- The state behind an operation on the current body. -/
def AfterBody (c c' : Conn) : Prop := c'.earlier = c.earlier ∧ c'.stale = c.stale ∧ c'.pc = c.pc

theorem not_settled {env : Env} {c : Conn} {b : BodyState} (hb : c.current = some b)
    (hd : b.done = false) (n : Nat) : ¬ Settled env c n := by
  intro hs
  have := hs.1 b (by rw [hb]; rfl)
  rw [hd] at this
  cases this

/-- A poll of a body that is done. -/
theorem pollDone_inv {env : Env} {c c' : Conn} {b : BodyState} (h : InputInv env c)
    (hb : c.current = some b) (hd : b.done = true) (hsame : AfterBody c c')
    (hshared : c'.shared = c.shared) (hcurrent : c'.current = c.current)
    (hrequest : c'.request = c.request.map fun x => { x with polls := x.polls ++ [.ended] }) :
    InputInv env c' := by
  obtain ⟨hearlier, hstale, hpc⟩ := hsame
  have hreceived : c'.received = c.received := by rw [received, hshared, received]
  have hbuf : c'.buf = c.buf := by rw [buf, hshared, buf]
  have hsettled : ∀ n, Settled env c n → Settled env c' n := by
    intro n hs
    obtain ⟨hcur, pre, hserved, hrec⟩ := hs
    refine ⟨hcurrent ▸ hcur, pre, ?_, by rw [hreceived, hbuf]; exact hrec⟩
    rw [hearlier, hrequest]
    cases hx : c.request with
    | none => rw [hx] at hserved; exact hserved
    | some x => rw [hx] at hserved; exact hserved.polled_again
  refine ⟨hstale ▸ h.stale, ?_, ?_⟩
  · cases h.stream with
    | settled hs => exact .settled (hsettled _ hs)
    | underway _ _ _ hb' _ _ ho =>
        obtain rfl := Option.some.inj (hb.symm.trans hb')
        have := ho.notDone
        rw [hd] at this
        cases this
    | spent h1 h2 h3 h4 =>
        rw [h2] at hrequest
        exact .spent (hearlier ▸ h1) hrequest (hcurrent ▸ h3) (hreceived.trans h4)
  · rw [hpc]
    refine h.requires.mono hsettled (fun hc => ⟨?_, hsettled 0 hc.2⟩)
      (fun hr => Or.inl (hshared ▸ hr))
      fun _ _ => hbuf
    rw [hrequest, Option.isSome_map]
    exact hc.1

/-- An operation on an open body, told by the state it leaves: the body is
open still, or finished, or over. -/
theorem openBody_inv {env : Env} {c c' : Conn} {b : BodyState} (h : InputInv env c)
    (hb : c.current = some b) (hd : b.done = false) (hheld : c.bodyHeld = true)
    (hsame : AfterBody c c') (hs : Stream env c')
    (hread : c'.shared.bodyRead = true → Concluded env c') : InputInv env c' := by
  obtain ⟨hearlier, hstale, hpc⟩ := hsame
  refine ⟨hstale ▸ h.stale, hs, ?_⟩
  rw [hpc]
  refine h.requires.mono (fun n hn => absurd hn (not_settled hb hd n))
    (fun hc => absurd hc.2 (not_settled hb hd 0)) (fun hr => Or.inr (hread hr)) ?_
  intro buffered hpc'
  rw [bodyHeld, hpc'] at hheld
  cases hheld

theorem pollOpen_inv {env : Env} {c c' : Conn} {b : BodyState} (h : InputInv env c)
    (hb : c.current = some b) (hd : b.done = false) (hheld : c.bodyHeld = true)
    (hsame : AfterBody c c') {a : PollAnswers}
    (hshared : c'.shared = (pollChunk a c.shared b).2.1)
    (hcurrent : c'.current = some (pollChunk a c.shared b).2.2)
    (hrequest : c'.request = c.request.map fun x =>
      { x with polls := x.polls ++ [(pollChunk a c.shared b).1] }) :
    InputInv env c' := by
  cases h.stream with
  | settled hs => exact absurd hs (not_settled hb hd _)
  | spent _ _ h3 _ =>
      have := h3 b (by rw [hb]; rfl)
      rw [hd] at this
      cases this
  | @underway pre used n x hd' kind b' h1 h2 h3 hb' hk hlog ho =>
      obtain rfl := Option.some.inj (hb.symm.trans hb')
      have hstatus := status_poll (r := ⟨c.shared, b, x.polls, []⟩) (.reading ho hlog) a
      have hkind := (pollChunk_spec ho a).2.1.trans hk
      have hearlier : Served env c'.earlier pre := hsame.1 ▸ h1
      rw [h2] at hrequest
      -- from here on the body is the one of a `Reading`, and the poll one of its polls
      generalize hr : Reading.poll ⟨c.shared, b, x.polls, []⟩ a = r at hstatus
      have hshared' : c'.shared = r.shared := by rw [hshared, ← hr]; rfl
      have hcurrent' : c'.current = some r.body := by rw [hcurrent, ← hr]; rfl
      have hrequest' : c'.request = some { x with polls := r.log } := by rw [hrequest, ← hr]; rfl
      have hkind' : r.body.kind = kind := by rw [← hkind, ← hr]; rfl
      have hreceived : c'.received = r.shared.io.io.received := by rw [received, hshared']
      have hbuf : c'.buf = r.shared.io.buf := by rw [buf, hshared']
      have hdone : r.body.done = true → ∀ b₁ ∈ c'.current, b₁.done = true := by
        intro hdone b₁ hb₁
        rw [hcurrent'] at hb₁
        cases hb₁
        exact hdone
      apply openBody_inv h hb hd hheld hsame
      · cases hstatus with
        | reading ho' hlog' =>
            exact .underway hearlier hrequest' h3 hcurrent' hkind' hlog'
              (by rw [hshared']; exact ho')
        | ended hfin hlog' hend =>
            exact .spent hearlier hrequest' (hdone hfin.done)
              (by rw [hreceived, hfin.conserved, List.append_assoc _ _ r.shared.io.buf])
        | failed hfail _ _ =>
            obtain ⟨extra, hextra⟩ := hfail.conserved
            exact .spent hearlier hrequest' (hdone hfail.done)
              (by rw [hreceived, hextra, List.append_assoc _ extra,
                List.append_assoc _ _ (extra ++ _)])
      · intro hread
        rw [hshared'] at hread
        cases hstatus with
        | reading ho' _ => rw [ho'.notRead] at hread; cases hread
        | failed hfail _ _ => rw [hfail.notRead] at hread; cases hread
        | @ended body hfin hlog' hend =>
            have hat := atEnd_of_finished hfin hlog' hend
            have hwhole := hfin.whole
            rw [hkind'] at hat hwhole
            refine ⟨by rw [hrequest']; rfl, hdone hfin.done,
              pre ++ blankLines n ++ x.head ++ body, ?_, ?_⟩
            · rw [hrequest']
              exact Served.snoc (x := { x with polls := r.log }) hearlier h3 hat hwhole
            · rw [hreceived, hbuf, hfin.conserved, blankLines_zero, List.append_nil]

theorem request_polled (c : Conn) (r : PollChunk) (sent : Bytes) (unanswered : Bool) :
    (c.now.map (Exchange.polled r sent unanswered)).map Exchange.request
      = c.request.map fun x => { x with polls := x.polls ++ [r] } := by
  simp [request, Option.map_map, Function.comp_def, Exchange.polled]

/-- Letting go of the body, finished or not. -/
theorem dropBody_inv {env : Env} {c : Conn} (h : InputInv env c) (b : BodyState) :
    InputInv env { c with shared := b.drop c.shared, current := none } := by
  have hread : (b.drop c.shared).bodyRead = c.shared.bodyRead := notifyFinished_bodyRead _ _
  have hreceived : (b.drop c.shared).io.io.received = c.received := by
    rw [BodyState.drop, notifyFinished_io]
    rfl
  have hbuf : (b.drop c.shared).io.buf = c.buf := notifyFinished_buf _ _
  have hsettled : ∀ n, Settled env c n →
      Settled env { c with shared := b.drop c.shared, current := none } n := by
    intro n hs
    obtain ⟨_, pre, hserved, hrec⟩ := hs
    refine ⟨by simp, pre, hserved, hreceived.trans (hrec.trans ?_)⟩
    exact congrArg _ hbuf.symm
  have hended : ∀ buffered, c.pc = .ended (.upgraded buffered) →
      ({ c with shared := b.drop c.shared, current := none } : Conn).buf = c.buf := fun _ _ => hbuf
  refine ⟨h.stale, ?_, h.requires.mono hsettled (fun hc => ⟨hc.1, hsettled 0 hc.2⟩)
    (fun hr => Or.inl (hread ▸ hr)) hended⟩
  cases h.stream with
  | settled hs => exact .settled (hsettled _ hs)
  | underway h1 h2 _ _ _ _ ho =>
      exact .spent h1 h2 (by simp)
        (hreceived.trans (ho.conserved.trans (List.append_assoc _ _ _)))
  | spent h1 h2 _ h4 => exact .spent h1 h2 (by simp) (hreceived.trans h4)

/-- Giving up on an open body. -/
theorem abandon_inv {env : Env} {c c' : Conn} {b : BodyState} (h : InputInv env c)
    (hb : c.current = some b) (hd : b.done = false) (hheld : c.bodyHeld = true)
    (hsame : AfterBody c c') (hshared : c'.shared = (b.fail c.shared).1)
    (hcurrent : c'.current = some (b.fail c.shared).2) {p : PollChunk}
    (hrequest : c'.request = c.request.map fun x => { x with polls := x.polls ++ [p] }) :
    InputInv env c' := by
  have hdone : (b.fail c.shared).2.done = true := by simp [BodyState.fail]
  have hreceived : c'.received = c.received := by
    rw [received, hshared, BodyState.fail, notifyFinished_io]
    rfl
  apply openBody_inv h hb hd hheld hsame
  · cases h.stream with
    | settled hs => exact absurd hs (not_settled hb hd _)
    | spent _ _ h3 _ =>
        have := h3 b (by rw [hb]; rfl)
        rw [hd] at this
        cases this
    | underway h1 h2 _ _ _ _ ho =>
        rw [h2] at hrequest
        have hcur : ∀ b' ∈ c'.current, b'.done = true := by
          intro b' hb'
          rw [hcurrent] at hb'
          cases hb'
          exact hdone
        exact .spent (hsame.1 ▸ h1) hrequest hcur
          (hreceived.trans (ho.conserved.trans (List.append_assoc _ _ _)))
  · intro hread
    rw [hshared] at hread
    simp [BodyState.fail] at hread

theorem stepBody_inv {env : Env} {c : Conn} {b : BodyState} (h : InputInv env c)
    (hb : c.current = some b) (hheld : c.bodyHeld = true) (op : BodyOp) :
    InputInv env (stepBody c b op) := by
  cases op with
  | poll a =>
      have hsame : AfterBody c (stepBody c b (.poll a)) := ⟨rfl, rfl, rfl⟩
      cases hd : b.done with
      | false => exact pollOpen_inv h hb hd hheld hsame rfl rfl (request_polled _ _ _ _)
      | true =>
          have hpoll := (pollChunk_of_done hd a c.shared).1
          refine pollDone_inv h hb hd hsame ?_ ?_ ?_
          · simp only [stepBody, hpoll]
          · simp only [stepBody, hpoll, hb]
          · simp only [stepBody, hpoll]
            exact request_polled _ _ _ _
  | abandon =>
      simp only [stepBody]
      cases hd : b.done with
      | false => exact abandon_inv h hb hd hheld ⟨rfl, rfl, rfl⟩ rfl rfl (request_polled _ _ _ _)
      | true => exact h
  | drop => exact dropBody_inv h b

/-- Bodies kept past their responses are done, and do nothing. -/
theorem stepStale_inv {env : Env} {c : Conn} {i : Nat} {b : BodyState} (h : InputInv env c)
    (hb : c.stale[i]? = some b) (op : BodyOp) : InputInv env (stepStale c i b op) := by
  have hmem : b ∈ c.stale := List.mem_of_getElem? hb
  have hd := h.stale b hmem
  cases op with
  | poll a =>
      simp only [stepStale, (pollChunk_of_done hd a c.shared).1]
      refine SameInput.inv (c := c) ⟨rfl, rfl, rfl, rfl, rfl, rfl⟩ ?_ h.stream h.requires
      intro b' hb'
      rcases List.mem_or_eq_of_mem_set hb' with hb' | rfl
      · exact h.stale b' hb'
      · exact hd
  | abandon => simpa only [stepStale, hd, if_true] using h
  | drop =>
      refine SameInput.inv (c := c) ⟨rfl, rfl, rfl, notifyFinished_bodyRead _ _, ?_,
        notifyFinished_buf _ _⟩ ?_ h.stream h.requires
      · simp only [received, stepStale, BodyState.drop, notifyFinished_io]
      · intro b' hb'
        exact h.stale b' (List.mem_of_mem_eraseIdx hb')

/-! ## 8. Every run -/

theorem step_inv {env : Env} {c : Conn} (h : InputInv env c) (e : Event) :
    InputInv env (step env c e) := by
  unfold step
  split
  · split
    · rename_i b hb
      split
      · rename_i hheld; exact stepBody_inv h hb hheld _
      · exact h
    · exact h
  · split
    · rename_i b hb
      split
      · exact h
      · exact stepStale_inv h hb _
    · exact h
  · split
    · rename_i hpc; exact stepReading_inv h hpc e
    · rename_i hpc; exact stepFlushing_inv h hpc e
    · rename_i hpc; exact stepSettling_inv h hpc e
    · rename_i hpc; exact stepFirstPoll_inv h hpc e
    · rename_i hpc; exact stepHandling_inv h hpc e
    · rename_i hpc; exact stepStreaming_inv h hpc e
    · exact h

theorem init_inv (env : Env) (buffered : Bytes) : InputInv env (init env buffered) :=
  enterRead_inv (n := 0) (by simp) ⟨by simp, [], .nil, rfl⟩

theorem run_inv (env : Env) (buffered : Bytes) (events : List Event) :
    InputInv env (run env buffered events) :=
  List.foldlRecOn events (step env) (init_inv env buffered) fun _ h e _ => step_inv h e

/-- Served requests, the last of them told apart. -/
theorem Settled.split {env : Env} {c : Conn} {n : Nat} (hs : Settled env c n) :
    ∃ pre, Served env c.earlier pre ∧ ∀ x, c.request = some x → ∃ body h kind m,
      verdict env x.head = some (h, kind) ∧ PollLog.atEnd kind x.polls ∧
      Whole env.limits kind body (PollLog.delivered x.polls) ∧
      c.received = pre ++ blankLines m ++ x.head ++ body ++ (blankLines n ++ c.buf) := by
  obtain ⟨_, pre, hserved, hreceived⟩ := hs
  cases hx : c.request with
  | none =>
      rw [hx, Option.toList_none, List.append_nil] at hserved
      exact ⟨pre, hserved, fun x hx' => absurd hx' (by simp)⟩
  | some x =>
      rw [hx] at hserved
      obtain ⟨pre', body, hd, kind, m, h1, h2, h3, h4, rfl⟩ := hserved.inv
      refine ⟨pre', h1, ?_⟩
      intro x' hx'
      cases hx'
      exact ⟨body, hd, kind, m, h2, h3, h4, by rw [hreceived, List.append_assoc]⟩

theorem Stream.heads {env : Env} {c : Conn} (h : Stream env c) :
    ∃ pre, Served env c.earlier pre ∧ ∀ x, c.request = some x → ∃ n rest,
      c.received = pre ++ blankLines n ++ x.head ++ rest := by
  cases h with
  | settled hs =>
      obtain ⟨pre, hserved, hlast⟩ := hs.split
      refine ⟨pre, hserved, ?_⟩
      intro x hx
      obtain ⟨body, _, _, m, _, _, _, hreceived⟩ := hlast x hx
      exact ⟨m, _, hreceived.trans (List.append_assoc _ _ _)⟩
  | underway h1 h2 _ _ _ _ ho =>
      refine ⟨_, h1, ?_⟩
      intro x hx
      obtain rfl := Option.some.inj (h2.symm.trans hx)
      exact ⟨_, _, ho.conserved.trans (List.append_assoc _ _ _)⟩
  | spent h1 h2 _ h4 =>
      refine ⟨_, h1, ?_⟩
      intro x hx
      obtain rfl := Option.some.inj (h2.symm.trans hx)
      exact ⟨_, _, h4⟩

/-- **Request boundaries.** Whatever the peer sends, however it is read, and
whatever handlers do: the requests before the current one are, in this
order and with only empty lines between them, the beginning of the stream,
each with a head that was accepted and with the whole body its framing
announces, read to its end; the current head starts behind them and behind
empty lines. And when the connection is handed over, the current request is
served as well, and the bytes handed over are what the stream holds behind
it. -/
theorem request_boundaries (env : Env) (buffered : Bytes) (events : List Event) :
    (∃ pre, Served env (run env buffered events).earlier pre ∧
      ∀ x, (run env buffered events).request = some x → ∃ n rest,
        (run env buffered events).received = pre ++ blankLines n ++ x.head ++ rest) ∧
    ∀ handed, (run env buffered events).pc = .ended (.upgraded handed) →
      ∃ pre x h kind n body, Served env (run env buffered events).earlier pre ∧
        (run env buffered events).request = some x ∧ verdict env x.head = some (h, kind) ∧
        PollLog.atEnd kind x.polls ∧ Whole env.limits kind body (PollLog.delivered x.polls) ∧
        (run env buffered events).received = pre ++ blankLines n ++ x.head ++ body ++ handed := by
  have hinv := run_inv env buffered events
  generalize run env buffered events = c at hinv
  refine ⟨hinv.stream.heads, ?_⟩
  intro handed hpc
  have hr := hinv.requires
  rw [hpc] at hr
  obtain ⟨⟨hsome, hsettled⟩, rfl⟩ := hr
  obtain ⟨x, hx⟩ := Option.isSome_iff_exists.mp hsome
  obtain ⟨pre, hserved, hlast⟩ := hsettled.split
  obtain ⟨body, h, kind, n, h2, h3, h4, hreceived⟩ := hlast x hx
  exact ⟨pre, x, h, kind, n, body, hserved, hx, h2, h3, h4, hreceived⟩

end Conn

end ArmatureH1

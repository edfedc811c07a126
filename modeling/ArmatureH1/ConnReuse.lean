/-
ArmatureH1.ConnReuse — a connection that is kept alive forgets what it
served.

Everything that outlives a request outlives it in `IoState`, in the
`body_read` cell and in the pending output. The property here is that none
of it matters: once the loop waits for the next request and no body is held,
whatever comes next is read, answered and refused exactly as on a new
connection that finds the same bytes in its buffer.

That a past changes nothing is `ConnPast`. What is left over are the fields
that still describe the last request; a loop that waits for a head does not
look at them, and the next head resets them (`Alike`).
-/
import ArmatureH1.ConnPast
import ArmatureH1.ConnScan

namespace ArmatureH1

open ByteString BodyState

namespace Conn

/-! ## 1. What the last request leaves behind -/

/-- The connection without what describes its last request. The exchange
joins the others; the cursor, the two flags and the wrap of the generation
are put back to their first values. -/
def forget (c : Conn) : Conn :=
  { c with
    shared :=
      { io :=
          { c.shared.io with
            scanned := 0
            headEnd := none
            bodyFinished := false
            bodyGeneration := c.shared.io.bodyGeneration % 2 ^ 64 }
        bodyRead := false }
    past := c.past ++ c.now.toList
    now := none }

/-- Nobody holds a body, the cursor is right and no interim response is
owed. -/
structure Bare (c : Conn) : Prop where
  current : c.current = none
  stale : c.stale = []
  scan : c.ScanOk
  idle : c.shared.io.pendingContinue = 0

/-- The loop waits for a head, writes the error response to one, or has
returned. -/
def Pc.inert : Pc → Prop
  | .reading _ | .flushing _ .errorWritten | .ended _ => True
  | _ => False

/-- The same state, or two that differ in what their last requests left. -/
def Alike (c d : Conn) : Prop :=
  c = d ∨ (Bare c ∧ Bare d ∧ Pc.inert c.pc ∧ c.forget = d.forget)

theorem pc_of_forget {c d : Conn} (h : c.forget = d.forget) : c.pc = d.pc := by
  have := congrArg Conn.pc h
  exact this

theorem out_of_forget {c d : Conn} (h : c.forget = d.forget) : c.out = d.out := by
  have := congrArg Conn.out h
  exact this

theorem Alike.symm {c d : Conn} (h : Alike c d) : Alike d c := by
  rcases h with rfl | ⟨hc, hd, hpc, heq⟩
  · exact Or.inl rfl
  · exact Or.inr ⟨hd, hc, pc_of_forget heq ▸ hpc, heq.symm⟩

theorem Alike.trans {b c d : Conn} (h : Alike b c) (h' : Alike c d) : Alike b d := by
  rcases h with rfl | ⟨hb, hc, hpc, heq⟩
  · exact h'
  · rcases h' with rfl | ⟨hc', hd, hpc', heq'⟩
    · exact Or.inr ⟨hb, hc, hpc, heq⟩
    · exact Or.inr ⟨hb, hd, hpc, heq.trans heq'⟩

theorem Alike.forget_eq {c d : Conn} (h : Alike c d) : c.forget = d.forget := by
  rcases h with rfl | ⟨_, _, _, heq⟩
  · rfl
  · exact heq

/-! ### Errors -/

theorem heads_of_forget {c d : Conn} (h : c.forget = d.forget) : c.heads = d.heads := by
  have := congrArg Conn.heads h
  exact this

/-- What writing changes is not what `forget` changes. -/
theorem forget_written {c d : Conn} (h : c.forget = d.forget) (out : Bytes) (pc : Pc) (heads : Nat)
    (fault : Option Fault) :
    ({ c with out := out, pc := pc, heads := heads, fault := fault } : Conn).forget
      = ({ d with out := out, pc := pc, heads := heads, fault := fault } : Conn).forget :=
  congrArg (fun c : Conn => { c with out := out, pc := pc, heads := heads, fault := fault }) h

theorem writeErrorHead_forget (env : Env) (version : Version) (status : Nat) {c d : Conn}
    (h : c.forget = d.forget) :
    (writeErrorHead env version status c).forget
      = (writeErrorHead env version status d).forget := by
  have hwritten := fun out pc => forget_written h out pc (d.heads + 1)
    (some ⟨version, status, env.date d.heads⟩)
  unfold writeErrorHead flushOr
  rw [heads_of_forget h, out_of_forget h]
  simp only
  split
  · exact hwritten _ (.ended .closed)
  · exact hwritten _ (.flushing 0 .errorWritten)

theorem writeErrorHead_bare (env : Env) (version : Version) (status : Nat) {c : Conn} (h : Bare c) :
    Bare (writeErrorHead env version status c) ∧
      Pc.inert (writeErrorHead env version status c).pc := by
  unfold writeErrorHead flushOr
  simp only
  split
  · exact ⟨⟨h.current, h.stale, h.scan, h.idle⟩, trivial⟩
  · exact ⟨⟨h.current, h.stale, h.scan, h.idle⟩, trivial⟩

theorem writeError_of_idle (env : Env) (version : Version) (status : Nat) {c : Conn}
    (h : c.shared.io.pendingContinue = 0) :
    writeError env version status c = writeErrorHead env version status c := by
  have hwhole : c.shared.io.pendingContinue ≠ continueBytes.length := by
    rw [h]
    decide
  unfold writeError settleContinue
  rw [if_neg hwhole, if_pos h]

/-- An error response to a head does not depend on what the last request
left. -/
theorem writeError_alike (env : Env) (version : Version) (status : Nat) {c d : Conn} (hc : Bare c)
    (hd : Bare d) (heq : c.forget = d.forget) :
    Alike (writeError env version status c) (writeError env version status d) := by
  rw [writeError_of_idle env version status hc.idle, writeError_of_idle env version status hd.idle]
  have hc' := writeErrorHead_bare env version status hc
  refine Or.inr ⟨hc'.1, (writeErrorHead_bare env version status hd).1, hc'.2, ?_⟩
  exact writeErrorHead_forget env version status heq

/-! ### The next head -/

/-- A new body takes nothing over but the count of the bodies before it. -/
theorem new_congr {kind : BodyKind} {needsContinue : Bool} {limits : Limits} {sh sh' : Shared}
    (h : sh.io.bodyStarted = sh'.io.bodyStarted) :
    BodyState.new kind needsContinue limits sh = BodyState.new kind needsContinue limits sh' := by
  unfold BodyState.new
  rw [h]

/-- Two connections that differ in what their last requests left begin the
next one alike. -/
theorem begun_forget {c d : Conn} (hc : Bare c) (hd : Bare d) (h : c.forget = d.forget) (n : Nat) :
    (begun n c).forget = (begun n d).forget ∧ Bare (begun n c) ∧ Bare (begun n d) ∧
      (∀ call, (renewed call (begun n c).shared).io.bodyStarted
        = (renewed call (begun n d).shared).io.bodyStarted) ∧
      ∀ call made, admitted call made (begun n c) = admitted call made (begun n d) := by
  have hbare : ∀ {c : Conn}, Bare c → Bare (begun n c) := fun {c} hc =>
    ⟨rfl, by simp [begun, hc.current, hc.stale], IoState.scanOk_of_zero rfl, hc.idle⟩
  simp only [forget, Conn.mk.injEq, Shared.mk.injEq, IoState.mk.injEq] at h
  obtain ⟨⟨⟨hio, hbuf, -, -, -, hgeneration, hpending⟩, -⟩, hcurrent, hstale, hout, hpc, hheads,
    hpast, -, hfault⟩ := h
  refine ⟨?_, hbare hc, hbare hd, fun call => ?_, fun call made => ?_⟩
  · simp only [forget, begun, setIo, IoState.splitHead, IoState.resetScan, hio, hbuf, hgeneration,
      hpending, hcurrent, hstale, hout, hpc, hheads, hpast, hfault]
  · have hnext : (c.shared.io.bodyGeneration + 1) % 2 ^ 64
        = (d.shared.io.bodyGeneration + 1) % 2 ^ 64 := by
      omega
    simp only [renewed, begun, setIo, IoState.splitHead, IoState.resetScan,
      IoState.bodyStarted, hio, hbuf, hnext]
  · simp only [admitted, begun, setIo, IoState.splitHead, IoState.resetScan, hbuf, hcurrent, hstale,
      hout, hheads, hpast, hfault]
    by_cases hempty : d.out = []
    · simp only [hempty, ↓reduceIte]
    · simp only [hempty, ↓reduceIte]

/-- What is made of a head does not depend on what the last request left. -/
theorem judge_alike (env : Env) (head : Bytes) {c d : Conn} (hc : Bare c) (hd : Bare d)
    (h : c.forget = d.forget) (n : Nat) :
    Alike (judge env head (begun n c)) (judge env head (begun n d)) := by
  obtain ⟨hforget, hc', hd', hstarted, hadmitted⟩ := begun_forget hc hd h n
  unfold judge
  cases parseHeadRegion env.httparse head env.limits with
  | error e => exact writeError_alike env _ _ hc' hd' hforget
  | ok hd =>
      simp only
      cases decideFraming hd env.limits with
      | error e => exact writeError_alike env _ _ hc' hd' hforget
      | ok kind =>
          refine Or.inl ?_
          simp only
          rw [callHandler_eq, callHandler_eq, new_congr (hstarted (Call.ofHead hd))]
          exact hadmitted _ _

/-! ### One step -/

theorem forget_pc {c d : Conn} (h : c.forget = d.forget) (pc : Pc) :
    ({ c with pc := pc } : Conn).forget = ({ d with pc := pc } : Conn).forget :=
  congrArg (fun c : Conn => { c with pc := pc }) h

theorem alike_pc {c d : Conn} (hc : Bare c) (hd : Bare d) (h : c.forget = d.forget) {pc : Pc}
    (hpc : Pc.inert pc) : Alike { c with pc := pc } { d with pc := pc } :=
  Or.inr ⟨⟨hc.current, hc.stale, hc.scan, hc.idle⟩, ⟨hd.current, hd.stale, hd.scan, hd.idle⟩, hpc,
    forget_pc h pc⟩

/-- The error response goes out the same way. -/
theorem stepFlushing_alike (env : Env) {c d : Conn} (hc : Bare c) (hd : Bare d)
    (h : c.forget = d.forget) (written : Nat) (hpc : c.pc = .flushing written .errorWritten)
    (e : Event) :
    Alike (stepFlushing env c written .errorWritten e)
      (stepFlushing env d written .errorWritten e) := by
  have hsame : Alike c d := Or.inr ⟨hc, hd, by rw [hpc]; trivial, h⟩
  have hclosed : Alike { c with out := [], pc := .ended .closed }
      { d with out := [], pc := .ended .closed } :=
    Or.inr ⟨⟨hc.current, hc.stale, hc.scan, hc.idle⟩, ⟨hd.current, hd.stale, hd.scan, hd.idle⟩,
      trivial, congrArg (fun c : Conn => { c with out := [], pc := .ended .closed }) h⟩
  have hsent : ∀ b pc, Pc.inert pc → Alike { c.send b with pc := pc } { d.send b with pc := pc } :=
    fun b pc hpc =>
      Or.inr ⟨⟨hc.current, hc.stale, hc.scan, hc.idle⟩,
        ⟨hd.current, hd.stale, hd.scan, hd.idle⟩, hpc,
        congrArg (fun c : Conn => { c.send b with pc := pc }) h⟩
  unfold stepFlushing
  rw [out_of_forget h]
  cases e with
  | write a =>
      cases a with
      | pending => exact hsame
      | err =>
          simp only
          split
          · exact hclosed
          · exact hsame
      | ok n =>
          simp only
          split
          · split
            · exact hclosed
            · exact hsent _ _ trivial
          · exact hsame
  | flush a =>
      cases a with
      | pending => exact hsame
      | ok =>
          simp only
          split
          · exact hsame
          · exact hclosed
      | err =>
          simp only
          split
          · exact hsame
          · exact hclosed
  | writeDeadline => exact hclosed
  | _ => exact hsame

/-- What a read leaves in the buffer while the loop waits. -/
def arrived (b : Bytes) (st : IoState) : IoState :=
  { st with
    io := { st.io with received := st.io.received ++ b }
    buf := skipBlank (st.buf ++ b) }

theorem stripBlank_eq (st : IoState) :
    st.stripBlank
      = { st with buf := skipBlank st.buf, scanned := st.scanned - 2 * blankPairs st.buf } := by
  unfold IoState.stripBlank
  simp only
  split
  · rfl
  · rename_i h
    have hzero : 2 * blankPairs st.buf = 0 := by omega
    simp only [skipBlank, hzero, List.drop_zero, Nat.sub_zero]

/-- A read, with a cursor that is right: the outcome is decided by the
buffer. -/
theorem headRead_eq (limits : Limits) (started : Bool) (b : Bytes) {st : IoState} (h : st.ScanOk) :
    headRead limits started b st =
      match findHeadEnd (skipBlank (st.buf ++ b)) with
      | some n => (.ready, { arrived b st with
          scanned := st.scanned - 2 * blankPairs (st.buf ++ b), headEnd := some n })
      | none =>
        (if (skipBlank (st.buf ++ b)).length > limits.maxHeadBytes then .failed 431
          else .more (started || beginsRequest b),
          { arrived b st with scanned := (skipBlank (st.buf ++ b)).length }) := by
  have hbuf : (st.readMore b).buf = st.buf ++ b := rfl
  unfold headRead
  rw [IoState.hasCompleteHead_eq (h.readMore b), hbuf, stripBlank_eq]
  cases findHeadEnd (skipBlank (st.buf ++ b)) with
  | some n => rfl
  | none =>
      simp only [Bool.false_eq_true, ↓reduceIte, hbuf]
      split <;> rfl

/-- A read while the loop waits comes to the same, whatever the last request
left. -/
theorem headRead_forget (limits : Limits) (started : Bool) (b : Bytes) {c d : Conn} (hc : Bare c)
    (hd : Bare d) (h : c.forget = d.forget) :
    let r := headRead limits started b c.shared.io
    let r' := headRead limits started b d.shared.io
    r.1 = r'.1 ∧ (c.setIo r.2).forget = (d.setIo r'.2).forget ∧ Bare (c.setIo r.2) ∧
      Bare (d.setIo r'.2) ∧
      (r.1 = .ready → ∃ n, r.2.headLength = some n ∧ r'.2.headLength = some n) := by
  have hscan : ∀ {c : Conn}, Bare c → (headRead limits started b c.shared.io).2.ScanOk := by
    intro c hc
    rw [headRead_io]
    exact (IoState.ScanOk.readMore hc.scan b).hasCompleteHead
  have hbuf : c.shared.io.buf = d.shared.io.buf := by
    have := congrArg (fun c : Conn => c.shared.io.buf) h
    exact this
  have harrived : ∀ scanned headEnd scanned' headEnd',
      (c.setIo { arrived b c.shared.io with scanned := scanned, headEnd := headEnd }).forget
        = (d.setIo
            { arrived b d.shared.io with scanned := scanned', headEnd := headEnd' }).forget :=
    fun _ _ _ _ => congrArg (fun c : Conn => c.setIo (arrived b c.shared.io)) h
  intro r r'
  have hr : r = _ := headRead_eq limits started b hc.scan
  have hr' : r' = _ := headRead_eq limits started b hd.scan
  have hidle : r.2.pendingContinue = 0 ∧ r'.2.pendingContinue = 0 := by
    rw [hr, hr']
    constructor
    · cases findHeadEnd (skipBlank (c.shared.io.buf ++ b)) <;> exact hc.idle
    · cases findHeadEnd (skipBlank (d.shared.io.buf ++ b)) <;> exact hd.idle
  rw [hbuf] at hr
  refine ⟨?_, ?_, ⟨hc.current, hc.stale, hscan hc, hidle.1⟩,
    ⟨hd.current, hd.stale, hscan hd, hidle.2⟩, ?_⟩
  · rw [hr, hr']
    cases findHeadEnd (skipBlank (d.shared.io.buf ++ b)) <;> rfl
  · rw [hr, hr']
    cases findHeadEnd (skipBlank (d.shared.io.buf ++ b)) with
    | some n => exact harrived _ _ _ _
    | none => exact harrived _ _ _ _
  · rw [hr, hr']
    cases findHeadEnd (skipBlank (d.shared.io.buf ++ b)) with
    | some n => exact fun _ => ⟨n, rfl, rfl⟩
    | none =>
        intro hready
        simp only at hready
        split at hready <;> cases hready

/-- The loop that waits for a head does not look at what the last request
left. -/
theorem stepReading_alike (env : Env) {c d : Conn} (hc : Bare c) (hd : Bare d)
    (h : c.forget = d.forget) (started : Bool) (hpc : c.pc = .reading started) (e : Event) :
    Alike (stepReading env c started e) (stepReading env d started e) := by
  have hsame : Alike c d := Or.inr ⟨hc, hd, by rw [hpc]; trivial, h⟩
  unfold stepReading
  cases e with
  | read a =>
      cases a with
      | pending => exact hsame
      | err => exact alike_pc hc hd h trivial
      | ok b =>
          by_cases hb : b = []
          · simp only [hb, ↓reduceIte]
            exact alike_pc hc hd h trivial
          · simp only [hb, ↓reduceIte]
            obtain ⟨hfst, hforget, hc', hd', hready⟩ := headRead_forget env.limits started b hc hd h
            generalize headRead env.limits started b c.shared.io = r at hfst hforget hc' hready
            generalize headRead env.limits started b d.shared.io = r' at hfst hforget hd' hready
            obtain ⟨r, io⟩ := r
            obtain ⟨r', io'⟩ := r'
            obtain rfl : r = r' := hfst
            cases r with
            | ready =>
                obtain ⟨n, hn, hn'⟩ := hready rfl
                have hbuf : io.buf = io'.buf := by
                  have := congrArg (fun c : Conn => c.shared.io.buf) hforget
                  exact this
                simp only
                rw [startRequest_eq env (c := c.setIo io) hn,
                  startRequest_eq env (c := d.setIo io') hn']
                change Alike (judge env (io.buf.take n) _) (judge env (io'.buf.take n) _)
                rw [hbuf]
                exact judge_alike env _ hc' hd' hforget n
            | failed status => exact writeError_alike env _ _ hc' hd' hforget
            | more started => exact alike_pc hc' hd' hforget trivial
  | headDeadline =>
      by_cases hs : started = true
      · simp only [hs, ↓reduceIte]
        exact writeError_alike env _ _ hc hd h
      · simp only [hs, ↓reduceIte, Bool.false_eq_true]
        exact alike_pc hc hd h trivial
  | _ => exact hsame

theorem stepPc_alike (env : Env) {c d : Conn} (hc : Bare c) (hd : Bare d) (hpc : Pc.inert c.pc)
    (h : c.forget = d.forget) (e : Event) : Alike (stepPc env c e) (stepPc env d e) := by
  have hsame : Alike c d := Or.inr ⟨hc, hd, hpc, h⟩
  unfold stepPc
  rw [← pc_of_forget h]
  cases hat : c.pc with
  | reading started => exact stepReading_alike env hc hd h started hat e
  | flushing written next =>
      cases next with
      | errorWritten => exact stepFlushing_alike env hc hd h written hat e
      | _ => rw [hat] at hpc; exact hpc.elim
  | ended r => exact hsame
  | _ => rw [hat] at hpc; exact hpc.elim

/-- **What the last request left behind is never looked at.** -/
theorem step_alike (env : Env) {c d : Conn} (h : Alike c d) (e : Event) :
    Alike (step env c e) (step env d e) := by
  rcases h with rfl | ⟨hc, hd, hpc, h⟩
  · exact Or.inl rfl
  · have hsame : Alike c d := Or.inr ⟨hc, hd, hpc, h⟩
    cases e with
    | body op =>
        unfold step
        rw [hc.current, hd.current]
        exact hsame
    | staleBody i op =>
        unfold step
        rw [hc.stale, hd.stale]
        exact hsame
    | _ => exact stepPc_alike env hc hd hpc h _

theorem foldl_step_alike (env : Env) {c d : Conn} (h : Alike c d) (events : List Event) :
    Alike (events.foldl (step env) c) (events.foldl (step env) d) := by
  induction events generalizing c d with
  | nil => exact h
  | cons e events ih => exact ih (step_alike env h e)

/-! ## 2. Where the loop waits for a head -/

/-- The buffer has no leading blank lines and holds no whole head, and the
wait has the name that its bytes give it. -/
def Awaits (c : Conn) : Prop :=
  match c.pc with
  | .reading started =>
    skipBlank c.buf = c.buf ∧ findHeadEnd c.buf = none ∧ started = beginsRequest c.buf
  | .flushing _ .read => skipBlank c.buf = c.buf ∧ findHeadEnd c.buf = none
  | _ => True

theorem beginsRequest_append (s t : Bytes) :
    beginsRequest (s ++ t) = (beginsRequest s || beginsRequest t) := List.any_append

/-- Blank lines do not begin a request. -/
theorem beginsRequest_blankLines (n : Nat) : beginsRequest (blankLines n) = false := by
  induction n with
  | zero => rfl
  | succ n ih =>
      rw [blankLines_succ, beginsRequest_append, ih]
      rfl

theorem beginsRequest_skipBlank (s : Bytes) : beginsRequest (skipBlank s) = beginsRequest s := by
  have h := congrArg beginsRequest (eq_skipBlank s)
  rw [beginsRequest_append, beginsRequest_blankLines, Bool.false_or] at h
  exact h.symm

theorem awaits_elsewhere {c : Conn} (hreading : ∀ started, c.pc ≠ .reading started)
    (hflushing : ∀ written, c.pc ≠ .flushing written .read) : Awaits c := by
  unfold Awaits
  split
  · rename_i heq; exact absurd heq (hreading _)
  · rename_i heq; exact absurd heq (hflushing _)
  · trivial

theorem flushOr_awaits {next : AfterFlush} (c : Conn) {done : Conn} (hnext : next ≠ .read)
    (hdone : Awaits done) : Awaits (flushOr next c done) := by
  unfold flushOr
  split
  · exact hdone
  · cases next with
    | read => exact absurd rfl hnext
    | _ => trivial

theorem settleContinue_awaits (next : AfterSettle) (c : Conn) {go : Conn → Conn}
    (hgo : ∀ c', c'.ScanOk → Awaits (go c')) (hscan : c.ScanOk) :
    Awaits (settleContinue next c go) := by
  unfold settleContinue
  split
  · exact hgo _ hscan
  · split
    · exact hgo _ hscan
    · trivial

theorem writeErrorHead_awaits (env : Env) (version : Version) (status : Nat) (c : Conn) :
    Awaits (writeErrorHead env version status c) := flushOr_awaits _ (by simp) trivial

theorem writeError_awaits (env : Env) (version : Version) (status : Nat) {c : Conn} (h : c.ScanOk) :
    Awaits (writeError env version status c) :=
  settleContinue_awaits _ c (fun c' _ => writeErrorHead_awaits env version status c') h

theorem callHandler_awaits (env : Env) (h : Head) (kind : BodyKind) (c : Conn) :
    Awaits (callHandler env h kind c) := by
  rw [callHandler_eq]
  unfold admitted
  simp only
  split
  · trivial
  · split
    · trivial
    · trivial

theorem startRequest_awaits (env : Env) (c : Conn) : Awaits (startRequest env c) := by
  cases h : c.shared.io.headLength with
  | none =>
      unfold startRequest
      rw [h]
      trivial
  | some n =>
      have hscan : (begun n c).ScanOk := IoState.scanOk_of_zero rfl
      rw [startRequest_eq env h]
      unfold judge
      split
      · exact writeError_awaits env _ _ hscan
      · split
        · exact writeError_awaits env _ _ hscan
        · exact callHandler_awaits env _ _ _

theorem enterRead_awaits (env : Env) {c : Conn} (hscan : c.ScanOk) : Awaits (enterRead env c) := by
  have hhead := IoState.hasCompleteHead_eq hscan
  unfold enterRead
  cases hfind : findHeadEnd (skipBlank c.shared.io.buf) with
  | some n =>
      simp only [hfind] at hhead
      simp only [hhead, ↓reduceIte]
      exact startRequest_awaits env _
  | none =>
      simp only [hfind] at hhead
      have hstripped : ∀ c' : Conn, c'.buf = skipBlank c.shared.io.buf →
          skipBlank c'.buf = c'.buf ∧ findHeadEnd c'.buf = none := by
        intro c' h
        rw [h]
        exact ⟨skipBlank_skipBlank _, hfind⟩
      have hbuf : (c.setIo c.shared.io.hasCompleteHead.2).buf = skipBlank c.shared.io.buf := by
        rw [hhead]
        exact IoState.stripBlank_buf _
      simp only [hhead, Bool.false_eq_true, ↓reduceIte]
      rw [hhead] at hbuf
      unfold flushOr
      split
      · exact ⟨(hstripped _ hbuf).1, (hstripped _ hbuf).2, rfl⟩
      · exact hstripped _ hbuf

theorem dispose_awaits (env : Env) {c : Conn} (hscan : c.ScanOk) (d : Disposition) :
    Awaits (dispose env c d) := by
  cases d with
  | keepAlive => exact enterRead_awaits env hscan
  | close => trivial
  | upgrade =>
      unfold dispose
      simp only
      split
      · trivial
      · trivial

theorem conclude_awaits (env : Env) (a : Answer) {c : Conn} (hscan : c.ScanOk) :
    Awaits (conclude env a c) := by
  have hscan' : (c.setIo c.shared.io.hasCompleteHead.2).ScanOk :=
    IoState.ScanOk.hasCompleteHead hscan
  unfold conclude
  split
  · simp only
    split
    · exact dispose_awaits env hscan' _
    · exact flushOr_awaits _ (by simp) (dispose_awaits env hscan' _)
  · exact flushOr_awaits _ (by simp) (dispose_awaits env hscan _)

theorem respondHead_awaits (env : Env) (a : Answer) {c : Conn} (hscan : c.ScanOk) :
    Awaits (respondHead env a c) := by
  unfold respondHead
  simp only
  split
  · split
    · exact conclude_awaits env a (by exact hscan)
    · exact conclude_awaits env a (by exact hscan)
    · exact flushOr_awaits _ (by simp) trivial
  · exact conclude_awaits env a (by exact hscan)

theorem respond_awaits (env : Env) (call : Call) (resp : Response) {c : Conn} (hscan : c.ScanOk) :
    Awaits (respond env call resp c) :=
  settleContinue_awaits _ _ (fun _ h => respondHead_awaits env _ h) hscan

theorem failFlush_awaits (c : Conn) (next : AfterFlush) : Awaits (failFlush c next) := by
  cases next <;> trivial

theorem stepFlushing_awaits (env : Env) {c : Conn} {written : Nat} {next : AfterFlush}
    (h : Awaits c) (hscan : c.ScanOk) (hpc : c.pc = .flushing written next) (e : Event) :
    Awaits (stepFlushing env c written next e) := by
  have hread : next = .read → skipBlank c.buf = c.buf ∧ findHeadEnd c.buf = none := by
    intro hnext
    rw [Awaits, hpc, hnext] at h
    exact h
  unfold stepFlushing
  split
  · split
    · exact failFlush_awaits c next
    · exact h
  · split
    · split
      · exact failFlush_awaits c next
      · cases next with
        | read => exact hread rfl
        | _ => trivial
    · exact h
  · split
    · exact h
    · cases next with
      | read => exact ⟨(hread rfl).1, (hread rfl).2, rfl⟩
      | finish a => exact dispose_awaits env (by exact hscan) _
      | _ => trivial
  · split
    · exact h
    · exact failFlush_awaits c next
  · exact failFlush_awaits c next
  · exact h

theorem stepSettling_awaits (env : Env) {c : Conn} (h : Awaits c) (hscan : c.ScanOk)
    (next : AfterSettle) (hpc : c.pc = .settling next) (e : Event) :
    Awaits (stepSettling env c next e) := by
  have hfail : ∀ c' : Conn, Awaits (failSettle c' next) := by
    intro c'
    cases next <;> trivial
  unfold stepSettling
  split
  · rename_i writes flush
    have hsend := IoState.rescans_pollSendContinue flush writes c.shared.io
    split
    · exact awaits_elsewhere (c := c.record _) (by simp [record, setIo, hpc])
        (by simp [record, setIo, hpc])
    · rename_i heq
      rw [heq] at hsend
      cases next with
      | respond a => exact respondHead_awaits env a (c := c.record _) (hsend.scanOk hscan)
      | error version status => exact writeErrorHead_awaits env version status _
    · exact hfail _
  · exact hfail c
  · exact h

theorem stepReading_awaits (env : Env) {c : Conn} {started : Bool} (h : Awaits c) (hscan : c.ScanOk)
    (hpc : c.pc = .reading started) (e : Event) : Awaits (stepReading env c started e) := by
  have hnow := h
  rw [Awaits, hpc] at hnow
  unfold stepReading
  split
  · trivial
  · rename_i b
    split
    · trivial
    · have hread := headRead_eq env.limits started b hscan
      have hscan' : (headRead env.limits started b c.shared.io).2.ScanOk := by
        rw [headRead_io]
        exact (IoState.ScanOk.readMore hscan b).hasCompleteHead
      split
      · exact startRequest_awaits env _
      · rename_i heq
        rw [heq] at hscan'
        exact writeError_awaits env _ _ (by exact hscan')
      · rename_i started' io heq
        rw [heq] at hread
        cases hfind : findHeadEnd (skipBlank (c.shared.io.buf ++ b)) with
        | some n =>
            rw [hfind] at hread
            simp at hread
        | none =>
            rw [hfind] at hread
            simp only [Prod.mk.injEq] at hread
            obtain ⟨hmore, rfl⟩ := hread
            split at hmore
            · cases hmore
            · cases hmore
              refine ⟨skipBlank_skipBlank _, hfind, ?_⟩
              change (started || beginsRequest b) = beginsRequest (skipBlank (c.shared.io.buf ++ b))
              rw [beginsRequest_skipBlank, beginsRequest_append, hnow.2.2]
              rfl
  · split
    · exact writeError_awaits env _ _ hscan
    · trivial
  · exact h

theorem stepFirstPoll_awaits (env : Env) {c : Conn} (h : Awaits c) (hscan : c.ScanOk) (call : Call)
    (held : Bytes) (e : Event) : Awaits (stepFirstPoll env c call held e) := by
  unfold stepFirstPoll
  split
  · exact flushOr_awaits _ (by simp) trivial
  · exact respond_awaits env call _ (by exact hscan)
  · trivial
  · exact h

theorem stepHandling_awaits (env : Env) {c : Conn} (h : Awaits c) (hscan : c.ScanOk) (call : Call)
    (e : Event) : Awaits (stepHandling env c call e) := by
  unfold stepHandling
  split
  · exact respond_awaits env call _ hscan
  · trivial
  · split
    · exact h
    · exact writeError_awaits env _ _ hscan
  · exact writeError_awaits env _ _ hscan
  · exact h

theorem stepStreaming_awaits (env : Env) {c : Conn} (h : Awaits c) (hscan : c.ScanOk) (a : Answer)
    (parked : Bool) (e : Event) : Awaits (stepStreaming env c a parked e) := by
  unfold stepStreaming
  split
  · split
    · exact h
    · exact flushOr_awaits _ (by simp) trivial
  · simp only
    split
    · exact flushOr_awaits _ (by simp) trivial
    · trivial
  · exact flushOr_awaits _ (by simp) trivial
  · exact conclude_awaits env a (by exact hscan)
  · trivial
  · split
    · trivial
    · exact h
  · exact h

/-- A body that is done leaves the buffer alone. -/
theorem Awaits.of_buf {c c' : Conn} (h : Awaits c) (hpc : c'.pc = c.pc) (hbuf : c'.buf = c.buf) :
    Awaits c' := by
  unfold Awaits at h ⊢
  rw [hpc, hbuf]
  exact h

theorem stepBody_awaits {c : Conn} (h : Awaits c) (b : BodyState) (hdone : b.done = true)
    (op : BodyOp) : Awaits (stepBody c b op) := by
  cases op with
  | poll a =>
      simp only [stepBody, (pollChunk_of_done hdone a c.shared).1]
      exact h.of_buf rfl rfl
  | abandon =>
      simp only [stepBody, hdone, ↓reduceIte]
      exact h
  | drop => exact h.of_buf rfl (notifyFinished_buf c.shared b)

theorem stepStale_awaits {c : Conn} (h : Awaits c) (i : Nat) (b : BodyState) (hdone : b.done = true)
    (op : BodyOp) : Awaits (stepStale c i b op) := by
  cases op with
  | poll a =>
      simp only [stepStale, (pollChunk_of_done hdone a c.shared).1]
      exact h.of_buf rfl rfl
  | abandon =>
      simp only [stepStale, hdone, ↓reduceIte]
      exact h
  | drop => exact h.of_buf rfl (notifyFinished_buf c.shared b)

/-- While the loop waits for a head, a body that anyone holds is done. -/
theorem current_done {env : Env} {c : Conn} (hin : InputInv env c)
    (hpc : (∃ started, c.pc = .reading started) ∨ ∃ written, c.pc = .flushing written .read) :
    ∀ b ∈ c.current, b.done = true := by
  have hreq := hin.requires
  rcases hpc with ⟨started, hpc⟩ | ⟨written, hpc⟩
  · rw [hpc] at hreq
    obtain ⟨n, hdone, -⟩ := hreq
    exact hdone
  · rw [hpc] at hreq
    obtain ⟨n, hdone, -⟩ := hreq
    exact hdone

theorem step_awaits {env : Env} {c : Conn} (h : Awaits c) (hin : InputInv env c) (hscan : c.ScanOk)
    (e : Event) : Awaits (step env c e) := by
  have hloop : ∀ e, Awaits (stepPc env c e) := by
    intro e
    unfold stepPc
    split
    · rename_i hpc; exact stepReading_awaits env h hscan hpc e
    · rename_i hpc; exact stepFlushing_awaits env h hscan hpc e
    · rename_i hpc; exact stepSettling_awaits env h hscan _ hpc e
    · exact stepFirstPoll_awaits env h hscan _ _ e
    · exact stepHandling_awaits env h hscan _ e
    · exact stepStreaming_awaits env h hscan _ _ e
    · exact h
  cases e with
  | body op =>
      unfold step
      cases hcurrent : c.current with
      | none => exact h
      | some b =>
          simp only
          split
          · by_cases hpc : (∃ started, c.pc = .reading started) ∨
              ∃ written, c.pc = .flushing written .read
            · exact stepBody_awaits h b (current_done hin hpc b hcurrent) op
            · exact awaits_elsewhere
                (fun started heq => hpc (Or.inl ⟨started, (stepBody_pc c b op).symm.trans heq⟩))
                (fun written heq => hpc (Or.inr ⟨written, (stepBody_pc c b op).symm.trans heq⟩))
          · exact h
  | staleBody i op =>
      unfold step
      simp only
      cases hstale : c.stale[i]? with
      | none => exact h
      | some b =>
          simp only
          split
          · exact h
          · exact stepStale_awaits h i b (hin.stale b (List.mem_of_getElem? hstale)) op
  | _ => exact hloop _

theorem run_awaits (env : Env) (buffered : Bytes) (events : List Event) :
    Awaits (run env buffered events) := by
  induction events using List.reverseRecOn with
  | nil => exact enterRead_awaits env (IoState.scanOk_of_zero rfl)
  | append_singleton events e ih =>
      rw [run_append_singleton]
      exact step_awaits ih (run_inv env buffered events) (run_scan env buffered events) e

/-! ## 3. A kept-alive connection -/

/-- The past of a connection that waits for a head with `buf` in its buffer. -/
def priorOf (c : Conn) : Prior where
  received := c.received.take (c.received.length - c.buf.length)
  sent := c.sent
  generation := c.shared.io.bodyGeneration
  heads := c.heads
  past := c.past ++ c.now.toList

/-- A new connection with no whole head in its buffer. -/
def waiting (buf : Bytes) : Conn where
  shared :=
    { io :=
        { io := { received := buf, sent := [] }
          buf := buf
          scanned := buf.length
          headEnd := none
          bodyFinished := false
          bodyGeneration := 0
          pendingContinue := 0 }
      bodyRead := false }
  current := none
  stale := []
  out := []
  pc := .reading (beginsRequest buf)
  heads := 0
  past := []
  now := none
  fault := none

theorem init_eq_waiting (env : Env) {buf : Bytes} (hstripped : skipBlank buf = buf)
    (hfind : findHeadEnd buf = none) : init env buf = waiting buf := by
  unfold init enterRead
  rw [IoState.hasCompleteHead_eq (IoState.scanOk_of_zero rfl)]
  simp only [hstripped, hfind, stripBlank_eq, Bool.false_eq_true, ↓reduceIte]
  rfl

/-- A connection that waits for a head, and a new one with the same buffer,
put behind its past. -/
theorem alike_init (env : Env) (buffered : Bytes) (events : List Event) {started : Bool}
    (hpc : (run env buffered events).pc = .reading started)
    (hcurrent : (run env buffered events).current = none)
    (hstale : (run env buffered events).stale = []) :
    Alike (run env buffered events)
      ((init (env.later (run env buffered events).heads) (run env buffered events).buf).after
        (run env buffered events).priorOf) := by
  have hscan := run_scan env buffered events
  have hawaits := run_awaits env buffered events
  have hin := (run_inv env buffered events).requires
  have hlive : Live (run env buffered events) := by
    intro r hr
    rw [hpc] at hr
    cases hr
  have hplace := (run_out_of_live env buffered events hlive).place
  generalize run env buffered events = c at *
  rw [hpc] at hin hplace
  rw [Awaits, hpc] at hawaits
  obtain ⟨hstripped, hfind, hstarted⟩ := hawaits
  obtain ⟨⟨hpending, hfault, -⟩, hout⟩ := hplace
  obtain ⟨n, -, pre, -, hreceived⟩ := hin
  have htaken : c.priorOf.received ++ c.buf = c.received := by
    simp only [priorOf, hreceived, List.length_append, Nat.add_sub_cancel]
    rw [← List.length_append, List.take_left' rfl]
  rw [init_eq_waiting _ hstripped hfind]
  refine Or.inr ⟨⟨hcurrent, hstale, hscan, hpending⟩, ⟨rfl, rfl, ?_, rfl⟩, by rw [hpc]; trivial, ?_⟩
  · refine ⟨Nat.le_refl _, ?_⟩
    change findHeadEnd (c.buf.take c.buf.length) = none
    rw [List.take_length]
    exact hfind
  · have hgeneration : c.shared.io.bodyGeneration % 2 ^ 64
        = c.priorOf.renumber 0 % 2 ^ 64 := by
      simp only [Prior.renumber, priorOf, Nat.add_zero]
      rw [if_pos (by decide), Nat.mod_mod]
    have htransport : c.shared.io.io = ⟨c.priorOf.received ++ c.buf, c.priorOf.sent ++ []⟩ := by
      rw [htaken, List.append_nil]
      rfl
    simp only [forget, after, waiting, Shared.after, IoState.after, hcurrent, hstale, hout, hpc,
      hfault, hstarted, htransport, hgeneration, Option.map_none, List.map_nil, Option.toList_none,
      List.append_nil]
    rw [show c.shared.io.pendingContinue = 0 from hpending]
    rfl

/-- **A connection that is kept alive forgets what it served.** Take any run
after which the loop waits for a head and no body is held, and let anything
happen next. The connection goes on exactly as a new connection would that
finds the same bytes in its buffer (its `Date` values are those of the heads
to come): it waits at the same place, holds back the same output, has sent
the same bytes behind those it had sent, has had the same exchanges behind
those it had had, and has made the same error response. -/
theorem kept_alive_as_new (env : Env) (buffered : Bytes) (before after : List Event)
    (started : Bool) (hpc : (run env buffered before).pc = .reading started)
    (hcurrent : (run env buffered before).current = none)
    (hstale : (run env buffered before).stale = []) :
    let c := run env buffered before
    let c' := run env buffered (before ++ after)
    let d := run (env.later c.heads) c.buf after
    c'.pc = d.pc ∧ c'.out = d.out ∧ c'.buf = d.buf ∧ c'.sent = c.sent ++ d.sent ∧
      c'.exchanges = c.exchanges ++ d.exchanges ∧ c'.fault = d.fault := by
  intro c c' d
  have halike := foldl_step_alike env (alike_init env buffered before hpc hcurrent hstale) after
  rw [foldl_step_after] at halike
  have hrun : c' = after.foldl (step env) (run env buffered before) := by
    change run env buffered (before ++ after) = _
    unfold run
    rw [List.foldl_append]
  have heq : c'.forget = (d.after c.priorOf).forget := hrun ▸ halike.forget_eq
  have hpc' := congrArg Conn.pc heq
  have hout := congrArg Conn.out heq
  have hbuf := congrArg (fun c : Conn => c.shared.io.buf) heq
  have hsent := congrArg (fun c : Conn => c.shared.io.io.sent) heq
  have hpast := congrArg Conn.past heq
  have hfault := congrArg Conn.fault heq
  refine ⟨hpc', hout, hbuf, hsent, ?_, hfault⟩
  exact hpast.trans (List.append_assoc _ _ _)

/-- A request that is answered with `hi`, and its body let go. -/
def servedOnce : List Event :=
  [.read (.ok getRequest), .body .drop, .handler (.ready ⟨200, [], .full (ascii "hi")⟩),
    .write (.ok 1000), .flush .ok]

theorem kept_alive_as_new_twice :
    (run sampleEnv [] servedOnce).sent ≠ [] ∧
      (run sampleEnv [] (servedOnce ++ servedOnce)).sent
        = (run sampleEnv [] servedOnce).sent ++ (run (sampleEnv.later 1) [] servedOnce).sent := by
  have h := kept_alive_as_new sampleEnv [] servedOnce servedOnce false rfl rfl rfl
  exact ⟨by decide +kernel, h.2.2.2.1⟩

end Conn

end ArmatureH1

/-
ArmatureH1.Dispatch — which protocol an accepted connection speaks.

`dispatch` (`server.rs`) decides by ALPN behind a TLS handshake, or, with h2c
detection on, by the first bytes of a plaintext connection, which
`peek_preface` reads and `is_h2c_preface` (`tls.rs`) classifies. What it read
it passes on: to the HTTP/2 fallback or to the HTTP/1 loop.

The transport's answers to the reads are the environment's, each with the time
of the poll; the handshake is rustls's, which answers with the protocol that
ALPN settled. Shown is that the verdict comes with the first read that settles
it and is the stream's, that what goes along is all that was read up to then,
that one deadline bounds the whole wait, and that the HTTP/1 loop behaves as if
it had read those bytes itself (`dispatch_sorts`). The last holds of bytes that
fit `max_head_bytes`: a buffer that a connection starts with is not measured
before its first read.

What `serve_h1` does with the loop's result (the upgrade consumer) is in
`Handover`; its log lines are left out.
-/
import ArmatureH1.ConnReuse
import ArmatureH1.Deadline

namespace ArmatureH1

open ByteString

/-! ## 1. The preface -/

/-- `Preface`. -/
inductive Preface where
  | http1
  | http2
  | needMore
  deriving DecidableEq

/-- `H2C_PREFACE`. -/
def h2cPreface : Bytes := ascii "PRI * HTTP/2.0\r\n\r\nSM\r\n\r\n"

/-- `is_h2c_preface`. -/
def isH2cPreface (buf : Bytes) : Preface :=
  let n := min buf.length h2cPreface.length
  if buf.take n ≠ h2cPreface.take n then .http1
  else if buf.length ≥ h2cPreface.length then .http2
  else .needMore

/-- Two strings agree up to the shorter's end exactly when that one begins the
other. -/
theorem take_min_eq_iff {s t : Bytes} :
    s.take (min s.length t.length) = t.take (min s.length t.length) ↔ s <+: t ∨ t <+: s := by
  rcases Nat.le_total s.length t.length with h | h
  · rw [Nat.min_eq_left h, List.take_length]
    constructor
    · intro heq
      rw [heq]
      exact Or.inl (List.take_prefix _ _)
    · intro hor
      rcases hor with hst | hts
      · exact List.prefix_iff_eq_take.mp hst
      · have heq := hts.eq_of_length (Nat.le_antisymm hts.length_le h)
        rw [heq, List.take_length]
  · rw [Nat.min_eq_right h, List.take_length]
    constructor
    · intro heq
      rw [← heq]
      exact Or.inr (List.take_prefix _ _)
    · intro hor
      rcases hor with hst | hts
      · have heq := hst.eq_of_length (Nat.le_antisymm hst.length_le h)
        rw [heq, List.take_length]
      · exact (List.prefix_iff_eq_take.mp hts).symm

theorem isH2cPreface_eq_http2 (buf : Bytes) : isH2cPreface buf = .http2 ↔ h2cPreface <+: buf := by
  simp only [isH2cPreface]
  by_cases h : buf.take (min buf.length h2cPreface.length)
      = h2cPreface.take (min buf.length h2cPreface.length)
  · rw [if_neg (fun hne => hne h)]
    by_cases hlen : buf.length ≥ h2cPreface.length
    · rw [if_pos hlen, Nat.min_eq_right hlen, List.take_length] at *
      refine ⟨fun _ => ?_, fun _ => rfl⟩
      rw [← h]
      exact List.take_prefix _ _
    · rw [if_neg hlen]
      exact ⟨fun hne => (by cases hne), fun hp => absurd hp.length_le hlen⟩
  · rw [if_pos h]
    exact ⟨fun hne => (by cases hne), fun hp => absurd (take_min_eq_iff.mpr (Or.inr hp)) h⟩

theorem isH2cPreface_eq_needMore (buf : Bytes) :
    isH2cPreface buf = .needMore ↔ buf <+: h2cPreface ∧ buf ≠ h2cPreface := by
  simp only [isH2cPreface]
  by_cases h : buf.take (min buf.length h2cPreface.length)
      = h2cPreface.take (min buf.length h2cPreface.length)
  · rw [if_neg (fun hne => hne h)]
    by_cases hlen : buf.length ≥ h2cPreface.length
    · rw [if_pos hlen]
      refine ⟨fun hne => (by cases hne), fun hp => ?_⟩
      exact absurd (hp.1.eq_of_length (Nat.le_antisymm hp.1.length_le hlen)) hp.2
    · rw [if_neg hlen]
      refine ⟨fun _ => ⟨?_, fun heq => hlen (by rw [heq])⟩, fun _ => rfl⟩
      rcases take_min_eq_iff.mp h with hp | hp
      · exact hp
      · exact absurd hp.length_le hlen
  · rw [if_pos h]
    exact ⟨fun hne => (by cases hne), fun hp => absurd (take_min_eq_iff.mpr (Or.inl hp.1)) h⟩

theorem isH2cPreface_eq_http1 (buf : Bytes) :
    isH2cPreface buf = .http1 ↔ ¬ buf <+: h2cPreface ∧ ¬ h2cPreface <+: buf := by
  rw [← not_or, ← take_min_eq_iff]
  simp only [isH2cPreface]
  split
  · rename_i h
    exact ⟨fun _ => h, fun _ => rfl⟩
  · rename_i h
    refine ⟨fun he => ?_, fun hne => absurd hne h⟩
    split at he <;> cases he

/-- A verdict stands, whatever follows. -/
theorem isH2cPreface_append {buf : Bytes} (h : isH2cPreface buf ≠ .needMore) (more : Bytes) :
    isH2cPreface (buf ++ more) = isH2cPreface buf := by
  cases hv : isH2cPreface buf with
  | needMore => exact absurd hv h
  | http2 =>
      rw [isH2cPreface_eq_http2] at hv ⊢
      exact hv.trans (List.prefix_append _ _)
  | http1 =>
      rw [isH2cPreface_eq_http1] at hv ⊢
      refine ⟨fun hp => hv.1 ((List.prefix_append _ _).trans hp), fun hp => ?_⟩
      rcases List.prefix_or_prefix_of_prefix hp (List.prefix_append buf more) with hle | hle
      · exact hv.2 hle
      · exact hv.1 hle

/-! ## 2. `peek_preface` -/

/-- A read of the transport, at a time. -/
abbrev TimedRead := Nat × ReadAnswer

/-- The bytes that reads brought. -/
def readBytes (reads : List TimedRead) : Bytes :=
  reads.flatMap fun r =>
    match r.2 with
    | .ok b => b
    | _ => []

/-- What `peek_preface` comes to: still waiting, gone, or decided. -/
inductive Peeked where
  | waiting
  | gone
  | decided (buffered : Bytes) (preface : Preface)
  deriving DecidableEq

/-- `peek_preface`, from its loop on. `timeout_at` looks at the read first. -/
def peekPreface (deadline : Nat) : List TimedRead → Bytes → Peeked
  | reads, buf =>
    match isH2cPreface buf with
    | .needMore =>
      match reads with
      | [] => .waiting
      | (now, .pending) :: rest => if deadline ≤ now then .gone else peekPreface deadline rest buf
      | (_, .err) :: _ => .gone
      | (_, .ok b) :: rest =>
        if b = [] then .decided buf .http1 else peekPreface deadline rest (buf ++ b)
    | p => .decided buf p

/-! ## 3. `dispatch` -/

/-- What `dispatch` reads of the configuration. -/
structure DispatchConfig where
  tls : Bool
  detectH2c : Bool
  headerTimeout : Nat
  instantMax : Nat

/-- What a poll of the TLS handshake finds: rustls's answer, with the protocol
that ALPN settled. -/
inductive HandshakeAnswer where
  | pending
  | err
  | ok (alpn : Option Bytes)

/-- `negotiated_h2`. -/
def negotiatedH2 (alpn : Option Bytes) : Bool := alpn == some (ascii "h2")

/-- What has become of an accepted connection: nothing yet, or it is closed, or
the fallback has it with what was read of it, or the HTTP/1 loop does. -/
inductive Dispatched where
  | waiting
  | closed
  | fallback (buffered : Bytes)
  | serving (buffered : Bytes) (c : Conn)

/-- Where `tokio::time::timeout` and `peek_preface` put a deadline that no
`Instant` can express: thirty years ahead. -/
def neverExpires : Nat := 86400 * 365 * 30 * 10 ^ 9

/-- The deadline of `tokio::time::timeout` and of `peek_preface`. -/
def DispatchConfig.deadline (cfg : DispatchConfig) (start : Nat) : Nat :=
  (instantAdd cfg.instantMax start cfg.headerTimeout).getD (start + neverExpires)

/-- The TLS branch of `dispatch`: nothing is read past the handshake. -/
def dispatchTls (env : Env) (events : List Event) (deadline : Nat) :
    List (Nat × HandshakeAnswer) → Dispatched
  | [] => .waiting
  | (now, .pending) :: rest =>
    if deadline ≤ now then .closed else dispatchTls env events deadline rest
  | (_, .err) :: _ => .closed
  | (_, .ok alpn) :: _ =>
    if negotiatedH2 alpn then .fallback [] else .serving [] (Conn.run env [] events)

/-- `dispatch`, with the polls of the handshake, the reads for the preface, and
what happens to the connection once it is served. -/
def dispatch (cfg : DispatchConfig) (env : Env) (start : Nat)
    (handshake : List (Nat × HandshakeAnswer)) (reads : List TimedRead) (events : List Event) :
    Dispatched :=
  if cfg.tls then dispatchTls env events (cfg.deadline start) handshake
  else if cfg.detectH2c then
    match peekPreface (cfg.deadline start) reads [] with
    | .waiting => .waiting
    | .gone => .closed
    | .decided buffered .http2 => .fallback buffered
    | .decided buffered _ => .serving buffered (Conn.run env buffered events)
  else .serving [] (Conn.run env [] events)

/-! ## 4. The read that settles it -/

/-- A proper beginning of the preface. -/
def BeginsPreface (b : Bytes) : Prop := b <+: h2cPreface ∧ b ≠ h2cPreface

/-- Neither a beginning of the preface nor what begins with it. -/
def NotPreface (b : Bytes) : Prop := ¬ b <+: h2cPreface ∧ ¬ h2cPreface <+: b

/-- Reads, behind `buf`, that settle nothing: what they brought is still a
proper beginning of the preface, none failed or ended the stream, and none was
waited for past the deadline. -/
structure Undecided (deadline : Nat) (buf : Bytes) (reads : List TimedRead) : Prop where
  begins : BeginsPreface (buf ++ readBytes reads)
  live : ∀ r ∈ reads, r.2 ≠ .err ∧ r.2 ≠ .ok []
  inTime : ∀ r ∈ reads, r.2 = .pending → r.1 < deadline

/-- How `peek_preface` comes to an answer, with `buf` read before. -/
inductive PeekedBy (deadline : Nat) (reads : List TimedRead) (buf : Bytes) : Peeked → Prop
  /-- What was read before is enough. -/
  | atOnce {p : Preface} : isH2cPreface buf = p → p ≠ .needMore →
      PeekedBy deadline reads buf (.decided buf p)
  | waiting : Undecided deadline buf reads → PeekedBy deadline reads buf .waiting
  | gone {front : List TimedRead} {last : TimedRead} : front ++ [last] <+: reads →
      Undecided deadline buf front → last.2 = .err ∨ last.2 = .pending ∧ deadline ≤ last.1 →
      PeekedBy deadline reads buf .gone
  | decided {front : List TimedRead} {last : TimedRead} {p : Preface} :
      front ++ [last] <+: reads → Undecided deadline buf front →
      isH2cPreface (buf ++ readBytes (front ++ [last])) = p → p ≠ .needMore →
      PeekedBy deadline reads buf (.decided (buf ++ readBytes (front ++ [last])) p)
  /-- The end of the stream within the preface. -/
  | eof {front : List TimedRead} {now : Nat} : front ++ [(now, .ok [])] <+: reads →
      Undecided deadline buf front →
      PeekedBy deadline reads buf (.decided (buf ++ readBytes front) .http1)

theorem readBytes_append (front back : List TimedRead) :
    readBytes (front ++ back) = readBytes front ++ readBytes back := List.flatMap_append

theorem undecided_nil (deadline : Nat) {buf : Bytes} (h : BeginsPreface buf) :
    Undecided deadline buf [] where
  begins := by simpa [readBytes] using h
  live r hr := by cases hr
  inTime r hr := by cases hr

/-- One more read that settles nothing, in front of the others. -/
theorem Undecided.cons {deadline : Nat} {buf : Bytes} {reads : List TimedRead} {r : TimedRead}
    (h : Undecided deadline (buf ++ readBytes [r]) reads) (hlive : r.2 ≠ .err ∧ r.2 ≠ .ok [])
    (hinTime : r.2 = .pending → r.1 < deadline) : Undecided deadline buf (r :: reads) where
  begins := by
    have hbegins := h.begins
    rwa [List.append_assoc, ← readBytes_append, List.singleton_append] at hbegins
  live := List.forall_mem_cons.mpr ⟨hlive, h.live⟩
  inTime := List.forall_mem_cons.mpr ⟨hinTime, h.inTime⟩

theorem PeekedBy.cons {deadline : Nat} {reads : List TimedRead} {buf : Bytes} {out : Peeked}
    {r : TimedRead} (h : PeekedBy deadline reads (buf ++ readBytes [r]) out)
    (hbegins : BeginsPreface buf) (hlive : r.2 ≠ .err ∧ r.2 ≠ .ok [])
    (hinTime : r.2 = .pending → r.1 < deadline) : PeekedBy deadline (r :: reads) buf out := by
  have hmove : ∀ front : List TimedRead,
      buf ++ readBytes [r] ++ readBytes front = buf ++ readBytes (r :: front) := by
    intro front
    rw [List.append_assoc, ← readBytes_append, List.singleton_append]
  have hlong : ∀ {front : List TimedRead}, front <+: reads → r :: front <+: r :: reads :=
    fun hp => List.cons_prefix_cons.mpr ⟨rfl, hp⟩
  cases h with
  | atOnce hverdict hp =>
      have hfirst : [] ++ [r] <+: r :: reads := hlong List.nil_prefix
      exact .decided hfirst (undecided_nil deadline hbegins) hverdict hp
  | waiting hopen => exact .waiting (hopen.cons hlive hinTime)
  | gone hfront hopen hwhy => exact .gone (hlong hfront) (hopen.cons hlive hinTime) hwhy
  | decided hfront hopen hverdict hp =>
      rw [hmove] at hverdict ⊢
      exact .decided (hlong hfront) (hopen.cons hlive hinTime) hverdict hp
  | eof hfront hopen =>
      rw [hmove]
      exact .eof (hlong hfront) (hopen.cons hlive hinTime)

theorem peekPreface_by (deadline : Nat) (reads : List TimedRead) (buf : Bytes) :
    PeekedBy deadline reads buf (peekPreface deadline reads buf) := by
  have hdecided : ∀ (reads : List TimedRead) (buf : Bytes), isH2cPreface buf ≠ .needMore →
      PeekedBy deadline reads buf (peekPreface deadline reads buf) := by
    intro reads buf hp
    have heq : peekPreface deadline reads buf = .decided buf (isH2cPreface buf) := by
      unfold peekPreface
      cases hv : isH2cPreface buf with
      | needMore => exact absurd hv hp
      | http1 => rfl
      | http2 => rfl
    rw [heq]
    exact .atOnce rfl hp
  induction reads generalizing buf with
  | nil =>
      by_cases hopen : isH2cPreface buf = .needMore
      · simp only [peekPreface, hopen]
        exact .waiting (undecided_nil deadline ((isH2cPreface_eq_needMore buf).mp hopen))
      · exact hdecided [] buf hopen
  | cons r rest ih =>
      by_cases hopen : isH2cPreface buf = .needMore
      · have hbegins : BeginsPreface buf := (isH2cPreface_eq_needMore buf).mp hopen
        have hfirst : [] ++ [r] <+: r :: rest := List.cons_prefix_cons.mpr ⟨rfl, List.nil_prefix⟩
        obtain ⟨now, a⟩ := r
        cases a with
        | pending =>
            simp only [peekPreface, hopen]
            split
            · rename_i hlate
              exact .gone hfirst (undecided_nil deadline hbegins) (.inr ⟨rfl, hlate⟩)
            · rename_i hearly
              refine PeekedBy.cons ?_ hbegins ⟨by rintro ⟨⟩, by rintro ⟨⟩⟩
                fun _ => Nat.lt_of_not_le hearly
              simpa [readBytes] using ih buf
        | err =>
            simp only [peekPreface, hopen]
            exact .gone hfirst (undecided_nil deadline hbegins) (.inl rfl)
        | ok b =>
            simp only [peekPreface, hopen]
            split
            · rename_i hb
              subst hb
              have h : PeekedBy deadline ((now, .ok []) :: rest) buf
                  (.decided (buf ++ readBytes []) .http1) :=
                .eof hfirst (undecided_nil deadline hbegins)
              simpa [readBytes] using h
            · rename_i hb
              refine PeekedBy.cons ?_ hbegins ⟨by rintro ⟨⟩, by simpa using hb⟩ (by rintro ⟨⟩)
              simpa [readBytes] using ih (buf ++ b)
      · exact hdecided (r :: rest) buf hopen

/-! ## 5. What the receiver sees -/

theorem IoState.hasCompleteHead_skips (st : IoState) :
    st.hasCompleteHead.2.buf = skipBlank st.buf := by
  rw [← stripBlank_buf]
  unfold IoState.hasCompleteHead
  simp only
  split
  · rfl
  · split <;> rfl

/-- What was read for the preface is what the HTTP/1 loop would have read
first. -/
theorem Conn.init_eq_read (env : Env) {b : Bytes} (hne : b ≠ [])
    (hfits : b.length ≤ env.limits.maxHeadBytes) :
    Conn.init env b = Conn.step env (Conn.init env []) (.read (.ok b)) := by
  rcases hst : IoState.hasCompleteHead ⟨⟨b, []⟩, b, 0, none, false, 0, 0⟩ with ⟨complete, st⟩
  have hbuf : st.buf = skipBlank b := by
    have h := IoState.hasCompleteHead_skips ⟨⟨b, []⟩, b, 0, none, false, 0, 0⟩
    rw [hst] at h
    exact h
  have hwaiting : Conn.init env [] = Conn.waiting [] := Conn.init_eq_waiting env rfl rfl
  rw [hwaiting]
  unfold Conn.init Conn.enterRead
  simp only [Conn.step, Conn.waiting, Conn.stepReading, if_neg hne, headRead, IoState.readMore,
    IoState.receive, List.nil_append, List.length_nil, hst, Conn.setIo]
  cases complete with
  | true => rfl
  | false =>
      have hshort : ¬ st.buf.length > env.limits.maxHeadBytes := by
        rw [hbuf]
        have hle : (skipBlank b).length ≤ b.length := by simp [skipBlank]
        omega
      have hbegins : (beginsRequest [] || beginsRequest b) = beginsRequest st.buf := by
        rw [hbuf, Conn.beginsRequest_skipBlank]
        rfl
      simp only [Bool.false_eq_true, ↓reduceIte, hshort, Conn.flushOr, hbegins]

/-- What an accepted plaintext connection has come to, where `s` is all that its
peer sends, of which `reads` bring a part. -/
def Sorted (cfg : DispatchConfig) (env : Env) (start : Nat) (reads : List TimedRead)
    (events : List Event) (s : Bytes) : Dispatched → Prop
  | .waiting => Undecided (cfg.deadline start) [] reads
  | .closed => ∃ front last, front ++ [last] <+: reads ∧
      Undecided (cfg.deadline start) [] front ∧
      (last.2 = .err ∨ last.2 = .pending ∧ cfg.deadline start ≤ last.1)
  | .fallback b => ∃ front last, front ++ [last] <+: reads ∧
      Undecided (cfg.deadline start) [] front ∧ b = readBytes (front ++ [last]) ∧
      h2cPreface <+: b ∧ h2cPreface <+: s
  | .serving b c => (∃ front last, front ++ [last] <+: reads ∧
      Undecided (cfg.deadline start) [] front ∧ b = readBytes (front ++ [last]) ∧
      (NotPreface b ∧ NotPreface s ∨ BeginsPreface b ∧ last.2 = .ok [])) ∧
      c = Conn.run env b events ∧
      (b ≠ [] → b.length ≤ env.limits.maxHeadBytes →
        c = Conn.run env [] (.read (.ok b) :: events))

theorem readBytes_mono {front reads : List TimedRead} (h : front <+: reads) :
    readBytes front <+: readBytes reads := by
  obtain ⟨back, rfl⟩ := h
  exact ⟨readBytes back, (readBytes_append front back).symm⟩

/-- **A plaintext connection is sorted by what its peer sends.** Let `s` be all
of that, however the reads cut it up and whenever they are polled. Nothing is
settled while what was read is a proper beginning of the preface and the one
deadline has not passed; the read that settles it, sends the connection to the
HTTP/2 fallback if what has been read, and so `s`, begins with the preface, and
to the HTTP/1 loop if it is neither that nor a beginning of it, or if the stream
ended within the preface. Every byte read up to then goes along: the fallback
gets them as they came, and the HTTP/1 loop is in every state as if its own
first read had brought them, if they fit `max_head_bytes`. -/
theorem dispatch_sorts (cfg : DispatchConfig) (env : Env) (start : Nat)
    (handshake : List (Nat × HandshakeAnswer)) (reads : List TimedRead) (events : List Event)
    (hplain : cfg.tls = false) (hdetect : cfg.detectH2c = true) {s : Bytes}
    (hs : readBytes reads <+: s) :
    Sorted cfg env start reads events s (dispatch cfg env start handshake reads events) := by
  have hserve : ∀ b : Bytes, b ≠ [] → b.length ≤ env.limits.maxHeadBytes →
      Conn.run env b events = Conn.run env [] (.read (.ok b) :: events) := by
    intro b hne hfits
    simp only [Conn.run, List.foldl_cons]
    rw [Conn.init_eq_read env hne hfits]
  have hby := peekPreface_by (cfg.deadline start) reads []
  simp only [dispatch, hplain, hdetect, Bool.false_eq_true, ↓reduceIte]
  generalize peekPreface (cfg.deadline start) reads [] = out at hby
  cases hby with
  | atOnce hverdict hp =>
      have hopen : isH2cPreface [] = .needMore := rfl
      exact absurd (hverdict.symm.trans hopen) hp
  | waiting hopen => exact hopen
  | gone hfront hopen hwhy => exact ⟨_, _, hfront, hopen, hwhy⟩
  | @decided front last p hfront hopen hverdict hp =>
      rw [List.nil_append] at hverdict ⊢
      -- the verdict of what was read stands for all that the peer sends
      have hstands : isH2cPreface s = p := by
        obtain ⟨more, hmore⟩ := (readBytes_mono hfront).trans hs
        rw [← hmore, isH2cPreface_append (by rw [hverdict]; exact hp), hverdict]
      cases p with
      | needMore => exact absurd rfl hp
      | http2 =>
          rw [isH2cPreface_eq_http2] at hverdict hstands
          exact ⟨front, last, hfront, hopen, rfl, hverdict, hstands⟩
      | http1 =>
          rw [isH2cPreface_eq_http1] at hverdict hstands
          exact ⟨⟨front, last, hfront, hopen, rfl, .inl ⟨hverdict, hstands⟩⟩, rfl, hserve _⟩
  | @eof front now hfront hopen =>
      rw [List.nil_append]
      have hall : readBytes front = readBytes (front ++ [(now, .ok [])]) := by
        rw [readBytes_append]
        exact (List.append_nil _).symm
      exact ⟨⟨front, _, hfront, hopen, hall, .inr ⟨hopen.begins, rfl⟩⟩, rfl, hserve _⟩

/-- Behind a TLS handshake, ALPN decides, and nothing has been read. -/
theorem dispatch_tls (cfg : DispatchConfig) (env : Env) (start : Nat)
    (handshake : List (Nat × HandshakeAnswer)) (reads : List TimedRead) (events : List Event)
    (htls : cfg.tls = true) :
    match dispatch cfg env start handshake reads events with
    | .waiting => ∀ r ∈ handshake, r.2 = .pending ∧ r.1 < cfg.deadline start
    | .closed => ∃ r ∈ handshake, r.2 = .err ∨ r.2 = .pending ∧ cfg.deadline start ≤ r.1
    | .fallback b => b = [] ∧ ∃ now, (now, .ok (some (ascii "h2"))) ∈ handshake
    | .serving b c => b = [] ∧ c = Conn.run env [] events ∧
        ∃ now alpn, (now, .ok alpn) ∈ handshake ∧ alpn ≠ some (ascii "h2") := by
  simp only [dispatch, htls, ↓reduceIte]
  induction handshake with
  | nil =>
      intro r hr
      cases hr
  | cons r rest ih =>
      obtain ⟨now, a⟩ := r
      cases a with
      | err => exact ⟨_, List.mem_cons_self, Or.inl rfl⟩
      | ok alpn =>
          simp only [dispatchTls]
          cases hh2 : negotiatedH2 alpn with
          | true =>
              have halpn : alpn = some (ascii "h2") := by simpa [negotiatedH2] using hh2
              exact ⟨rfl, now, by rw [← halpn]; exact List.mem_cons_self⟩
          | false =>
              have halpn : alpn ≠ some (ascii "h2") := by simpa [negotiatedH2] using hh2
              exact ⟨rfl, rfl, now, alpn, List.mem_cons_self, halpn⟩
      | pending =>
          simp only [dispatchTls]
          by_cases hlate : cfg.deadline start ≤ now
          · rw [if_pos hlate]
            exact ⟨_, List.mem_cons_self, Or.inr ⟨rfl, hlate⟩⟩
          · rw [if_neg hlate]
            generalize dispatchTls env events (cfg.deadline start) rest = out at ih
            cases out with
            | waiting =>
                intro r hr
                rcases List.mem_cons.mp hr with rfl | hr
                · exact ⟨rfl, Nat.lt_of_not_le hlate⟩
                · exact ih r hr
            | closed =>
                obtain ⟨r, hr, hwhy⟩ := ih
                exact ⟨r, List.mem_cons_of_mem _ hr, hwhy⟩
            | fallback b =>
                obtain ⟨hb, at_, hmem⟩ := ih
                exact ⟨hb, at_, List.mem_cons_of_mem _ hmem⟩
            | serving b c =>
                obtain ⟨hb, hc, at_, alpn, hmem, halpn⟩ := ih
                exact ⟨hb, hc, at_, alpn, List.mem_cons_of_mem _ hmem, halpn⟩

/-- A server with h2c detection on and TLS off. -/
def sniffing : DispatchConfig := ⟨false, true, 10000, 2 ^ 63⟩

/-- A request whose first byte might begin the preface, in two reads. -/
def putReads : List TimedRead := [(0, .pending), (3, .ok (ascii "P")), (5, .ok (ascii "UT"))]

theorem dispatch_sorts_put :
    dispatch sniffing sampleEnv 0 [] putReads [] = .serving (ascii "PUT")
        (Conn.run sampleEnv [] [.read (.ok (ascii "PUT"))]) ∧
      ∃ front last, front ++ [last] <+: putReads ∧ Undecided (sniffing.deadline 0) [] front ∧
        ascii "PUT" = readBytes (front ++ [last]) := by
  have h := dispatch_sorts sniffing sampleEnv 0 [] putReads [] rfl rfl (s := ascii "PUT /")
    (by decide)
  have hpeek : peekPreface (sniffing.deadline 0) putReads [] = .decided (ascii "PUT") .http1 := by
    decide +kernel
  have hserving : dispatch sniffing sampleEnv 0 [] putReads []
      = .serving (ascii "PUT") (Conn.run sampleEnv (ascii "PUT") []) := by
    simp only [dispatch, sniffing, Bool.false_eq_true, ↓reduceIte] at hpeek ⊢
    rw [hpeek]
  rw [hserving] at h ⊢
  obtain ⟨⟨front, last, hfront, hopen, hall, -⟩, -, hread⟩ := h
  refine ⟨?_, front, last, hfront, hopen, hall⟩
  rw [hread (by decide) (by decide)]

end ArmatureH1

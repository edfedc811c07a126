/-
ArmatureH1.HyperIo — the transport as hyper sees it (`backend/hyper/io.rs`).

`IoShared` stands between the transport and two readers: hyper, through
`HyperIo`, and whoever gets the transport afterwards (the 408 of the watchdog,
the upgrade consumer), through `SharedIo`. It serves the bytes read before hyper
took over first, reads into a scratch buffer that it keeps, and reports every
byte that moves to the phase clock.

Over any sequence of calls from either side it is a plain relay (`io_relays`):
the readers together get the stream in order, once, and nothing that is left in
the scratch buffer from an earlier read; hyper is told of an end of file only
where the transport reported one; and the clock moves by the events that
`PhaseClock` and `Splice` reason about, one for each transfer, and no others.

The transport's answers are the environment's. A read may not put more than
there is room for, and a write may not accept more than it is given; so an
answer is cut to that.
-/
import ArmatureH1.PhaseClock

namespace ArmatureH1

open ByteString

/-! ## 1. `tokio::io::ReadBuf` -/

/-- A `ReadBuf` over initialized memory. -/
structure ReadBuf where
  memory : Bytes
  filled : Nat
  fits : filled ≤ memory.length

namespace ReadBuf

/-- `ReadBuf::new`. -/
def new (memory : Bytes) : ReadBuf := ⟨memory, 0, Nat.zero_le _⟩

/-- `remaining`. -/
def remaining (b : ReadBuf) : Nat := b.memory.length - b.filled

/-- `filled`. -/
def data (b : ReadBuf) : Bytes := b.memory.take b.filled

/-- `put_slice`. -/
def putSlice (b : ReadBuf) (s : Bytes) (_h : s.length ≤ b.remaining) : ReadBuf where
  memory := b.memory.take b.filled ++ s ++ b.memory.drop (b.filled + s.length)
  filled := b.filled + s.length
  fits := by
    have hfits := b.fits
    simp only [List.length_append, List.length_take, List.length_drop]
    omega

theorem putSlice_data (b : ReadBuf) (s : Bytes) (h : s.length ≤ b.remaining) :
    (b.putSlice s h).data = b.data ++ s := by
  have hlen : (b.memory.take b.filled ++ s).length = b.filled + s.length := by
    rw [List.length_append, List.length_take, Nat.min_eq_left b.fits]
  simp only [data, putSlice]
  rw [← hlen, List.take_left' rfl]

theorem putSlice_length (b : ReadBuf) (s : Bytes) (h : s.length ≤ b.remaining) :
    (b.putSlice s h).memory.length = b.memory.length := by
  have hfits := b.fits
  simp only [remaining] at h
  simp only [putSlice, List.length_append, List.length_take, List.length_drop]
  omega

@[simp] theorem new_data (memory : Bytes) : (new memory).data = [] := rfl

@[simp] theorem new_remaining (memory : Bytes) : (new memory).remaining = memory.length := rfl

end ReadBuf

/-! ## 2. `IoShared` -/

/-- `MAX_SCRATCH`. -/
def maxScratch : Nat := 64 * 1024

/-- `IoShared`. -/
structure IoShared where
  io : Transport
  buffered : Bytes
  clock : PhaseClock
  scratch : Bytes

/-- What a poll of `hyper::rt::Read` comes to. `woken` is `Pending` with the
task woken again at once. -/
inductive CursorPoll where
  | pending
  | woken
  | err
  | read (b : Bytes)

namespace IoShared

/-- `HyperIo::new`. -/
def new (io : Transport) (buffered : Bytes) (clock : PhaseClock) : IoShared :=
  ⟨io, buffered, clock, []⟩

theorem take_le_room (b : Bytes) (room : Nat) : (b.take room).length ≤ room := by
  rw [List.length_take]
  exact Nat.min_le_left _ _

/-- `poll_read_into`: the bytes read before come first. -/
def pollReadInto (now : Nat) (a : ReadAnswer) (s : IoShared) (out : ReadBuf) :
    PollIo × IoShared × ReadBuf :=
  if s.buffered ≠ [] then
    let chunk := s.buffered.take out.remaining
    if chunk.length > 0 then
      (.ready,
        { s with
          buffered := s.buffered.drop out.remaining
          clock := s.clock.noteRead chunk now },
        out.putSlice chunk (take_le_room _ _))
    else (.ready, s, out)
  else
    match a with
    | .pending => (.pending, s, out)
    | .err => (.err, s, out)
    | .ok b =>
      let got := b.take out.remaining
      (.ready,
        { s with
          io := { s.io with received := s.io.received ++ got }
          clock := if got.length > 0 then s.clock.noteRead got now else s.clock },
        out.putSlice got (take_le_room _ _))

/-- `Vec::resize` to a longer length. -/
def resize (scratch : Bytes) (want : Nat) : Bytes :=
  if scratch.length < want then scratch ++ List.replicate (want - scratch.length) 0 else scratch

/-- `poll_read_cursor`, with `room` left in hyper's cursor. -/
def pollReadCursor (now room : Nat) (a : ReadAnswer) (s : IoShared) : CursorPoll × IoShared :=
  let want := min room maxScratch
  if want = 0 then (.woken, s)
  else
    let scratch := resize s.scratch want
    let (r, s, out) := pollReadInto now a { s with scratch := [] } (.new (scratch.take want))
    let s := { s with scratch := out.memory ++ scratch.drop want }
    match r with
    | .pending => (.pending, s)
    | .err => (.err, s)
    | .ready => (.read out.data, s)

/-- `poll_write_from`: what of `buf` the transport accepted. -/
def pollWriteFrom (now : Nat) (a : WriteAnswer) (buf : Bytes) (s : IoShared) :
    PollIo × Bytes × IoShared :=
  match a with
  | .pending => (.pending, [], s)
  | .err => (.err, [], s)
  | .ok n =>
    let accepted := buf.take n
    (.ready, accepted,
      { s with
        io := { s.io with sent := s.io.sent ++ accepted }
        clock := s.clock.noteWritten accepted.length now })

/-- `poll_flush_from`. -/
def pollFlushFrom (now : Nat) (a : FlushAnswer) (s : IoShared) : PollIo × IoShared :=
  match a with
  | .ok => (.ready, { s with clock := s.clock.noteFlush now })
  | a => (a.poll, s)

end IoShared

/-! ## 3. One read -/

/-- A read of nothing does not move the clock. -/
theorem PhaseClock.noteRead_nil (c : PhaseClock) (now : Nat) : c.noteRead [] now = c := by
  simp [PhaseClock.noteRead, beginsRequest]

namespace IoShared

/-- From `s` to `s'` a reader got `b`, and the transport delivered as much as
that took: what was read before goes first, and nothing is lost or doubled. -/
def Conserves (s s' : IoShared) (b : Bytes) : Prop :=
  ∃ got, s'.io.received = s.io.received ++ got ∧ s.buffered ++ got = b ++ s'.buffered

theorem Conserves.refl (s : IoShared) : Conserves s s [] :=
  ⟨[], (List.append_nil _).symm, List.append_nil _⟩

theorem Conserves.trans {s s' s'' : IoShared} {b b' : Bytes} (h : Conserves s s' b)
    (h' : Conserves s' s'' b') : Conserves s s'' (b ++ b') := by
  obtain ⟨got, hreceived, hstream⟩ := h
  obtain ⟨got', hreceived', hstream'⟩ := h'
  refine ⟨got ++ got', ?_, ?_⟩
  · rw [hreceived', hreceived, List.append_assoc]
  · rw [← List.append_assoc, hstream, List.append_assoc, hstream', List.append_assoc]

/-- A reader was served `b`, with room for `room` bytes. -/
structure Serves (now room : Nat) (a : ReadAnswer) (s s' : IoShared) (b : Bytes) : Prop where
  conserves : Conserves s s' b
  clock : s'.clock = s.clock.noteRead b now
  sent : s'.io.sent = s.io.sent
  fits : b.length ≤ room
  empty : b = [] → room = 0 ∨ a = .ok []

/-- How `poll_read_into` ends. -/
inductive ReadInto (now : Nat) (a : ReadAnswer) (s : IoShared) (out : ReadBuf) :
    PollIo × IoShared × ReadBuf → Prop
  | ready {b : Bytes} {s' : IoShared} {out' : ReadBuf} : Serves now out.remaining a s s' b →
      s'.scratch = s.scratch → out'.data = out.data ++ b →
      out'.memory.length = out.memory.length → ReadInto now a s out (.ready, s', out')
  | pending : a = .pending → ReadInto now a s out (.pending, s, out)
  | err : a = .err → ReadInto now a s out (.err, s, out)

theorem pollReadInto_spec (now : Nat) (a : ReadAnswer) (s : IoShared) (out : ReadBuf) :
    ReadInto now a s out (pollReadInto now a s out) := by
  unfold pollReadInto
  by_cases hbuffered : s.buffered = []
  · rw [if_neg (fun h => h hbuffered)]
    cases a with
    | pending => exact .pending rfl
    | err => exact .err rfl
    | ok b =>
        have hclock : (if (b.take out.remaining).length > 0 then
            s.clock.noteRead (b.take out.remaining) now else s.clock)
              = s.clock.noteRead (b.take out.remaining) now := by
          split
          · rfl
          · rename_i hnone
            rw [List.eq_nil_of_length_eq_zero (Nat.eq_zero_of_not_pos hnone),
              PhaseClock.noteRead_nil]
        refine .ready (b := b.take out.remaining) ⟨⟨_, rfl, ?_⟩, hclock, rfl,
          take_le_room _ _, ?_⟩ rfl
          (out.putSlice_data _ _) (out.putSlice_length _ _)
        · rw [hbuffered, List.nil_append, List.append_nil]
        · intro hempty
          rcases List.take_eq_nil_iff.mp hempty with h | h
          · exact Or.inl h
          · exact Or.inr (by rw [h])
  · rw [if_pos hbuffered]
    simp only
    split
    · refine .ready (b := s.buffered.take out.remaining)
        ⟨⟨[], (List.append_nil _).symm, ?_⟩, rfl, rfl, take_le_room _ _, ?_⟩ rfl
        (out.putSlice_data _ _) (out.putSlice_length _ _)
      · rw [List.append_nil, List.take_append_drop]
      · intro hempty
        exact Or.inl ((List.take_eq_nil_iff.mp hempty).resolve_right hbuffered)
    · rename_i hnone
      refine .ready (b := []) ⟨Conserves.refl s, (PhaseClock.noteRead_nil _ _).symm, rfl,
        Nat.zero_le _, fun _ => Or.inl ?_⟩ rfl (List.append_nil _).symm rfl
      have hnil := List.eq_nil_of_length_eq_zero (Nat.eq_zero_of_not_pos hnone)
      exact (List.take_eq_nil_iff.mp hnil).resolve_right hbuffered

theorem resize_length (scratch : Bytes) (want : Nat) :
    (resize scratch want).length = max scratch.length want := by
  unfold resize
  split
  · rw [List.length_append, List.length_replicate]
    omega
  · omega

/-- How `poll_read_cursor` ends: hyper is served, or nothing has moved but the
scratch buffer, which only grows. -/
inductive CursorRead (now room : Nat) (a : ReadAnswer) (s : IoShared) : CursorPoll × IoShared → Prop
  | woken : room = 0 → CursorRead now room a s (.woken, s)
  | pending {scratch : Bytes} : a = .pending →
      scratch.length = max s.scratch.length (min room maxScratch) →
      CursorRead now room a s (.pending, { s with scratch := scratch })
  | err {scratch : Bytes} : a = .err →
      scratch.length = max s.scratch.length (min room maxScratch) →
      CursorRead now room a s (.err, { s with scratch := scratch })
  | read {b : Bytes} {s' : IoShared} : Serves now (min room maxScratch) a s s' b → 0 < room →
      s'.scratch.length = max s.scratch.length (min room maxScratch) →
      CursorRead now room a s (.read b, s')

theorem pollReadCursor_spec (now room : Nat) (a : ReadAnswer) (s : IoShared) :
    CursorRead now room a s (pollReadCursor now room a s) := by
  unfold pollReadCursor
  simp only
  by_cases hwant : min room maxScratch = 0
  · rw [if_pos hwant]
    refine .woken ?_
    have hmax : 0 < maxScratch := by decide
    omega
  · rw [if_neg hwant]
    have hlen := resize_length s.scratch (min room maxScratch)
    have htake : ((resize s.scratch (min room maxScratch)).take (min room maxScratch)).length
        = min room maxScratch := by
      rw [List.length_take, hlen]
      omega
    have hkept : ∀ memory : Bytes, memory.length = min room maxScratch →
        (memory ++ (resize s.scratch (min room maxScratch)).drop (min room maxScratch)).length
          = max s.scratch.length (min room maxScratch) := by
      intro memory hmemory
      rw [List.length_append, List.length_drop, hmemory, hlen]
      omega
    have hinto := pollReadInto_spec now a { s with scratch := [] }
      (.new ((resize s.scratch (min room maxScratch)).take (min room maxScratch)))
    generalize pollReadInto now a { s with scratch := [] }
      (.new ((resize s.scratch (min room maxScratch)).take (min room maxScratch))) = out at hinto
    cases hinto with
    | @ready b s' out' hserves hscratch hdata hmemory =>
        simp only
        rw [ReadBuf.new_data, List.nil_append] at hdata
        rw [ReadBuf.new_remaining, htake] at hserves
        rw [hdata]
        obtain ⟨hconserves, hclock, hsent, hfits, hempty⟩ := hserves
        exact .read ⟨hconserves, hclock, hsent, hfits, hempty⟩ (by omega)
          (hkept out'.memory (hmemory.trans htake))
    | pending ha => exact .pending ha (hkept _ htake)
    | err ha => exact .err ha (hkept _ htake)

/-! ## 4. Any sequence of calls -/

/-- A call from hyper, or from a holder of `SharedIo`, with the transport's
answer. -/
inductive IoCall where
  /-- `hyper::rt::Read::poll_read`, with `room` left in the cursor. -/
  | cursor (room : Nat) (a : ReadAnswer)
  /-- `SharedIo::poll_read`. -/
  | into (out : ReadBuf) (a : ReadAnswer)
  | write (buf : Bytes) (a : WriteAnswer)
  | flush (a : FlushAnswer)

/-- What the caller gets. -/
inductive IoResult where
  | pending
  | woken
  | err
  | read (b : Bytes)
  | wrote (b : Bytes)
  | flushed

def IoResult.ofCursor : CursorPoll → IoResult
  | .pending => .pending
  | .woken => .woken
  | .err => .err
  | .read b => .read b

def IoResult.ofPoll (done : IoResult) : PollIo → IoResult
  | .pending => .pending
  | .err => .err
  | .ready => done

def step (now : Nat) (s : IoShared) : IoCall → IoResult × IoShared
  | .cursor room a =>
    let (r, s) := s.pollReadCursor now room a
    (.ofCursor r, s)
  | .into out a =>
    let (r, s, out') := s.pollReadInto now a out
    (.ofPoll (.read (out'.data.drop out.data.length)) r, s)
  | .write buf a =>
    let (r, accepted, s) := s.pollWriteFrom now a buf
    (.ofPoll (.wrote accepted) r, s)
  | .flush a =>
    let (r, s) := s.pollFlushFrom now a
    (.ofPoll .flushed r, s)

def run : List (Nat × IoCall) → IoShared → List IoResult × IoShared
  | [], s => ([], s)
  | (now, call) :: rest, s =>
    let (r, s) := s.step now call
    let (results, s) := run rest s
    (r :: results, s)

namespace IoResult

def readBytes : IoResult → Bytes
  | .read b => b
  | _ => []

def wroteBytes : IoResult → Bytes
  | .wrote b => b
  | _ => []

/-- What the clock is told of a transfer. -/
def event : IoResult → Option ClockEvent
  | .read b => some (.read b)
  | .wrote b => some (.write b.length)
  | .flushed => some .flush
  | _ => none

end IoResult

/-- The clock behind one result. -/
def tell (instantMax : Nat) (limits : Timeouts) (c : PhaseClock) (at_ : Nat × IoResult) :
    PhaseClock :=
  (at_.2.event.map (ClockEvent.apply instantMax limits at_.1 c)).getD c

/-- What a caller may take a result for. Hyper in particular: no bytes are an
end of file, a call without room is repeated at once, and every other `Pending`
is the transport's. -/
def Answers : IoCall → IoResult → Prop
  | .cursor room a, .read b => 0 < room ∧ b.length ≤ min room maxScratch ∧ (b = [] → a = .ok [])
  | .cursor room _, .woken => room = 0
  | .cursor _ a, .pending => a = .pending
  | .cursor _ a, .err => a = .err
  | .into out a, .read b => b.length ≤ out.remaining ∧ (b = [] → out.remaining = 0 ∨ a = .ok [])
  | .into _ a, .pending => a = .pending
  | .into _ a, .err => a = .err
  | .write buf a, .wrote b => ∃ n, a = .ok n ∧ b = buf.take n
  | .write _ a, .pending => a = .pending
  | .write _ a, .err => a = .err
  | .flush a, .flushed => a = .ok
  | .flush a, .pending => a = .pending
  | .flush a, .err => a = .err
  | _, _ => False

/-- What one call does. -/
structure Stepped (now : Nat) (call : IoCall) (s : IoShared) (r : IoResult) (s' : IoShared) :
    Prop where
  answers : Answers call r
  conserves : Conserves s s' r.readBytes
  sent : s'.io.sent = s.io.sent ++ r.wroteBytes
  clock : ∀ instantMax limits, s'.clock = tell instantMax limits s.clock (now, r)
  scratch : s.scratch.length ≤ maxScratch → s'.scratch.length ≤ maxScratch

theorem step_spec (now : Nat) (s : IoShared) (call : IoCall) :
    Stepped now call s (s.step now call).1 (s.step now call).2 := by
  cases call with
  | cursor room a =>
      have hroom : min room maxScratch ≤ maxScratch := Nat.min_le_right _ _
      have hgrow : ∀ s' : IoShared,
          s'.scratch.length = max s.scratch.length (min room maxScratch) →
          s.scratch.length ≤ maxScratch → s'.scratch.length ≤ maxScratch := by
        intro s' hlen hle
        omega
      have h := pollReadCursor_spec now room a s
      simp only [step]
      generalize pollReadCursor now room a s = out at h
      cases h with
      | woken hzero =>
          exact ⟨hzero, Conserves.refl s, (List.append_nil _).symm, fun _ _ => rfl, id⟩
      | @pending scratch ha hlen =>
          exact ⟨ha, Conserves.refl s, (List.append_nil _).symm, fun _ _ => rfl,
            hgrow { s with scratch := scratch } hlen⟩
      | @err scratch ha hlen =>
          exact ⟨ha, Conserves.refl s, (List.append_nil _).symm, fun _ _ => rfl,
            hgrow { s with scratch := scratch } hlen⟩
      | @read b s' hserves hpos hlen =>
          refine ⟨⟨hpos, hserves.fits, fun hempty => ?_⟩, hserves.conserves, ?_,
            fun _ _ => hserves.clock, hgrow s' hlen⟩
          · have hmax : 0 < maxScratch := by decide
            rcases hserves.empty hempty with hzero | ha
            · omega
            · exact ha
          · rw [hserves.sent]
            exact (List.append_nil _).symm
  | into out a =>
      have h := pollReadInto_spec now a s out
      simp only [step]
      generalize pollReadInto now a s out = done at h
      cases h with
      | pending ha =>
          exact ⟨ha, Conserves.refl s, (List.append_nil _).symm, fun _ _ => rfl, id⟩
      | err ha =>
          exact ⟨ha, Conserves.refl s, (List.append_nil _).symm, fun _ _ => rfl, id⟩
      | @ready b s' out' hserves hscratch hdata _ =>
          have hb : out'.data.drop out.data.length = b := by rw [hdata, List.drop_left' rfl]
          simp only [IoResult.ofPoll, hb]
          refine ⟨⟨hserves.fits, hserves.empty⟩, hserves.conserves, ?_,
            fun _ _ => hserves.clock, ?_⟩
          · rw [hserves.sent]
            exact (List.append_nil _).symm
          · rw [hscratch]
            exact id
  | write buf a =>
      cases a with
      | pending => exact ⟨rfl, Conserves.refl s, (List.append_nil _).symm, fun _ _ => rfl, id⟩
      | err => exact ⟨rfl, Conserves.refl s, (List.append_nil _).symm, fun _ _ => rfl, id⟩
      | ok n =>
          exact ⟨⟨n, rfl, rfl⟩, ⟨[], (List.append_nil _).symm, List.append_nil _⟩, rfl,
            fun _ _ => rfl, id⟩
  | flush a =>
      cases a with
      | pending => exact ⟨rfl, Conserves.refl s, (List.append_nil _).symm, fun _ _ => rfl, id⟩
      | err => exact ⟨rfl, Conserves.refl s, (List.append_nil _).symm, fun _ _ => rfl, id⟩
      | ok =>
          exact ⟨rfl, ⟨[], (List.append_nil _).symm, List.append_nil _⟩,
            (List.append_nil _).symm, fun _ _ => rfl, id⟩

/-- A clock that is detached stays as it is. -/
theorem tell_detached {c : PhaseClock} (h : c.detached = true) (instantMax : Nat)
    (limits : Timeouts) (now : Nat) (r : IoResult) : tell instantMax limits c (now, r) = c := by
  have hset : ∀ p, c.set p now = c := fun p => by simp [PhaseClock.set, h]
  cases r with
  | read b => simp [tell, IoResult.event, ClockEvent.apply, PhaseClock.noteRead, hset]
  | wrote b =>
      simp [tell, IoResult.event, ClockEvent.apply, PhaseClock.noteWritten, PhaseClock.noteWrite, h]
  | flushed => simp [tell, IoResult.event, ClockEvent.apply, PhaseClock.noteFlush, h]
  | pending => rfl
  | woken => rfl
  | err => rfl

/-- What a sequence of calls comes to. -/
structure Relayed (calls : List (Nat × IoCall)) (s : IoShared) (results : List IoResult)
    (s' : IoShared) : Prop where
  answers : List.Forall₂ (fun call r => Answers call.2 r) calls results
  conserves : Conserves s s' (results.flatMap IoResult.readBytes)
  sent : s'.io.sent = s.io.sent ++ results.flatMap IoResult.wroteBytes
  clock : ∀ instantMax limits, s'.clock =
    ((calls.map Prod.fst).zip results).foldl (tell instantMax limits) s.clock
  scratch : s.scratch.length ≤ maxScratch → s'.scratch.length ≤ maxScratch
  detached : s.clock.detached = true → s'.clock = s.clock

/-- **The adapter relays.** Over any calls from hyper and from the holders of
`SharedIo`, in any order, and whatever the transport answers: the bytes that the
readers got, in the order they got them, and the front that is still held are
what had been read before hyper took over and then what the transport
delivered; what was written is what the transport accepted, in order; a result
says what the transport said, no bytes for hyper only where that was the end of
the stream; the scratch buffer stays within its bound; and the clock has moved
by exactly one event for each transfer, or, once it is detached, not at all. -/
theorem io_relays (calls : List (Nat × IoCall)) (s : IoShared) :
    Relayed calls s (run calls s).1 (run calls s).2 := by
  induction calls generalizing s with
  | nil =>
      exact ⟨.nil, Conserves.refl s, (List.append_nil _).symm, fun _ _ => rfl, id, fun _ => rfl⟩
  | cons timed rest ih =>
      obtain ⟨now, call⟩ := timed
      have hstep := step_spec now s call
      have hrest := ih (s.step now call).2
      simp only [run]
      generalize s.step now call = out at hstep hrest
      obtain ⟨r, s₁⟩ := out
      simp only at hstep hrest ⊢
      generalize run rest s₁ = later at hrest
      obtain ⟨results, s₂⟩ := later
      simp only at hrest ⊢
      refine ⟨.cons hstep.answers hrest.answers, ?_, ?_, fun instantMax limits => ?_,
        fun h => hrest.scratch (hstep.scratch h), fun h => ?_⟩
      · rw [List.flatMap_cons]
        exact hstep.conserves.trans hrest.conserves
      · rw [hrest.sent, hstep.sent, List.flatMap_cons, List.append_assoc]
      · rw [hrest.clock instantMax limits, hstep.clock instantMax limits]
        rfl
      · have hsame : s₁.clock = s.clock := by
          rw [hstep.clock 0 Timeouts.default, tell_detached h]
        rw [hrest.detached (by rw [hsame]; exact h), hsame]

end IoShared

end ArmatureH1

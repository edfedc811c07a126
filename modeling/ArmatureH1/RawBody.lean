/-
ArmatureH1.RawBody — a request body under the hyper backend.

hyper takes the framing off, so `Body::from_backend` makes a body that only
relays what arrives: `poll_raw` hands on one data frame after another, with a
cap of its own, and `HyperBodyIo` (`backend/hyper/body.rs`) is what it reads
from. What hyper hands over is the parameter here: a list of frames, behind
which the body ends or breaks off; how many of them are ready at a poll is the
environment's answer to it.

The run of polls is shown to relay a beginning of the data, to tell the clock
exactly once that the body is finished, and to count the body as read only if
it was (`raw_polls`). With that, `collect` is held against the native backend:
over the same body the two leave a handler the same answer
(`backends_collect_alike`).

`take_buffered` and `push_back` share the stash, which the raw body never fills;
it is modelled because `poll_raw` asks for it. The source counts the bytes of a
body in a `u64`, with a plain `+=`; here they are a `Nat`, which comes to
something else only for a body of `2^64` bytes and more.
-/
import ArmatureH1.Bridge
import ArmatureH1.Collect

namespace ArmatureH1

open ByteString

/-! ## 1. `HyperBodyIo` -/

/-- A frame of a hyper body. -/
inductive HyperFrame where
  | data (b : Bytes)
  | trailers (map : List (ByteStr × Bytes))
  | other

/-- What is left of the body that hyper hands over: its frames, and whether it
breaks off behind them. -/
structure HyperBody where
  frames : List HyperFrame
  broken : Bool

/-- The data a frame carries. -/
def HyperFrame.bytes : HyperFrame → Bytes
  | .data b => b
  | _ => []

/-- The data of a list of frames. -/
def dataOf (frames : List HyperFrame) : Bytes := frames.flatMap HyperFrame.bytes

/-- `HyperBodyIo`. `finishes` counts the calls of `body_finished`, each of which
reports to the clock. -/
structure HyperBodyIo where
  body : HyperBody
  stash : Bytes
  slot : Option HeaderVec
  finishes : Nat

/-- What `poll_fill` returns; no bytes mean EOF. -/
inductive Filled where
  | pending
  | err
  | bytes (b : Bytes)

namespace HyperBodyIo

/-- A trailer map, field by field: one field that may not be a trailer refuses
the whole section. -/
def readTrailers : List (ByteStr × Bytes) → Option HeaderVec
  | [] => some []
  | (name, value) :: rest =>
    let id := bridgeId name
    if id.forbiddenInTrailers then none
    else (readTrailers rest).map fun fields => (id, value) :: fields

/-- `poll_fill`, with `ready` frames (or ends) at hand. An empty data frame is
not EOF; a frame of an unknown kind is skipped. -/
def pollFill : Nat → HyperBodyIo → Filled × HyperBodyIo
  | 0, io => (.pending, io)
  | ready + 1, io =>
    match io.body.frames with
    | [] => (if io.body.broken then .err else .bytes [], io)
    | frame :: rest =>
      let io := { io with body := { io.body with frames := rest } }
      match frame with
      | .data b => if b = [] then pollFill ready io else (.bytes b, io)
      | .trailers map =>
        match readTrailers map with
        | none => (.err, io)
        | some fields => pollFill ready { io with slot := some fields }
      | .other => pollFill ready io

/-- `take_buffered`. -/
def takeBuffered (max : Nat) (io : HyperBodyIo) : Bytes × HyperBodyIo :=
  (io.stash.take max, { io with stash := io.stash.drop max })

/-- `push_back`. -/
def pushBack (bytes : Bytes) (io : HyperBodyIo) : HyperBodyIo :=
  if bytes = [] then io
  else if io.stash = [] then { io with stash := bytes }
  else { io with stash := bytes ++ io.stash }

/-- `body_finished`. -/
def bodyFinished (io : HyperBodyIo) : HyperBodyIo := { io with finishes := io.finishes + 1 }

end HyperBodyIo

/-! ## 2. The body -/

/-- `BodyState` in raw mode, with the transport it reads from. -/
structure RawState where
  kind : BodyKind
  buffered : Bytes
  trailers : Option HeaderVec
  trailersReady : Bool
  notified : Bool
  continueSent : Bool
  needsContinue : Bool
  done : Bool
  fullyRead : Bool
  consumed : Nat
  cap : Nat
  io : HyperBodyIo

namespace RawState

/-- `Body::from_backend`. -/
def fromBackend (kind : BodyKind) (needsContinue : Bool) (maxBodyBytes : Nat) (body : HyperBody) :
    RawState :=
  let done := kind == .none || kind == .length 0
  let io : HyperBodyIo := ⟨body, [], none, 0⟩
  { kind := kind
    buffered := []
    trailers := none
    trailersReady := done
    notified := done
    continueSent := !needsContinue
    needsContinue := needsContinue
    done := done
    fullyRead := done
    consumed := 0
    cap := maxBodyBytes
    io := if done then io.bodyFinished else io }

/-- `notify_finished`. -/
def notifyFinished (s : RawState) : RawState :=
  if s.notified then s else { s with io := s.io.bodyFinished, notified := true }

/-- `finish`. -/
def finish (s : RawState) : RawState := notifyFinished { s with done := true, fullyRead := true }

/-- `fail`. -/
def fail (s : RawState) : RawState := notifyFinished { s with done := true, fullyRead := false }

/-- Hand on what is buffered. A body of a declared length is complete with its
last byte. -/
def deliver (s : RawState) : PollChunk × RawState :=
  let chunk := s.buffered
  let s := { s with buffered := [], consumed := s.consumed + chunk.length }
  if s.consumed > s.cap then (.error .tooLarge, s.fail)
  else if s.kind = .length s.consumed then (.chunk chunk, { s.finish with trailersReady := true })
  else (.chunk chunk, s)

/-- The clean end: the trailers are what the transport left in the slot. -/
def atEof (s : RawState) : RawState :=
  let s := s.finish
  { s with
    io := { s.io with slot := none }
    trailers := s.io.slot.filter (· ≠ [])
    trailersReady := true }

/-- What `poll_raw` makes of a read. The loop goes round once more only with
something buffered. -/
def onFilled (s : RawState) : Filled → PollChunk × RawState
  | .pending => (.pending, s)
  | .err => (.error .io, s.fail)
  | .bytes b => if b = [] then (.ended, s.atEof) else deliver { s with buffered := b }

/-- `poll_raw`. -/
def pollRaw (ready : Nat) (s : RawState) : PollChunk × RawState :=
  let s :=
    if s.buffered = [] then
      let (got, io) := s.io.takeBuffered s.io.stash.length
      { s with buffered := got, io := io }
    else s
  if s.buffered ≠ [] then s.deliver
  else
    let (r, io) := s.io.pollFill ready
    onFilled { s with io := io } r

/-- `poll_chunk`: hyper sends the interim response itself, so there is none to
wait for. -/
def pollChunk (ready : Nat) (s : RawState) : PollChunk × RawState :=
  if s.done then (.ended, s) else pollRaw ready { s with continueSent := true }

/-- `Drop for BodyState`. -/
def drop (s : RawState) : HyperBodyIo := s.notifyFinished.io

/-- `Body::trailers`. -/
def trailerSection (s : RawState) : Option HeaderVec :=
  if s.trailersReady then some (s.trailers.getD []) else none

end RawState

/-- The body under the hyper backend. -/
def rawBody : BodyMachine Nat RawState where
  poll := RawState.pollChunk
  done := RawState.done
  fail := RawState.fail

/-! ## 3. What a read takes -/

/-- What frames leave in the slot, unless one of them is refused. -/
def slotAfter (slot : Option HeaderVec) : List HyperFrame → Option (Option HeaderVec)
  | [] => some slot
  | .trailers map :: rest =>
    match HyperBodyIo.readTrailers map with
    | none => none
    | some fields => slotAfter (some fields) rest
  | _ :: rest => slotAfter slot rest

theorem slotAfter_append (slot : Option HeaderVec) (front back : List HyperFrame) :
    slotAfter slot (front ++ back)
      = (slotAfter slot front).bind fun slot => slotAfter slot back := by
  induction front generalizing slot with
  | nil => rfl
  | cons frame rest ih =>
      cases frame with
      | data b => exact ih slot
      | other => exact ih slot
      | trailers map =>
          simp only [List.cons_append, slotAfter]
          cases HyperBodyIo.readTrailers map with
          | none => rfl
          | some fields => exact ih (some fields)

theorem dataOf_append (front back : List HyperFrame) :
    dataOf (front ++ back) = dataOf front ++ dataOf back := List.flatMap_append

/-- A section is accepted exactly when each of its fields may be a trailer. -/
theorem HyperBodyIo.readTrailers_eq (map : List (ByteStr × Bytes)) :
    readTrailers map =
      if map.all (fun f => !(bridgeId f.1).forbiddenInTrailers) then
        some (map.map fun f => (bridgeId f.1, f.2))
      else none := by
  induction map with
  | nil => rfl
  | cons f rest ih =>
      obtain ⟨name, value⟩ := f
      cases hforb : (bridgeId name).forbiddenInTrailers with
      | true => simp [readTrailers, hforb]
      | false =>
          simp only [readTrailers, hforb, ih, List.all_cons, Bool.not_false, Bool.true_and,
            Bool.false_eq_true, ↓reduceIte]
          split <;> simp

namespace HyperBodyIo

/-- `io'` is `io` with the frames `gone` taken off the front. -/
structure Took (io io' : HyperBodyIo) (gone : List HyperFrame) : Prop where
  frames : io.body.frames = gone ++ io'.body.frames
  broken : io'.body.broken = io.body.broken
  stash : io'.stash = io.stash
  finishes : io'.finishes = io.finishes

/-- What a read that took `gone` returns. -/
def Fills (io io' : HyperBodyIo) (gone : List HyperFrame) : Filled → Prop
  | .pending => dataOf gone = [] ∧ slotAfter io.slot gone = some io'.slot
  | .err => dataOf gone = [] ∧
      (slotAfter io.slot gone = none ∨ io'.body.frames = [] ∧ io.body.broken = true)
  | .bytes b => dataOf gone = b ∧ slotAfter io.slot gone = some io'.slot ∧
      (b = [] → io'.body.frames = [] ∧ io.body.broken = false)

theorem pollFill_spec (ready : Nat) (io : HyperBodyIo) :
    ∃ gone, Took io (pollFill ready io).2 gone ∧
      Fills io (pollFill ready io).2 gone (pollFill ready io).1 := by
  induction ready generalizing io with
  | zero => exact ⟨[], ⟨rfl, rfl, rfl, rfl⟩, rfl, rfl⟩
  | succ ready ih =>
      -- one frame more in front of what the rest of the loop takes
      have hskip : ∀ (frame : HyperFrame) (rest : List HyperFrame) (slot : Option HeaderVec),
          io.body.frames = frame :: rest → frame.bytes = [] →
          (∀ back, slotAfter io.slot (frame :: back) = slotAfter slot back) →
          pollFill (ready + 1) io
            = pollFill ready { io with body := { io.body with frames := rest }, slot := slot } →
          ∃ gone, Took io (pollFill (ready + 1) io).2 gone ∧
            Fills io (pollFill (ready + 1) io).2 gone (pollFill (ready + 1) io).1 := by
        intro frame rest slot hframes hbytes hslot heq
        obtain ⟨gone, htook, hfills⟩ :=
          ih { io with body := { io.body with frames := rest }, slot := slot }
        have hdata : dataOf (frame :: gone) = dataOf gone := by
          simp only [dataOf, List.flatMap_cons, hbytes, List.nil_append]
        rw [heq]
        refine ⟨frame :: gone, ⟨?_, htook.broken, htook.stash, htook.finishes⟩, ?_⟩
        · rw [hframes, List.cons_append]
          exact congrArg (frame :: ·) htook.frames
        · generalize
            pollFill ready { io with body := { io.body with frames := rest }, slot := slot }
            = filled at hfills
          obtain ⟨r, io'⟩ := filled
          cases r with
          | pending => exact ⟨hdata.trans hfills.1, (hslot gone).trans hfills.2⟩
          | err => exact ⟨hdata.trans hfills.1, hfills.2.imp_left (hslot gone).trans⟩
          | bytes b => exact ⟨hdata.trans hfills.1, (hslot gone).trans hfills.2.1, hfills.2.2⟩
      cases hframes : io.body.frames with
      | nil =>
          simp only [pollFill, hframes]
          refine ⟨[], ⟨rfl, rfl, rfl, rfl⟩, ?_⟩
          cases hbroken : io.body.broken with
          | true => exact ⟨rfl, Or.inr ⟨hframes, hbroken⟩⟩
          | false => exact ⟨rfl, rfl, fun _ => ⟨hframes, hbroken⟩⟩
      | cons frame rest =>
          cases frame with
          | data b =>
              by_cases hb : b = []
              · refine hskip _ rest io.slot hframes hb (fun _ => rfl) ?_
                simp only [pollFill, hframes, hb, ↓reduceIte]
              · simp only [pollFill, hframes, hb, ↓reduceIte]
                refine ⟨[.data b], ⟨hframes, rfl, rfl, rfl⟩, ?_, rfl, fun h => absurd h hb⟩
                simp [dataOf, HyperFrame.bytes]
          | other =>
              refine hskip _ rest io.slot hframes rfl (fun _ => rfl) ?_
              simp only [pollFill, hframes]
          | trailers map =>
              cases hread : readTrailers map with
              | none =>
                  simp only [pollFill, hframes, hread]
                  refine ⟨[.trailers map], ⟨hframes, rfl, rfl, rfl⟩, rfl, Or.inl ?_⟩
                  simp only [slotAfter, hread]
              | some fields =>
                  refine hskip _ rest (some fields) hframes rfl (fun back => ?_) ?_
                  · simp only [slotAfter, hread]
                  · simp only [pollFill, hframes, hread]

end HyperBodyIo

/-! ## 4. A poll -/

/-- A body that has taken `gone` off the frames `hb` and holds nothing back. -/
structure Relays (hb : HyperBody) (kind : BodyKind) (cap : Nat) (gone : List HyperFrame)
    (s : RawState) : Prop where
  sameKind : s.kind = kind
  sameCap : s.cap = cap
  buffered : s.buffered = []
  stash : s.io.stash = []
  frames : hb.frames = gone ++ s.io.body.frames
  broken : s.io.body.broken = hb.broken

/-- A raw body that is being read and has delivered `x`. -/
structure RawOpen (hb : HyperBody) (kind : BodyKind) (cap : Nat) (x : Bytes)
    (gone : List HyperFrame) (s : RawState) : Prop extends Relays hb kind cap gone s where
  notDone : s.done = false
  notRead : s.fullyRead = false
  untold : s.notified = false ∧ s.io.finishes = 0
  notReady : s.trailersReady = false ∧ s.trailers = none
  slot : slotAfter none gone = some s.io.slot
  data : dataOf gone = x
  consumed : s.consumed = x.length
  bound : x.length ≤ cap
  carries : kind ≠ .none
  more : kind ≠ .length x.length

/-- The clean end of the frames: what is left is nothing, and the trailers are
those of the last section. -/
def AtEof (hb : HyperBody) (gone : List HyperFrame) (s : RawState) : Prop :=
  s.io.body.frames = [] ∧ hb.broken = false ∧
    ∃ slot, slotAfter none gone = some slot ∧ s.trailers = slot.filter (· ≠ [])

/-- A raw body that was read: to the end of the frames, or to its length. -/
structure RawRead (hb : HyperBody) (kind : BodyKind) (cap : Nat) (x : Bytes)
    (gone : List HyperFrame) (s : RawState) : Prop extends Relays hb kind cap gone s where
  done : s.done = true
  read : s.fullyRead = true
  told : s.notified = true ∧ s.io.finishes = 1
  ready : s.trailersReady = true
  data : dataOf gone = x
  bound : x.length ≤ cap
  why : s.trailers = none ∧ (kind = .none ∧ x = [] ∨ kind = .length x.length) ∨ AtEof hb gone s

/-- A raw body that failed, having delivered `x`. -/
structure RawFailed (hb : HyperBody) (kind : BodyKind) (cap : Nat) (x : Bytes)
    (gone : List HyperFrame) (s : RawState) : Prop extends Relays hb kind cap gone s where
  done : s.done = true
  notRead : s.fullyRead = false
  told : s.notified = true ∧ s.io.finishes = 1
  notReady : s.trailersReady = false
  data : x <+: dataOf gone
  bound : x.length ≤ cap

/-- Where a poll of an open raw body that had delivered `x` leads. -/
inductive RawPolled (hb : HyperBody) (kind : BodyKind) (cap : Nat) (x : Bytes) :
    PollChunk → RawState → Prop
  | pending {gone : List HyperFrame} {s : RawState} : RawOpen hb kind cap x gone s →
      RawPolled hb kind cap x .pending s
  | chunk {gone : List HyperFrame} {y : Bytes} {s : RawState} : y ≠ [] →
      RawOpen hb kind cap (x ++ y) gone s → RawPolled hb kind cap x (.chunk y) s
  | last {gone : List HyperFrame} {y : Bytes} {s : RawState} : y ≠ [] →
      RawRead hb kind cap (x ++ y) gone s → RawPolled hb kind cap x (.chunk y) s
  | ended {gone : List HyperFrame} {s : RawState} : RawRead hb kind cap x gone s →
      AtEof hb gone s → RawPolled hb kind cap x .ended s
  | tooLarge {gone : List HyperFrame} {s : RawState} : RawFailed hb kind cap x gone s →
      cap < (dataOf gone).length → RawPolled hb kind cap x (.error .tooLarge) s
  | error {gone : List HyperFrame} {s : RawState} : RawFailed hb kind cap x gone s →
      hb.broken = true ∧ s.io.body.frames = [] ∨ slotAfter none gone = none →
      RawPolled hb kind cap x (.error .io) s

namespace RawState

/-- With nothing stashed, `poll_raw` starts with a read. -/
theorem pollRaw_eq {s : RawState} (hbuffered : s.buffered = []) (hstash : s.io.stash = [])
    (ready : Nat) :
    s.pollRaw ready
      = onFilled { s with io := (s.io.pollFill ready).2 } (s.io.pollFill ready).1 := by
  have hio : s.io.takeBuffered s.io.stash.length = ([], s.io) := by
    obtain ⟨_, _, _, _, _, _, _, _, _, _, _, io⟩ := s
    obtain ⟨body, stash, slot, finishes⟩ := io
    simp only at hstash
    subst hstash
    rfl
  obtain ⟨_, buffered, _, _, _, _, _, _, _, _, _, _⟩ := s
  simp only at hbuffered
  subst hbuffered
  simp only [pollRaw, ↓reduceIte, hio, ne_eq, not_true_eq_false]

theorem pollChunk_of_open {s : RawState} (hdone : s.done = false) (hbuffered : s.buffered = [])
    (hstash : s.io.stash = []) (ready : Nat) : s.pollChunk ready =
      onFilled { s with continueSent := true, io := (s.io.pollFill ready).2 }
        (s.io.pollFill ready).1 := by
  have hpoll : s.pollChunk ready = pollRaw ready { s with continueSent := true } := by
    simp only [pollChunk, hdone, Bool.false_eq_true, ↓reduceIte]
  rw [hpoll]
  exact pollRaw_eq (s := { s with continueSent := true }) hbuffered hstash ready

end RawState

theorem rawFailed_fail {hb : HyperBody} {kind : BodyKind} {cap : Nat} {x : Bytes}
    {gone : List HyperFrame} {s : RawState} (h : Relays hb kind cap gone s)
    (huntold : s.notified = false ∧ s.io.finishes = 0) (hready : s.trailersReady = false)
    (hdata : x <+: dataOf gone) (hbound : x.length ≤ cap) :
    RawFailed hb kind cap x gone s.fail := by
  have hfail : s.fail = { s with
      done := true, fullyRead := false, notified := true, io := s.io.bodyFinished } := by
    simp only [RawState.fail, RawState.notifyFinished, huntold.1, Bool.false_eq_true, ↓reduceIte]
  rw [hfail]
  exact ⟨⟨h.sameKind, h.sameCap, h.buffered, h.stash, h.frames, h.broken⟩, rfl, rfl,
    ⟨rfl, by simp [HyperBodyIo.bodyFinished, huntold.2]⟩, hready, hdata, hbound⟩

theorem finish_eq {s : RawState} (huntold : s.notified = false) :
    s.finish = { s with
      done := true, fullyRead := true, notified := true, io := s.io.bodyFinished } := by
  simp only [RawState.finish, RawState.notifyFinished, huntold, Bool.false_eq_true, ↓reduceIte]

/-- A body that is finished with its last byte. -/
theorem rawRead_finish {hb : HyperBody} {kind : BodyKind} {cap : Nat} {x : Bytes}
    {gone : List HyperFrame} {s : RawState} (h : Relays hb kind cap gone s)
    (huntold : s.notified = false ∧ s.io.finishes = 0) (htrailers : s.trailers = none)
    (hdata : dataOf gone = x) (hbound : x.length ≤ cap) (hlast : kind = .length x.length) :
    RawRead hb kind cap x gone { s.finish with trailersReady := true } := by
  rw [finish_eq huntold.1]
  exact ⟨⟨h.sameKind, h.sameCap, h.buffered, h.stash, h.frames, h.broken⟩, rfl, rfl,
    ⟨rfl, by simp [HyperBodyIo.bodyFinished, huntold.2]⟩, rfl, hdata, hbound,
    Or.inl ⟨htrailers, Or.inr hlast⟩⟩

/-- Handing on what a read brought. `s₁` is the body once it is counted. -/
theorem deliver_spec {hb : HyperBody} {kind : BodyKind} {cap : Nat} {x : Bytes}
    {gone : List HyperFrame} {s s₁ : RawState}
    (hs₁ : s₁ = { s with buffered := [], consumed := s.consumed + s.buffered.length })
    (h : Relays hb kind cap gone s₁) (hnotDone : s₁.done = false) (hnotRead : s₁.fullyRead = false)
    (huntold : s₁.notified = false ∧ s₁.io.finishes = 0)
    (hnotReady : s₁.trailersReady = false ∧ s₁.trailers = none)
    (hslot : slotAfter none gone = some s₁.io.slot) (hdata : dataOf gone = x ++ s.buffered)
    (hconsumed : s₁.consumed = (x ++ s.buffered).length) (hbound : x.length ≤ cap)
    (hcarries : kind ≠ .none) (hne : s.buffered ≠ []) :
    RawPolled hb kind cap x s.deliver.1 s.deliver.2 := by
  have hdeliver : s.deliver =
      if s₁.consumed > s₁.cap then (.error .tooLarge, s₁.fail)
      else if s₁.kind = .length s₁.consumed then
        (.chunk s.buffered, { s₁.finish with trailersReady := true })
      else (.chunk s.buffered, s₁) := by
    rw [hs₁]
    rfl
  rw [hdeliver, h.sameCap, h.sameKind, hconsumed]
  by_cases hover : (x ++ s.buffered).length > cap
  · rw [if_pos hover]
    refine .tooLarge (rawFailed_fail h huntold hnotReady.1 ?_ hbound) ?_
    · rw [hdata]
      exact List.prefix_append x _
    · rw [hdata]
      exact hover
  · have hfits : (x ++ s.buffered).length ≤ cap := Nat.le_of_not_lt hover
    rw [if_neg hover]
    by_cases hlast : kind = .length (x ++ s.buffered).length
    · rw [if_pos hlast]
      exact .last hne (rawRead_finish h huntold hnotReady.2 hdata hfits hlast)
    · rw [if_neg hlast]
      exact .chunk hne ⟨h, hnotDone, hnotRead, huntold, hnotReady, hslot, hdata, hconsumed, hfits,
        hcarries, hlast⟩

/-- **A poll of an open raw body** delivers the next data frame, asks for more,
ends the body or fails. -/
theorem rawOpen_poll {hb : HyperBody} {kind : BodyKind} {cap : Nat} {x : Bytes}
    {gone : List HyperFrame} {s : RawState} (h : RawOpen hb kind cap x gone s) (ready : Nat) :
    RawPolled hb kind cap x (s.pollChunk ready).1 (s.pollChunk ready).2 := by
  obtain ⟨taken, htook, hfills⟩ := HyperBodyIo.pollFill_spec ready s.io
  rw [RawState.pollChunk_of_open h.notDone h.buffered h.stash]
  generalize s.io.pollFill ready = filled at htook hfills
  obtain ⟨r, io⟩ := filled
  simp only at htook hfills ⊢
  -- the body with what the read took off the frames
  generalize hs' : ({ s with continueSent := true, io := io } : RawState) = s'
  have hrelays : Relays hb kind cap (gone ++ taken) s' := by
    subst hs'
    refine ⟨h.sameKind, h.sameCap, h.buffered, htook.stash.trans h.stash, ?_,
      htook.broken.trans h.broken⟩
    rw [h.frames, htook.frames, List.append_assoc]
  have huntold : s'.notified = false ∧ s'.io.finishes = 0 := by
    subst hs'
    exact ⟨h.untold.1, htook.finishes.trans h.untold.2⟩
  have hnotReady : s'.trailersReady = false ∧ s'.trailers = none := by
    subst hs'
    exact h.notReady
  have hslot : slotAfter none (gone ++ taken) = slotAfter s.io.slot taken := by
    rw [slotAfter_append, h.slot, Option.bind_some]
  have hdata : dataOf (gone ++ taken) = x ++ dataOf taken := by rw [dataOf_append, h.data]
  have hconsumed : s'.consumed = x.length := by
    subst hs'
    exact h.consumed
  have hio : s'.io = io := by
    subst hs'
    rfl
  have hdone : s'.done = false ∧ s'.fullyRead = false := by
    subst hs'
    exact ⟨h.notDone, h.notRead⟩
  cases r with
  | pending =>
      obtain ⟨hnone, hslot'⟩ := hfills
      rw [hnone, List.append_nil] at hdata
      have hslot'' : slotAfter none (gone ++ taken) = some s'.io.slot := by rw [hslot, hslot', hio]
      exact .pending ⟨hrelays, hdone.1, hdone.2, huntold, hnotReady, hslot'', hdata, hconsumed,
        h.bound, h.carries, h.more⟩
  | err =>
      obtain ⟨hnone, hwhy⟩ := hfills
      rw [hnone, List.append_nil] at hdata
      refine .error
        (rawFailed_fail hrelays huntold hnotReady.1 ⟨[], by rw [hdata, List.append_nil]⟩ h.bound) ?_
      rcases hwhy with hrefused | ⟨hleft, hbreaks⟩
      · exact Or.inr (hslot.trans hrefused)
      · refine Or.inl ⟨h.broken.symm.trans hbreaks, ?_⟩
        simp only [RawState.onFilled, RawState.fail, RawState.notifyFinished, huntold.1,
          Bool.false_eq_true, ↓reduceIte, HyperBodyIo.bodyFinished, hio]
        exact hleft
  | bytes b =>
      obtain ⟨hb', hslot', heof⟩ := hfills
      rw [hb'] at hdata
      simp only [RawState.onFilled]
      by_cases hempty : b = []
      · rw [if_pos hempty]
        obtain ⟨hleft, hbreaks⟩ := heof hempty
        rw [hempty, List.append_nil] at hdata
        have hend : RawState.atEof s' = { s' with
            done := true, fullyRead := true, notified := true
            io := { s'.io with finishes := s'.io.finishes + 1, slot := none }
            trailers := s'.io.slot.filter (· ≠ []), trailersReady := true } := by
          simp only [RawState.atEof]
          rw [finish_eq huntold.1]
          rfl
        have heof' : AtEof hb (gone ++ taken) (RawState.atEof s') := by
          rw [hend]
          refine ⟨?_, h.broken.symm.trans hbreaks, io.slot, hslot.trans hslot', ?_⟩
          · rw [hio]
            exact hleft
          · rw [hio]
        refine .ended ?_ heof'
        rw [hend] at heof' ⊢
        exact ⟨⟨hrelays.sameKind, hrelays.sameCap, hrelays.buffered, hrelays.stash, hrelays.frames,
          hrelays.broken⟩, rfl, rfl, ⟨rfl, by simp [huntold.2]⟩, rfl, hdata, h.bound, Or.inr heof'⟩
      · rw [if_neg hempty]
        refine deliver_spec rfl ⟨hrelays.sameKind, hrelays.sameCap, rfl,
          hrelays.stash, hrelays.frames, hrelays.broken⟩ hdone.1 hdone.2 huntold hnotReady ?_ hdata
          ?_ h.bound h.carries hempty
        · rw [hslot, hslot']
          exact congrArg (fun io => some io.slot) hio.symm
        · simp only [hconsumed, List.length_append]

/-! ## 5. Runs -/

namespace RawState

/-- One `poll_chunk` after another, with what each returned. -/
def polls : List Nat → RawState → List PollChunk × RawState
  | [], s => ([], s)
  | ready :: rest, s =>
    let (r, s) := s.pollChunk ready
    let (log, s) := polls rest s
    (r :: log, s)

end RawState

/-- The state of a raw body and the record of its polls. -/
inductive RawStatus (hb : HyperBody) (kind : BodyKind) (cap : Nat) (log : List PollChunk)
    (s : RawState) : Prop
  | reading {gone : List HyperFrame} : RawOpen hb kind cap (PollLog.delivered log) gone s →
      (∀ p ∈ log, Reading.Underway p) → RawStatus hb kind cap log s
  | ended {gone : List HyperFrame} : RawRead hb kind cap (PollLog.delivered log) gone s →
      (∀ p ∈ log, p = .ended ∨ Reading.Underway p) → RawStatus hb kind cap log s
  | failed {gone : List HyperFrame} {before : List PollChunk} {e : BodyError} {k : Nat} :
      RawFailed hb kind cap (PollLog.delivered log) gone s →
      log = before ++ .error e :: List.replicate k .ended →
      (∀ p ∈ before, Reading.Underway p) →
      e = .tooLarge ∧ cap < (dataOf gone).length ∨
        e = .io ∧ (hb.broken = true ∨ slotAfter none gone = none) →
      RawStatus hb kind cap log s

/-- A poll of a body that is done changes nothing. -/
theorem RawState.pollChunk_of_done {s : RawState} (h : s.done = true) (ready : Nat) :
    s.pollChunk ready = (.ended, s) := by
  simp only [RawState.pollChunk, h, ↓reduceIte]

theorem rawStatus_poll {hb : HyperBody} {kind : BodyKind} {cap : Nat} {log : List PollChunk}
    {s : RawState} (h : RawStatus hb kind cap log s) (ready : Nat) :
    RawStatus hb kind cap (log ++ [(s.pollChunk ready).1]) (s.pollChunk ready).2 := by
  have hmem : ∀ (r p : PollChunk), p ∈ log ++ [r] → p ∈ log ∨ p = r := by
    intro r p hp
    rcases List.mem_append.mp hp with hp | hp
    · exact Or.inl hp
    · exact Or.inr (List.mem_singleton.mp hp)
  cases h with
  | reading ho hlog =>
      have hp := rawOpen_poll ho ready
      generalize s.pollChunk ready = out at hp
      obtain ⟨r, s'⟩ := out
      simp only at hp ⊢
      cases hp with
      | pending ho' =>
          refine .reading (by simpa [PollChunk.bytes] using ho') fun p hp => ?_
          rcases hmem _ p hp with hp | rfl
          · exact hlog p hp
          · exact Or.inl rfl
      | chunk hy ho' =>
          refine .reading (by simpa [PollChunk.bytes] using ho') fun p hp => ?_
          rcases hmem _ p hp with hp | rfl
          · exact hlog p hp
          · exact Or.inr ⟨_, hy, rfl⟩
      | last hy hread =>
          refine .ended (by simpa [PollChunk.bytes] using hread) fun p hp => ?_
          rcases hmem _ p hp with hp | rfl
          · exact Or.inr (hlog p hp)
          · exact Or.inr (Or.inr ⟨_, hy, rfl⟩)
      | ended hread _ =>
          refine .ended (by simpa [PollChunk.bytes] using hread) fun p hp => ?_
          rcases hmem _ p hp with hp | rfl
          · exact Or.inr (hlog p hp)
          · exact Or.inl rfl
      | tooLarge hfail hover =>
          exact .failed (k := 0) (by simpa [PollChunk.bytes] using hfail) rfl hlog
            (Or.inl ⟨rfl, hover⟩)
      | error hfail hwhy =>
          exact .failed (k := 0) (by simpa [PollChunk.bytes] using hfail) rfl hlog
            (Or.inr ⟨rfl, hwhy.imp_left And.left⟩)
  | ended hread hlog =>
      rw [RawState.pollChunk_of_done hread.done]
      refine .ended (by simpa [PollChunk.bytes] using hread) fun p hp => ?_
      rcases hmem _ p hp with hp | rfl
      · exact hlog p hp
      · exact Or.inl rfl
  | @failed gone before e k hfail hlog hbefore hwhy =>
      rw [RawState.pollChunk_of_done hfail.done]
      refine .failed (k := k + 1) (by simpa [PollChunk.bytes] using hfail) ?_ hbefore hwhy
      simp only [hlog, List.append_assoc, List.cons_append, List.replicate_succ']

/-- Every run of polls keeps the status. -/
theorem rawStatus_polls {hb : HyperBody} {kind : BodyKind} {cap : Nat} {log : List PollChunk}
    {s : RawState} (h : RawStatus hb kind cap log s) (answers : List Nat) :
    RawStatus hb kind cap (log ++ (s.polls answers).1) (s.polls answers).2 := by
  induction answers generalizing log s with
  | nil =>
      simp only [RawState.polls, List.append_nil]
      exact h
  | cons ready rest ih =>
      have hstep := ih (rawStatus_poll h ready)
      rw [List.append_assoc] at hstep
      exact hstep

theorem rawStatus_begin (hb : HyperBody) (kind : BodyKind) (needsContinue : Bool) (cap : Nat) :
    RawStatus hb kind cap [] (RawState.fromBackend kind needsContinue cap hb) := by
  by_cases hdone : kind = .none ∨ kind = .length 0
  · have hd : (kind == .none || kind == .length 0) = true := by
      rcases hdone with rfl | rfl <;> rfl
    suffices h : RawRead hb kind cap [] [] (RawState.fromBackend kind needsContinue cap hb) from
      .ended h (by simp)
    simp only [RawState.fromBackend, hd, ↓reduceIte]
    exact ⟨⟨rfl, rfl, rfl, rfl, rfl, rfl⟩, rfl, rfl, ⟨rfl, rfl⟩, rfl, rfl, Nat.zero_le cap,
      Or.inl ⟨rfl, hdone.imp_left fun h => ⟨h, rfl⟩⟩⟩
  · obtain ⟨hnone, hzero⟩ := not_or.mp hdone
    have hd : (kind == .none || kind == .length 0) = false := by
      cases kind with
      | none => exact absurd rfl hnone
      | chunked => rfl
      | length n => simpa using fun h : n = 0 => hzero (by rw [h])
    suffices h : RawOpen hb kind cap [] [] (RawState.fromBackend kind needsContinue cap hb) from
      .reading h (by simp)
    simp only [RawState.fromBackend, hd, Bool.false_eq_true, ↓reduceIte]
    exact ⟨⟨rfl, rfl, rfl, rfl, rfl, rfl⟩, rfl, rfl, ⟨rfl, rfl⟩, ⟨rfl, rfl⟩, rfl, rfl, rfl,
      Nat.zero_le cap, hnone, hzero⟩

/-! ## 6. What a run comes to -/

/-- What a run of polls of a raw body comes to: `log` is what they returned. -/
structure RawAccount (hb : HyperBody) (kind : BodyKind) (cap : Nat) (log : List PollChunk)
    (s : RawState) : Prop where
  delivered : PollLog.delivered log <+: dataOf hb.frames
  bound : (PollLog.delivered log).length ≤ cap
  chunks : ∀ y, PollChunk.chunk y ∈ log → y ≠ []
  told : s.io.finishes = if s.done then 1 else 0
  dropped : s.drop.finishes = 1
  ended : PollChunk.ended ∈ log → s.done = true
  read : s.fullyRead = true → s.done = true ∧ ¬ PollLog.failed log ∧
    (kind = .none ∧ PollLog.delivered log = [] ∨ kind = .length (PollLog.delivered log).length ∨
      PollLog.delivered log = dataOf hb.frames ∧ hb.broken = false ∧
        ∃ slot, slotAfter none hb.frames = some slot ∧ s.trailerSection = some (slot.getD []))
  failed : PollLog.failed log → s.done = true ∧ s.fullyRead = false ∧ s.trailerSection = none
  errors : ∀ e, PollChunk.error e ∈ log → e = .tooLarge ∧ cap < (dataOf hb.frames).length ∨
    e = .io ∧ (hb.broken = true ∨ slotAfter none hb.frames = none)

theorem slotAfter_none_append {front : List HyperFrame} (h : slotAfter none front = none)
    (back : List HyperFrame) : slotAfter none (front ++ back) = none := by
  rw [slotAfter_append, h, Option.bind_none]

theorem slot_getD (slot : Option HeaderVec) : (slot.filter (· ≠ [])).getD [] = slot.getD [] := by
  cases slot with
  | none => rfl
  | some fields => cases fields <;> rfl

theorem not_mem_underway {log : List PollChunk}
    (h : ∀ p ∈ log, p = .ended ∨ Reading.Underway p) (e : BodyError) :
    PollChunk.error e ∉ log := by
  intro hmem
  rcases h _ hmem with he | he | ⟨y, _, he⟩ <;> cases he

theorem chunk_of_underway {log : List PollChunk}
    (h : ∀ p ∈ log, p = .ended ∨ Reading.Underway p) {y : Bytes} (hy : PollChunk.chunk y ∈ log) :
    y ≠ [] := by
  rcases h _ hy with he | he | ⟨z, hz, he⟩
  · cases he
  · cases he
  · cases he
    exact hz

theorem RawStatus.account {hb : HyperBody} {kind : BodyKind} {cap : Nat} {log : List PollChunk}
    {s : RawState} (h : RawStatus hb kind cap log s) : RawAccount hb kind cap log s := by
  have hwithin : ∀ {gone : List HyperFrame}, Relays hb kind cap gone s →
      dataOf gone <+: dataOf hb.frames := by
    intro gone hrelays
    rw [hrelays.frames, dataOf_append]
    exact List.prefix_append _ _
  cases h with
  | @reading gone ho hlog =>
      have hlog' : ∀ p ∈ log, p = .ended ∨ Reading.Underway p := fun p hp => Or.inr (hlog p hp)
      have hnot := not_mem_underway hlog'
      refine ⟨ho.data ▸ hwithin ho.toRelays, ho.bound, fun y => chunk_of_underway hlog', ?_, ?_,
        fun hend => ?_, fun hread => ?_, fun hf => ?_, fun e he => absurd he (hnot e)⟩
      · rw [ho.untold.2, ho.notDone]
        rfl
      · simp only [RawState.drop, RawState.notifyFinished, ho.untold.1, Bool.false_eq_true,
          ↓reduceIte, HyperBodyIo.bodyFinished, ho.untold.2, Nat.zero_add]
      · rcases hlog _ hend with he | ⟨y, _, he⟩ <;> cases he
      · rw [ho.notRead] at hread
        cases hread
      · obtain ⟨e, he⟩ := hf
        exact absurd he (hnot e)
  | @ended gone hr hlog =>
      have hnot := not_mem_underway hlog
      have hnf : ¬ PollLog.failed log := fun hf => hf.elim hnot
      refine ⟨hr.data ▸ hwithin hr.toRelays, hr.bound, fun y => chunk_of_underway hlog, ?_, ?_,
        fun _ => hr.done, fun _ => ⟨hr.done, hnf, ?_⟩, fun hf => absurd hf hnf,
        fun e he => absurd he (hnot e)⟩
      · rw [hr.told.2, hr.done]
        rfl
      · simp only [RawState.drop, RawState.notifyFinished, hr.told.1, ↓reduceIte, hr.told.2]
      · rcases hr.why with ⟨_, hkind⟩ | ⟨hleft, hbroken, slot, hslot, htrailers⟩
        · exact hkind.imp_right Or.inl
        · have hall : hb.frames = gone := by rw [hr.frames, hleft, List.append_nil]
          refine Or.inr (Or.inr ⟨by rw [hall]; exact hr.data.symm, hbroken, slot, hall ▸ hslot, ?_⟩)
          simp only [RawState.trailerSection, hr.ready, ↓reduceIte, htrailers, slot_getD]
  | @failed gone before e k hfail hlog hbefore hwhy =>
      have hbefore' : ∀ p ∈ before, p = .ended ∨ Reading.Underway p :=
        fun p hp => Or.inr (hbefore p hp)
      -- there is no error in the record but that of the failing poll
      have honly : ∀ e', PollChunk.error e' ∈ log → e' = e := by
        intro e' he'
        rw [hlog, List.mem_append, List.mem_cons, List.mem_replicate] at he'
        rcases he' with he' | he' | ⟨_, he'⟩
        · exact absurd he' (not_mem_underway hbefore' e')
        · cases he'
          rfl
        · cases he'
      refine ⟨hfail.data.trans (hwithin hfail.toRelays), hfail.bound, fun y hy => ?_, ?_, ?_,
        fun _ => hfail.done, fun hread => ?_, fun _ => ⟨hfail.done, hfail.notRead, ?_⟩,
        fun e' he => ?_⟩
      · rw [hlog, List.mem_append, List.mem_cons, List.mem_replicate] at hy
        rcases hy with hy | hy | ⟨_, hy⟩
        · exact chunk_of_underway hbefore' hy
        · cases hy
        · cases hy
      · rw [hfail.told.2, hfail.done]
        rfl
      · simp only [RawState.drop, RawState.notifyFinished, hfail.told.1, ↓reduceIte, hfail.told.2]
      · rw [hfail.notRead] at hread
        cases hread
      · simp only [RawState.trailerSection, hfail.notReady, Bool.false_eq_true, ↓reduceIte]
      · have hsame := honly e' he
        rcases hwhy with ⟨htoo, hover⟩ | ⟨hio, hbroken | hrefused⟩
        · exact Or.inl ⟨hsame.trans htoo,
            Nat.lt_of_lt_of_le hover (hwithin hfail.toRelays).length_le⟩
        · exact Or.inr ⟨hsame.trans hio, Or.inl hbroken⟩
        · exact Or.inr ⟨hsame.trans hio,
            Or.inr (hfail.frames ▸ slotAfter_none_append hrefused _)⟩

/-! ### Enough polls -/

theorem HyperBodyIo.pollFill_ready {ready : Nat} {io : HyperBodyIo}
    (h : io.body.frames.length < ready) : (pollFill ready io).1 ≠ .pending := by
  induction ready generalizing io with
  | zero => cases h
  | succ ready ih =>
      unfold pollFill
      split
      · split <;> simp
      · rename_i frame rest hframes
        rw [hframes, List.length_cons] at h
        have hrest : rest.length < ready := Nat.lt_of_succ_lt_succ h
        split
        · split
          · exact ih hrest
          · simp
        · split
          · simp
          · exact ih hrest
        · exact ih hrest

/-- With everything at hand, a poll of an open body takes a frame or is its last. -/
theorem rawOpen_ready {hb : HyperBody} {kind : BodyKind} {cap : Nat} {x : Bytes}
    {gone : List HyperFrame} {s : RawState} (h : RawOpen hb kind cap x gone s) {ready : Nat}
    (hready : s.io.body.frames.length < ready) :
    (s.pollChunk ready).2.done = true ∨
      (s.pollChunk ready).2.io.body.frames.length < s.io.body.frames.length := by
  have hpending : (s.pollChunk ready).1 ≠ .pending := by
    have hfill := HyperBodyIo.pollFill_ready hready
    rw [RawState.pollChunk_of_open h.notDone h.buffered h.stash]
    generalize s.io.pollFill ready = filled at hfill ⊢
    obtain ⟨r, io⟩ := filled
    cases r with
    | pending => exact absurd rfl hfill
    | err => simp [RawState.onFilled]
    | bytes b =>
        simp only [RawState.onFilled, RawState.deliver]
        split
        · simp
        · split
          · simp
          · split <;> simp
  have hp := rawOpen_poll h ready
  generalize s.pollChunk ready = out at hp hpending
  obtain ⟨r, s'⟩ := out
  simp only at hp hpending ⊢
  cases hp with
  | pending _ => exact absurd rfl hpending
  | @chunk gone' y _ hy ho =>
      refine Or.inr ?_
      -- more was delivered, so more frames are gone
      by_contra hmore
      have hlen : gone'.length ≤ gone.length := by
        have h1 := congrArg List.length h.frames
        have h2 := congrArg List.length ho.frames
        rw [List.length_append] at h1 h2
        omega
      have hfront : gone' <+: gone := by
        have hl : gone' <+: hb.frames := ⟨_, ho.frames.symm⟩
        have hr : gone <+: hb.frames := ⟨_, h.frames.symm⟩
        exact List.prefix_of_prefix_length_le hl hr hlen
      obtain ⟨back, rfl⟩ := hfront
      have hdata := h.data
      rw [dataOf_append, ho.data, List.append_assoc] at hdata
      have hnil := List.append_right_eq_self.mp hdata
      exact hy (List.append_eq_nil_iff.mp hnil).1
  | last _ hr => exact Or.inl hr.done
  | ended hr _ => exact Or.inl hr.done
  | tooLarge hf _ => exact Or.inl hf.done
  | error hf _ => exact Or.inl hf.done

theorem RawState.polls_of_done {s : RawState} (h : s.done = true) (answers : List Nat) :
    (s.polls answers).2 = s := by
  induction answers with
  | nil => rfl
  | cons ready rest ih =>
      simp only [RawState.polls, RawState.pollChunk_of_done h, ih]

theorem rawStatus_finishes {hb : HyperBody} {kind : BodyKind} {cap : Nat} {log : List PollChunk}
    {s : RawState} (h : RawStatus hb kind cap log s) {answers : List Nat}
    (hready : ∀ a ∈ answers, s.io.body.frames.length < a)
    (henough : s.io.body.frames.length < answers.length) : (s.polls answers).2.done = true := by
  induction answers generalizing log s with
  | nil => cases henough
  | cons ready rest ih =>
      have hdone : (s.pollChunk ready).2.done = true →
          (s.polls (ready :: rest)).2.done = true := by
        intro hd
        simp only [RawState.polls]
        rw [RawState.polls_of_done hd]
        exact hd
      cases hs : s.done with
      | true =>
          apply hdone
          rw [RawState.pollChunk_of_done hs]
          exact hs
      | false =>
          cases h with
          | ended hr _ =>
              rw [hr.done] at hs
              cases hs
          | failed hf _ _ _ =>
              rw [hf.done] at hs
              cases hs
          | reading ho hlog =>
              rcases rawOpen_ready ho (hready ready List.mem_cons_self) with hd | hless
              · exact hdone hd
              · simp only [RawState.polls]
                refine ih (rawStatus_poll (.reading ho hlog) ready) (fun a ha => ?_) ?_
                · exact Nat.lt_trans hless (hready a (List.mem_cons_of_mem _ ha))
                · rw [List.length_cons] at henough
                  omega

/-- **A raw body over any run of polls.** Whatever frames hyper hands over and
however many are ready at each poll: the chunks are a beginning of the data and
within the cap; the clock is told once that the body is finished, and no later
than when it is dropped; the body counts as read only with nothing lost, at its
declared length or at the clean end, where the trailers are those of the last
section; it fails only over the cap, or where hyper's body breaks off or a
trailer is refused, and then for good; what is done stays as it is; and polls
enough, with everything at hand, bring it to its end. -/
theorem raw_polls (hb : HyperBody) (kind : BodyKind) (needsContinue : Bool) (cap : Nat)
    (answers : List Nat) :
    RawAccount hb kind cap ((RawState.fromBackend kind needsContinue cap hb).polls answers).1
        ((RawState.fromBackend kind needsContinue cap hb).polls answers).2 ∧
      (((RawState.fromBackend kind needsContinue cap hb).polls answers).2.done = true →
        ∀ more, (((RawState.fromBackend kind needsContinue cap hb).polls answers).2.polls more).2
          = ((RawState.fromBackend kind needsContinue cap hb).polls answers).2) ∧
      ((∀ a ∈ answers, hb.frames.length < a) → hb.frames.length < answers.length →
        ((RawState.fromBackend kind needsContinue cap hb).polls answers).2.done = true) := by
  have hbegin := rawStatus_begin hb kind needsContinue cap
  have hframes : (RawState.fromBackend kind needsContinue cap hb).io.body.frames = hb.frames := by
    unfold RawState.fromBackend
    simp only
    split <;> rfl
  have hrun := rawStatus_polls hbegin answers
  rw [List.nil_append] at hrun
  refine ⟨hrun.account, RawState.polls_of_done, fun hready henough => ?_⟩
  rw [← hframes] at hready henough
  exact rawStatus_finishes hbegin hready henough

/-! ## 7. The backends side by side -/

/-- While `collect` goes on, a raw body asks for more or delivers a chunk. -/
theorem rawBody_delivers {hb : HyperBody} {kind : BodyKind} {cap : Nat} {s s' : RawState}
    {log : List PollChunk} {y : Bytes} (h : RawStatus hb kind cap log s)
    (hdelivers : Delivers rawBody s y s') :
    ∃ more, RawStatus hb kind cap (log ++ more) s' ∧ PollLog.delivered more = y ∧
      ∀ p ∈ more, p = .pending ∨ ∃ z, p = .chunk z := by
  induction hdelivers generalizing log with
  | refl s => exact ⟨[], by rw [List.append_nil]; exact h, rfl, by simp⟩
  | @pending s₁ s₂ s₃ a y hpoll _ ih =>
      have hstep := rawStatus_poll h a
      obtain ⟨hresult, hnext⟩ := Prod.ext_iff.mp hpoll
      simp only [rawBody] at hresult hnext
      rw [hresult, hnext] at hstep
      obtain ⟨more, hstatus, hdelivered, hpolls⟩ := ih hstep
      rw [List.append_assoc] at hstatus
      refine ⟨.pending :: more, hstatus, hdelivered, fun p hp => ?_⟩
      rcases List.mem_cons.mp hp with rfl | hp
      · exact Or.inl rfl
      · exact hpolls p hp
  | @chunk s₁ s₂ s₃ a b y hpoll _ ih =>
      have hstep := rawStatus_poll h a
      obtain ⟨hresult, hnext⟩ := Prod.ext_iff.mp hpoll
      simp only [rawBody] at hresult hnext
      rw [hresult, hnext] at hstep
      obtain ⟨more, hstatus, hdelivered, hpolls⟩ := ih hstep
      rw [List.append_assoc] at hstatus
      refine ⟨.chunk b :: more, hstatus, congrArg (b ++ ·) hdelivered, fun p hp => ?_⟩
      rcases List.mem_cons.mp hp with rfl | hp
      · exact Or.inr ⟨b, rfl⟩
      · exact hpolls p hp

/-- The answer that a body of `x` calls for. -/
def decidedAnswer (cap : Nat) (x : Bytes) : CollectAnswer :=
  if x.length ≤ cap then .ok x else .error .tooLarge

/-- The body that hyper hands over for a request whose body carries `x`. -/
structure Delivering (hb : HyperBody) (kind : BodyKind) (maxBodyBytes : Nat) (x : Bytes) :
    Prop where
  data : dataOf hb.frames = x
  clean : hb.broken = false
  permitted : (slotAfter none hb.frames).isSome = true
  none : kind = .none → x = []
  length : ∀ n, kind = .length n → x.length = n
  fits : x.length ≤ maxBodyBytes

theorem raw_collects {hb : HyperBody} {kind : BodyKind} {maxBodyBytes : Nat} {x : Bytes}
    (h : Delivering hb kind maxBodyBytes x) (needsContinue : Bool) (cap : Nat)
    (answers : List Nat) :
    (collect rawBody cap answers (RawState.fromBackend kind needsContinue maxBodyBytes hb)
        .empty).answer = .pending ∨
      (collect rawBody cap answers (RawState.fromBackend kind needsContinue maxBodyBytes hb)
          .empty).answer = decidedAnswer cap x ∧
        (x.length ≤ cap → (collect rawBody cap answers
          (RawState.fromBackend kind needsContinue maxBodyBytes hb) .empty).body.fullyRead
            = true) := by
  obtain ⟨y, s, hdelivers, hcap, _, hstops⟩ := collect_spec (m := rawBody) cap answers
    (RawState.fromBackend kind needsContinue maxBodyBytes hb)
  obtain ⟨log, hstatus, hdelivered, hlog⟩ := rawBody_delivers
    (rawStatus_begin hb kind needsContinue maxBodyBytes) hdelivers
  rw [List.nil_append] at hstatus
  generalize collect rawBody cap answers (RawState.fromBackend kind needsContinue maxBodyBytes hb)
    .empty = c at hstops
  obtain ⟨answer, body, kept⟩ := c
  simp only at hstops ⊢
  have hclean : ¬ (hb.broken = true ∨ slotAfter none hb.frames = none) := by
    intro hbad
    rcases hbad with hbad | hbad
    · rw [h.clean] at hbad
      cases hbad
    · have hpermitted := h.permitted
      rw [hbad] at hpermitted
      cases hpermitted
  cases hstops with
  | pending => exact Or.inl rfl
  | @ended a s' hpoll =>
      obtain ⟨hresult, hnext⟩ := Prod.ext_iff.mp hpoll
      simp only [rawBody] at hresult hnext
      have hstep := rawStatus_poll hstatus a
      rw [hresult, hnext] at hstep
      have hall : PollLog.delivered (log ++ [.ended]) = y := by
        rw [PollLog.delivered_concat, hdelivered]
        exact List.append_nil y
      have haccount := hstep.account
      have hread : body.fullyRead = true := by
        cases hstep with
        | reading _ hopen =>
            rcases hopen .ended (by simp) with he | ⟨z, _, he⟩ <;> cases he
        | ended hr _ => exact hr.read
        | @failed gone before e k _ hwas _ _ =>
            have hmem : PollChunk.error e ∈ log ++ [.ended] := by simp [hwas]
            rcases List.mem_append.mp hmem with he | he
            · rcases hlog _ he with he | ⟨z, he⟩ <;> cases he
            · simp at he
      obtain ⟨_, _, hwhole⟩ := haccount.read hread
      have hwithin := haccount.delivered
      rw [hall] at hwhole hwithin
      have hy : y = x := by
        rcases hwhole with ⟨hkind, hnil⟩ | hkind | ⟨heq, _⟩
        · rw [hnil, h.none hkind]
        · rw [h.data] at hwithin
          exact hwithin.eq_of_length (h.length _ hkind).symm
        · rw [heq, h.data]
      rw [hy] at hcap
      refine Or.inr ⟨?_, fun _ => hread⟩
      rw [decidedAnswer, if_pos hcap, hy]
  | @error a e s' hpoll =>
      obtain ⟨hresult, hnext⟩ := Prod.ext_iff.mp hpoll
      simp only [rawBody] at hresult hnext
      have hstep := rawStatus_poll hstatus a
      rw [hresult, hnext] at hstep
      rcases hstep.account.errors e (by simp) with ⟨_, hover⟩ | ⟨_, hbad⟩
      · rw [h.data] at hover
        exact absurd h.fits (Nat.not_le_of_lt hover)
      · exact absurd hbad hclean
  | @tooLarge a b s' hpoll hover =>
      obtain ⟨hresult, hnext⟩ := Prod.ext_iff.mp hpoll
      simp only [rawBody] at hresult hnext
      have hstep := rawStatus_poll hstatus a
      rw [hresult, hnext] at hstep
      have hwithin := hstep.account.delivered
      rw [PollLog.delivered_concat, hdelivered, h.data] at hwithin
      have hlong : cap < x.length := Nat.lt_of_lt_of_le hover hwithin.length_le
      refine Or.inr ⟨?_, fun hfits => absurd hfits (Nat.not_le_of_lt hlong)⟩
      rw [decidedAnswer, if_neg (Nat.not_le_of_lt hlong)]

theorem decideCodings_ne_length (codings : List Bytes) (n : Nat) :
    decideCodings codings ≠ .ok (.length n) := by
  unfold decideCodings
  simp only
  split
  · split <;> simp
  · split <;> simp

/-- A declared length that was accepted is within the limit. -/
theorem decideFraming_fits {h : Head} {limits : Limits} {n : Nat}
    (hframed : decideFraming h limits = .ok (.length n)) : n ≤ limits.maxBodyBytes := by
  unfold decideFraming at hframed
  simp only at hframed
  repeat' split at hframed
  all_goals first
    | cases hframed
    | exact absurd hframed (decideCodings_ne_length _ n)
  omega

/-- A whole body, delivered as frames. -/
theorem delivering_of_whole {h : Head} {limits : Limits} {kind : BodyKind} {consumed : Bytes}
    {hb : HyperBody} (hframed : decideFraming h limits = .ok kind)
    (hwhole : Whole limits kind consumed (dataOf hb.frames)) (hclean : hb.broken = false)
    (hpermitted : (slotAfter none hb.frames).isSome = true) :
    Delivering hb kind limits.maxBodyBytes (dataOf hb.frames) := by
  generalize hx : dataOf hb.frames = x at hwhole
  cases hwhole with
  | none =>
      refine ⟨hx, hclean, hpermitted, fun _ => rfl, fun n hn => ?_, Nat.zero_le _⟩
      cases hn
  | length c =>
      refine ⟨hx, hclean, hpermitted, fun hn => ?_, fun n hn => ?_, decideFraming_fits hframed⟩
      · cases hn
      · cases hn
        rfl
  | chunked hv =>
      refine ⟨hx, hclean, hpermitted, fun hn => ?_, fun n hn => ?_, hv.body⟩
      · cases hn
      · cases hn

/-- **The backends collect alike.** A native connection whose handler holds a
body not yet touched, and the same request under the hyper backend, which hands
over the data of the body that the native stream holds. However the transport
cuts the one up and hyper the other, and whatever is ready when: each `collect`
is still waiting, or answers what the body and the cap call for, the same on
both sides, or, on the native side, gives an error of the transport's or the
framing's; and a body that is returned counts as read. -/
theorem backends_collect_alike (env : Env) (buffered : Bytes) (events : List Event) {b : BodyState}
    (hcurrent : (Conn.run env buffered events).current = some b)
    (hheld : (Conn.run env buffered events).bodyHeld = true) (hopen : b.done = false) {head : Bytes}
    (hfresh : (Conn.run env buffered events).request = some ⟨head, []⟩) {h : Head} {kind : BodyKind}
    (hv : verdict env head = some (h, kind)) (hb : HyperBody) (hclean : hb.broken = false)
    (hpermitted : (slotAfter none hb.frames).isSome = true) (needsContinue : Bool) (cap : Nat)
    (answers : List BodyState.PollAnswers) (polls : List Nat) :
    ∃ (pre : Bytes) (n : Nat) (native : CollectOutcome Conn) (raw : CollectOutcome RawState),
      native = Conn.handlerCollect env cap answers (Conn.run env buffered events) ∧
      raw = collect rawBody cap polls
        (RawState.fromBackend kind needsContinue env.limits.maxBodyBytes hb) .empty ∧
      Served env (Conn.run env buffered events).earlier pre ∧
      pre ++ blankLines n ++ head <+: (Conn.run env buffered events).received ∧
      ∀ more consumed rest : Bytes, Whole env.limits kind consumed (dataOf hb.frames) →
        native.body.received ++ more = pre ++ blankLines n ++ head ++ consumed ++ rest →
        (native.answer = .pending ∨ native.answer = decidedAnswer cap (dataOf hb.frames) ∨
          ∃ e, e ≠ .tooLarge ∧ native.answer = .error e) ∧
        (raw.answer = .pending ∨ raw.answer = decidedAnswer cap (dataOf hb.frames)) ∧
        (∀ z, native.answer = .ok z → native.body.shared.bodyRead = true) ∧
        (∀ z, raw.answer = .ok z → raw.body.fullyRead = true) := by
  obtain ⟨pre, x, h', kind', n, r, hserved, hx, hv', hledger, hnot, hdelivered, hholding⟩ :=
    Conn.holding_of_run env buffered events hcurrent hheld hopen
  obtain rfl : x = ⟨head, []⟩ := Option.some.inj (hx.symm.trans hfresh)
  obtain ⟨rfl, rfl⟩ : h' = h ∧ kind' = kind := by
    have heq := Option.some.inj (hv'.symm.trans hv)
    exact Prod.mk.inj heq
  have hframed : decideFraming h' env.limits = .ok kind' := by
    unfold verdict at hv
    split at hv
    · cases hv
    · split at hv
      · cases hv
      · rename_i _ hd
        cases hv
        exact hd
  obtain ⟨hanswer, hkept, hholds⟩ := hholding.collects env cap answers .empty
  obtain ⟨hcap, hright⟩ := collect_rightly hledger hnot cap answers
  rw [← hkept, ← hanswer, ← hholds.shared, hdelivered] at hright
  rw [← hkept] at hcap
  obtain ⟨_, haccount⟩ := hledger.account
  obtain ⟨arrived, hfront, _⟩ := haccount.foretells
  rw [← hholding.shared] at hfront
  refine ⟨pre, n, _, _, rfl, rfl, hserved, ⟨arrived, hfront.symm⟩,
    fun more consumed rest hwhole hreceived => ?_⟩
  have hraw := raw_collects (delivering_of_whole hframed hwhole hclean hpermitted) needsContinue cap
    polls
  obtain ⟨_, hok, htoo⟩ := hright.decided hwhole hreceived
  have hnil : PollLog.delivered (⟨head, []⟩ : Incoming).polls = [] := rfl
  simp only [hnil, List.nil_append, List.length_nil, Nat.zero_add] at hok htoo
  refine ⟨?_, hraw.imp_right And.left, fun z hz => ?_, fun z hz => ?_⟩
  · generalize hnative : (Conn.handlerCollect env cap answers (Conn.run env buffered events)).answer
      = answer
    have hsame : (collect (Conn.bodyMachine env) cap answers (Conn.run env buffered events)
      .empty).answer = answer := hnative
    rw [hsame] at hok htoo hright
    cases answer with
    | pending => exact Or.inl rfl
    | ok z =>
        refine Or.inr (Or.inl ?_)
        have hz := hok z rfl
        rw [hright.1] at hz ⊢
        rw [decidedAnswer, ← hz, if_pos hcap]
    | error e =>
        by_cases he : e = .tooLarge
        · subst he
          refine Or.inr (Or.inl ?_)
          rw [decidedAnswer, if_neg (Nat.not_le_of_lt (htoo rfl))]
        · exact Or.inr (Or.inr ⟨e, he, rfl⟩)
  · rw [show (collect (Conn.bodyMachine env) cap answers (Conn.run env buffered events)
      .empty).answer = .ok z from hz] at hright
    exact hright.2.1
  · rcases hraw with hpending | ⟨hdecided, hread⟩
    · rw [hpending] at hz
      cases hz
    · refine hread ?_
      by_contra hlong
      rw [hdecided, decidedAnswer, if_neg hlong] at hz
      cases hz

/-- The same two bytes, as hyper might hand them over. -/
def twoFrames : HyperBody := ⟨[.data (ascii "h"), .data [], .other, .data (ascii "i")], false⟩

theorem backends_collect_alike_two_frames :
    (Conn.handlerCollect sampleEnv 2 Conn.twoReads Conn.expectingRun).answer
        = decidedAnswer 2 (ascii "hi") ∧
      (collect rawBody 2 [1, 3, 1] (RawState.fromBackend (.length 2) true
        sampleEnv.limits.maxBodyBytes twoFrames) .empty).body.fullyRead = true := by
  have hopen : Conn.expectingRun.current.map BodyState.done = some false := by decide +kernel
  obtain ⟨b, hcurrent, hopen⟩ := Option.map_eq_some_iff.mp hopen
  have hverdict : (verdict sampleEnv expectRequest).map Prod.snd = some (.length 2) := by
    decide +kernel
  obtain ⟨⟨h, kind⟩, hv, rfl⟩ := Option.map_eq_some_iff.mp hverdict
  have hnative : (Conn.handlerCollect sampleEnv 2 Conn.twoReads Conn.expectingRun).answer
      = .ok (ascii "hi") := by decide +kernel
  have hraw : (collect rawBody 2 [1, 3, 1] (RawState.fromBackend (.length 2) true
      sampleEnv.limits.maxBodyBytes twoFrames) .empty).answer = .ok (ascii "hi") := by
      decide +kernel
  have hfresh : Conn.expectingRun.request = some ⟨expectRequest, []⟩ := rfl
  have hreceived : Conn.expectingRun.received = expectRequest := by decide +kernel
  have hafter : (Conn.handlerCollect sampleEnv 2 Conn.twoReads Conn.expectingRun).body.received
      = expectRequest ++ ascii "hi" := by decide +kernel
  obtain ⟨pre, n, native, raw, rfl, rfl, -, hfront, hall⟩ := backends_collect_alike sampleEnv []
    [.read (.ok expectRequest)] hcurrent rfl hopen hfresh hv twoFrames rfl rfl true 2 Conn.twoReads
    [1, 3, 1]
  -- nothing stands in front of the head
  have hnil : pre ++ blankLines n = [] := by
    have hlen := hfront.length_le
    rw [show (Conn.run sampleEnv [] [.read (.ok expectRequest)]).received = expectRequest from
      hreceived, List.length_append] at hlen
    exact List.eq_nil_of_length_eq_zero (by omega)
  obtain ⟨_, _, _, hread⟩ := hall [] (ascii "hi") [] (.length (ascii "hi"))
    (by rw [hnil, List.append_nil, List.append_nil]; exact hafter)
  refine ⟨hnative.trans ?_, hread (ascii "hi") hraw⟩
  rfl

end ArmatureH1

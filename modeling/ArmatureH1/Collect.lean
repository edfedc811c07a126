/-
ArmatureH1.Collect — reading a whole body, with a cap (`Body::collect`).

`collect` takes one chunk after another and gives up as soon as it has seen
more than `cap` bytes. It is written once for both backends, so it is modelled
over anything that is polled for chunks (`BodyMachine`); the body of a native
connection is one such machine, and a whole connection whose handler holds the
body is another, in which `collect` is a run of body operations.

What it answers does not depend on how the body came in pieces: only on what
it delivered and how it stopped (`collect_spec`). On a native body that is the
framing's: a body that collects whole is the body the stream holds, and no
other division of the stream could have made it too large (`Rightly`,
`handler_collects`).

The source counts in a `u64`, as here in a `Nat`: the count is at most the cap
before a chunk is added to it.
-/
import ArmatureH1.ConnInput
import ArmatureH1.ConnReplies

namespace ArmatureH1

open ByteString BodyState

/-! ## 1. `collect` -/

/-- What `collect` uses of a body. `α` is what the environment answers to one
poll. -/
structure BodyMachine (α σ : Type) where
  poll : α → σ → PollChunk × σ
  done : σ → Bool
  fail : σ → σ

/-- The locals of `collect`: a single chunk is passed through, more are joined. -/
structure Gathered where
  acc : Option Bytes
  first : Option Bytes
  total : Nat

namespace Gathered

def empty : Gathered := ⟨none, none, 0⟩

/-- The `match` on `acc` and `first`. -/
def add (g : Gathered) (chunk : Bytes) : Gathered :=
  match g.acc, g.first with
  | none, none => { g with first := some chunk }
  | none, some f => { g with acc := some (f ++ chunk), first := none }
  | some v, _ => { g with acc := some (v ++ chunk) }

/-- What is returned at the end. -/
def bytes (g : Gathered) : Bytes :=
  match g.acc with
  | some v => v
  | none => g.first.getD []

/-- The locals hold what has been delivered. -/
structure Holds (g : Gathered) (x : Bytes) : Prop where
  bytes : g.bytes = x
  total : g.total = x.length
  apart : g.acc = none ∨ g.first = none

theorem holds_empty : empty.Holds [] := ⟨rfl, rfl, Or.inl rfl⟩

theorem Holds.add {g : Gathered} {x : Bytes} (h : g.Holds x) (chunk : Bytes) :
    ({ g with total := g.total + chunk.length }.add chunk).Holds (x ++ chunk) := by
  obtain ⟨hbytes, htotal, hapart⟩ := h
  cases g with
  | mk acc first total =>
      cases acc with
      | some v =>
          refine ⟨?_, by simpa [Gathered.add] using htotal, ?_⟩
          · simpa [Gathered.add, Gathered.bytes] using hbytes
          · simpa [Gathered.add] using hapart
      | none =>
          cases first with
          | none =>
              refine ⟨?_, by simpa [Gathered.add] using htotal, Or.inl rfl⟩
              simpa [Gathered.add, Gathered.bytes] using hbytes
          | some f =>
              refine ⟨?_, by simpa [Gathered.add] using htotal, Or.inr rfl⟩
              simpa [Gathered.add, Gathered.bytes] using hbytes

end Gathered

/-- Where `collect` stands: still waiting for a chunk, or back with a result. -/
inductive CollectAnswer where
  | pending
  | ok (b : Bytes)
  | error (e : BodyError)
  deriving DecidableEq

/-- What `collect` leaves: its answer, the body, and the locals. -/
structure CollectOutcome (σ : Type) where
  answer : CollectAnswer
  body : σ
  kept : Gathered

/-- `Body::collect`, on the answers to its polls. A body that ended in the
chunk that is too much is left alone. -/
def collect {α σ : Type} (m : BodyMachine α σ) (cap : Nat) :
    List α → σ → Gathered → CollectOutcome σ
  | [], s, g => ⟨.pending, s, g⟩
  | a :: rest, s, g =>
    match m.poll a s with
    | (.pending, s) => collect m cap rest s g
    | (.ended, s) => ⟨.ok g.bytes, s, g⟩
    | (.error e, s) => ⟨.error e, s, g⟩
    | (.chunk b, s) =>
      if g.total + b.length > cap then
        ⟨.error .tooLarge, if m.done s then s else m.fail s, g⟩
      else collect m cap rest s ({ g with total := g.total + b.length }.add b)

/-! ## 2. What it answers -/

section

variable {α σ : Type} {m : BodyMachine α σ}

/-- Polls that take a body from one state to another and deliver `x`. -/
inductive Delivers (m : BodyMachine α σ) : σ → Bytes → σ → Prop
  | refl (s : σ) : Delivers m s [] s
  | pending {s s' s'' : σ} {a : α} {x : Bytes} : m.poll a s = (.pending, s') →
      Delivers m s' x s'' → Delivers m s x s''
  | chunk {s s' s'' : σ} {a : α} {b x : Bytes} : m.poll a s = (.chunk b, s') →
      Delivers m s' x s'' → Delivers m s (b ++ x) s''

/-- How `collect` stops, with `x` delivered and the body in state `s`. -/
inductive Stops (m : BodyMachine α σ) (cap : Nat) (x : Bytes) (s : σ) :
    CollectAnswer → σ → Prop
  | pending : Stops m cap x s .pending s
  | ended {a : α} {s' : σ} : m.poll a s = (.ended, s') → Stops m cap x s (.ok x) s'
  | error {a : α} {e : BodyError} {s' : σ} : m.poll a s = (.error e, s') →
      Stops m cap x s (.error e) s'
  | tooLarge {a : α} {b : Bytes} {s' : σ} : m.poll a s = (.chunk b, s') →
      cap < (x ++ b).length →
      Stops m cap x s (.error .tooLarge) (if m.done s' then s' else m.fail s')

theorem collect_stops {cap : Nat} (answers : List α) (s : σ) {g : Gathered} {y : Bytes}
    (h : g.Holds y) (hcap : y.length ≤ cap) :
    ∃ x s', Delivers m s x s' ∧ (y ++ x).length ≤ cap ∧
      (collect m cap answers s g).kept.bytes = y ++ x ∧
      Stops m cap (y ++ x) s' (collect m cap answers s g).answer
        (collect m cap answers s g).body := by
  induction answers generalizing s g y with
  | nil =>
      refine ⟨[], s, .refl s, ?_, ?_, .pending⟩
      · rw [List.append_nil]
        exact hcap
      · rw [List.append_nil]
        exact h.bytes
  | cons a rest ih =>
      have hnil : y ++ [] = y := List.append_nil y
      cases hpoll : m.poll a s with
      | mk r s' =>
          cases r with
          | pending =>
              obtain ⟨x, s'', hdelivers, hspec⟩ := ih s' h hcap
              simp only [collect, hpoll]
              exact ⟨x, s'', .pending hpoll hdelivers, hspec⟩
          | ended =>
              simp only [collect, hpoll]
              refine ⟨[], s, .refl s, by rw [hnil]; exact hcap, by rw [hnil]; exact h.bytes, ?_⟩
              rw [hnil, h.bytes]
              exact .ended hpoll
          | error e =>
              simp only [collect, hpoll]
              refine ⟨[], s, .refl s, by rw [hnil]; exact hcap, by rw [hnil]; exact h.bytes, ?_⟩
              rw [hnil]
              exact .error hpoll
          | chunk b =>
              simp only [collect, hpoll]
              by_cases hover : g.total + b.length > cap
              · rw [if_pos hover]
                refine ⟨[], s, .refl s, by rw [hnil]; exact hcap, by rw [hnil]; exact h.bytes, ?_⟩
                rw [hnil]
                refine .tooLarge hpoll ?_
                rw [List.length_append, ← h.total]
                exact hover
              · rw [if_neg hover]
                have hcap' : (y ++ b).length ≤ cap := by
                  rw [List.length_append, ← h.total]
                  exact Nat.le_of_not_lt hover
                obtain ⟨x, s'', hdelivers, hspec⟩ := ih s' (h.add b) hcap'
                rw [List.append_assoc] at hspec
                exact ⟨b ++ x, s'', .chunk hpoll hdelivers, hspec⟩

/-- **What `collect` answers does not depend on the pieces.** With `x` the bytes
that the body delivered within the cap: the answer is `x` when the body ends
behind them, its error when it fails behind them, and `TooLarge` when one more
chunk passes the cap; then the body is given up unless it ended in that chunk.
What `collect` holds is `x`, so never more than the cap. -/
theorem collect_spec (cap : Nat) (answers : List α) (s : σ) :
    ∃ x s', Delivers m s x s' ∧ x.length ≤ cap ∧
      (collect m cap answers s .empty).kept.bytes = x ∧
      Stops m cap x s' (collect m cap answers s .empty).answer
        (collect m cap answers s .empty).body := by
  have h := collect_stops (m := m) answers s Gathered.holds_empty (Nat.zero_le cap)
  simpa using h

/-- Machines that cannot be told apart collect alike. -/
theorem collect_sim {τ : Type} {n : BodyMachine α τ} {R : σ → τ → Prop}
    (hpoll : ∀ a s t, R s t → (m.poll a s).1 = (n.poll a t).1 ∧ R (m.poll a s).2 (n.poll a t).2)
    (hdone : ∀ s t, R s t → m.done s = n.done t)
    (hfail : ∀ s t, R s t → m.done s = false → R (m.fail s) (n.fail t))
    (cap : Nat) (answers : List α) {s : σ} {t : τ} (g : Gathered) (h : R s t) :
    (collect m cap answers s g).answer = (collect n cap answers t g).answer ∧
      (collect m cap answers s g).kept = (collect n cap answers t g).kept ∧
      R (collect m cap answers s g).body (collect n cap answers t g).body := by
  induction answers generalizing s t g with
  | nil => exact ⟨rfl, rfl, h⟩
  | cons a rest ih =>
      obtain ⟨hresult, hnext⟩ := hpoll a s t h
      cases hm : m.poll a s with
      | mk r s' =>
          cases hn : n.poll a t with
          | mk r' t' =>
              rw [hm, hn] at hresult hnext
              simp only at hresult hnext
              subst hresult
              simp only [collect, hm, hn]
              cases r with
              | pending => exact ih g hnext
              | ended => exact ⟨rfl, rfl, hnext⟩
              | error e => exact ⟨rfl, rfl, hnext⟩
              | chunk b =>
                  simp only
                  split
                  · refine ⟨rfl, rfl, ?_⟩
                    rw [← hdone s' t' hnext]
                    cases hover : m.done s' with
                    | true => exact hnext
                    | false => exact hfail s' t' hnext hover
                  · exact ih _ hnext

end

/-! ## 3. The body of a native connection -/

/-- A body that reads from a connection, with the record of its polls. -/
def nativeBody : BodyMachine PollAnswers Reading where
  poll a r := ((pollChunk a r.shared r.body).1, r.poll a)
  done r := r.body.done
  fail r := { r with shared := (fail r.shared r.body).1, body := (fail r.shared r.body).2 }

/-- While `collect` goes on, every poll asks for more or delivers a chunk. -/
theorem nativeBody_polls {r r' : Reading} {x : Bytes} (h : Delivers nativeBody r x r') :
    ∃ answers, r' = r.polls answers ∧ r'.delivered = r.delivered ++ x ∧ (r'.failed → r.failed) := by
  induction h with
  | refl r => exact ⟨[], rfl, (List.append_nil _).symm, id⟩
  | @pending r₁ r₂ r₃ a x hpoll _ ih =>
      obtain ⟨answers, hpolls, hdelivered, hfailed⟩ := ih
      obtain ⟨hresult, hnext⟩ := Prod.ext_iff.mp hpoll
      simp only [nativeBody] at hresult hnext
      refine ⟨a :: answers, by rw [hpolls, ← hnext]; rfl, ?_, fun hf => ?_⟩
      · rw [hdelivered, ← hnext, Reading.delivered_poll, hresult]
        simp [PollChunk.bytes]
      · obtain ⟨e, he⟩ := hfailed hf
        simp only [← hnext, Reading.poll, hresult, List.mem_append, List.mem_singleton] at he
        exact ⟨e, he.resolve_right (by simp)⟩
  | @chunk r₁ r₂ r₃ a b x hpoll _ ih =>
      obtain ⟨answers, hpolls, hdelivered, hfailed⟩ := ih
      obtain ⟨hresult, hnext⟩ := Prod.ext_iff.mp hpoll
      simp only [nativeBody] at hresult hnext
      refine ⟨a :: answers, by rw [hpolls, ← hnext]; rfl, ?_, fun hf => ?_⟩
      · rw [hdelivered, ← hnext, Reading.delivered_poll, hresult]
        simp [PollChunk.bytes]
      · obtain ⟨e, he⟩ := hfailed hf
        simp only [← hnext, Reading.poll, hresult, List.mem_append, List.mem_singleton] at he
        exact ⟨e, he.resolve_right (by simp)⟩

/-- A native body never fails with the error that is `collect`'s own. -/
theorem pollChunk_ne_tooLarge (a : PollAnswers) (sh : Shared) (s : BodyState) :
    (pollChunk a sh s).1 ≠ .error .tooLarge := by
  have hchunked : ∀ n sh s r sh' s', chunkedRound n sh s = (some r, sh', s') →
      r ≠ .error .tooLarge := by
    intro n
    induction n with
    | zero =>
        intro sh s r sh' s' h
        cases h
    | succ n ih =>
        intro sh s r sh' s' h
        unfold chunkedRound at h
        simp only at h
        split at h
        · cases h
        · split at h
          · cases h
            simp [failWith]
          · cases h
            simp
          · exact ih _ _ _ _ _ h
          · cases h
            simp
          · cases h
  have hlength : ∀ sh s, (lengthRound sh s).1 ≠ some (.error .tooLarge) := by
    intro sh s
    unfold lengthRound
    generalize (if s.remaining > 0 then draw s.remaining sh s else (sh, s)) = drawn
    simp only
    split
    · simp
    · split <;> simp
  have hround : ∀ sh s r sh' s', BodyState.round sh s = (some r, sh', s') →
      r ≠ .error .tooLarge := by
    intro sh s r sh' s' h
    unfold BodyState.round at h
    split at h
    · cases h
      simp
    · intro hr
      exact hlength sh s (by rw [h, hr])
    · exact hchunked 2 sh s r sh' s' h
  have hloop : ∀ reads sh s, (pollLoop reads sh s).1 ≠ .error .tooLarge := by
    intro reads
    induction reads with
    | nil =>
        intro sh s
        unfold pollLoop
        split
        · rename_i r sh' s' h
          exact hround _ _ _ _ _ h
        · simp
    | cons read rest ih =>
        intro sh s
        unfold pollLoop
        split
        · rename_i r sh' s' h
          exact hround _ _ _ _ _ h
        · cases read with
          | pending => simp
          | err => simp [failWith]
          | ok b =>
              simp only
              split
              · simp [failWith]
              · exact ih _ _
  unfold pollChunk
  split
  · simp
  · split
    · exact hloop _ _ _
    · split
      · simp
      · simp [failWith]
      · exact hloop _ _ _

/-- What the bytes behind `pre` say of a body that has delivered `x`: whatever
whole body they turn out to begin with, `x` is a beginning of what it carries. -/
def Foretells (limits : Limits) (kind : BodyKind) (pre x : Bytes) (sh : Shared) : Prop :=
  ∃ arrived, sh.io.io.received = pre ++ arrived ∧
    ∀ more consumed body rest : Bytes, arrived ++ more = consumed ++ rest →
      Whole limits kind consumed body → x <+: body

/-- The body that the stream holds behind `pre` was read, and nothing else. -/
def ReadWhole (limits : Limits) (kind : BodyKind) (pre x : Bytes) (sh : Shared) : Prop :=
  sh.bodyRead = true ∧
    ∃ consumed, Whole limits kind consumed x ∧ sh.io.io.received = pre ++ consumed ++ sh.io.buf

namespace Reading

theorem Account.foretells {limits : Limits} {pre : Bytes} {kind : BodyKind} {r : Reading}
    {consumed : Bytes} (h : Account limits pre kind r consumed) :
    Foretells limits kind pre r.delivered r.shared :=
  ⟨consumed ++ r.body.buffered ++ r.shared.io.buf, by rw [h.conserved]; simp, h.delivered⟩

/-- A body that is done has been read whole, or has failed. -/
theorem readWhole_of_done {limits : Limits} {pre : Bytes} {kind : BodyKind} {r : Reading}
    (h : Ledger limits pre kind r) (hdone : r.body.done = true) :
    ReadWhole limits kind pre r.delivered r.shared ∨ r.shared.bodyRead = false := by
  have hkind := h.kind
  cases h.status with
  | reading ho _ =>
      rw [ho.notDone] at hdone
      cases hdone
  | @ended c hfin _ _ => exact Or.inl ⟨hfin.read, c, hkind ▸ hfin.whole, hfin.conserved⟩
  | failed hfail _ _ => exact Or.inr hfail.notRead

/-- A body whose end was reported, and that had not failed, was read whole. -/
theorem readWhole_of_ended {limits : Limits} {pre : Bytes} {kind : BodyKind} {r : Reading}
    (h : Ledger limits pre kind r) (hnot : ¬ r.failed) (hend : PollChunk.ended ∈ r.log) :
    ReadWhole limits kind pre r.delivered r.shared := by
  obtain ⟨consumed, haccount⟩ := h.account
  obtain ⟨hwhole, hbuffered, hread⟩ := haccount.ended ⟨hnot, Or.inl hend⟩
  refine ⟨hread, consumed, hwhole, ?_⟩
  rw [haccount.conserved, hbuffered, List.append_nil]

end Reading

/-- What `collect` comes to on a native body that had delivered `before` when
it was called: `kept` is what it holds at the end, `sh` and `done` are the
connection's state and the body's. -/
def Rightly (limits : Limits) (kind : BodyKind) (pre before : Bytes) (cap : Nat) (kept : Bytes)
    (sh : Shared) (done : Bool) : CollectAnswer → Prop
  | .pending => Foretells limits kind pre (before ++ kept) sh
  | .ok b => b = kept ∧ ReadWhole limits kind pre (before ++ b) sh
  | .error .tooLarge => done = true ∧ ∃ x, cap < x.length ∧
      Foretells limits kind pre (before ++ x) sh ∧
      (sh.bodyRead = true → ReadWhole limits kind pre (before ++ x) sh)
  | .error _ => sh.bodyRead = false

/-- The chunk that was too much: the body is given up unless it ended there. -/
theorem tooLarge_collected {limits : Limits} {pre : Bytes} {kind : BodyKind} {r : Reading}
    (h : Reading.Ledger limits pre kind r) :
    (if r.body.done then r else nativeBody.fail r).body.done = true ∧
      Foretells limits kind pre r.delivered (if r.body.done then r else nativeBody.fail r).shared ∧
      ((if r.body.done then r else nativeBody.fail r).shared.bodyRead = true →
        ReadWhole limits kind pre r.delivered (if r.body.done then r else nativeBody.fail r).shared)
    := by
  obtain ⟨consumed, haccount⟩ := h.account
  cases hdone : r.body.done with
  | true =>
      refine ⟨hdone, haccount.foretells, fun hread => ?_⟩
      rcases Reading.readWhole_of_done h hdone with hw | hw
      · exact hw
      · rw [if_pos rfl, hw] at hread
        cases hread
  | false =>
      have hreceived : (nativeBody.fail r).shared.io.io.received = r.shared.io.io.received := by
        simp [nativeBody, fail]
      refine ⟨by simp [nativeBody, fail], ?_, fun hread => ?_⟩
      · obtain ⟨arrived, hconserved, hforetold⟩ := haccount.foretells
        exact ⟨arrived, hreceived.trans hconserved, hforetold⟩
      · simp [nativeBody, fail] at hread

/-- **What `collect` answers on a native body** that has not failed, whatever
the transport answers to the polls and however it cuts the body up. -/
theorem collect_rightly {limits : Limits} {pre : Bytes} {kind : BodyKind} {r₀ : Reading}
    (h₀ : Reading.Ledger limits pre kind r₀) (hnot₀ : ¬ r₀.failed) (cap : Nat)
    (answers : List PollAnswers) :
    (collect nativeBody cap answers r₀ .empty).kept.bytes.length ≤ cap ∧
      Rightly limits kind pre r₀.delivered cap (collect nativeBody cap answers r₀ .empty).kept.bytes
        (collect nativeBody cap answers r₀ .empty).body.shared
        (collect nativeBody cap answers r₀ .empty).body.body.done
        (collect nativeBody cap answers r₀ .empty).answer := by
  obtain ⟨x, r, hdelivers, hcap, hkept, hstops⟩ := collect_spec (m := nativeBody) cap answers r₀
  obtain ⟨polls, hpolls, hdelivered, hfailed⟩ := nativeBody_polls hdelivers
  have hledger : Reading.Ledger limits pre kind r := by
    rw [hpolls]
    exact Reading.ledger_polls h₀ polls
  have hnot : ¬ r.failed := fun hf => hnot₀ (hfailed hf)
  generalize collect nativeBody cap answers r₀ .empty = c at hkept hstops
  obtain ⟨answer, body, kept⟩ := c
  simp only at hkept hstops
  refine ⟨by rw [hkept]; exact hcap, ?_⟩
  cases hstops with
  | pending =>
      obtain ⟨consumed, haccount⟩ := hledger.account
      simp only [Rightly, hkept, ← hdelivered]
      exact haccount.foretells
  | @ended a s' hpoll =>
      obtain ⟨hresult, hnext⟩ := Prod.ext_iff.mp hpoll
      simp only [nativeBody] at hresult hnext
      have hread := Reading.readWhole_of_ended (Reading.ledger_poll hledger a) ?_ ?_
      · rw [Reading.delivered_poll, hresult, hdelivered, hnext] at hread
        refine ⟨hkept.symm, ?_⟩
        simpa [PollChunk.bytes] using hread
      · intro hf
        obtain ⟨e, he⟩ := hf
        simp only [Reading.poll, hresult, List.mem_append, List.mem_singleton] at he
        exact hnot ⟨e, he.resolve_right (by simp)⟩
      · simp [Reading.poll, hresult]
  | @error a e s' hpoll =>
      obtain ⟨hresult, hnext⟩ := Prod.ext_iff.mp hpoll
      simp only [nativeBody] at hresult hnext
      obtain ⟨consumed, haccount⟩ := (Reading.ledger_poll hledger a).account
      have hf : (r.poll a).failed := ⟨e, by simp [Reading.poll, hresult]⟩
      have hunread := (haccount.failed hf).2.2
      rw [hnext] at hunread
      have hother : e ≠ .tooLarge := by
        intro he
        exact pollChunk_ne_tooLarge a r.shared r.body (hresult.trans (by rw [he]))
      cases e with
      | tooLarge => exact absurd rfl hother
      | _ => exact hunread
  | @tooLarge a b s' hpoll hover =>
      obtain ⟨hresult, hnext⟩ := Prod.ext_iff.mp hpoll
      simp only [nativeBody] at hresult hnext
      have hnow := tooLarge_collected (Reading.ledger_poll hledger a)
      have hdelivered' : (r.poll a).delivered = r₀.delivered ++ (x ++ b) := by
        rw [Reading.delivered_poll, hresult, hdelivered, List.append_assoc]
        rfl
      rw [hdelivered', hnext] at hnow
      exact ⟨hnow.1, x ++ b, hover, hnow.2⟩

/-- The framing decides: with a whole body in the stream, its length and the
cap leave `collect` one answer besides asking for more and failing. -/
theorem Rightly.decided {limits : Limits} {kind : BodyKind} {pre before kept : Bytes} {cap : Nat}
    {sh : Shared} {done : Bool} {answer : CollectAnswer}
    (h : Rightly limits kind pre before cap kept sh done answer) {more consumed x rest : Bytes}
    (hwhole : Whole limits kind consumed x)
    (hstream : sh.io.io.received ++ more = pre ++ consumed ++ rest) :
    (answer = .pending → before ++ kept <+: x) ∧ (∀ b, answer = .ok b → before ++ b = x) ∧
      (answer = .error .tooLarge → before.length + cap < x.length) := by
  have hforetold : ∀ y, Foretells limits kind pre y sh → y <+: x := by
    intro y hy
    obtain ⟨arrived, hreceived, hall⟩ := hy
    refine hall more consumed x rest ?_ hwhole
    rw [hreceived, List.append_assoc, List.append_assoc] at hstream
    exact List.append_cancel_left hstream
  refine ⟨fun ha => ?_, fun b ha => ?_, fun ha => ?_⟩
  · subst ha
    exact hforetold _ h
  · subst ha
    obtain ⟨_, _, consumed', hwhole', hreceived⟩ := h
    rw [hreceived] at hstream
    have heq : consumed' ++ (sh.io.buf ++ more) = consumed ++ rest := by
      simp only [List.append_assoc] at hstream
      exact List.append_cancel_left hstream
    exact (hwhole'.unique hwhole heq).2.1
  · subst ha
    obtain ⟨_, y, hover, hy, _⟩ := h
    have hlen := (hforetold _ hy).length_le
    rw [List.length_append] at hlen
    omega

/-! ## 4. On a connection -/

/-- The body of the request being served, held by its handler. -/
def Conn.bodyMachine (env : Env) : BodyMachine PollAnswers Conn where
  poll a c :=
    match c.current with
    | some b => ((pollChunk a c.shared b).1, Conn.step env c (.body (.poll a)))
    | none => (.ended, c)
  done c := (c.current.map BodyState.done).getD true
  fail c := Conn.step env c (.body .abandon)

namespace Conn

/-- What the handler's `collect` does is body operations. -/
theorem collect_is_run (env : Env) (cap : Nat) (answers : List PollAnswers) (c : Conn)
    (g : Gathered) : ∃ ops : List BodyOp, (collect (bodyMachine env) cap answers c g).body
      = (ops.map Event.body).foldl (step env) c := by
  induction answers generalizing c g with
  | nil => exact ⟨[], rfl⟩
  | cons a rest ih =>
      cases hcurrent : c.current with
      | none =>
          have hpoll : (bodyMachine env).poll a c = (.ended, c) := by
            simp only [bodyMachine, hcurrent]
          simp only [collect, hpoll]
          exact ⟨[], rfl⟩
      | some b =>
          have hpoll : (bodyMachine env).poll a c
              = ((pollChunk a c.shared b).1, step env c (.body (.poll a))) := by
            simp only [bodyMachine, hcurrent]
          simp only [collect, hpoll]
          cases (pollChunk a c.shared b).1 with
          | pending =>
              obtain ⟨ops, hops⟩ := ih (step env c (.body (.poll a))) g
              exact ⟨.poll a :: ops, hops⟩
          | ended => exact ⟨[.poll a], rfl⟩
          | error e => exact ⟨[.poll a], rfl⟩
          | chunk y =>
              simp only
              split
              · split
                · exact ⟨[.poll a], rfl⟩
                · exact ⟨[.poll a, .abandon], rfl⟩
              · obtain ⟨ops, hops⟩ := ih (step env c (.body (.poll a)))
                  ({ g with total := g.total + y.length }.add y)
                exact ⟨.poll a :: ops, hops⟩

/-- A connection whose handler holds the body of a reading. -/
structure Holding (c : Conn) (r : Reading) : Prop where
  current : c.current = some r.body
  shared : c.shared = r.shared
  held : c.bodyHeld = true

theorem Holding.poll {c : Conn} {r : Reading} (h : Holding c r) (env : Env) (a : PollAnswers) :
    Holding (step env c (.body (.poll a))) (r.poll a) := by
  have hstep : step env c (.body (.poll a)) = stepBody c r.body (.poll a) := by
    simp only [step, h.current, h.held, ↓reduceIte]
  have heq : pollChunk a c.shared r.body = pollChunk a r.shared r.body := by rw [h.shared]
  rw [hstep]
  refine ⟨?_, ?_, h.held⟩
  · simp only [stepBody, heq, Reading.poll]
  · simp only [stepBody, heq, Reading.poll]

theorem Holding.fail {c : Conn} {r : Reading} (h : Holding c r) (env : Env)
    (hopen : r.body.done = false) :
    Holding (step env c (.body .abandon)) (nativeBody.fail r) := by
  have hstep : step env c (.body .abandon) = stepBody c r.body .abandon := by
    simp only [step, h.current, h.held, ↓reduceIte]
  rw [hstep]
  refine ⟨?_, ?_, ?_⟩
  · simp [stepBody, hopen, nativeBody, h.shared]
  · simp [stepBody, hopen, nativeBody, h.shared]
  · simp only [stepBody, hopen]
    exact h.held

/-- A handler's `collect` answers as that of the body it holds, and leaves the
connection with that body. -/
theorem Holding.collects {c : Conn} {r : Reading} (h : Holding c r) (env : Env) (cap : Nat)
    (answers : List PollAnswers) (g : Gathered) :
    (collect (bodyMachine env) cap answers c g).answer
        = (collect nativeBody cap answers r g).answer ∧
      (collect (bodyMachine env) cap answers c g).kept
        = (collect nativeBody cap answers r g).kept ∧
      Holding (collect (bodyMachine env) cap answers c g).body
        (collect nativeBody cap answers r g).body := by
  refine collect_sim (R := Holding) ?_ ?_ ?_ cap answers g h
  · intro a c r h
    have hpoll : (bodyMachine env).poll a c
        = ((pollChunk a c.shared r.body).1, step env c (.body (.poll a))) := by
      simp only [bodyMachine, h.current]
    rw [hpoll]
    exact ⟨by rw [h.shared]; rfl, h.poll env a⟩
  · intro c r h
    simp only [bodyMachine, h.current, nativeBody, Option.map_some, Option.getD_some]
  · intro c r h hopen
    simp only [bodyMachine, h.current, Option.map_some, Option.getD_some] at hopen
    exact h.fail env hopen

/-- In any run, a body that is not at its end is a reading of the stream behind
the head of the current request. -/
theorem holding_of_run (env : Env) (buffered : Bytes) (events : List Event) {b : BodyState}
    (hcurrent : (run env buffered events).current = some b)
    (hheld : (run env buffered events).bodyHeld = true) (hopen : b.done = false) :
    ∃ (pre : Bytes) (x : Incoming) (h : Head) (kind : BodyKind) (n : Nat) (r : Reading),
      Served env (run env buffered events).earlier pre ∧
      (run env buffered events).request = some x ∧ verdict env x.head = some (h, kind) ∧
      Reading.Ledger env.limits (pre ++ blankLines n ++ x.head) kind r ∧ ¬ r.failed ∧
      r.delivered = PollLog.delivered x.polls ∧ Holding (run env buffered events) r := by
  have hstream := (run_inv env buffered events).stream
  generalize run env buffered events = c at hcurrent hheld hstream ⊢
  cases hstream with
  | settled hs =>
      rw [hs.1 b (by simp [hcurrent])] at hopen
      cases hopen
  | spent _ _ hdone _ =>
      rw [hdone b (by simp [hcurrent])] at hopen
      cases hopen
  | @underway pre used n x h kind b₁ hserved hx hv hb₁ hkind hpolls ho =>
      obtain rfl : b₁ = b := Option.some.inj (hb₁.symm.trans hcurrent)
      have hnot : ¬ PollLog.failed x.polls :=
        Reading.not_failed (r := ⟨c.shared, b₁, x.polls, []⟩) fun p hp => Or.inr (hpolls p hp)
      exact ⟨pre, x, h, kind, n, ⟨c.shared, b₁, x.polls, []⟩, hserved, hx, hv,
        ⟨.reading ho hpolls, hkind, by simp, by simp⟩, hnot, rfl, hcurrent, rfl, hheld⟩

/-- `collect`, called by the handler of the current request. -/
def handlerCollect (env : Env) (cap : Nat) (answers : List PollAnswers) (c : Conn) :
    CollectOutcome Conn :=
  collect (bodyMachine env) cap answers c .empty

/-- **What a handler collects.** In any run, when the handler of the current
request holds a body that is not at its end, has perhaps taken some of it, and
now collects the rest with a cap, whatever the transport answers meanwhile:

* the requests before are served, and the body is framed as the current head
  says, right behind it;
* `collect` never holds more than its cap; what it returns, behind what the
  handler had taken, is the whole body that the stream holds there; when it
  answers `TooLarge`, more than the cap was carried by whatever whole body the
  stream begins, the body is given up or ended, and it counts as read only if
  it was read whole; with every other error it counts as not read
  (`Rightly`);
* so a whole body in the stream leaves `collect` one answer besides asking for
  more and failing, however it was cut up: the rest of that body if it fits
  the cap, and `TooLarge` if not;
* and all that happens to the connection is operations on that body, so every
  invariant of runs holds behind it. -/
theorem handler_collects (env : Env) (buffered : Bytes) (events : List Event) {b : BodyState}
    (hcurrent : (run env buffered events).current = some b)
    (hheld : (run env buffered events).bodyHeld = true) (hopen : b.done = false) (cap : Nat)
    (answers : List PollAnswers) :
    ∃ (pre : Bytes) (x : Incoming) (h : Head) (kind : BodyKind) (n : Nat) (b' : BodyState)
      (c : CollectOutcome Conn), c = handlerCollect env cap answers (run env buffered events) ∧
      Served env (run env buffered events).earlier pre ∧
      (run env buffered events).request = some x ∧ verdict env x.head = some (h, kind) ∧
      c.kept.bytes.length ≤ cap ∧ c.body.current = some b' ∧
      Rightly env.limits kind (pre ++ blankLines n ++ x.head) (PollLog.delivered x.polls) cap
        c.kept.bytes c.body.shared b'.done c.answer ∧
      (∀ more consumed y rest : Bytes, Whole env.limits kind consumed y →
        c.body.received ++ more = pre ++ blankLines n ++ x.head ++ consumed ++ rest →
        (c.answer = .pending → PollLog.delivered x.polls ++ c.kept.bytes <+: y) ∧
        (∀ z, c.answer = .ok z → z.length ≤ cap ∧ PollLog.delivered x.polls ++ z = y) ∧
        (c.answer = .error .tooLarge → (PollLog.delivered x.polls).length + cap < y.length)) ∧
      ∃ ops : List BodyOp, c.body = run env buffered (events ++ ops.map Event.body) := by
  obtain ⟨ops, hops⟩ := collect_is_run env cap answers (run env buffered events) .empty
  obtain ⟨pre, x, h, kind, n, r, hserved, hx, hv, hledger, hnot, hdelivered, hholding⟩ :=
    holding_of_run env buffered events hcurrent hheld hopen
  obtain ⟨hanswer, hkept, hholds⟩ := hholding.collects env cap answers .empty
  obtain ⟨hcap, hright⟩ := collect_rightly hledger hnot cap answers
  rw [← hkept] at hcap
  rw [← hkept, ← hanswer, ← hholds.shared, hdelivered] at hright
  refine ⟨pre, x, h, kind, n, _, _, rfl, hserved, hx, hv, hcap, hholds.current, hright,
    fun more consumed y rest hwhole hreceived => ?_, ops, ?_⟩
  · obtain ⟨hpending, hok, htoo⟩ := hright.decided hwhole hreceived
    refine ⟨hpending, fun z hz => ⟨?_, hok z hz⟩, htoo⟩
    rw [show (collect (bodyMachine env) cap answers _ .empty).answer = .ok z from hz] at hright
    rw [hright.1]
    exact hcap
  · rw [show run env buffered (events ++ ops.map Event.body)
      = (ops.map Event.body).foldl (step env) (run env buffered events) from List.foldl_append]
    exact hops

/-- A connection whose handler was called with the body still to come. -/
def expectingRun : Conn := run sampleEnv [] [.read (.ok expectRequest)]

/-- The transport takes the interim response; the body comes in two reads. -/
def twoReads : List PollAnswers :=
  [⟨[.ok 25], .ok, [.ok (ascii "h")]⟩, ⟨[], .ok, [.ok (ascii "i")]⟩, ⟨[], .ok, []⟩]

/-- It collects under a cap of two bytes. -/
theorem handler_collects_two_reads :
    (handlerCollect sampleEnv 2 twoReads expectingRun).answer = .ok (ascii "hi") ∧
      (handlerCollect sampleEnv 2 twoReads expectingRun).body.shared.bodyRead = true := by
  have hopen : expectingRun.current.map BodyState.done = some false := by decide +kernel
  obtain ⟨b, hcurrent, hopen⟩ := Option.map_eq_some_iff.mp hopen
  have hanswer : (handlerCollect sampleEnv 2 twoReads expectingRun).answer = .ok (ascii "hi") := by
    decide +kernel
  have h := handler_collects sampleEnv [] [.read (.ok expectRequest)] hcurrent rfl hopen 2 twoReads
  obtain ⟨pre, x, hd, kind, n, b', c, rfl, -, -, -, -, -, hright, -, -⟩ := h
  rw [show (handlerCollect sampleEnv 2 twoReads
      (run sampleEnv [] [.read (.ok expectRequest)])).answer
    = _ from hanswer] at hright
  exact ⟨hanswer, hright.2.1⟩

/-- One byte less, and the same body is too large. -/
example : (handlerCollect sampleEnv 1 twoReads expectingRun).answer = .error .tooLarge := by
  decide +kernel

end Conn

end ArmatureH1

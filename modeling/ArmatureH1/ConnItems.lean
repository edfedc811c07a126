/-
ArmatureH1.ConnItems — what a stream yields is what its response holds.

The history of a request says which items its response was made of, and
whether the stream came to its end; `Reply.body` spells the body out from that.
Here that history is compared with the events: whoever listens to the streams
alone, whenever the loop polls one, hears the items of the responses and their
ends, all of them and in this order (`replies_hold_streams`; for the items
alone, `items_in_order`). So an item is in no response but the one that is
being streamed, it is there once, and it is there as it came.
-/
import ArmatureH1.Handover

namespace ArmatureH1

open ByteString BodyState

/-! ## 1. Listening to the streams -/

/-- What a response has to show for an answer of its stream. A stream that
fails or panics leaves the response as it is. -/
def StreamAnswer.shows : StreamAnswer → Bool
  | .item _ | .ended => true
  | _ => false

/-- What the stream of a response must have answered. -/
def Reply.shown (r : Reply) : List StreamAnswer :=
  r.items.map .item ++ if r.ended then [.ended] else []

def Exchange.shown (x : Exchange) : List StreamAnswer := (x.reply.map Reply.shown).getD []

/-- The items of the response to a request. -/
def Exchange.items (x : Exchange) : List Bytes := (x.reply.map Reply.items).getD []

namespace Conn

/-- What all the responses of a connection show of their streams. -/
def shown (c : Conn) : List StreamAnswer := c.exchanges.flatMap Exchange.shown

/-- The answer of a stream that the loop gets with an event: it polls one only
where it waits for one. -/
def hears (c : Conn) : Event → List StreamAnswer
  | .stream a =>
    match c.pc with
    | .streaming _ _ => [a]
    | _ => []
  | _ => []

/-- Every answer of a stream that the loop gets, from here on. -/
def streamed (env : Env) (c : Conn) : List Event → List StreamAnswer
  | [] => []
  | e :: rest => c.hears e ++ streamed env (step env c e) rest

theorem streamed_append_singleton (env : Env) (c : Conn) (events : List Event) (e : Event) :
    streamed env c (events ++ [e])
      = streamed env c events ++ (events.foldl (step env) c).hears e := by
  induction events generalizing c with
  | nil => exact List.append_nil _
  | cons first rest ih =>
      rw [List.cons_append, streamed, ih, streamed, List.append_assoc, List.foldl_cons]

theorem hears_of_not_streaming {c : Conn} (h : ∀ a parked, c.pc ≠ .streaming a parked)
    (e : Event) : c.hears e = [] := by
  cases e with
  | stream a =>
      cases hpc : c.pc with
      | streaming b parked => exact absurd hpc (h b parked)
      | _ => simp only [hears, hpc]
  | _ => rfl

/-! ## 2. The history -/

/-- The response to the current request shows so much more. -/
theorem shown_more {c c' : Conn} {x y : Exchange} {more : List StreamAnswer}
    (hpast : c'.past = c.past) (hx : c.now = some x) (hy : c'.now = some y)
    (hshown : y.shown = x.shown ++ more) : c'.shown = c.shown ++ more := by
  simp only [shown, exchanges, hpast, hx, hy, Option.toList_some, List.flatMap_append,
    List.flatMap_singleton, hshown, List.append_assoc]

/-- What is noted about the current request is not about its stream. -/
theorem shown_noted {c c' : Conn} {f : Exchange → Exchange} (hpast : c'.past = c.past)
    (hnow : c'.now = c.now.map f) (hf : ∀ x ∈ c.now, (f x).shown = x.shown) :
    c'.shown = c.shown := by
  cases hx : c.now with
  | none =>
      rw [hx, Option.map_none] at hnow
      simp only [shown, exchanges, hpast, hx, hnow]
  | some x =>
      rw [hx, Option.map_some] at hnow
      have hmore : c'.shown = c.shown ++ [] :=
        shown_more hpast hx hnow ((hf x hx).trans (List.append_nil _).symm)
      rwa [List.append_nil] at hmore

/-- A request that has no response shows nothing. -/
theorem shown_of_unanswered {c : Conn} (h : Unanswered c) : ∀ x ∈ c.now, x.shown = [] := by
  obtain ⟨-, y, hy, hreply⟩ := h
  intro x hx
  rw [hy] at hx
  cases hx
  rw [Exchange.shown, hreply]
  rfl

section Writing

variable (env : Env) (c : Conn)

theorem flushOr_shown {c done : Conn} (h : done.shown = c.shown) (next : AfterFlush) :
    (flushOr next c done).shown = c.shown := by
  unfold flushOr
  split
  · exact h
  · rfl

/-- A wait with its flush, if there is anything to flush. -/
theorem flushOr_waits (next : AfterFlush) (pc : Pc) :
    (flushOr next c { c with pc := pc }).shown = c.shown := by
  refine flushOr_shown ?_ next
  rfl

theorem writeErrorHead_shown (version : Version) (status : Nat) :
    (writeErrorHead env version status c).shown = c.shown := by
  unfold writeErrorHead
  exact flushOr_waits _ .errorWritten (.ended .closed)

theorem writeError_shown (version : Version) (status : Nat) :
    (writeError env version status c).shown = c.shown := by
  unfold writeError settleContinue
  split
  · exact writeErrorHead_shown env c.dropContinue version status
  · split
    · exact writeErrorHead_shown env c version status
    · rfl

theorem callHandler_shown (h : Head) (kind : BodyKind) :
    (callHandler env h kind c).shown = c.shown := by
  rw [callHandler_eq]
  unfold admitted
  simp only
  split
  · rfl
  · split <;> rfl

/-- A request that has just been taken up has nothing to show. -/
theorem begun_shown (n : Nat) : (begun n c).shown = c.shown := by
  have hstart : (Exchange.start (c.shared.io.splitHead n).1).shown = [] := rfl
  simp only [shown, exchanges, begun, Option.toList_some, List.flatMap_append,
    List.flatMap_singleton, hstart, List.append_nil]

theorem startRequest_shown : (startRequest env c).shown = c.shown := by
  cases h : c.shared.io.headLength with
  | none =>
      unfold startRequest
      rw [h]
      rfl
  | some n =>
      rw [startRequest_eq env h, ← begun_shown c n]
      unfold judge
      split
      · exact writeError_shown env _ _ _
      · split
        · exact writeError_shown env _ _ _
        · exact callHandler_shown env _ _ _

theorem enterRead_shown : (enterRead env c).shown = c.shown := by
  unfold enterRead
  simp only
  split
  · exact startRequest_shown env (c.setIo _)
  · exact flushOr_waits (c.setIo _) .read _

theorem dispose_shown (d : Disposition) : (dispose env c d).shown = c.shown := by
  cases d with
  | keepAlive => exact enterRead_shown env c
  | close => rfl
  | upgrade =>
      unfold dispose
      simp only
      split <;> rfl

theorem conclude_shown (a : Answer) : (conclude env a c).shown = c.shown := by
  unfold conclude
  split
  · simp only
    split
    · exact dispose_shown env (c.setIo _) a.disposition
    · exact flushOr_shown (c := c.setIo _) (dispose_shown env _ a.disposition) (.finish a)
  · exact flushOr_shown (dispose_shown env c a.disposition) (.finish a)

variable {c}

/-- A response begins with nothing of its stream. -/
theorem respondHead_shown (h : ∀ x ∈ c.now, x.shown = []) (a : Answer) :
    (respondHead env a c).shown = c.shown := by
  have hanswered : ∀ c' : Conn, c'.past = c.past →
      c'.now = c.now.map (Exchange.answer ⟨a, env.date c.heads, [], false⟩) →
      c'.shown = c.shown := by
    intro c' hpast hnow
    exact shown_noted hpast hnow fun x hx => (h x hx).symm
  unfold respondHead
  simp only
  split
  · split
    · rw [conclude_shown]
      exact hanswered _ rfl rfl
    · rw [conclude_shown]
      exact hanswered _ rfl rfl
    · rw [flushOr_waits]
      exact hanswered _ rfl rfl
  · rw [conclude_shown]
    exact hanswered _ rfl rfl

theorem respond_shown (h : Unanswered c) (call : Call) (resp : Response) :
    (respond env call resp c).shown = c.shown := by
  have hresponded : ∀ (c' : Conn) (a : Answer), c'.past = c.past →
      c'.now = c.now.map (Exchange.responded resp) → (respondHead env a c').shown = c.shown := by
    intro c' a hpast hnow
    have hsame : c'.shown = c.shown := shown_noted hpast hnow fun x _ => rfl
    rw [← hsame]
    refine respondHead_shown env ?_ a
    rw [hnow]
    intro y hy
    obtain ⟨x, hx, rfl⟩ := Option.mem_map.mp hy
    exact shown_of_unanswered h x hx
  unfold respond settleContinue
  simp only
  split
  · exact hresponded _ _ rfl rfl
  · split
    · exact hresponded _ _ rfl rfl
    · exact shown_noted (f := Exchange.responded resp) rfl rfl fun x _ => rfl

end Writing

/-! ## 3. One step -/

section Steps

variable {env : Env} {c : Conn}

theorem failFlush_shown (c : Conn) (next : AfterFlush) : (failFlush c next).shown = c.shown := by
  cases next <;> rfl

theorem stepFlushing_shown (written : Nat) (next : AfterFlush) (e : Event) :
    (stepFlushing env c written next e).shown = c.shown := by
  unfold stepFlushing
  split
  · split
    · exact failFlush_shown c next
    · rfl
  · split
    · split
      · exact failFlush_shown c next
      · rfl
    · rfl
  · split
    · rfl
    · cases next with
      | finish a => exact dispose_shown env { c with out := [] } a.disposition
      | _ => rfl
  · split
    · rfl
    · exact failFlush_shown c next
  · exact failFlush_shown c next
  · rfl

theorem stepSettling_shown (hout : OutputInv env c) {next : AfterSettle}
    (hpc : c.pc = .settling next) (e : Event) : (stepSettling env c next e).shown = c.shown := by
  have hplace := hout.place
  rw [hpc] at hplace
  have hunanswered : Unanswered c := hplace.1.1
  have hrecord : ∀ io : IoState, (c.record io).shown = c.shown := by
    intro io
    exact shown_noted (f := Exchange.sentInterim _) rfl rfl fun x _ => rfl
  have hnone : ∀ io : IoState, ∀ x ∈ (c.record io).now, x.shown = [] := by
    intro io y hy
    obtain ⟨x, hx, rfl⟩ := Option.mem_map.mp hy
    exact shown_of_unanswered hunanswered x hx
  have hfail : ∀ c' : Conn, (failSettle c' next).shown = c'.shown := by
    intro c'
    cases next <;> rfl
  unfold stepSettling
  split
  · split
    · exact hrecord _
    · cases next with
      | respond a => exact (respondHead_shown env (hnone _) a).trans (hrecord _)
      | error version status =>
          exact (writeErrorHead_shown env _ version status).trans (hrecord _)
    · exact (hfail _).trans (hrecord _)
  · exact hfail c
  · rfl

theorem stepReading_shown (started : Bool) (e : Event) :
    (stepReading env c started e).shown = c.shown := by
  unfold stepReading
  split
  · rfl
  · split
    · rfl
    · split
      · exact startRequest_shown env (c.setIo _)
      · exact writeError_shown env (c.setIo _) _ _
      · rfl
  · split
    · exact writeError_shown env c _ _
    · rfl
  · rfl

theorem stepFirstPoll_shown {call : Call} {held : Bytes} (h : Unanswered c) (e : Event) :
    (stepFirstPoll env c call held e).shown = c.shown := by
  unfold stepFirstPoll
  split
  · exact flushOr_waits _ (.wait call) _
  · exact respond_shown env (c := { c with out := held ++ c.out }) h call _
  · rfl
  · rfl

theorem stepHandling_shown {call : Call} (h : Unanswered c) (e : Event) :
    (stepHandling env c call e).shown = c.shown := by
  unfold stepHandling
  split
  · exact respond_shown env h call _
  · rfl
  · split
    · rfl
    · exact writeError_shown env c _ _
  · exact writeError_shown env c _ _
  · rfl

/-- An item is noted as it came, behind those that came before it. -/
theorem addItem_shown {a : Answer} (h : Streaming c a) (b : Bytes) :
    (addItem a b c).shown = c.shown ++ [.item b] := by
  obtain ⟨-, -, x, r, hx, hr, -, hended, -⟩ := h
  refine shown_more (y := Exchange.onReply (Reply.addItem b) x) rfl hx ?_ ?_
  · simp [addItem, hx]
  · simp [Exchange.shown, Exchange.onReply, hr, Reply.shown, Reply.addItem, hended]

/-- So is the end of the stream. -/
theorem addEnd_shown {a : Answer} (h : Streaming c a) :
    (addEnd a c).shown = c.shown ++ [.ended] := by
  obtain ⟨-, -, x, r, hx, hr, -, hended, -⟩ := h
  refine shown_more (y := Exchange.onReply Reply.finish x) rfl hx ?_ ?_
  · simp [addEnd, hx]
  · simp [Exchange.shown, Exchange.onReply, hr, Reply.shown, Reply.finish, hended]

theorem stepStreaming_shown (hout : OutputInv env c) {a : Answer} {parked : Bool}
    (hpc : c.pc = .streaming a parked) (e : Event) :
    (stepStreaming env c a parked e).shown
      = c.shown ++ (c.hears e).filter StreamAnswer.shows := by
  have hplace := hout.place
  rw [hpc] at hplace
  have hstreaming : Streaming c a := hplace.1
  have hheard : ∀ answer, c.hears (.stream answer) = [answer] := by
    intro answer
    simp only [hears, hpc]
  cases e with
  | stream answer =>
      rw [hheard]
      cases answer with
      | pending =>
          refine Eq.trans ?_ (List.append_nil _).symm
          unfold stepStreaming
          simp only
          split
          · rfl
          · exact flushOr_waits c (.stream a true) _
      | item b =>
          refine Eq.trans ?_ (addItem_shown hstreaming b)
          unfold stepStreaming
          simp only
          split
          · exact flushOr_shown rfl (.stream a false)
          · rfl
      | failed => exact (flushOr_waits c .close _).trans (List.append_nil _).symm
      | ended => exact (conclude_shown env (addEnd a c) a).trans (addEnd_shown hstreaming)
      | panic => exact (List.append_nil _).symm
  | bodyDeadline =>
      refine Eq.trans ?_ (List.append_nil _).symm
      unfold stepStreaming
      simp only
      split <;> rfl
  | _ => exact (List.append_nil _).symm

theorem stepBody_shown (b : BodyState) (op : BodyOp) : (stepBody c b op).shown = c.shown := by
  cases op with
  | poll a => exact shown_noted (f := Exchange.polled _ _ _) rfl rfl fun x _ => rfl
  | abandon =>
      simp only [stepBody]
      split
      · rfl
      · exact shown_noted (f := Exchange.polled _ _ _) rfl rfl fun x _ => rfl
  | drop => rfl

theorem stepStale_shown (i : Nat) (b : BodyState) (op : BodyOp) :
    (stepStale c i b op).shown = c.shown := by
  cases op with
  | poll a => rfl
  | abandon =>
      simp only [stepStale]
      split <;> rfl
  | drop => rfl

/-- **What one step adds is what the loop hears with it.** -/
theorem step_shown (hout : OutputInv env c) (e : Event) :
    (step env c e).shown = c.shown ++ (c.hears e).filter StreamAnswer.shows := by
  have hplace := hout.place
  have hsilent : (∀ a parked, c.pc ≠ .streaming a parked) → ∀ c' : Conn, c'.shown = c.shown →
      c'.shown = c.shown ++ (c.hears e).filter StreamAnswer.shows := by
    intro hpc c' hsame
    rw [hears_of_not_streaming hpc e, hsame]
    exact (List.append_nil _).symm
  have hloop : (stepPc env c e).shown = c.shown ++ (c.hears e).filter StreamAnswer.shows := by
    unfold stepPc
    cases hpc : c.pc with
    | reading started => exact hsilent (by simp [hpc]) _ (stepReading_shown started e)
    | flushing written next => exact hsilent (by simp [hpc]) _ (stepFlushing_shown written next e)
    | settling next => exact hsilent (by simp [hpc]) _ (stepSettling_shown hout hpc e)
    | firstPoll call held =>
        rw [hpc] at hplace
        exact hsilent (by simp [hpc]) _ (stepFirstPoll_shown hplace.1.1 e)
    | handling call =>
        rw [hpc] at hplace
        exact hsilent (by simp [hpc]) _ (stepHandling_shown hplace.1.1 e)
    | streaming a parked => exact stepStreaming_shown hout hpc e
    | ended r => exact hsilent (by simp [hpc]) _ rfl
  cases e with
  | body op =>
      refine Eq.trans ?_ (List.append_nil _).symm
      unfold step
      cases c.current with
      | none => rfl
      | some b =>
          simp only
          split
          · exact stepBody_shown b op
          · rfl
  | staleBody i op =>
      refine Eq.trans ?_ (List.append_nil _).symm
      unfold step
      simp only
      cases c.stale[i]? with
      | none => rfl
      | some b =>
          simp only
          split
          · rfl
          · exact stepStale_shown i b op
  | _ => exact hloop

end Steps

/-! ## 4. Every run -/

theorem init_shown (env : Env) (buffered : Bytes) : (init env buffered).shown = [] :=
  enterRead_shown env _

/-- **Responses hold what their streams yield.** After any run, the items of
all the responses, each with its end behind it if it has one, are the items
and ends that the loop got from streams, in this order. -/
theorem replies_hold_streams (env : Env) (buffered : Bytes) (events : List Event) :
    (run env buffered events).exchanges.flatMap Exchange.shown
      = (streamed env (init env buffered) events).filter StreamAnswer.shows := by
  induction events using List.reverseRecOn with
  | nil => exact init_shown env buffered
  | append_singleton events e ih =>
      rw [streamed_append_singleton, List.filter_append, ← ih, run_append_singleton]
      by_cases hlive : Live (run env buffered events)
      · exact step_shown (run_out_of_live env buffered events hlive) e
      · obtain ⟨r, hr⟩ : ∃ r, (run env buffered events).pc = .ended r := by
          by_contra hno
          exact hlive fun r hr => hno ⟨r, hr⟩
        have hsilent : (run env buffered events).hears e = [] :=
          hears_of_not_streaming (by simp [hr]) e
        have hnothing : ((events.foldl (step env) (init env buffered)).hears e).filter
            StreamAnswer.shows = [] := congrArg (List.filter StreamAnswer.shows) hsilent
        rw [step_of_ended env hr, hnothing, List.append_nil]

theorem items_of_shown (x : Exchange) : x.shown.flatMap StreamAnswer.items = x.items := by
  unfold Exchange.shown Exchange.items
  cases x.reply with
  | none => rfl
  | some r =>
      have hend : (if r.ended then [StreamAnswer.ended] else []).flatMap StreamAnswer.items
          = [] := by
        split <;> rfl
      have hitems : (r.items.map StreamAnswer.item).flatMap StreamAnswer.items = r.items := by
        rw [List.flatMap_map]
        exact List.flatMap_singleton' r.items
      simp only [Option.map_some, Option.getD_some, Reply.shown, List.flatMap_append, hend, hitems,
        List.append_nil]

theorem items_of_shows (answers : List StreamAnswer) :
    (answers.filter StreamAnswer.shows).flatMap StreamAnswer.items
      = answers.flatMap StreamAnswer.items := by
  induction answers with
  | nil => rfl
  | cons a rest ih =>
      rw [List.flatMap_cons, ← ih]
      cases a <;> rfl

/-- **The items of the responses are those of the streams.** -/
theorem items_in_order (env : Env) (buffered : Bytes) (events : List Event) :
    (run env buffered events).exchanges.flatMap Exchange.items
      = (streamed env (init env buffered) events).flatMap StreamAnswer.items := by
  have hshown := replies_hold_streams env buffered events
  rw [← items_of_shows, ← hshown, List.flatMap_assoc]
  simp only [items_of_shown]

end Conn

end ArmatureH1

/-
ArmatureH1.ConnReplies — what a client receives.

The results about whole runs that follow from the two invariants of the
loop: every response goes out whole and in the order of the requests, an
interim `100 Continue` stands directly in front of its own response or
nowhere, and a streamed body delimits itself, unless the stream yields an
empty chunk.
-/
import ArmatureH1.ConnOutput
import ArmatureH1.ChunkedRoundTrip

namespace ArmatureH1

open ByteString BodyState ChunkedDecoder

/-- The loop waits for a request or has returned without an error. -/
def Pc.quiet : Pc → Bool
  | .reading _ => true
  | .ended .closed => true
  | .ended (.upgraded _) => true
  | _ => false

/-- A request without a body. -/
def getRequest : Bytes := ascii "GET / HTTP/1.1\r\nHost: a\r\n\r\n"

/-- A request whose body waits for an interim response. -/
def expectRequest : Bytes :=
  ascii "POST / HTTP/1.1\r\nHost: a\r\nContent-Length: 2\r\nExpect: 100-continue\r\n\r\n"

/-- What the tokenizer finds in the two. -/
def sampleHttparse : Httparse := fun _ region =>
  if region = getRequest then
    .ok (some ⟨some (ascii "GET"), some (ascii "/"), some 1, [(ascii "Host", ascii "a")]⟩)
  else if region = expectRequest then
    .ok (some ⟨some (ascii "POST"), some (ascii "/"), some 1,
      [(ascii "Host", ascii "a"), (ascii "Content-Length", ascii "2"),
        (ascii "Expect", ascii "100-continue")]⟩)
  else .ok none

/-- A connection with the default configuration. -/
def sampleEnv : Env where
  limits := Limits.default
  serverName := none
  coalescing := .source
  httparse := sampleHttparse
  date := fun _ => ascii "Thu, 01 Jan 1970 00:00:00 GMT"

/-- An interim response that is no longer owed was sent whole or not at all. -/
theorem Entry.whole {env : Env} {x : Exchange} (h : Entry env x 0) :
    x.interim = [] ∨ x.interim = continueBytes := by
  rcases h.sent with ⟨h1, _⟩ | h1
  · exact Or.inl h1
  · rw [Nat.sub_zero, List.take_length] at h1
    exact Or.inr h1

theorem Entry.interim_prefix {env : Env} {x : Exchange} {p : Nat} (h : Entry env x p) :
    x.interim <+: continueBytes := by
  rcases h.sent with ⟨h1, _⟩ | h1
  · rw [h1]
    exact List.nil_prefix
  · rw [h1]
    exact List.take_prefix _ _

namespace Conn

/-- Every request so far, in order. -/
def exchanges (c : Conn) : List Exchange := c.past ++ c.now.toList

/-- What was written for each request, and the error response. -/
def written (c : Conn) : List (Bytes × Option Reply) × Option Fault :=
  (c.exchanges.map fun x => (x.interim, x.reply), c.fault)

/-! ## 1. Whole and in order -/

theorem wire_eq_exchanges (c : Conn) :
    c.wire = c.exchanges.flatMap Exchange.wire ++ (c.fault.map Fault.bytes).getD [] := by
  simp [wire, exchanges]

theorem OutputInv.sent_prefix {env : Env} {c : Conn} (h : OutputInv env c) : c.sent <+: c.wire := by
  have hb := h.balanced
  unfold Balanced at hb
  split at hb
  · exact hb
  · exact ⟨_, hb⟩

/-- Nothing is held while the loop waits for a request, or once it has
returned. -/
theorem OutputInv.sent_of_quiet {env : Env} {c : Conn} (h : OutputInv env c)
    (hquiet : c.pc.quiet = true) : c.sent = c.wire := by
  have hb := h.balanced
  have hplace := h.place
  have hout : c.out = [] := by
    cases hpc : c.pc with
    | reading => rw [hpc] at hplace; exact hplace.2
    | ended r =>
        rw [hpc] at hplace
        cases r with
        | closed => exact hplace.1
        | upgraded => exact hplace.1
        | ioError => rw [hpc] at hquiet; cases hquiet
        | panicked => rw [hpc] at hquiet; cases hquiet
    | _ => rw [hpc] at hquiet; cases hquiet
  cases hpc : c.pc with
  | reading => simpa [Balanced, unsent, hpc, hout] using hb
  | ended r =>
      cases r with
      | closed => simpa [Balanced, unsent, hpc, hout] using hb
      | upgraded => simpa [Balanced, unsent, hpc, hout] using hb
      | ioError => rw [hpc] at hquiet; cases hquiet
      | panicked => rw [hpc] at hquiet; cases hquiet
  | _ => rw [hpc] at hquiet; cases hquiet

theorem wire_of_written {c c' : Conn} (h : c'.written = c.written) : c'.wire = c.wire := by
  have hlist := congrArg Prod.fst h
  have hfault : c'.fault = c.fault := congrArg Prod.snd h
  have hflat : ∀ xs : List Exchange, xs.flatMap Exchange.wire
      = (xs.map fun x => (x.interim, x.reply)).flatMap fun w =>
        w.1 ++ (w.2.map Reply.bytes).getD [] := by
    intro xs
    rw [List.flatMap_map]
    rfl
  rw [wire_eq_exchanges, wire_eq_exchanges, hfault, hflat, hflat]
  exact congrArg (fun l : List (Bytes × Option Reply) =>
    l.flatMap (fun w => w.1 ++ (w.2.map Reply.bytes).getD [])
      ++ (c.fault.map Fault.bytes).getD []) hlist

/-- **Every response, whole and in request order.** As long as the transport
takes what it is given in time, what it was given is at every moment a
beginning of the requests' interim responses and responses, one request
after the other, with an error response last; and it is all of it whenever
the loop waits for a request or has returned. Each earlier request has a
complete response, and every response is what `write_response` makes of the
response of that request's handler. How much output may be held back does
not show: a loop that flushes every response puts out the same bytes. -/
theorem replies_in_order (env : Env) (buffered : Bytes) (events : List Event)
    (hok : ∀ e ∈ events, WritesOk e) :
    (run env buffered events).sent <+: (run env buffered events).wire ∧
    ((run env buffered events).pc.quiet = true →
      (run env buffered events).sent
        = (run env buffered events).exchanges.flatMap Exchange.wire
          ++ ((run env buffered events).fault.map Fault.bytes).getD []) ∧
    (∀ x ∈ (run env buffered events).past, x.Answered) ∧
    (∀ x ∈ (run env buffered events).exchanges, ∀ r, x.reply = some r → x.Makes env r.answer) ∧
    ∀ (buffered' : Bytes) (events' : List Event), (∀ e ∈ events', WritesOk e) →
      (run env buffered events).pc.quiet = true →
      (run { env with coalescing := .eager } buffered' events').pc.quiet = true →
      (run { env with coalescing := .eager } buffered' events').written
        = (run env buffered events).written →
      (run { env with coalescing := .eager } buffered' events').sent
        = (run env buffered events).sent := by
  have h := run_out env buffered hok
  refine ⟨h.sent_prefix, ?_, fun x hx => (h.past x hx).2, ?_, ?_⟩
  · intro hquiet
    rw [h.sent_of_quiet hquiet, wire_eq_exchanges]
  · intro x hx r hr
    rcases List.mem_append.mp hx with hx | hx
    · exact (h.past x hx).1.made r hr |>.answer
    · exact (h.now x (by simpa using hx)).made r hr |>.answer
  · intro buffered' events' hok' hquiet hquiet' hwritten
    have h' := run_out { env with coalescing := .eager } buffered' hok'
    rw [h.sent_of_quiet hquiet, h'.sent_of_quiet hquiet', wire_of_written hwritten]

/-- Two pipelined requests: the first response is held back until the second
is there, and both go out in one buffer that is written in two parts. -/
def pipelinedRun : Conn :=
  run sampleEnv [] [.read (.ok (getRequest ++ getRequest)),
    .handler (.ready ⟨200, [], .full (ascii "hi")⟩), .handler (.ready ⟨404, [], .empty⟩),
    .write (.ok 7), .write (.ok 1000), .flush .ok]

/-- Two pipelined requests, the second answered with a stream of two items:
the first response goes out with the head of the second, in two parts. -/
def pipelinedStreamRun : Conn :=
  run sampleEnv [] [.read (.ok (getRequest ++ getRequest)),
    .handler (.ready ⟨200, [], .full (ascii "hi")⟩), .handler (.ready ⟨200, [], .stream⟩),
    .write (.ok 7), .write (.ok 1000), .flush .ok, .stream (.item (ascii "a")),
    .stream .pending, .write (.ok 1000), .flush .ok, .stream (.item (ascii "b")),
    .stream .ended, .write (.ok 1000), .flush .ok]

theorem replies_in_order_pipelined :
    pipelinedStreamRun.exchanges.map (fun x => x.reply.map Reply.items)
        = [some [], some [ascii "a", ascii "b"]] ∧
      pipelinedStreamRun.sent = pipelinedStreamRun.exchanges.flatMap Exchange.wire
        ++ (pipelinedStreamRun.fault.map Fault.bytes).getD [] :=
  ⟨by decide +kernel,
    (replies_in_order sampleEnv [] _ (by simp [WritesOk, WriteOk])).2.1 (by decide +kernel)⟩

/-! ## 2. The interim response -/

theorem expectsContinue_iff {h : Head} : (Call.ofHead h).expectsContinue = true ↔
    h.version = .http11 ∧ ∃ v, (h.all .expect).getLast? = some v ∧
      eqIgnoreAsciiCase v (ascii "100-continue") = true := by
  simp only [Call.ofHead, Bool.and_eq_true, beq_iff_eq, Option.any_eq_true]

/-- Once a response is written, nothing is owed. -/
theorem OutputInv.pending_zero {env : Env} {c : Conn} (h : OutputInv env c)
    (hanswered : ¬ Unanswered c) : c.pending = 0 := by
  have hplace := h.place
  cases hpc : c.pc with
  | reading => rw [hpc] at hplace; exact hplace.1.1
  | flushing w next =>
      rw [hpc] at hplace
      cases next with
      | read => exact hplace.1
      | call => exact absurd hplace.1 hanswered
      | wait => exact hplace.2
      | stream => exact hplace.1
      | close => exact hplace.1
      | finish => exact hplace.1
      | errorWritten => exact hplace.1
  | settling next => rw [hpc] at hplace; exact absurd hplace.1.1 hanswered
  | firstPoll => rw [hpc] at hplace; exact hplace.2.1
  | handling => rw [hpc] at hplace; exact absurd hplace.1.1 hanswered
  | streaming => rw [hpc] at hplace; exact hplace.1.1
  | ended r =>
      rw [hpc] at hplace
      cases r with
      | closed => exact hplace.2.1
      | upgraded => exact hplace.2.1
      | ioError => exact hplace
      | panicked => exact hplace.resolve_left hanswered

/-- Every request is an earlier one or the current one. -/
theorem exchanges_split {c : Conn} {before after : List Exchange} {x : Exchange}
    (h : c.exchanges = before ++ x :: after) :
    (∀ y ∈ before, y ∈ c.past) ∧ (x ∈ c.past ∨ (c.now = some x ∧ after = [])) := by
  unfold exchanges at h
  cases hnow : c.now with
  | none =>
      rw [hnow, Option.toList_none, List.append_nil] at h
      rw [h]
      exact ⟨fun y hy => List.mem_append_left _ hy, Or.inl (by simp)⟩
  | some z =>
      rw [hnow, Option.toList_some] at h
      -- the current request is the last of the list
      rcases List.eq_nil_or_concat after with rfl | ⟨front, last, rfl⟩
      · obtain ⟨hpast, hlast⟩ := List.append_inj' h rfl
        cases hlast
        rw [hpast]
        exact ⟨fun y hy => hy, Or.inr ⟨rfl, rfl⟩⟩
      · rw [List.concat_eq_append, ← List.cons_append, ← List.append_assoc] at h
        obtain ⟨hpast, -⟩ := List.append_inj' h rfl
        rw [hpast]
        exact ⟨fun y hy => List.mem_append_left _ hy, Or.inl (by simp)⟩

/-- What is owed for a request that has its response. -/
theorem OutputInv.entry {env : Env} {c : Conn} (h : OutputInv env c) {x : Exchange}
    {before after : List Exchange} (hx : c.exchanges = before ++ x :: after) :
    ∃ p, Entry env x p ∧ (x.reply ≠ none ∨ after ≠ [] ∨ c.fault ≠ none → p = 0) := by
  obtain ⟨-, hpast | ⟨hnow, hafter⟩⟩ := exchanges_split hx
  · exact ⟨0, (h.past x hpast).1, fun _ => rfl⟩
  · refine ⟨c.pending, h.now x (by rw [hnow]; rfl), ?_⟩
    intro hanswered
    apply h.pending_zero
    rintro ⟨hfault, y, hy, hreply⟩
    obtain rfl := Option.some.inj (hnow.symm.trans hy)
    rcases hanswered with h | h | h
    · exact h hreply
    · exact h hafter
    · exact h hfault

/-- **The interim response stands in front of its own response or nowhere.**
Whatever the order of polls, partial writes, timeouts and streams, the
transport receives a beginning of the following: everything of the earlier
requests, all of them answered, then the interim response of the request,
then its response or the error response. Once either of these is on its way
the interim response was sent whole or not at all. It is sent only to an
HTTP/1.1 client whose last `Expect` is `100-continue`, and only when the body
was polled before there was a response. -/
theorem continue_placed (env : Env) (buffered : Bytes) (events : List Event)
    (hok : ∀ e ∈ events, WritesOk e) (before after : List Exchange) (x : Exchange)
    (hx : (run env buffered events).exchanges = before ++ x :: after) :
    (run env buffered events).wire
      = before.flatMap Exchange.wire ++ x.interim ++ (x.reply.map Reply.bytes).getD []
        ++ after.flatMap Exchange.wire
        ++ ((run env buffered events).fault.map Fault.bytes).getD [] ∧
    (run env buffered events).sent <+: (run env buffered events).wire ∧
    ((run env buffered events).pc.quiet = true →
      (run env buffered events).sent = (run env buffered events).wire) ∧
    (∀ y ∈ before, y.Answered) ∧
    x.interim <+: continueBytes ∧
    (x.reply ≠ none ∨ after ≠ [] ∨ (run env buffered events).fault ≠ none →
      x.interim = [] ∨ x.interim = continueBytes) ∧
    (x.interim ≠ [] → x.polledFirst = true ∧
      ∃ h kind v, verdict env x.request.head = some (h, kind) ∧ h.version = .http11 ∧
        (h.all .expect).getLast? = some v ∧ eqIgnoreAsciiCase v (ascii "100-continue") = true) := by
  have h := run_out env buffered hok
  generalize run env buffered events = c at h hx ⊢
  obtain ⟨p, hentry, hzero⟩ := h.entry hx
  refine ⟨?_, h.sent_prefix, h.sent_of_quiet, ?_, hentry.interim_prefix, ?_, ?_⟩
  · rw [wire_eq_exchanges, hx, List.flatMap_append, List.flatMap_cons]
    simp only [Exchange.wire, List.append_assoc]
  · exact fun y hy => (h.past y ((exchanges_split hx).1 y hy)).2
  · intro hanswered
    rw [hzero hanswered] at hentry
    exact hentry.whole
  · intro hne
    obtain ⟨hd, kind, hv, hexpects⟩ := hentry.asked (Or.inr hne)
    obtain ⟨hversion, v, hlast, hcont⟩ := expectsContinue_iff.mp hexpects
    exact ⟨hentry.polled hne, hd, kind, v, hv, hversion, hlast, hcont⟩

/-- A handler that polls the body, of whose interim response nine bytes go
out, and then answers without waiting: the rest goes out before the answer. -/
def hastyRun : Conn :=
  run sampleEnv [] [.read (.ok expectRequest), .body (.poll ⟨[.ok 9], .pending, []⟩),
    .handler (.ready ⟨200, [], .full (ascii "hi")⟩), .settle [.ok 3, .ok 100] .ok,
    .write (.ok 1000), .flush .ok]

theorem continue_placed_hasty : ∃ x, hastyRun.exchanges = [x] ∧ x.interim ≠ [] ∧
    hastyRun.sent = continueBytes ++ (x.reply.map Reply.bytes).getD [] := by
  have hran : hastyRun.exchanges.length = 1 ∧
      hastyRun.exchanges.all (fun x => x.reply.isSome && !x.interim.isEmpty) = true ∧
      hastyRun.fault.isNone = true ∧ hastyRun.pc.quiet = true := by
    decide +kernel
  obtain ⟨hlen, hsome, hfault, hquiet⟩ := hran
  obtain ⟨x, hx⟩ := List.length_eq_one_iff.mp hlen
  rw [hx] at hsome
  simp only [List.all_cons, List.all_nil, Bool.and_true, Bool.and_eq_true, Bool.not_eq_true',
    List.isEmpty_eq_false_iff, Option.isSome_iff_ne_none] at hsome
  obtain ⟨hwire, -, hsent, -, -, hwhole, -⟩ :=
    continue_placed sampleEnv [] _ (by simp [WritesOk, WriteOk]) [] [] x hx
  have hinterim := (hwhole (Or.inl hsome.1)).resolve_left hsome.2
  refine ⟨x, hx, hsome.2, (hsent hquiet).trans (hwire.trans ?_)⟩
  have hfault' : hastyRun.fault = none := Option.isNone_iff_eq_none.mp hfault
  rw [hinterim]
  change _ ++ (hastyRun.fault.map Fault.bytes).getD [] = _
  rw [hfault']
  simp

/-! ## 3. Streamed bodies -/

/-- Only a stream to an HTTP/1.0 client is not framed. -/
theorem closeDelimited_of_http11 {serverName : Option Bytes} {call : Call} {resp : Response}
    {consumed : Bool} (h : call.version = .http11) :
    (Answer.of serverName call resp consumed).closeDelimited = false := by
  simp [Answer.of, h]

/-- The body of a stream that has ended. -/
theorem body_of_drawn {r : Reply} (hdrawn : r.Drawn) (hended : r.ended = true)
    (hclose : r.answer.closeDelimited = false) :
    r.body = r.items.flatMap writeChunk ++ writeLastChunk [] := by
  obtain ⟨hwrites, hbody⟩ := hdrawn hended
  have hframe : r.answer.frame = writeChunk := by
    funext b
    simp [Answer.frame, hclose]
  simp [Reply.body, hwrites, hbody, hended, hframe, Answer.terminator, hclose]

/-- **A streamed body delimits itself exactly when no yielded chunk is
empty.** The response to an HTTP/1.1 request whose stream yielded `r.items`
and ended is on the wire as its head with its body right behind it, and the
crate's own decoder reads that body back as the chunks that were yielded,
leaving what follows, if and only if none of them was empty. -/
theorem streamed_body_delimited_iff (env : Env) (buffered : Bytes) (events : List Event)
    (hok : ∀ e ∈ events, WritesOk e) (x : Exchange)
    (hx : x ∈ (run env buffered events).exchanges) (h : Head) (kind : BodyKind)
    (hv : verdict env x.request.head = some (h, kind)) (hversion : h.version = .http11) (r : Reply)
    (hr : x.reply = some r) (hended : r.ended = true) (limits : Limits)
    (hbody : r.items.flatten.length ≤ limits.maxBodyBytes) (hhead : 2 ≤ limits.maxHeadBytes)
    (rest : Bytes) :
    (∃ pre post, (run env buffered events).wire = pre ++ (r.answer.head r.date ++ r.body) ++ post) ∧
    ((new limits).drain (r.body ++ rest) = ⟨r.items.flatten, [], .ended rest⟩
      ↔ ∀ b ∈ r.items, b ≠ []) := by
  have hinv := run_out env buffered hok
  obtain ⟨before, after, hsplit⟩ := List.append_of_mem hx
  obtain ⟨p, hentry, -⟩ := hinv.entry hsplit
  obtain ⟨⟨h', kind', resp, consumed, hv', -, hanswer⟩, hdrawn, -⟩ := hentry.made r hr
  have hclose : r.answer.closeDelimited = false := by
    rw [hv] at hv'
    cases hv'
    rw [hanswer]
    exact closeDelimited_of_http11 hversion
  refine ⟨?_, ?_⟩
  · refine ⟨before.flatMap Exchange.wire ++ x.interim, after.flatMap Exchange.wire
      ++ ((run env buffered events).fault.map Fault.bytes).getD [], ?_⟩
    rw [wire_eq_exchanges, hsplit, List.flatMap_append, List.flatMap_cons]
    simp [Exchange.wire, hr, Reply.bytes]
  · rw [body_of_drawn hdrawn hended hclose]
    exact drain_written_iff hbody hhead rest

/-- A stream of the given chunks in answer to a plain request, with a
`Pending` in front of its end. -/
def streamedRun (chunks : List Bytes) : Conn :=
  run sampleEnv [] ([.read (.ok getRequest), .handler (.ready ⟨200, [], .stream⟩),
    .write (.ok 1000), .flush .ok] ++ chunks.map (fun b => .stream (.item b)) ++
    [.stream .pending, .write (.ok 1000), .flush .ok, .stream .ended, .write (.ok 1000),
      .flush .ok])

/-- The chunks `a` and `b` come back. -/
theorem streamed_body_delimited_two : ∃ x ∈ (streamedRun [ascii "a", ascii "b"]).exchanges,
    ∃ r, x.reply = some r ∧ r.items = [ascii "a", ascii "b"] ∧
      (new Limits.default).drain (r.body ++ getRequest) = ⟨ascii "ab", [], .ended getRequest⟩ := by
  have hran : (streamedRun [ascii "a", ascii "b"]).exchanges.length = 1 ∧
      (streamedRun [ascii "a", ascii "b"]).exchanges.all (fun x =>
        x.reply.any (fun r => r.ended && r.items == [ascii "a", ascii "b"])
          && (verdict sampleEnv x.request.head).any fun v => v.1.version == .http11) = true := by
    decide +kernel
  obtain ⟨hlen, hall⟩ := hran
  obtain ⟨x, hx⟩ := List.length_eq_one_iff.mp hlen
  rw [hx] at hall
  simp only [List.all_cons, List.all_nil, Bool.and_true, Bool.and_eq_true, Option.any_eq_true,
    beq_iff_eq] at hall
  obtain ⟨⟨r, hr, hended, hitems⟩, ⟨h, kind⟩, hv, hversion⟩ := hall
  have hmem : x ∈ (streamedRun [ascii "a", ascii "b"]).exchanges := by simp [hx]
  refine ⟨x, hmem, r, hr, hitems, ?_⟩
  have hback := (streamed_body_delimited_iff sampleEnv [] _ (by simp [WritesOk, WriteOk]) x hmem h
    kind hv hversion r hr hended Limits.default (by rw [hitems]; decide +kernel)
    (by decide +kernel) getRequest).2.mpr (by rw [hitems]; decide)
  rw [hitems] at hback
  exact hback

/-- With an empty chunk between them, the decoder ends behind `a`, and the
rest of the body is left over as if it were the next response. -/
theorem empty_chunk_ends_body : ∃ x ∈ (streamedRun [ascii "a", [], ascii "b"]).exchanges,
    ∃ r, x.reply = some r ∧ r.ended = true ∧ r.items = [ascii "a", [], ascii "b"] ∧
      (new Limits.default).drain r.body
        = ⟨ascii "a", [], .ended (ascii "1\r\nb\r\n0\r\n\r\n")⟩ ∧
      (new Limits.default).drain r.body ≠ ⟨r.items.flatten, [], .ended []⟩ := by
  have hran : (streamedRun [ascii "a", [], ascii "b"]).exchanges.length = 1 ∧
      (streamedRun [ascii "a", [], ascii "b"]).exchanges.all (fun x =>
        x.reply.any fun r => r.ended && r.items == [ascii "a", [], ascii "b"] &&
          r.body == ascii "1\r\na\r\n0\r\n\r\n1\r\nb\r\n0\r\n\r\n") = true := by
    decide +kernel
  obtain ⟨hlen, hall⟩ := hran
  obtain ⟨x, hx⟩ := List.length_eq_one_iff.mp hlen
  rw [hx] at hall
  simp only [List.all_cons, List.all_nil, Bool.and_true, Bool.and_eq_true, Option.any_eq_true,
    beq_iff_eq] at hall
  obtain ⟨r, hr, ⟨hended, hitems⟩, hbody⟩ := hall
  refine ⟨x, by simp [hx], r, hr, hended, hitems, ?_, ?_⟩
  · rw [hbody]
    decide +kernel
  · rw [hbody, hitems]
    decide +kernel

end Conn

end ArmatureH1

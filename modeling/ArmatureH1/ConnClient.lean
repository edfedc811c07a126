/-
ArmatureH1.ConnClient — a strict client at the other end of the connection.

What a connection puts out for requests that are answered in one piece, the
client of `Client` reads back as the statuses and bodies the handlers gave,
response by response, interim responses skipped and no byte left over. One
thing can go wrong: for a status that `reason_phrase` does not know, the
writer leaves out the space behind the three digits along with the phrase,
and a client that insists on it (RFC 9112 section 4) reads no further.
-/
import ArmatureH1.ConnReplies
import ArmatureH1.ResponseFraming

namespace ArmatureH1

open ByteString BodyState Client

/-! ## 1. The status line -/

/-- A final status is written with three digits. -/
theorem writeU64_three {n : Nat} (hlow : 100 ≤ n) (hhigh : n < 1000) :
    ∃ d₁ d₂ d₃, writeU64 n = [d₁, d₂, d₃] := by
  have hten : n / 10 ≠ 0 := by omega
  have hhundred : n / 10 / 10 ≠ 0 := by omega
  have hthousand : n / 10 / 10 / 10 = 0 := by omega
  refine ⟨(48 + n / 10 / 10 % 10).toUInt8, (48 + n / 10 % 10).toUInt8, (48 + n % 10).toUInt8, ?_⟩
  show Numeral.render 10 (fun d => (48 + d).toUInt8) (17 + 1 + 1 + 1) n [] = _
  rw [Numeral.render, if_neg hten, Numeral.render, if_neg hhundred, Numeral.render,
    if_pos hthousand]

/-- A status line with a space behind the digits is read. -/
theorem statusLine_digits (version : Version) {d₁ d₂ d₃ : UInt8} {reason : Bytes}
    (hdigits : ∀ d ∈ [d₁, d₂, d₃], isAsciiDigit d = true)
    (hreason : reason.all isReasonByte = true) :
    statusLine (version.asBytes ++ [SP] ++ [d₁, d₂, d₃] ++ ([SP] ++ reason))
      = some (decimal [d₁, d₂, d₃]) := by
  have hread : statusLine (version.asBytes ++ [SP] ++ [d₁, d₂, d₃] ++ ([SP] ++ reason))
      = if isAsciiDigit d₁ && isAsciiDigit d₂ && isAsciiDigit d₃ && reason.all isReasonByte then
          some (decimal [d₁, d₂, d₃])
        else none := by
    cases version <;> rfl
  rw [hread, hdigits d₁ (by simp), hdigits d₂ (by simp), hdigits d₃ (by simp), hreason]
  rfl

/-- A status line is read exactly when its status has a reason phrase. -/
theorem statusLine_statusText (version : Version) {status : Nat} (hlow : 200 ≤ status)
    (hhigh : status ≤ 599) :
    statusLine (statusText version status)
        = (if reasonPhrase status = [] then none else some status) ∧
      oneLine (statusText version status) = true := by
  refine ⟨?_, oneLine_statusText version status⟩
  obtain ⟨d₁, d₂, d₃, hwritten⟩ := writeU64_three (n := status) (by omega) (by omega)
  obtain ⟨⟨-, hdigits⟩, hdecimal⟩ := writeU64_spec (n := status) (by omega)
  rw [hwritten] at hdigits hdecimal
  rw [statusText, hwritten]
  by_cases hphrase : reasonPhrase status = []
  · -- nothing behind the digits, not even the space
    rw [hphrase, if_pos rfl]
    cases version <;> rfl
  · rw [if_neg (by simpa using hphrase), if_neg hphrase,
      statusLine_digits version hdigits (reasonPhrase_readable status), hdecimal]

/-! ## 2. One response -/

namespace Exchange

/-- The request's method. -/
def method (env : Env) (x : Exchange) : Method :=
  ((verdict env x.request.head).map fun v => v.1.method).getD .get

/-- The status its handler answered with. -/
def status (x : Exchange) : Nat := (x.response.map Response.status).getD 0

/-- The body its handler answered with, if it gave one in one piece. -/
def fullBody (x : Exchange) : Bytes :=
  match x.response with
  | some ⟨_, _, .full b⟩ => b
  | _ => []

/-- What the client should read. -/
def expected (env : Env) (x : Exchange) : Nat × Bytes :=
  (x.status, if x.method env = .head ∨ x.status = 204 ∨ x.status = 304 then [] else x.fullBody)

/-- A request that was accepted, was not a CONNECT, and was answered with a
final status and a body in one piece. -/
def Plain (env : Env) (x : Exchange) : Prop :=
  ∃ h kind resp, verdict env x.request.head = some (h, kind) ∧ h.method ≠ .connect ∧
    x.response = some resp ∧ 200 ≤ resp.status ∧ resp.status ≤ 599 ∧
    (resp.body = .empty ∨ ∃ b, resp.body = .full b ∧ b.length < 2 ^ 64)

end Exchange

/-- `write_response` takes a response with a final status as it is. -/
theorem answer_of_final (serverName : Option Bytes) (call : Call) {resp : Response}
    (consumed : Bool) (hlow : 200 ≤ resp.status) (hhigh : resp.status ≤ 599) :
    (Answer.of serverName call resp consumed).status = resp.status ∧
      (Answer.of serverName call resp consumed).body = resp.body ∧
      (Answer.of serverName call resp consumed).isHeadRequest = call.isHeadRequest ∧
      (Answer.of serverName call resp consumed).upgrading = false := by
  have hfinal : isFinalStatus resp.status call.wantsUpgrade = true := by
    simp [isFinalStatus, hlow, hhigh]
  have h101 : resp.status ≠ 101 := by omega
  simp [Answer.of, hfinal, h101]

theorem forbidsBodyFraming_final {status : Nat} (hlow : 200 ≤ status) :
    forbidsBodyFraming status = true ↔ status = 204 ∨ status = 304 := by
  simp only [forbidsBodyFraming, Bool.or_eq_true, beq_iff_eq, Bool.and_eq_true, decide_eq_true_eq]
  omega

/-- The head of a response is read by its status line. -/
theorem readHead_answer (a : Answer) {date : Bytes} (hdate : validFieldValue date = true)
    (hlow : 200 ≤ a.status) (hhigh : a.status ≤ 599) (rest : Bytes) :
    Client.readHead (a.head date ++ rest) = if reasonPhrase a.status = [] then none
      else some (a.status, (headFields a.version ⟨a.status, a.headers⟩ a.outBody date a.keepAlive
        a.isHeadRequest).map fun f => (f.1, trimOws f.2), rest) := by
  obtain ⟨hstatus, hline⟩ := statusLine_statusText a.version hlow hhigh
  have h := readHead_written _ hline _ (writes_headFields a.version ⟨a.status, a.headers⟩ a.outBody
    a.keepAlive a.isHeadRequest hdate) rest
  rw [Answer.head, writeHeadFor_eq, writeStatusLine_eq]
  refine h.trans ?_
  rw [hstatus]
  split <;> rfl

/-- **One response.** It is read as the handler gave it, and what follows it
is left, exactly when its status has a reason phrase. -/
theorem readResponse_reply (limits : Limits) {serverName : Option Bytes} {h : Head}
    {resp : Response}
    {consumed : Bool} {r : Reply}
    (hanswer : r.answer = Answer.of serverName (Call.ofHead h) resp consumed)
    (hdate : validFieldValue r.date = true) (hconnect : h.method ≠ .connect)
    (hlow : 200 ≤ resp.status) (hhigh : resp.status ≤ 599)
    (hbody : resp.body = .empty ∨ ∃ b, resp.body = .full b ∧ b.length < 2 ^ 64) (fuel : Nat)
    (rest : Bytes) :
    readResponse limits h.method (fuel + 1) (r.bytes ++ rest)
      = if reasonPhrase resp.status = [] then none
        else some ((resp.status, if h.method = .head ∨ resp.status = 204 ∨ resp.status = 304 then []
          else match resp.body with | .full b => b | _ => []), rest) := by
  obtain ⟨hstatus, habody, hhead, hup⟩ :=
    answer_of_final serverName (Call.ofHead h) consumed hlow hhigh
  rw [← hanswer] at hstatus habody hhead hup
  have hisHead : r.answer.isHeadRequest = decide (h.method = .head) := by
    rw [hhead]
    rfl
  obtain ⟨n, hlen, hn, hbytes⟩ : ∃ n, r.answer.outBody.len = some n ∧ n < 2 ^ 64 ∧
      (match resp.body with | .full b => b | _ => []).length = n := by
    rcases hbody with hb | ⟨b, hb, hlt⟩
    · exact ⟨0, by simp [Answer.outBody, habody, hb, OutBody.len], by decide, by rw [hb]; rfl⟩
    · exact ⟨b.length, by simp [Answer.outBody, habody, hb, OutBody.len], hlt, by rw [hb]⟩
  have hread := readHead_answer r.answer hdate (by omega) (by omega) (r.body ++ rest)
  rw [hstatus] at hread
  rw [Reply.bytes, List.append_assoc, readResponse, hread]
  by_cases hphrase : reasonPhrase resp.status = []
  · simp only [if_pos hphrase]
  · simp only [if_neg hphrase]
    have hfinal : ¬ (resp.status < 200 ∧ resp.status ≠ 101) := by omega
    rw [if_neg hfinal]
    by_cases hnone : h.method = .head ∨ resp.status = 204 ∨ resp.status = 304
    · -- no body is written, and none is expected
      have hwrites : r.answer.writesBody = false := by
        simp only [Answer.writesBody, hisHead, hup, hstatus]
        rcases hnone with hm | hs
        · simp [hm]
        · simp [(forbidsBodyFraming_final hlow).mpr hs]
      have hempty : r.body = [] := by simp [Reply.body, hwrites]
      have hframing : ∀ fields, framing h.method resp.status fields = some .none := by
        intro fields
        rw [framing, if_pos (hnone.imp_right Or.inr)]
      simp only [hframing, hempty, readBody, if_pos hnone, List.nil_append, Option.map_some]
    · have hforbids : forbidsBodyFraming resp.status = false := by
        rw [← Bool.not_eq_true, forbidsBodyFraming_final hlow]
        exact fun hs => hnone (Or.inr hs)
      have hmethod : h.method ≠ .head := fun hm => hnone (Or.inl hm)
      have hnotHead : r.answer.isHeadRequest = false := by rw [hisHead]; simpa using hmethod
      have hwrites : r.answer.writesBody = true := by
        simp [Answer.writesBody, hnotHead, hup, hstatus, hforbids]
      have hwritten : r.body = match resp.body with | .full b => b | _ => [] := by
        rcases hbody with hb | ⟨b, hb, -⟩ <;> simp [Reply.body, hwrites, habody, hb]
      have hframing := framing_headFields r.answer.version
        ⟨resp.status, r.answer.headers⟩ r.date r.answer.keepAlive hmethod hconnect hlow
          hforbids hlen hn
      rw [hnotHead]
      simp only [hframing, if_neg hnone]
      rw [hwritten, readBody, if_pos (by rw [List.length_append, hbytes]; omega)]
      simp only [Option.map_some]
      rw [← hbytes, List.take_left, List.drop_left]

/-! ## 3. A whole connection -/

/-- A request whose plain answer is written, whole. -/
structure Exchange.Written (env : Env) (x : Exchange) : Prop where
  plain : x.Plain env
  reply : ∃ r, x.reply = some r ∧ Made env x r
  interim : x.interim = [] ∨ x.interim = continueBytes

/-- The client reads the response to a request, behind its interim response. -/
theorem readResponse_exchange (limits : Limits) {env : Env}
    (hdate : ∀ n, validFieldValue (env.date n) = true) {x : Exchange} (hx : x.Written env)
    (rest : Bytes) :
    readResponse limits (x.method env) (x.wire ++ rest).length (x.wire ++ rest)
      = if reasonPhrase x.status = [] then none else some (x.expected env, rest) := by
  obtain ⟨h, kind, resp, hv, hconnect, hresp, hlow, hhigh, hbody⟩ := hx.plain
  obtain ⟨r, hr, ⟨h', kind', resp', consumed, hv', hresp', hanswer⟩, -, n, hdated⟩ := hx.reply
  have hsame : (h, kind) = (h', kind') := Option.some.inj (hv.symm.trans hv')
  cases hsame
  obtain rfl := Option.some.inj (hresp.symm.trans hresp')
  have hmethod : x.method env = h.method := by simp [Exchange.method, hv]
  have hstatus : x.status = resp.status := by simp [Exchange.status, hresp]
  have hfull : x.fullBody = match resp.body with | .full b => b | _ => [] := by
    unfold Exchange.fullBody
    rw [hresp]
    obtain ⟨status, headers, body⟩ := resp
    cases body <;> rfl
  have hone := fun fuel => readResponse_reply limits hanswer
    (by rw [hdated]; exact hdate n) hconnect
    hlow hhigh hbody fuel rest
  have hpos : 2 ≤ (r.bytes ++ rest).length := by
    have hversion : 2 ≤ r.answer.version.asBytes.length := by cases r.answer.version <;> decide
    simp only [Reply.bytes, Answer.head, writeHeadFor_eq, writeStatusLine, List.length_append]
    omega
  have hwire : x.wire = x.interim ++ r.bytes := by simp [Exchange.wire, hr]
  rw [hwire, hmethod, Exchange.expected, hmethod, hstatus, hfull]
  rcases hx.interim with hnone | hwhole
  · rw [hnone, List.nil_append]
    obtain ⟨fuel, hfuel⟩ := Nat.exists_eq_add_of_le hpos
    rw [hfuel, Nat.add_comm 2 fuel]
    exact hone (fuel + 1)
  · rw [hwhole, List.append_assoc]
    obtain ⟨fuel, hfuel⟩ : ∃ fuel, (continueBytes ++ (r.bytes ++ rest)).length = fuel + 1 + 1 :=
      ⟨(continueBytes ++ (r.bytes ++ rest)).length - 2, by rw [List.length_append]; omega⟩
    rw [hfuel, readResponse_continue]
    exact hone fuel

/-- The client reads response after response, up to the first whose status
has no reason phrase. -/
theorem readResponses_exchanges (limits : Limits) {env : Env}
    (hdate : ∀ n, validFieldValue (env.date n) = true) : ∀ {xs : List Exchange},
    (∀ x ∈ xs, x.Written env) →
    readResponses limits (xs.map (Exchange.method env)) (xs.flatMap Exchange.wire)
      = if ∀ x ∈ xs, reasonPhrase x.status ≠ [] then some (xs.map (Exchange.expected env), [])
        else none := by
  intro xs
  induction xs with
  | nil => intro _; rfl
  | cons x xs ih =>
      intro hxs
      have hhead := readResponse_exchange limits hdate (hxs x (by simp)) (xs.flatMap Exchange.wire)
      have htail := ih fun y hy => hxs y (by simp [hy])
      rw [List.map_cons, List.flatMap_cons, readResponses, hhead]
      by_cases hphrase : reasonPhrase x.status = []
      · rw [if_pos hphrase, if_neg (fun hall => hall x (by simp) hphrase)]
      · rw [if_neg hphrase]
        simp only [htail, List.forall_mem_cons, hphrase, ne_eq, not_false_eq_true, true_and]
        split <;> simp

namespace Conn

/-- In a connection that waits for a request or has returned, without an
error response, every request that was answered in one piece has its answer
on the wire. -/
theorem OutputInv.written {env : Env} {c : Conn} (h : OutputInv env c) (hquiet : c.pc.quiet = true)
    (hfault : c.fault = none) {x : Exchange} (hx : x ∈ c.exchanges) (hplain : x.Plain env) :
    x.Written env := by
  obtain ⟨before, after, hsplit⟩ := List.append_of_mem hx
  obtain ⟨p, hentry, hzero⟩ := h.entry hsplit
  have hanswered : ∃ r, x.reply = some r := by
    rcases (exchanges_split hsplit).2 with hpast | ⟨hnow, -⟩
    · obtain ⟨r, hr, -⟩ := (h.past x hpast).2
      exact ⟨r, hr⟩
    · have hover : Over c := by
        have hplace := h.place
        cases hpc : c.pc with
        | reading => rw [hpc] at hplace; exact hplace.1.over
        | ended r =>
            rw [hpc] at hplace
            cases r with
            | closed => exact hplace.2.2
            | upgraded => exact hplace.2.over
            | ioError => rw [hpc] at hquiet; cases hquiet
            | panicked => rw [hpc] at hquiet; cases hquiet
        | _ => rw [hpc] at hquiet; cases hquiet
      rcases hover x (by rw [hnow]; rfl) with ⟨r, hr, -⟩ | ⟨-, hne⟩ | ⟨-, r, hr, -⟩
      · exact ⟨r, hr⟩
      · exact absurd hfault hne
      · exact ⟨r, hr⟩
  obtain ⟨r, hr⟩ := hanswered
  rw [hzero (Or.inl (by simp [hr]))] at hentry
  exact ⟨hplain, ⟨r, hr, hentry.made r hr⟩, hentry.whole⟩

/-- **A strict client reads back what the handlers answered exactly when
every status has a reason phrase.** Whatever the mix of methods, versions,
fields and bodies in one piece, once the connection waits or has returned,
everything it has sent parses into the statuses and bodies of the handlers'
answers with no byte left over, unless a status is one that `reason_phrase`
does not know: then the client cannot read its status line. -/
theorem client_reads_back_iff (env : Env) (buffered : Bytes) (events : List Event)
    (hok : ∀ e ∈ events, WritesOk e) (hquiet : (run env buffered events).pc.quiet = true)
    (hfault : (run env buffered events).fault = none)
    (hdate : ∀ n, validFieldValue (env.date n) = true)
    (hplain : ∀ x ∈ (run env buffered events).exchanges, x.Plain env) (limits : Limits) :
    Client.read limits ((run env buffered events).exchanges.map (Exchange.method env))
        (run env buffered events).sent
      = some ((run env buffered events).exchanges.map (Exchange.expected env))
    ↔ ∀ x ∈ (run env buffered events).exchanges, reasonPhrase x.status ≠ [] := by
  have h := run_out env buffered hok
  have hsent := h.sent_of_quiet hquiet
  generalize run env buffered events = c at h hquiet hfault hplain hsent ⊢
  have hread := readResponses_exchanges limits hdate fun x hx =>
    h.written hquiet hfault hx (hplain x hx)
  rw [hsent, wire_eq_exchanges, hfault, Option.map_none, Option.getD_none, List.append_nil,
    Client.read, hread]
  by_cases hphrase : ∀ x ∈ c.exchanges, reasonPhrase x.status ≠ []
  · rw [if_pos hphrase]
    exact ⟨fun _ => hphrase, fun _ => rfl⟩
  · rw [if_neg hphrase]
    exact ⟨fun hnone => absurd hnone (by simp), fun hall => absurd hall hphrase⟩

/-- The two pipelined answers, 200 with a body and 404 without. -/
theorem client_reads_back_pipelined :
    Client.read Limits.default (pipelinedRun.exchanges.map (Exchange.method sampleEnv))
        pipelinedRun.sent
      = some (pipelinedRun.exchanges.map (Exchange.expected sampleEnv)) := by
  have hran : pipelinedRun.exchanges.all (fun x =>
        (verdict sampleEnv x.request.head).any (fun v => v.1.method != .connect) &&
          x.response.any fun resp => 200 ≤ resp.status && resp.status ≤ 599 &&
            (resp.body == .empty || resp.body == .full (ascii "hi"))) = true ∧
      pipelinedRun.exchanges.all (fun x => !(reasonPhrase x.status).isEmpty) = true ∧
      pipelinedRun.fault.isNone = true ∧ pipelinedRun.pc.quiet = true := by
    decide +kernel
  obtain ⟨hplain, hphrase, hfault, hquiet⟩ := hran
  have hdate : validFieldValue (sampleEnv.date 0) = true := by decide +kernel
  refine (client_reads_back_iff sampleEnv [] _ (by simp [WritesOk, WriteOk]) hquiet
    (Option.isNone_iff_eq_none.mp hfault) (fun _ => hdate) ?_ Limits.default).mpr ?_
  · intro x hx
    have hx' := List.all_eq_true.mp hplain x hx
    simp only [Bool.and_eq_true, Bool.or_eq_true, Option.any_eq_true, bne_iff_ne, beq_iff_eq,
      decide_eq_true_eq] at hx'
    obtain ⟨⟨⟨h, kind⟩, hv, hmethod⟩, resp, hresp, ⟨hlow, hhigh⟩, hbody⟩ := hx'
    refine ⟨h, kind, resp, hv, hmethod, hresp, hlow, hhigh, hbody.imp_right fun hb => ?_⟩
    exact ⟨ascii "hi", hb, by decide⟩
  · intro x hx
    have hx' := List.all_eq_true.mp hphrase x hx
    simpa using hx'

/-- A handler answers 418. -/
def unregisteredRun : Conn :=
  run sampleEnv [] [.read (.ok getRequest), .handler (.ready ⟨418, [], .full (ascii "hi")⟩),
    .write (.ok 1000), .flush .ok]

/-- The status line is `HTTP/1.1 418` and no space, and the client cannot
read it. -/
theorem unregistered_status_unreadable :
    unregisteredRun.pc.quiet = true ∧ unregisteredRun.fault.isNone = true ∧
      unregisteredRun.sent.take 14 = ascii "HTTP/1.1 418\r\n" ∧
      unregisteredRun.exchanges.map (Exchange.expected sampleEnv) = [(418, ascii "hi")] ∧
      Client.read Limits.default (unregisteredRun.exchanges.map (Exchange.method sampleEnv))
        unregisteredRun.sent = none := by
  decide +kernel

end Conn

end ArmatureH1

/-
ArmatureH1.ConnHeard — what a client takes for a response.

`ConnClient` is about connections whose answers are all in one piece. Here
the answers may be streams, a stream may break off, and the connection may
end in an error response of the server's own. A client that reads strictly
then gets each answer with the body that was streamed, and the error response
behind them; and when a chunked stream broke off it can tell, since it does
not get to the end of that response (`client_hears`). A stream to an HTTP/1.0
client is delimited by the end of the connection, and there is nothing by
which its client could tell.

Left out is what a strict client cannot read (`Reply.Fits`): a status without
a reason phrase, whose status line is short of a space; an empty item, which
ends a chunked body; a tunnel, which is a `CONNECT` that a handler answers
with success; and bodies beyond what the client has room for.
-/
import ArmatureH1.ConnPersists
import ArmatureH1.ConnClient
import ArmatureH1.ChunkedSplit
import ArmatureH1.FramingTheorems

namespace ArmatureH1

open ByteString BodyState Client ChunkedDecoder

/-! ## 1. A coding that has been trimmed -/

/-- What is stripped from a value. -/
theorem trimOws_split (v : Bytes) : ∃ front back, v = front ++ (trimOws v ++ back) ∧
    (∀ b ∈ front, isOws b = true) ∧ ∀ b ∈ back, isOws b = true := by
  have hback : ∀ s : Bytes, s = s.rdropWhile isOws ++ (s.reverse.takeWhile isOws).reverse := by
    intro s
    rw [List.rdropWhile, ← List.reverse_append, List.takeWhile_append_dropWhile,
      List.reverse_reverse]
  refine ⟨v.takeWhile isOws, ((v.dropWhile isOws).reverse.takeWhile isOws).reverse, ?_, ?_, ?_⟩
  · rw [trimOws, ← hback, List.takeWhile_append_dropWhile]
  · exact fun b hb => List.mem_takeWhile_imp hb
  · exact fun b hb => List.mem_takeWhile_imp (List.mem_reverse.mp hb)

/-- Stripping a list does nothing to its elements. -/
theorem elements_trimOws (v : Bytes) : elements (trimOws v) = elements v := by
  obtain ⟨front, back, hsplit, hfront, hback⟩ := trimOws_split v
  have hcomma : ∀ ows : Bytes, (∀ b ∈ ows, isOws b = true) → 44 ∉ ows := by
    intro ows hows hmem
    have := hows 44 hmem
    revert this
    decide
  generalize trimOws v = middle at hsplit ⊢
  subst hsplit
  obtain ⟨init, last, hm, hmb⟩ := splitOn_append_notMem (s := middle) (hcomma back hback)
  obtain ⟨first, tail, hmb', hall⟩ := splitOn_notMem_append (t := middle ++ back)
    (hcomma front hfront)
  rw [elements, elements, hall, List.map_cons, trimOws_ows_append hfront, ← List.map_cons, ← hmb',
    hmb, hm, List.map_append, List.map_append, List.map_singleton, List.map_singleton,
    trimOws_append_ows last hback]

theorem isAscii_trimOws {v : Bytes} (h : isAscii v = true) : isAscii (trimOws v) = true := by
  rw [isAscii, List.all_eq_true] at h ⊢
  exact fun b hb => h b (mem_of_mem_trimOws hb)

theorem teFramesChunked_trimOws {v : Bytes} (h : teFramesChunked v = true) :
    teFramesChunked (trimOws v) = true := by
  have helements := elements_trimOws v
  unfold elements at helements
  unfold teFramesChunked at h ⊢
  rw [Bool.and_eq_true] at h ⊢
  rw [helements]
  exact ⟨isAscii_trimOws h.1, h.2⟩

/-! ## 2. Heads -/

/-- What the head of a response says of itself. -/
structure Answer.To (method : Method) (a : Answer) : Prop where
  status : a.status = 101 ∨ 200 ≤ a.status ∧ a.status ≤ 599
  isHead : a.isHeadRequest = decide (method = .head)
  upgrading : a.upgrading = true → a.status = 101
  closeDelimited : a.closeDelimited = (a.version == .http10 && a.body == .stream
    && !a.isHeadRequest && !forbidsBodyFraming a.status)
  closes : a.closeDelimited = true → a.keepAlive = false

theorem answer_to (serverName : Option Bytes) (h : Head) (resp : Response) (consumed : Bool) :
    (Answer.of serverName (Call.ofHead h) resp consumed).To h.method where
  status := by
    have hstatus : (Answer.of serverName (Call.ofHead h) resp consumed).status
        = if isFinalStatus resp.status (Call.ofHead h).wantsUpgrade then resp.status else 500 := rfl
    rw [hstatus]
    split
    · rename_i hfinal
      simp only [isFinalStatus, Bool.or_eq_true, Bool.and_eq_true, decide_eq_true_eq,
        beq_iff_eq] at hfinal
      exact hfinal.symm.imp And.left id
    · exact .inr ⟨by decide, by decide⟩
  isHead := rfl
  upgrading := Answer.upgrading_of
  closeDelimited := rfl
  closes := by
    intro hclose
    rw [Answer.of] at hclose ⊢
    simp only at hclose ⊢
    rw [hclose]
    simp

section Heads

variable {method : Method} {a : Answer}

/-- A body is written where the client expects one. -/
theorem Answer.To.writesBody_iff (h : a.To method) : a.writesBody = true ↔
    method ≠ .head ∧ forbidsBodyFraming a.status = false ∧ 200 ≤ a.status := by
  have h101 : forbidsBodyFraming 101 = true := by decide
  simp only [Answer.writesBody, h.isHead, Bool.and_eq_true, Bool.not_eq_true',
    decide_eq_false_iff_not]
  constructor
  · rintro ⟨⟨hhead, -⟩, hforbids⟩
    refine ⟨hhead, hforbids, ?_⟩
    rcases h.status with hs | hs
    · rw [hs, h101] at hforbids
      cases hforbids
    · exact hs.1
  · rintro ⟨hhead, hforbids, -⟩
    refine ⟨⟨hhead, ?_⟩, hforbids⟩
    cases hup : a.upgrading with
    | false => rfl
    | true =>
        rw [h.upgrading hup, h101] at hforbids
        cases hforbids

theorem framing_none {status : Nat} (fields : List (Bytes × Bytes))
    (h : method = .head ∨ forbidsBodyFraming status = true ∨ status < 200) :
    framing method status fields = some .none := by
  refine if_pos ?_
  simp only [forbidsBodyFraming, Bool.or_eq_true, beq_iff_eq, Bool.and_eq_true,
    decide_eq_true_eq] at h
  rcases h with h | ((h | h) | ⟨-, h⟩) | h
  · exact .inl h
  · exact .inr (.inr (.inl h))
  · exact .inr (.inr (.inr h))
  · exact .inr (.inl h)
  · exact .inr (.inl h)

/-- A status line whose status has a reason phrase is read. -/
theorem statusLine_known (version : Version) {status : Nat}
    (hstatus : status = 101 ∨ 200 ≤ status ∧ status ≤ 599) (hphrase : reasonPhrase status ≠ []) :
    statusLine (statusText version status) = some status := by
  rcases hstatus with rfl | ⟨hlow, hhigh⟩
  · cases version <;> decide +kernel
  · rw [(statusLine_statusText version hlow hhigh).1, if_neg hphrase]

/-- The fields of a head, as they are read. -/
def readBack (version : Version) (resp : ResponseHead) (body : OutBody) (date : Bytes)
    (keepAlive headRequest : Bool) : List (Bytes × Bytes) :=
  (headFields version resp body date keepAlive headRequest).map fun f => (f.1, trimOws f.2)

theorem readHead_known (version : Version) (resp : ResponseHead) (body : OutBody) {date : Bytes}
    (hdate : validFieldValue date = true) (keepAlive headRequest : Bool)
    (hstatus : resp.status = 101 ∨ 200 ≤ resp.status ∧ resp.status ≤ 599)
    (hphrase : reasonPhrase resp.status ≠ []) (rest : Bytes) :
    Client.readHead (writeHeadFor version resp body date keepAlive headRequest ++ rest)
      = some (resp.status, readBack version resp body date keepAlive headRequest, rest) := by
  have h := readHead_written _ (oneLine_statusText version resp.status) _
    (writes_headFields version resp body keepAlive headRequest hdate) rest
  rw [writeHeadFor_eq, writeStatusLine_eq]
  refine h.trans ?_
  rw [statusLine_known version hstatus hphrase]
  rfl

/-- A status that a client reads on from is not one of a final response. -/
theorem not_interim {status : Nat} (hstatus : status = 101 ∨ 200 ≤ status ∧ status ≤ 599) :
    ¬ (status < 200 ∧ status ≠ 101) := by
  omega

/-- What a stream is framed with. -/
theorem framing_chunked (version : Version) (resp : ResponseHead) (date : Bytes) (keepAlive : Bool)
    (hhead : method ≠ .head) (htunnel : method = .connect → 300 ≤ resp.status)
    (hfinal : 200 ≤ resp.status) (hforbids : forbidsBodyFraming resp.status = false) :
    framing method resp.status (readBack version resp .chunked date keepAlive false)
      = some (if version = .http10 then .untilClose else .chunked) := by
  have hnone : ¬ (method = .head ∨ resp.status < 200 ∨ resp.status = 204 ∨ resp.status = 304) := by
    simp only [forbidsBodyFraming, Bool.or_eq_false_iff, beq_eq_false_iff_ne] at hforbids
    rintro (h | h | h | h)
    · exact hhead h
    · omega
    · exact hforbids.1.1 h
    · exact hforbids.1.2 h
  have h304 : resp.status ≠ 304 := fun h => hnone (.inr (.inr (.inr h)))
  have hconnect : ¬ (method = .connect ∧ resp.status < 300) := by
    rintro ⟨hm, hs⟩
    have := htunnel hm
    omega
  -- a stream has no length, so none of the handler's is kept
  have hlengths : keptLengths version resp .chunked false = [] := by
    rcases keptLengths_cases version resp .chunked false with h | ⟨v, -, -, -, hparse, -, hagrees⟩
    · exact h
    · rw [hagrees h304 rfl] at hparse
      cases hparse
  have hlen := values_headFields version resp .chunked date keepAlive false
    (k := .contentLength) (.inl rfl)
  have hte := values_headFields version resp .chunked date keepAlive false
    (k := .transferEncoding) (.inr rfl)
  rw [if_pos rfl, hlengths, List.nil_append] at hlen
  rw [if_neg (by simp)] at hte
  have hread : ∀ name, values name (readBack version resp .chunked date keepAlive false)
      = (values name (headFields version resp .chunked date keepAlive false)).map trimOws :=
    fun name => values_trimmed name _
  unfold framing
  rw [if_neg hnone, if_neg hconnect, hread, hread,
    show ascii "transfer-encoding" = HeaderId.transferEncoding.asStr from rfl,
    show ascii "content-length" = HeaderId.contentLength.asStr from rfl, hlen, hte]
  rcases keptCodings_cases version resp .chunked with hkept | ⟨v, hkept, rfl, -, -, hframes⟩
  · have hown : ownFraming version resp .chunked false
        = framingField .chunked (version == .http10 && OutBody.chunked == .chunked) :=
      if_pos ⟨hlengths, hkept, hforbids⟩
    rw [hkept, hown]
    cases version with
    | http10 => rfl
    | http11 =>
        have hvalues : (values HeaderId.transferEncoding.asStr (framingField .chunked
            (Version.http11 == .http10 && OutBody.chunked == .chunked))).map trimOws
              = [ascii "chunked"] := by
          decide +kernel
        have hframes : teFramesChunked (ascii "chunked") = true := by decide +kernel
        rw [List.nil_append, hvalues]
        simp [hframes]
  · have hown : ownFraming .http11 resp .chunked false = [] :=
      if_neg fun h => by rw [hkept] at h; exact absurd h.2.1 (by simp)
    rw [hkept, hown]
    simp [values, teFramesChunked_trimOws hframes]

/-- Short of a tunnel a `CONNECT` is framed like any other request. -/
theorem framing_tunnel {status : Nat} (fields : List (Bytes × Bytes)) (hhead : method ≠ .head)
    (htunnel : method = .connect → 300 ≤ status) :
    framing method status fields = framing .get status fields := by
  have hconnect : ¬ (method = .connect ∧ status < 300) := by
    rintro ⟨hm, hs⟩
    have := htunnel hm
    omega
  unfold framing
  simp only [hhead, hconnect, false_or, if_false, reduceCtorEq, false_and]

theorem framing_length (version : Version) (resp : ResponseHead) {body : OutBody} (date : Bytes)
    (keepAlive : Bool) {n : Nat} (hhead : method ≠ .head)
    (htunnel : method = .connect → 300 ≤ resp.status) (hfinal : 200 ≤ resp.status)
    (hforbids : forbidsBodyFraming resp.status = false) (hbody : body.len = some n)
    (hn : n < 2 ^ 64) :
    framing method resp.status (readBack version resp body date keepAlive false)
      = some (.length n) := by
  rw [framing_tunnel _ hhead htunnel]
  exact framing_headFields version resp date keepAlive (by decide) (by decide) hfinal hforbids
    hbody hn

/-- A response is read by its framing. -/
theorem readResponse_known (limits : Limits) (version : Version) (resp : ResponseHead)
    (body : OutBody) {date : Bytes} (hdate : validFieldValue date = true)
    (keepAlive headRequest : Bool)
    (hstatus : resp.status = 101 ∨ 200 ≤ resp.status ∧ resp.status ≤ 599)
    (hphrase : reasonPhrase resp.status ≠ []) {how : Framing}
    (hhow : framing method resp.status (readBack version resp body date keepAlive headRequest)
      = some how) (fuel : Nat) (tail : Bytes) :
    readResponse limits method (fuel + 1)
        (writeHeadFor version resp body date keepAlive headRequest ++ tail)
      = (readBody limits how tail).map fun r => ((resp.status, r.1), r.2) := by
  rw [readResponse, readHead_known version resp body hdate keepAlive headRequest hstatus hphrase]
  simp only [if_neg (not_interim hstatus), hhow]

/-- An error response of the server's own is read. -/
theorem readResponse_fault (limits : Limits) (method : Method) {env : Env}
    (hdate : ∀ n, validFieldValue (env.date n) = true) {f : Fault} (hf : f.Sound env) (fuel : Nat)
    (rest : Bytes) :
    readResponse limits method (fuel + 1) (f.bytes ++ rest) = some ((f.status, []), rest) := by
  obtain ⟨⟨hlow, hhigh, hphrase⟩, n, hdated⟩ := hf
  have hvalid : validFieldValue f.date = true := hdated ▸ hdate n
  have hbytes : f.bytes = writeHeadFor f.version ⟨f.status, []⟩ .none f.date false false := rfl
  have hforbids : forbidsBodyFraming f.status = false := by
    rw [← Bool.not_eq_true, forbidsBodyFraming_final (by omega)]
    omega
  have hstatus : f.status = 101 ∨ 200 ≤ f.status ∧ f.status ≤ 599 := .inr ⟨by omega, hhigh⟩
  rw [hbytes]
  by_cases hhead : method = .head
  · rw [readResponse_known limits f.version ⟨f.status, []⟩ .none hvalid false false hstatus hphrase
      (framing_none _ (.inl hhead)) fuel rest]
    rfl
  · rw [readResponse_known limits f.version ⟨f.status, []⟩ .none hvalid false false hstatus hphrase
      (framing_length f.version ⟨f.status, []⟩ f.date false hhead (fun _ => by
        show 300 ≤ f.status
        omega) (by show 200 ≤ f.status; omega) hforbids rfl (by decide)) fuel rest]
    simp [readBody]

end Heads

/-! ## 3. Bodies -/

/-- The body that a response carries, as far as it has been produced. -/
def Reply.content (r : Reply) : Bytes :=
  if r.answer.writesBody then
    match r.answer.body with
    | .empty => []
    | .full b => b
    | .stream => r.items.flatten
  else []

/-- Its stream broke off, and not in front of a client that waits for the end
of the connection. -/
def Reply.CutOff (r : Reply) : Prop :=
  r.answer.writesBody = true ∧ r.answer.body = .stream ∧ r.answer.closeDelimited = false ∧
    r.ended = false

/-- The client knows the status and has room for the body, and the items of
the stream can be framed. -/
structure Reply.Fits (limits : Limits) (method : Method) (r : Reply) : Prop where
  phrase : reasonPhrase r.answer.status ≠ []
  /-- It did not open a tunnel. -/
  tunnel : method = .connect → 300 ≤ r.answer.status
  full : ∀ b, r.answer.body = .full b → b.length < 2 ^ 64
  items : ∀ b ∈ r.items, b ≠ []
  room : r.items.flatten.length ≤ limits.maxBodyBytes

/-- Chunks without the last one are not a body. -/
theorem drain_unfinished {limits : Limits} {chunks : List Bytes}
    (hbody : chunks.flatten.length ≤ limits.maxBodyBytes) (hhead : 2 ≤ limits.maxHeadBytes)
    (hne : ∀ c ∈ chunks, c ≠ []) (rest : Bytes) :
    ((new limits).drain (chunks.flatMap writeChunk)).stop ≠ .ended rest := by
  intro hended
  rcases hrun : (new limits).drain (chunks.flatMap writeChunk) with ⟨body, trailers, stop⟩
  rw [hrun] at hended
  obtain rfl : stop = .ended rest := hended
  -- had it ended there, the last chunk would be left over behind it
  have hlonger := ended_append (along_new limits) hrun (writeLastChunk [])
  have hwhole := drain_written hbody hhead hne []
  rw [List.append_nil, hlonger] at hwhole
  have hleft := (ChunkedDecoder.Stop.ended.inj (ChunkedDecoder.Outcome.mk.inj hwhole).2.2)
  have hlast : writeLastChunk [] ≠ [] := by decide
  exact hlast (List.append_eq_nil_iff.mp hleft).2

section Replies

variable {limits : Limits} {method : Method} {r : Reply}

/-- The head of a reply is read, and what is behind it by its framing. -/
theorem readResponse_head (hto : r.answer.To method) (hdate : validFieldValue r.date = true)
    (hfits : r.Fits limits method) {how : Framing}
    (hhow : framing method r.answer.status (readBack r.answer.version
      ⟨r.answer.status, r.answer.headers⟩ r.answer.outBody r.date r.answer.keepAlive
      r.answer.isHeadRequest) = some how) (fuel : Nat) (rest : Bytes) :
    readResponse limits method (fuel + 1) (r.bytes ++ rest)
      = (readBody limits how (r.body ++ rest)).map fun b => ((r.answer.status, b.1), b.2) := by
  rw [Reply.bytes, List.append_assoc, Answer.head]
  exact readResponse_known limits r.answer.version ⟨r.answer.status, r.answer.headers⟩
    r.answer.outBody hdate r.answer.keepAlive r.answer.isHeadRequest hto.status hfits.phrase hhow
    fuel (r.body ++ rest)

/-- A reply without a body. -/
theorem readResponse_bodiless (hto : r.answer.To method) (hdate : validFieldValue r.date = true)
    (hfits : r.Fits limits method) (hwrites : r.answer.writesBody = false) (fuel : Nat)
    (rest : Bytes) :
    readResponse limits method (fuel + 1) (r.bytes ++ rest)
      = some ((r.answer.status, r.content), rest) := by
  have hnone : method = .head ∨ forbidsBodyFraming r.answer.status = true ∨
      r.answer.status < 200 := by
    by_contra hno
    rw [not_or, not_or, Bool.not_eq_true, not_lt] at hno
    rw [hto.writesBody_iff.mpr hno] at hwrites
    cases hwrites
  rw [readResponse_head hto hdate hfits (framing_none _ hnone) fuel rest]
  simp [readBody, Reply.body, Reply.content, hwrites]

/-- The framing of a stream. -/
theorem framing_stream (hto : r.answer.To method) (hfits : r.Fits limits method)
    (hwrites : r.answer.writesBody = true) (hstream : r.answer.body = .stream) :
    framing method r.answer.status (readBack r.answer.version
      ⟨r.answer.status, r.answer.headers⟩ r.answer.outBody r.date r.answer.keepAlive
      r.answer.isHeadRequest)
        = some (if r.answer.closeDelimited = true then .untilClose else .chunked) := by
  obtain ⟨hhead, hforbids, hfinal⟩ := hto.writesBody_iff.mp hwrites
  have hisHead : r.answer.isHeadRequest = false := by rw [hto.isHead]; simpa using hhead
  have hout : r.answer.outBody = .chunked := by rw [Answer.outBody, hstream]
  have hclose : (r.answer.closeDelimited = true) = (r.answer.version = .http10) := by
    rw [hto.closeDelimited, hstream, hisHead, hforbids]
    simp
  rw [hout, hisHead, framing_chunked r.answer.version ⟨r.answer.status, r.answer.headers⟩ r.date
    r.answer.keepAlive hhead hfits.tunnel hfinal hforbids]
  simp only [hclose]

/-- The bytes of a stream, as far as it was written. -/
theorem body_of_stream (hwrites : r.answer.writesBody = true) (hstream : r.answer.body = .stream) :
    r.body = r.items.flatMap r.answer.frame ++ if r.ended then r.answer.terminator else [] := by
  simp [Reply.body, hwrites, hstream]

/-- A reply that is complete and says so itself is read, and what follows is
left. -/
theorem readResponse_whole (hto : r.answer.To method) (hdate : validFieldValue r.date = true)
    (hhead : 2 ≤ limits.maxHeadBytes) (hfits : r.Fits limits method) (hcut : ¬ r.CutOff)
    (hclose : r.answer.closeDelimited = false) (fuel : Nat) (rest : Bytes) :
    readResponse limits method (fuel + 1) (r.bytes ++ rest)
      = some ((r.answer.status, r.content), rest) := by
  cases hwrites : r.answer.writesBody with
  | false => exact readResponse_bodiless hto hdate hfits hwrites fuel rest
  | true =>
      obtain ⟨hmethod, hforbids, hfinal⟩ := hto.writesBody_iff.mp hwrites
      have hisHead : r.answer.isHeadRequest = false := by rw [hto.isHead]; simpa using hmethod
      have hpiece : ∀ b : Bytes, r.answer.outBody.len = some b.length → b.length < 2 ^ 64 →
          r.body = b → r.content = b → readResponse limits method (fuel + 1) (r.bytes ++ rest)
            = some ((r.answer.status, r.content), rest) := by
        intro b hlen hlt hbody hcontent
        have hhow := framing_length r.answer.version ⟨r.answer.status, r.answer.headers⟩ r.date
          r.answer.keepAlive hmethod hfits.tunnel hfinal hforbids hlen hlt
        rw [← hisHead] at hhow
        rw [readResponse_head hto hdate hfits hhow fuel rest, hbody, hcontent, readBody,
          if_pos (by simp), List.take_left, List.drop_left]
        rfl
      cases hbody : r.answer.body with
      | empty =>
          refine hpiece [] ?_ (by decide) ?_ ?_
          · rw [Answer.outBody, hbody]
            rfl
          · simp [Reply.body, hwrites, hbody]
          · simp [Reply.content, hwrites, hbody]
      | full b =>
          refine hpiece b ?_ (hfits.full b hbody) ?_ ?_
          · rw [Answer.outBody, hbody]
            rfl
          · simp [Reply.body, hwrites, hbody]
          · simp [Reply.content, hwrites, hbody]
      | stream =>
          have hended : r.ended = true := by
            by_contra hno
            exact hcut ⟨hwrites, hbody, hclose, by simpa using hno⟩
          have hwritten := Conn.body_of_drawn (fun _ => ⟨hwrites, hbody⟩) hended hclose
          have hhow := framing_stream hto hfits hwrites hbody
          rw [hclose, if_neg (by decide)] at hhow
          rw [readResponse_head hto hdate hfits hhow fuel rest, hwritten]
          simp only [readBody, drain_written hfits.room hhead hfits.items rest]
          simp [Reply.content, hwrites, hbody]

/-- A reply that ends with the connection is read as far as it got. -/
theorem readResponse_untilClose (hto : r.answer.To method)
    (hdate : validFieldValue r.date = true) (hfits : r.Fits limits method)
    (hclose : r.answer.closeDelimited = true) (fuel : Nat) :
    readResponse limits method (fuel + 1) r.bytes
      = some ((r.answer.status, r.content), []) := by
  have hparts := hto.closeDelimited.symm.trans hclose
  simp only [Bool.and_eq_true, beq_iff_eq, Bool.not_eq_true'] at hparts
  obtain ⟨⟨⟨-, hstream⟩, hisHead⟩, hforbids⟩ := hparts
  have hwrites : r.answer.writesBody = true := by
    refine hto.writesBody_iff.mpr ⟨?_, hforbids, ?_⟩
    · rw [hto.isHead] at hisHead
      simpa using hisHead
    · rcases hto.status with hs | hs
      · rw [hs] at hforbids
        cases hforbids
      · exact hs.1
  have hhow := framing_stream hto hfits hwrites hstream
  rw [hclose, if_pos rfl] at hhow
  have hframe : r.answer.frame = id := by
    funext b
    simp [Answer.frame, hclose]
  have hread := readResponse_head hto hdate hfits hhow fuel []
  rw [List.append_nil, List.append_nil] at hread
  rw [hread, body_of_stream hwrites hstream]
  simp [readBody, Reply.content, hwrites, hstream, hframe, Answer.terminator, hclose]

/-- A chunked reply that broke off is not read. -/
theorem readResponse_cutOff (hto : r.answer.To method) (hdate : validFieldValue r.date = true)
    (hhead : 2 ≤ limits.maxHeadBytes) (hfits : r.Fits limits method) (hcut : r.CutOff)
    (fuel : Nat) : readResponse limits method (fuel + 1) r.bytes = none := by
  obtain ⟨hwrites, hstream, hclose, hended⟩ := hcut
  have hhow := framing_stream hto hfits hwrites hstream
  rw [hclose, if_neg (by decide)] at hhow
  have hframe : r.answer.frame = writeChunk := by
    funext b
    simp [Answer.frame, hclose]
  have hread := readResponse_head hto hdate hfits hhow fuel []
  rw [List.append_nil, List.append_nil] at hread
  rw [hread, body_of_stream hwrites hstream, hframe, hended, if_neg (by decide), List.append_nil,
    readBody]
  have hstop := drain_unfinished hfits.room hhead hfits.items
  generalize (new limits).drain (r.items.flatMap writeChunk) = outcome at hstop
  obtain ⟨body, trailers, stop⟩ := outcome
  cases stop with
  | ended left => exact absurd rfl (hstop left)
  | _ => rfl

end Replies

/-! ## 4. Connections -/

/-- What a client makes of the exchange: its method, the status and the body. -/
def Exchange.heard (env : Env) (x : Exchange) : Option (Method × Nat × Bytes) :=
  x.reply.map fun r => (x.method env, r.answer.status, r.content)

/-- And of an error response, to whatever request it is for. -/
def Fault.heard (last : Method) (f : Fault) : Method × Nat × Bytes := (last, f.status, [])

/-- An interim response in front of a response is passed over. -/
theorem readResponse_interim (limits : Limits) (method : Method) {interim s : Bytes}
    (hinterim : interim = [] ∨ interim = continueBytes) (hlen : s ≠ [])
    {out : Option ((Nat × Bytes) × Bytes)}
    (hone : ∀ fuel, readResponse limits method (fuel + 1) s = out) :
    readResponse limits method (interim ++ s).length (interim ++ s) = out := by
  obtain ⟨fuel, hfuel⟩ := Nat.exists_eq_add_of_le' (List.length_pos_iff.mpr hlen)
  rcases hinterim with rfl | rfl
  · rw [List.nil_append, hfuel]
    exact hone fuel
  · obtain ⟨more, hmore⟩ : ∃ more, (continueBytes ++ s).length = more + 1 + 1 := by
      refine ⟨(continueBytes ++ s).length - 2, ?_⟩
      have hcontinue : 1 ≤ continueBytes.length := by decide
      rw [List.length_append]
      omega
    rw [hmore, readResponse_continue]
    exact hone more

theorem Reply.bytes_ne_nil (r : Reply) : r.bytes ≠ [] := by
  simp [Reply.bytes, Conn.head_ne_nil]

section Exchanges

variable {env : Env} {limits : Limits}

/-- An exchange with a response that is complete, and not by the end of the
connection. -/
structure Exchange.Whole (env : Env) (limits : Limits) (x : Exchange) (r : Reply) : Prop where
  reply : x.reply = some r
  made : Made env x r
  interim : x.interim = [] ∨ x.interim = continueBytes
  fits : r.Fits limits (x.method env)

/-- The answer in an exchange is to its method. -/
theorem Made.to {x : Exchange} {r : Reply} (h : Made env x r) : r.answer.To (x.method env) := by
  obtain ⟨hd, kind, resp, consumed, hv, -, hanswer⟩ := h.answer
  have hmethod : x.method env = hd.method := by simp [Exchange.method, hv]
  rw [hanswer, hmethod]
  exact answer_to env.serverName hd resp consumed

theorem Made.valid {x : Exchange} {r : Reply} (h : Made env x r)
    (hdate : ∀ n, validFieldValue (env.date n) = true) : validFieldValue r.date = true := by
  obtain ⟨n, hn⟩ := h.dated
  exact hn ▸ hdate n

/-- What a client makes of the bytes of an exchange follows from what it
makes of the reply. -/
theorem Exchange.Whole.heard_first {x : Exchange} {r : Reply} (h : x.Whole env limits r)
    (rest : Bytes) {out : Option ((Nat × Bytes) × Bytes)}
    (hone : ∀ fuel, readResponse limits (x.method env) (fuel + 1) (r.bytes ++ rest) = out) :
    readResponse limits (x.method env) (x.wire ++ rest).length (x.wire ++ rest) = out := by
  have hwire : x.wire ++ rest = x.interim ++ (r.bytes ++ rest) := by
    simp [Exchange.wire, h.reply]
  rw [hwire]
  exact readResponse_interim limits _ h.interim (by simp [r.bytes_ne_nil]) hone

/-- The exchanges of which the client gets all, and then what it gets of the
rest. -/
theorem readResponses_whole (hdate : ∀ n, validFieldValue (env.date n) = true)
    (hhead : 2 ≤ limits.maxHeadBytes) {xs : List Exchange}
    (hxs : ∀ x ∈ xs, ∃ r, x.Whole env limits r ∧ ¬ r.CutOff ∧ r.answer.closeDelimited = false)
    (methods : List Method) (rest : Bytes) :
    readResponses limits ((xs.filterMap (Exchange.heard env)).map Prod.fst ++ methods)
        (xs.flatMap Exchange.wire ++ rest)
      = (readResponses limits methods rest).map fun out =>
          ((xs.filterMap (Exchange.heard env)).map Prod.snd ++ out.1, out.2) := by
  induction xs with
  | nil => simp
  | cons x xs ih =>
      obtain ⟨r, hwhole, hcut, hclose⟩ := hxs x (by simp)
      have hheard : Exchange.heard env x = some (x.method env, r.answer.status, r.content) := by
        simp [Exchange.heard, hwhole.reply]
      have hfirst := hwhole.heard_first (xs.flatMap Exchange.wire ++ rest) fun fuel =>
        readResponse_whole hwhole.made.to (hwhole.made.valid hdate) hhead hwhole.fits hcut hclose
          fuel _
      have hrest := ih fun y hy => hxs y (by simp [hy])
      rw [List.filterMap_cons_some hheard, List.flatMap_cons, List.map_cons, List.map_cons,
        List.cons_append, List.append_assoc, readResponses, hfirst]
      simp only [hrest]
      cases readResponses limits methods rest <;> rfl

/-- The last of the exchanges, on its own. -/
theorem Exchange.Whole.heard_last {x : Exchange} {r : Reply} (h : x.Whole env limits r)
    {out : Option ((Nat × Bytes) × Bytes)}
    (hone : ∀ fuel, readResponse limits (x.method env) (fuel + 1) r.bytes = out) :
    Client.readResponses limits [x.method env] x.wire = out.map fun o => ([o.1], o.2) := by
  have hread := h.heard_first [] fun fuel => by rw [List.append_nil]; exact hone fuel
  rw [List.append_nil] at hread
  rw [Client.readResponses, hread]
  cases out <;> rfl

end Exchanges

namespace Conn

/-- The response of the last request broke off in its stream. -/
def CutOff (c : Conn) : Prop := ∃ x ∈ c.exchanges, ∃ r, x.reply = some r ∧ r.CutOff

/-- All responses of a connection, and the error response behind them. -/
def heard (env : Env) (last : Method) (c : Conn) : List (Method × Nat × Bytes) :=
  c.exchanges.filterMap (Exchange.heard env) ++ (c.fault.map (Fault.heard last)).toList

/-- Where the loop is quiet, nothing is owed to the current request. -/
theorem OutputInv.over_of_quiet {env : Env} {c : Conn} (h : OutputInv env c)
    (hquiet : c.pc.quiet = true) : c.pending = 0 ∧ Over c := by
  have hplace := h.place
  cases hpc : c.pc with
  | reading =>
      rw [hpc] at hplace
      exact ⟨hplace.1.1, hplace.1.over⟩
  | ended r =>
      rw [hpc] at hplace
      cases r with
      | closed => exact ⟨hplace.2.1, hplace.2.2⟩
      | upgraded => exact ⟨hplace.2.1, hplace.2.over⟩
      | ioError => rw [hpc] at hquiet; cases hquiet
      | panicked => rw [hpc] at hquiet; cases hquiet
  | _ => rw [hpc] at hquiet; cases hquiet

section Hearing

variable {env : Env} {c : Conn} {limits : Limits}

/-- The error response is the last thing a client reads. -/
theorem readResponses_fault (hdate : ∀ n, validFieldValue (env.date n) = true)
    (hfault : ∀ f, c.fault = some f → f.Sound env) (last : Method) {interim : Bytes}
    (hinterim : interim = [] ∨ interim = continueBytes) (hsome : interim = [] ∨ c.fault ≠ none) :
    readResponses limits ((c.fault.map (Fault.heard last)).toList.map Prod.fst)
        (interim ++ (c.fault.map Fault.bytes).getD [])
      = some ((c.fault.map (Fault.heard last)).toList.map Prod.snd, []) := by
  cases hf : c.fault with
  | none =>
      obtain rfl := hsome.resolve_right fun h => h hf
      rfl
  | some f =>
      have hbytes : f.bytes ≠ [] := by
        rw [show f.bytes = writeHeadFor f.version ⟨f.status, []⟩ .none f.date false false from rfl,
          writeHeadFor_eq]
        simp [crlf]
      have hone : ∀ fuel, readResponse limits last (fuel + 1) f.bytes
          = some ((f.status, []), []) := by
        intro fuel
        have hread := readResponse_fault limits last hdate (hfault f hf) fuel []
        rwa [List.append_nil] at hread
      have hread := readResponse_interim limits last hinterim hbytes hone
      simp only [Option.map_some, Option.toList_some, List.map_cons, List.map_nil, Option.getD_some,
        Fault.heard, readResponses, hread]

/-- A client that gets to the end of every response gets them all. -/
theorem hears_all (hdate : ∀ n, validFieldValue (env.date n) = true)
    (hhead : 2 ≤ limits.maxHeadBytes) {xs : List Exchange}
    (hxs : ∀ x ∈ xs, ∃ r, x.Whole env limits r ∧ ¬ r.CutOff ∧ r.answer.closeDelimited = false)
    {methods : List Method} {rest : Bytes} {answers : List (Nat × Bytes)}
    (hrest : readResponses limits methods rest = some (answers, [])) :
    Client.read limits ((xs.filterMap (Exchange.heard env)).map Prod.fst ++ methods)
        (xs.flatMap Exchange.wire ++ rest)
      = some ((xs.filterMap (Exchange.heard env)).map Prod.snd ++ answers) := by
  rw [Client.read, readResponses_whole hdate hhead hxs, hrest]
  rfl

/-- The exchange of a past request is whole. -/
theorem OutputInv.whole_past (h : OutputInv env c) (hpersists : Persists env c)
    (hfits : ∀ x ∈ c.exchanges, ∀ r, x.reply = some r → r.Fits limits (x.method env)) :
    ∀ x ∈ c.past, ∃ r, x.Whole env limits r ∧ ¬ r.CutOff ∧ r.answer.closeDelimited = false := by
  intro x hx
  obtain ⟨hentry, r, hr, hcomplete⟩ := h.past x hx
  have hmade := hentry.made r hr
  refine ⟨r, ⟨hr, hmade, hentry.whole, hfits x (List.mem_append_left _ hx) r hr⟩, ?_, ?_⟩
  · rintro ⟨hwrites, hstream, -, hended⟩
    rw [hcomplete hwrites hstream] at hended
    cases hended
  · cases hclose : r.answer.closeDelimited with
    | false => rfl
    | true =>
        have hkeeps := hpersists.past x hx r hr
        rw [hmade.to.closes hclose] at hkeeps
        cases hkeeps

/-- What a strict client makes of everything that goes out. -/
def Hears (env : Env) (limits : Limits) (last : Method) (c : Conn) : Prop :=
  (¬ c.CutOff → Client.read limits ((c.heard env last).map Prod.fst) c.wire
    = some ((c.heard env last).map Prod.snd)) ∧
  (c.CutOff → Client.read limits ((c.heard env last).map Prod.fst) c.wire = none)

/-- When every exchange is whole, only the error response can follow. -/
theorem hears_whole (hdate : ∀ n, validFieldValue (env.date n) = true)
    (hhead : 2 ≤ limits.maxHeadBytes) (hpersists : Persists env c)
    (hall : ∀ x ∈ c.exchanges, ∃ r, x.Whole env limits r ∧ ¬ r.CutOff ∧
      r.answer.closeDelimited = false) (last : Method) : Hears env limits last c := by
  refine ⟨fun _ => ?_, ?_⟩
  · rw [heard, wire_eq_exchanges, List.map_append, List.map_append]
    exact hears_all hdate hhead hall (readResponses_fault (c := c) hdate
      (fun f hf => (hpersists.fault f hf).1) last (.inl rfl) (.inl rfl))
  · rintro ⟨x, hx, r, hr, hcut⟩
    obtain ⟨s, hwhole, hnot, -⟩ := hall x hx
    obtain rfl := Option.some.inj (hwhole.reply.symm.trans hr)
    exact absurd hcut hnot

/-- The last request has no response, but the error response for it. -/
theorem hears_refused (hdate : ∀ n, validFieldValue (env.date n) = true)
    (hhead : 2 ≤ limits.maxHeadBytes) (hpersists : Persists env c)
    (hpast : ∀ x ∈ c.past, ∃ r, x.Whole env limits r ∧ ¬ r.CutOff ∧
      r.answer.closeDelimited = false) {x : Exchange} (hnow : c.now = some x)
    (hreply : x.reply = none) (hinterim : x.interim = [] ∨ x.interim = continueBytes)
    (hfault : c.fault ≠ none) (last : Method) : Hears env limits last c := by
  have hall : c.exchanges = c.past ++ [x] := by simp [exchanges, hnow]
  refine ⟨fun _ => ?_, ?_⟩
  · have hheard : c.exchanges.filterMap (Exchange.heard env)
        = c.past.filterMap (Exchange.heard env) := by
      simp [hall, Exchange.heard, hreply]
    have hwire : c.exchanges.flatMap Exchange.wire ++ (c.fault.map Fault.bytes).getD []
        = c.past.flatMap Exchange.wire ++ (x.interim ++ (c.fault.map Fault.bytes).getD []) := by
      simp [hall, Exchange.wire, hreply]
    rw [heard, wire_eq_exchanges, hheard, hwire, List.map_append, List.map_append]
    exact hears_all hdate hhead hpast (readResponses_fault (c := c) hdate
      (fun f hf => (hpersists.fault f hf).1) last hinterim (.inr hfault))
  · rintro ⟨y, hy, r, hr, hcut⟩
    rw [hall] at hy
    rcases List.mem_append.mp hy with hy | hy
    · obtain ⟨s, hwhole, hnot, -⟩ := hpast y hy
      obtain rfl := Option.some.inj (hwhole.reply.symm.trans hr)
      exact absurd hcut hnot
    · rw [List.mem_singleton.mp hy, hreply] at hr
      cases hr

/-- The last response is all that is left, and there is no error response. -/
theorem hears_last (hdate : ∀ n, validFieldValue (env.date n) = true)
    (hhead : 2 ≤ limits.maxHeadBytes)
    (hpast : ∀ x ∈ c.past, ∃ r, x.Whole env limits r ∧ ¬ r.CutOff ∧
      r.answer.closeDelimited = false) {x : Exchange} {r : Reply} (hnow : c.now = some x)
    (hwhole : x.Whole env limits r) (hfault : c.fault = none)
    (hlast : r.CutOff ∨ r.answer.closeDelimited = true) (last : Method) :
    Hears env limits last c := by
  have hall : c.exchanges = c.past ++ [x] := by simp [exchanges, hnow]
  have hheard : Exchange.heard env x = some (x.method env, r.answer.status, r.content) := by
    simp [Exchange.heard, hwhole.reply]
  have hmade := hwhole.made
  have hread := readResponses_whole hdate hhead hpast [x.method env] x.wire
  have hboth : c.heard env last = c.past.filterMap (Exchange.heard env)
      ++ [(x.method env, r.answer.status, r.content)] := by
    simp [heard, hall, hheard, hfault]
  have hwire : c.wire = c.past.flatMap Exchange.wire ++ x.wire := by
    simp [wire_eq_exchanges, hall, hfault]
  refine ⟨fun hnot => ?_, ?_⟩
  · have hclose : r.answer.closeDelimited = true := by
      refine hlast.resolve_left fun hcut => hnot ⟨x, ?_, r, hwhole.reply, hcut⟩
      simp [hall]
    rw [hwhole.heard_last fun fuel =>
      readResponse_untilClose hmade.to (hmade.valid hdate) hwhole.fits hclose fuel] at hread
    rw [hboth, hwire, List.map_append, List.map_append, List.map_singleton, Client.read, hread]
    rfl
  · rintro ⟨y, hy, s, hs, hcut⟩
    have hcutoff : r.CutOff := by
      rw [hall] at hy
      rcases List.mem_append.mp hy with hy | hy
      · obtain ⟨t, ht, hnot, -⟩ := hpast y hy
        obtain rfl := Option.some.inj (ht.reply.symm.trans hs)
        exact absurd hcut hnot
      · rw [List.mem_singleton.mp hy] at hs
        obtain rfl := Option.some.inj (hwhole.reply.symm.trans hs)
        exact hcut
    rw [hwhole.heard_last fun fuel =>
      readResponse_cutOff hmade.to (hmade.valid hdate) hhead hwhole.fits hcutoff fuel] at hread
    rw [hboth, hwire, List.map_append, List.map_singleton, Client.read, hread]
    rfl

theorem OutputInv.hears (h : OutputInv env c) (hpersists : Persists env c)
    (hquiet : c.pc.quiet = true) (hdate : ∀ n, validFieldValue (env.date n) = true)
    (hhead : 2 ≤ limits.maxHeadBytes)
    (hfits : ∀ x ∈ c.exchanges, ∀ r, x.reply = some r → r.Fits limits (x.method env))
    (last : Method) : Hears env limits last c := by
  obtain ⟨hpending, hover⟩ := h.over_of_quiet hquiet
  have hpast := h.whole_past hpersists hfits
  cases hnow : c.now with
  | none =>
      have hall : c.exchanges = c.past := by simp [exchanges, hnow]
      exact hears_whole hdate hhead hpersists (hall ▸ hpast) last
  | some x =>
      have hx : x ∈ c.now := by rw [hnow]; rfl
      have hall : c.exchanges = c.past ++ [x] := by simp [exchanges, hnow]
      have hentry : Entry env x 0 := hpending ▸ h.now x hx
      cases hreply : x.reply with
      | none =>
          rcases hover x hx with ⟨r, hr, -⟩ | ⟨-, hfault⟩ | ⟨-, r, hr, -⟩
          · rw [hreply] at hr
            cases hr
          · exact hears_refused hdate hhead hpersists hpast hnow hreply hentry.whole hfault last
          · rw [hreply] at hr
            cases hr
      | some r =>
          have hwhole : x.Whole env limits r :=
            ⟨hreply, hentry.made r hreply, hentry.whole, hfits x (by simp [hall]) r hreply⟩
          by_cases hclose : r.answer.closeDelimited = true
          · -- an error response behind it would have had to keep the connection open
            have hfault : c.fault = none := by
              by_contra hne
              obtain ⟨f, hf⟩ := Option.ne_none_iff_exists'.mp hne
              have hkeeps := (hpersists.fault f hf).2 x hx r hreply
              rw [hwhole.made.to.closes hclose] at hkeeps
              cases hkeeps
            exact hears_last hdate hhead hpast hnow hwhole hfault (.inr hclose) last
          · by_cases hcut : r.CutOff
            · have hfault : c.fault = none := by
                rcases hover x hx with ⟨s, hs, hcomplete⟩ | ⟨hnone, -⟩ | ⟨hfault, -⟩
                · obtain rfl := Option.some.inj (hreply.symm.trans hs)
                  obtain ⟨hwrites, hstream, -, hended⟩ := hcut
                  rw [hcomplete hwrites hstream] at hended
                  cases hended
                · rw [hreply] at hnone
                  cases hnone
                · exact hfault
              exact hears_last hdate hhead hpast hnow hwhole hfault (.inl hcut) last
            · refine hears_whole hdate hhead hpersists ?_ last
              rw [hall]
              intro y hy
              rcases List.mem_append.mp hy with hy | hy
              · exact hpast y hy
              · obtain rfl := List.mem_singleton.mp hy
                exact ⟨r, hwhole, hcut, by simpa using hclose⟩

/-- **What a client hears.** The peer may do what it likes, and handlers and
streams may, within `Reply.Fits`: each status has a reason phrase (without one
the status line is not what the grammar asks for, and the client stops there),
no item of a stream is empty (it would be written as the last chunk), what a
stream yields is within the client's own limits, a body in one piece is
shorter than `2^64`, and a `CONNECT` is not answered with success. The dates
are field values, and the client reads heads of two bytes at least. When the
loop waits for a request or has returned, over a transport that takes what it
is given, a strict client reads everything that was sent as the responses to
its requests, each with the status and the body it was answered with, streams
included, and an error response last. It is only when a chunked stream broke
off that the client does not get to the end, so it never takes the beginning
of a body for the whole. -/
theorem client_hears (env : Env) (buffered : Bytes) (events : List Event)
    (hok : ∀ e ∈ events, WritesOk e) (hquiet : (run env buffered events).pc.quiet = true)
    (hdate : ∀ n, validFieldValue (env.date n) = true) (limits : Limits)
    (hhead : 2 ≤ limits.maxHeadBytes)
    (hfits : ∀ x ∈ (run env buffered events).exchanges, ∀ r, x.reply = some r →
      r.Fits limits (x.method env)) (last : Method) :
    (¬ (run env buffered events).CutOff →
      Client.read limits (((run env buffered events).heard env last).map Prod.fst)
          (run env buffered events).sent
        = some (((run env buffered events).heard env last).map Prod.snd)) ∧
    ((run env buffered events).CutOff →
      Client.read limits (((run env buffered events).heard env last).map Prod.fst)
          (run env buffered events).sent = none) := by
  have h := run_out env buffered hok
  rw [h.sent_of_quiet hquiet]
  exact h.hears (run_persists env buffered events) hquiet hdate hhead hfits last

end Hearing

/-- Two pipelined requests. The first stream ends, the second breaks off. -/
def brokenRun : Conn :=
  run sampleEnv [] [.read (.ok (getRequest ++ getRequest)),
    .handler (.ready ⟨200, [], .stream⟩), .write (.ok 1000), .flush .ok,
    .stream (.item (ascii "a")), .stream .ended, .handler (.ready ⟨200, [], .stream⟩),
    .write (.ok 1000), .flush .ok, .stream (.item (ascii "b")), .stream .failed,
    .write (.ok 1000), .flush .ok]

/-- Both responses have begun, and the client reads `a` and then not the end. -/
theorem client_hears_broken :
    (brokenRun.heard sampleEnv .get).map Prod.snd = [(200, ascii "a"), (200, ascii "b")] ∧
    Client.read Limits.default ((brokenRun.heard sampleEnv .get).map Prod.fst) brokenRun.sent
      = none := by
  have hran : brokenRun.pc.quiet = true ∧
      brokenRun.exchanges.all (fun x => x.reply.any fun r => !(reasonPhrase r.answer.status).isEmpty
        && x.method sampleEnv == .get && r.answer.body == .stream
        && r.items.all (fun b => !b.isEmpty)
        && decide (r.items.flatten.length ≤ Limits.default.maxBodyBytes)) = true ∧
      brokenRun.exchanges.any (fun x => x.reply.any fun r => r.answer.writesBody
        && r.answer.body == .stream && !r.answer.closeDelimited && !r.ended) = true := by
    decide +kernel
  obtain ⟨hquiet, hall, hany⟩ := hran
  have hdate : validFieldValue (sampleEnv.date 0) = true := by decide +kernel
  have hfits : ∀ x ∈ brokenRun.exchanges, ∀ r, x.reply = some r →
      r.Fits Limits.default (x.method sampleEnv) := by
    intro x hx r hr
    have hx' := List.all_eq_true.mp hall x hx
    rw [hr] at hx'
    simp only [Option.any_some, Bool.and_eq_true, Bool.not_eq_true', List.isEmpty_eq_false_iff,
      beq_iff_eq, decide_eq_true_eq] at hx'
    obtain ⟨⟨⟨⟨hphrase, hmethod⟩, hstream⟩, hitems⟩, hroom⟩ := hx'
    refine ⟨hphrase, ?_, ?_, ?_, hroom⟩
    · rw [hmethod]
      rintro ⟨⟩
    · intro b hb
      rw [hstream] at hb
      cases hb
    · simpa using hitems
  have hcut : brokenRun.CutOff := by
    simp only [List.any_eq_true, Option.any_eq_true, Bool.and_eq_true, Bool.not_eq_true',
      beq_iff_eq] at hany
    obtain ⟨x, hx, r, hr, ⟨⟨hwrites, hstream⟩, hclose⟩, hended⟩ := hany
    exact ⟨x, hx, r, hr, hwrites, hstream, hclose, hended⟩
  refine ⟨by decide +kernel, ?_⟩
  exact (client_hears sampleEnv [] _ (by simp [WritesOk, WriteOk]) hquiet (fun _ => hdate)
    Limits.default (by decide) hfits .get).2 hcut

end Conn

end ArmatureH1

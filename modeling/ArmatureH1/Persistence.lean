/-
ArmatureH1.Persistence — what a response says about the connection, and what
the connection then does.

The `Connection` lines of a head carry the handler's tokens without `close`
and `keep-alive`, which are dropped, and then the writer's own word
(`connectionElements_headFields`). So a client that reads the head by the
crate's own rule reads exactly the decision that `write_response` took
(`persists_answer`), and that decision is what `serve` is handed when the
response has been written (`writing_run`).
-/
import ArmatureH1.ResponseFraming
import ArmatureH1.ConnReplies

namespace ArmatureH1

open ByteString Client

/-! ## 1. Lists of tokens -/

/-- The elements of a comma list. -/
def elements (v : Bytes) : List Bytes := (v.splitOn 44).map trimOws

theorem valueHasToken_eq (v token : Bytes) :
    valueHasToken v token = (elements v).any (eqIgnoreAsciiCase · token) := by
  rw [valueHasToken, elements, List.any_map]
  rfl

theorem trimOws_of_isToken {t : Bytes} (h : IsToken t) : trimOws t = t :=
  trimOws_eq_self (h.notMem (by decide)) (h.notMem (by decide))

theorem comma_notMem {t : Bytes} (h : IsToken t) : 44 ∉ t := h.notMem (by decide)

theorem elements_cons_SP (v : Bytes) : elements (SP :: v) = elements v := by
  rw [elements, elements, List.splitOn_cons_eq_if_modifyHead, if_neg (by decide)]
  obtain ⟨x, xs, hx⟩ := List.exists_cons_of_ne_nil (List.splitOn_ne_nil 44 v)
  rw [hx]
  simp [trimOws_cons_SP]

/-- A list of tokens is read back. -/
theorem elements_joinTokens {tokens : List Bytes} (hne : tokens ≠ [])
    (h : ∀ t ∈ tokens, IsToken t) : elements (joinTokens tokens) = tokens := by
  obtain ⟨first, rest, rfl⟩ := List.exists_cons_of_ne_nil hne
  clear hne
  induction rest generalizing first with
  | nil =>
      have hfirst := h first (by simp)
      have hjoin : joinTokens [first] = first := List.append_nil _
      rw [hjoin, elements, List.splitOn_eq_singleton (comma_notMem hfirst), List.map_cons,
        List.map_nil, trimOws_of_isToken hfirst]
  | cons t rest ih =>
      have hfirst := h first (by simp)
      have hrest := ih t fun x hx => h x (by simp [hx])
      have hjoin : joinTokens (first :: t :: rest)
          = first ++ 44 :: SP :: joinTokens (t :: rest) := by
        have hcomma : ascii ", " = [44, SP] := by decide
        simp [joinTokens, hcomma]
      rw [hjoin, elements, List.splitOn_append_cons_self_of_not_mem (comma_notMem hfirst),
        List.map_cons, trimOws_of_isToken hfirst]
      show first :: elements (SP :: joinTokens (t :: rest)) = _
      rw [elements_cons_SP, hrest]

/-! ## 2. The `Connection` lines of a head -/

/-- The elements of all `Connection` lines, in order. -/
def connectionElements (fields : List (Bytes × Bytes)) : List Bytes :=
  (values (ascii "connection") fields).flatMap elements

theorem connectionElements_append (xs ys : List (Bytes × Bytes)) :
    connectionElements (xs ++ ys) = connectionElements xs ++ connectionElements ys := by
  rw [connectionElements, values_append, List.flatMap_append]
  rfl

/-- The tokens of a handler's `Connection` fields that are written. -/
def handlerTokens (headers : HeaderVec) : List Bytes :=
  (headers.filter fun f => f.1.canonical == .connection).flatMap fun f => connectionTokens f.2

theorem writtenField_connection {staleLen staleTe : Bool} {f : HeaderId × Bytes}
    (h : f.1.canonical = .connection) :
    connectionElements (writtenField staleLen staleTe f).toList = connectionTokens f.2 := by
  have hname : eqIgnoreAsciiCase (ascii "connection") (ascii "connection") = true := by decide
  unfold writtenField
  simp only [h, beq_self_eq_true, if_true]
  have hlen : (HeaderId.connection == .contentLength) = false := by decide
  have hte : (HeaderId.connection == .transferEncoding) = false := by decide
  simp only [hlen, hte, Bool.and_false, Bool.false_eq_true, if_false]
  cases htokens : connectionTokens f.2 with
  | nil => rfl
  | cons first rest =>
      have hread := @elements_joinTokens (first :: rest) (by simp) fun t ht =>
        isToken_of_mem_connectionTokens (htokens.symm ▸ ht)
      have hvalues : values (ascii "connection")
          [(HeaderId.connection.asStr, joinTokens (first :: rest))]
            = [joinTokens (first :: rest)] := by
        simp [values, HeaderId.asStr, hname]
      show (values (ascii "connection")
          [(HeaderId.connection.asStr, joinTokens (first :: rest))]).flatMap elements = _
      rw [hvalues]
      simpa using hread

theorem writtenField_other {staleLen staleTe : Bool} {f : HeaderId × Bytes}
    (h : f.1.canonical ≠ .connection) :
    connectionElements (writtenField staleLen staleTe f).toList = [] := by
  cases hp : writtenField staleLen staleTe f with
  | none => rfl
  | some p =>
      have hname : eqIgnoreAsciiCase p.1 (ascii "connection") = false := by
        rw [(writes_writtenField hp).2, ← Bool.not_eq_true]
        exact fun heq => h ((HeaderId.eq_canonical_iff (k := .connection) (by decide)).mp heq)
      simp [connectionElements, values, hname]

theorem connectionElements_handler (staleLen staleTe : Bool) (headers : HeaderVec) :
    connectionElements (headers.filterMap (writtenField staleLen staleTe))
      = handlerTokens headers := by
  induction headers with
  | nil => rfl
  | cons f headers ih =>
      have hcons : (f :: headers).filterMap (writtenField staleLen staleTe)
          = (writtenField staleLen staleTe f).toList
            ++ headers.filterMap (writtenField staleLen staleTe) := by
        rw [List.filterMap_cons]
        cases writtenField staleLen staleTe f <;> rfl
      rw [hcons, connectionElements_append, ih]
      by_cases hf : f.1.canonical = .connection
      · rw [writtenField_connection hf]
        simp [handlerTokens, hf]
      · rw [writtenField_other hf]
        simp [handlerTokens, hf]

/-- **The `Connection` lines of a head**: the handler's tokens, and then what
the server says. -/
theorem connectionElements_headFields (version : Version) (resp : ResponseHead) (body : OutBody)
    (date : Bytes) (keepAlive headRequest : Bool) :
    connectionElements (headFields version resp body date keepAlive headRequest)
      = handlerTokens resp.headers
        ++ if resp.status ≠ 101 then (connectionField version keepAlive).toList else [] := by
  have hdate : ∀ b : Bool,
      connectionElements (if b then [] else [(ascii "date", date)]) = [] := by
    have hname : eqIgnoreAsciiCase (ascii "date") (ascii "connection") = false := by decide
    intro b
    cases b <;> simp [connectionElements, values, hname]
  have hframing : ∀ b : Bool, connectionElements
      (if b then framingField body (version == .http10 && body == .chunked) else []) = [] := by
    have hlen : eqIgnoreAsciiCase (ascii "content-length") (ascii "connection") = false := by decide
    have hte : eqIgnoreAsciiCase (ascii "transfer-encoding") (ascii "connection")
        = false := by decide
    intro b
    cases b with
    | false => rfl
    | true =>
        cases body with
        | none => simp [connectionElements, values, framingField, hlen]
        | fixed b => simp [connectionElements, values, framingField, hlen]
        | chunked =>
            cases version <;> simp [connectionElements, values, framingField, hte]
  have hserver : connectionElements (if resp.status ≠ 101 then
      ((connectionField version keepAlive).map fun token => (ascii "connection", token)).toList
      else []) = if resp.status ≠ 101 then (connectionField version keepAlive).toList else [] := by
    split
    · cases version <;> cases keepAlive <;> decide
    · rfl
  unfold headFields
  simp only [connectionElements_append]
  rw [connectionElements_handler, hdate, hframing, hserver, List.append_nil, List.append_nil]

/-! ## 3. What a head says about the connection -/

/-- The crate's own rule, `Head::is_keep_alive`, on the fields of a head. -/
def saysPersists (version : Version) (fields : List (Bytes × Bytes)) : Bool :=
  match version with
  | .http11 => !(values (ascii "connection") fields).any (valueHasToken · (ascii "close"))
  | .http10 => (values (ascii "connection") fields).any (valueHasToken · (ascii "keep-alive"))

/-- A token on some `Connection` line is an element of one of them. -/
theorem any_valueHasToken (fields : List (Bytes × Bytes)) (token : Bytes) :
    (values (ascii "connection") fields).any (valueHasToken · token)
      = (connectionElements fields).any (eqIgnoreAsciiCase · token) := by
  rw [connectionElements, List.any_flatMap]
  congr 1
  funext v
  exact valueHasToken_eq v token

/-- A handler has no say in the server's two words. -/
theorem handlerTokens_silent (headers : HeaderVec) {token : Bytes}
    (h : token = ascii "close" ∨ token = ascii "keep-alive") :
    (handlerTokens headers).any (eqIgnoreAsciiCase · token) = false := by
  rw [List.any_eq_false]
  intro t ht
  obtain ⟨f, -, ht⟩ := List.mem_flatMap.mp ht
  have hfilter := (List.mem_filter.mp ht).2
  simp only [Bool.and_eq_true, Bool.not_eq_true'] at hfilter
  rcases h with rfl | rfl
  · simp [hfilter.1.1.1.2]
  · simp [hfilter.1.1.2]

/-- What a head says is what the writer was told. -/
theorem saysPersists_headFields (version : Version) {resp : ResponseHead}
    (hstatus : resp.status ≠ 101) (body : OutBody) (date : Bytes) (keepAlive headRequest : Bool) :
    saysPersists version (headFields version resp body date keepAlive headRequest) = keepAlive := by
  have hclose := handlerTokens_silent resp.headers (Or.inl rfl)
  have halive := handlerTokens_silent resp.headers (Or.inr rfl)
  have hboth : eqIgnoreAsciiCase (ascii "close") (ascii "close") = true ∧
      eqIgnoreAsciiCase (ascii "keep-alive") (ascii "keep-alive") = true ∧
      eqIgnoreAsciiCase (ascii "close") (ascii "keep-alive") = false := by decide
  cases version with
  | http11 =>
      rw [saysPersists, any_valueHasToken, connectionElements_headFields, if_pos hstatus,
        List.any_append, hclose]
      cases keepAlive <;> simp [connectionField, hboth]
  | http10 =>
      rw [saysPersists, any_valueHasToken, connectionElements_headFields, if_pos hstatus,
        List.any_append, halive]
      cases keepAlive <;> simp [connectionField, hboth]

namespace Answer

/-- Only a 101 hands the connection over. -/
theorem upgrading_of {serverName : Option Bytes} {call : Call} {resp : Response} {consumed : Bool}
    (h : (of serverName call resp consumed).upgrading = true) :
    (of serverName call resp consumed).status = 101 := by
  simp only [of, Bool.and_eq_true, beq_iff_eq] at h
  have hfinal : isFinalStatus resp.status call.wantsUpgrade = true := by
    rw [h.1.1, h.1.2]
    decide
  rw [h.1.1] at hfinal
  simp [of, hfinal, h.1.1]

/-- **The head says what the disposition is.** -/
theorem disposition_iff (serverName : Option Bytes) (call : Call) (resp : Response)
    (consumed : Bool) (hstatus : (of serverName call resp consumed).status ≠ 101) {date : Bytes}
    (hdate : validFieldValue date = true) :
    ∃ fields, HeadOf ((of serverName call resp consumed).head date)
        (statusText call.version (of serverName call resp consumed).status) fields ∧
      ((of serverName call resp consumed).disposition = .keepAlive
        ↔ saysPersists call.version fields = true) ∧
      (saysPersists call.version fields = false →
        (of serverName call resp consumed).disposition = .close) := by
  have hversion : (of serverName call resp consumed).version = call.version := rfl
  have hupgrade : ¬ (of serverName call resp consumed).upgrading = true :=
    fun h => hstatus (upgrading_of h)
  rw [← hversion]
  generalize of serverName call resp consumed = a at hstatus hupgrade ⊢
  refine ⟨_, headOf_writeHeadFor a.version ⟨a.status, a.headers⟩ a.outBody a.keepAlive
    a.isHeadRequest hdate, ?_⟩
  rw [saysPersists_headFields a.version hstatus, disposition, if_neg hupgrade]
  cases a.keepAlive <;> simp

end Answer

/-! ## 4. Until the response is written -/

/-- An event without a transport error, without the expiry of a deadline
that a response is held to, and without a failure of its stream. -/
def Smooth (e : Event) : Prop :=
  Conn.WritesOk e ∧ e ≠ .bodyDeadline ∧ e ≠ .stream .failed ∧ e ≠ .stream .panic

namespace Conn

/-- The current request has this answer, dated by the clock. -/
def Replied (env : Env) (a : Answer) (c : Conn) : Prop :=
  ∃ x r n, c.now = some x ∧ x.reply = some r ∧ r.answer = a ∧ r.date = env.date n

/-- The current request has this answer, and all of it. -/
def RepliedWhole (env : Env) (a : Answer) (c : Conn) : Prop :=
  ∃ x r n, c.now = some x ∧ x.reply = some r ∧ r.answer = a ∧ r.date = env.date n ∧ r.Complete

/-- `write_response` is at work on the answer. -/
def Writing (env : Env) (a : Answer) (c : Conn) : Prop :=
  match c.pc with
  | .settling (.respond b) => b = a ∧ c.now.isSome = true
  | .flushing _ (.stream b _) => b = a ∧ Replied env a c
  | .streaming b _ => b = a ∧ Replied env a c
  | .flushing _ (.finish b) => b = a ∧ RepliedWhole env a c
  | _ => False

/-- `write_response` has written the answer and come back with the
disposition `d`, which `serve` acts on. -/
def Returned (env : Env) (a : Answer) (d : Disposition) (c : Conn) : Prop :=
  ∃ done, RepliedWhole env a done ∧ c = dispose env done d

theorem finish_returns {env : Env} {a : Answer} {c : Conn} (h : RepliedWhole env a c) :
    Writing env a (flushOr (.finish a) c (dispose env c a.disposition)) ∨
      Returned env a a.disposition (flushOr (.finish a) c (dispose env c a.disposition)) := by
  unfold flushOr
  split
  · exact Or.inr ⟨c, h, rfl⟩
  · exact Or.inl ⟨rfl, h⟩

theorem conclude_returns {env : Env} {a : Answer} {c : Conn} (h : RepliedWhole env a c) :
    Writing env a (conclude env a c) ∨ Returned env a a.disposition (conclude env a c) := by
  have hio : ∀ io : IoState, RepliedWhole env a (c.setIo io) := fun _ => h
  unfold conclude
  split
  · simp only
    split
    · exact Or.inr ⟨_, hio _, rfl⟩
    · exact finish_returns (hio _)
  · exact finish_returns h

theorem respondHead_returns {env : Env} {a : Answer} {c : Conn} {x : Exchange}
    (hnow : c.now = some x) :
    Writing env a (respondHead env a c) ∨ Returned env a a.disposition (respondHead env a c) := by
  have hwhole : ∀ out, (a.writesBody = true → a.body ≠ .stream) → RepliedWhole env a { c with
      out := out, heads := c.heads + 1
      now := c.now.map (Exchange.answer ⟨a, env.date c.heads, [], false⟩) } := by
    intro out hbody
    refine ⟨x.answer ⟨a, env.date c.heads, [], false⟩, _, c.heads, ?_, rfl, rfl, rfl,
      fun hwrites hstream => absurd hstream (hbody hwrites)⟩
    show c.now.map _ = _
    rw [hnow]
    rfl
  have hreplied : ∀ out pc, Replied env a { c with
      out := out, heads := c.heads + 1
      now := c.now.map (Exchange.answer ⟨a, env.date c.heads, [], false⟩), pc := pc } := by
    intro out pc
    refine ⟨x.answer ⟨a, env.date c.heads, [], false⟩, _, c.heads, ?_, rfl, rfl, rfl⟩
    show c.now.map _ = _
    rw [hnow]
    rfl
  unfold respondHead
  simp only
  split
  · split
    · rename_i hbody
      exact conclude_returns (hwhole _ fun _ => by simp [hbody])
    · rename_i b hbody
      exact conclude_returns (hwhole _ fun _ => by simp [hbody])
    · unfold flushOr
      split
      · exact Or.inl ⟨rfl, hreplied _ _⟩
      · exact Or.inl ⟨rfl, hreplied _ _⟩
  · rename_i hwrites
    exact conclude_returns (hwhole _ fun h => absurd h hwrites)

theorem respond_returns {env : Env} {c : Conn} {x : Exchange} (hnow : c.now = some x) (call : Call)
    (resp : Response) :
    Writing env (Answer.of env.serverName call resp c.shared.bodyRead) (respond env call resp c) ∨
      Returned env (Answer.of env.serverName call resp c.shared.bodyRead)
        (Answer.of env.serverName call resp c.shared.bodyRead).disposition
        (respond env call resp c) := by
  have hnow' : c.now.map (Exchange.responded resp) = some (x.responded resp) := by rw [hnow]; rfl
  unfold respond settleContinue
  simp only
  split
  · exact respondHead_returns hnow'
  · split
    · exact respondHead_returns hnow'
    · refine Or.inl ⟨rfl, ?_⟩
      show (c.now.map _).isSome = true
      rw [hnow']
      rfl

/-- Nothing but the loop's place and the current reply matters. -/
theorem Writing.of_same {env : Env} {a : Answer} {c c' : Conn} {f : Exchange → Exchange}
    (h : Writing env a c) (hpc : c'.pc = c.pc) (hnow : c'.now = c.now.map f)
    (hf : ∀ x, (f x).reply = x.reply) : Writing env a c' := by
  have hreplied : Replied env a c → Replied env a c' := by
    rintro ⟨x, r, n, hx, hr, hrest⟩
    exact ⟨f x, r, n, by rw [hnow, hx]; rfl, (hf x).trans hr, hrest⟩
  have hwhole : RepliedWhole env a c → RepliedWhole env a c' := by
    rintro ⟨x, r, n, hx, hr, hrest⟩
    exact ⟨f x, r, n, by rw [hnow, hx]; rfl, (hf x).trans hr, hrest⟩
  unfold Writing at h ⊢
  rw [hpc]
  generalize c.pc = pc at h ⊢
  cases pc with
  | settling next =>
      cases next with
      | respond b => exact ⟨h.1, by rw [hnow, Option.isSome_map]; exact h.2⟩
      | error => exact h
  | flushing written next =>
      cases next with
      | stream b parked => exact ⟨h.1, hreplied h.2⟩
      | finish b => exact ⟨h.1, hwhole h.2⟩
      | _ => exact h
  | streaming b parked => exact ⟨h.1, hreplied h.2⟩
  | _ => exact h

theorem stepBody_writing {env : Env} {a : Answer} {c : Conn} (h : Writing env a c) (b : BodyState)
    (op : BodyOp) : Writing env a (stepBody c b op) := by
  cases op with
  | poll answers => exact @Writing.of_same _ _ _ _ (Exchange.polled _ _ _) h rfl rfl fun _ => rfl
  | abandon =>
      simp only [stepBody]
      split
      · exact h
      · exact @Writing.of_same _ _ _ _ (Exchange.polled _ _ _) h rfl rfl fun _ => rfl
  | drop => exact @Writing.of_same _ _ _ _ id h rfl (Option.map_id_apply).symm fun _ => rfl

theorem stepStale_writing {env : Env} {a : Answer} {c : Conn} (h : Writing env a c) (i : Nat)
    (b : BodyState) (op : BodyOp) : Writing env a (stepStale c i b op) := by
  have hsame : ∀ sh st, Writing env a { c with shared := sh, stale := st } :=
    fun _ _ => @Writing.of_same _ _ _ _ id h rfl (Option.map_id_apply).symm fun _ => rfl
  cases op with
  | poll answers => exact hsame _ _
  | abandon =>
      simp only [stepStale]
      split
      · exact h
      · exact hsame _ _
  | drop => exact hsame _ _

theorem stepSettling_returns {env : Env} {a : Answer} {c : Conn}
    (hpc : c.pc = .settling (.respond a)) (hnow : c.now.isSome = true) {e : Event} (he : Smooth e) :
    Writing env a (stepSettling env c (.respond a) e) ∨
      Returned env a a.disposition (stepSettling env c (.respond a) e) := by
  obtain ⟨x, hx⟩ := Option.isSome_iff_exists.mp hnow
  have hrecord : ∀ io : IoState, ∃ y, (c.record io).now = some y := by
    intro io
    exact ⟨_, by rw [record, hx]; rfl⟩
  unfold stepSettling
  split
  · rename_i writes flush
    have hok := pollSendContinue_ok he.1.2 writes c.shared.io he.1.1
    rcases hpoll : c.shared.io.pollSendContinue flush writes with ⟨_ | _ | _, io⟩
    · refine Or.inl ?_
      obtain ⟨y, hy⟩ := hrecord io
      have hpc' : (c.record io).pc = .settling (.respond a) := hpc
      simp [Writing, hpc', hy]
    · obtain ⟨y, hy⟩ := hrecord io
      exact respondHead_returns hy
    · rw [hpoll] at hok
      exact absurd rfl hok
  · exact absurd he.1 (by simp [WritesOk])
  · exact Or.inl (by simp [Writing, hpc, hnow])

/-- Behind a flush that went well. -/
theorem stepFlushing_returns {env : Env} {a : Answer} {c : Conn} {written : Nat} {next : AfterFlush}
    (hpc : c.pc = .flushing written next) (h : Writing env a c) {e : Event} (he : Smooth e) :
    Writing env a (stepFlushing env c written next e) ∨
      Returned env a a.disposition (stepFlushing env c written next e) := by
  have hwrite : ∀ (w : Nat) (sh : Shared),
      Writing env a { c with shared := sh, pc := .flushing w next } := by
    intro w sh
    unfold Writing at h ⊢
    rw [hpc] at h
    cases next <;> exact h
  have hproceed : Writing env a (proceed env { c with out := [] } next) ∨
      Returned env a a.disposition (proceed env { c with out := [] } next) := by
    unfold Writing at h
    rw [hpc] at h
    cases next with
    | stream b parked =>
        obtain ⟨rfl, hreplied⟩ := h
        exact Or.inl ⟨rfl, hreplied⟩
    | finish b =>
        obtain ⟨rfl, hwhole⟩ := h
        exact Or.inr ⟨{ c with out := [] }, hwhole, rfl⟩
    | _ => exact absurd h (by simp)
  unfold stepFlushing
  split
  · exact absurd rfl he.1.1
  · rename_i n
    split
    · split
      · rename_i hn
        exact absurd (by rw [hn]) he.1.2
      · exact Or.inl (hwrite _ _)
    · exact Or.inl h
  · split
    · exact Or.inl h
    · exact hproceed
  · exact absurd rfl he.1
  · exact absurd he.1 (by simp [WritesOk])
  · exact Or.inl h

theorem stepStreaming_returns {env : Env} {a : Answer} {c : Conn} {parked : Bool}
    (hpc : c.pc = .streaming a parked) (h : Replied env a c) {e : Event} (he : Smooth e) :
    Writing env a (stepStreaming env c a parked e) ∨
      Returned env a a.disposition (stepStreaming env c a parked e) := by
  have hsame : Writing env a c := by simpa [Writing, hpc] using h
  obtain ⟨x, r, n, hnow, hreply, ha, hdate⟩ := h
  have hreplied : ∀ pc : Pc, Replied env a { c with pc := pc } :=
    fun pc => ⟨x, r, n, hnow, hreply, ha, hdate⟩
  have hitem : ∀ (b : Bytes) (pc : Pc), Replied env a { addItem a b c with pc := pc } := by
    intro b pc
    refine ⟨x.onReply (Reply.addItem b), Reply.addItem b r, n, ?_, ?_, ha, hdate⟩
    · simp [addItem, hnow]
    · simp [Exchange.onReply, hreply]
  have hend : RepliedWhole env a (addEnd a c) := by
    refine ⟨x.onReply Reply.finish, r.finish, n, ?_, ?_, ha, hdate, fun _ _ => rfl⟩
    · simp [addEnd, hnow]
    · simp [Exchange.onReply, hreply]
  unfold stepStreaming
  split
  · split
    · exact Or.inl hsame
    · unfold flushOr
      split
      · exact Or.inl ⟨rfl, hreplied _⟩
      · exact Or.inl ⟨rfl, hreplied _⟩
  · rename_i b
    simp only
    split
    · unfold flushOr
      split
      · exact Or.inl ⟨rfl, hitem b _⟩
      · exact Or.inl ⟨rfl, hitem b _⟩
    · exact Or.inl ⟨rfl, hitem b _⟩
  · exact absurd rfl he.2.2.1
  · exact conclude_returns hend
  · exact absurd rfl he.2.2.2
  · exact absurd rfl he.2.1
  · exact Or.inl hsame

/-- One event takes `write_response` on, or back to `serve`. -/
theorem step_returns {env : Env} {a : Answer} {c : Conn} (h : Writing env a c) {e : Event}
    (he : Smooth e) :
    Writing env a (step env c e) ∨ Returned env a a.disposition (step env c e) := by
  unfold step
  split
  · split
    · split
      · exact Or.inl (stepBody_writing h _ _)
      · exact Or.inl h
    · exact Or.inl h
  · split
    · split
      · exact Or.inl h
      · exact Or.inl (stepStale_writing h _ _ _)
    · exact Or.inl h
  · cases hpc : c.pc with
    | settling next =>
        simp only [Writing, hpc] at h
        cases next with
        | respond b =>
            obtain ⟨rfl, hnow⟩ := h
            exact stepSettling_returns hpc hnow he
        | error => exact absurd h (by simp)
    | flushing written next => exact stepFlushing_returns hpc h he
    | streaming b parked =>
        simp only [Writing, hpc] at h
        obtain ⟨rfl, hreplied⟩ := h
        exact stepStreaming_returns hpc hreplied he
    | _ => simp [Writing, hpc] at h

/-- A run that goes well is still at work, or has been back to `serve`. -/
theorem foldl_returns {env : Env} {a : Answer} {events : List Event} (he : ∀ e ∈ events, Smooth e)
    {c : Conn} (h : Writing env a c ∨ Returned env a a.disposition c) :
    Writing env a (events.foldl (step env) c) ∨
      ∃ before after, events = before ++ after ∧
        Returned env a a.disposition (before.foldl (step env) c) := by
  induction events generalizing c with
  | nil => exact h.imp_right fun hret => ⟨[], [], rfl, hret⟩
  | cons e events ih =>
      rcases h with h | h
      · have hstep := step_returns h (he e (by simp))
        rcases ih (fun e' he' => he e' (by simp [he'])) hstep with hrun | ⟨before, after, rfl, hret⟩
        · exact Or.inl hrun
        · exact Or.inr ⟨e :: before, after, rfl, hret⟩
      · exact Or.inr ⟨[], e :: events, rfl, h⟩

/-- **The response says what the socket then does.** Let a handler's
response, whatever its status, fields and body, be answered on any
connection with any flags. While nothing fails, `write_response` is at work
on it until it comes back; the response is then written whole, and the
disposition it comes back with is `KeepAlive` exactly when the head it wrote,
read by the crate's own rule, says that the connection persists, and `Close`
otherwise. -/
theorem response_says_disposition (env : Env) (hdate : ∀ n, validFieldValue (env.date n) = true)
    (call : Call) (resp : Response) (c : Conn) (x : Exchange) (hnow : c.now = some x)
    (hstatus : (Answer.of env.serverName call resp c.shared.bodyRead).status ≠ 101)
    (events : List Event) (he : ∀ e ∈ events, Smooth e) :
    Writing env (Answer.of env.serverName call resp c.shared.bodyRead)
      (events.foldl (step env) (respond env call resp c)) ∨
    ∃ before after d done y r fields, events = before ++ after ∧
      before.foldl (step env) (respond env call resp c) = dispose env done d ∧
      done.now = some y ∧ y.reply = some r ∧ r.Complete ∧
      r.answer = Answer.of env.serverName call resp c.shared.bodyRead ∧
      HeadOf (r.answer.head r.date) (statusText call.version r.answer.status) fields ∧
      (d = .keepAlive ↔ saysPersists call.version fields = true) ∧
      (saysPersists call.version fields = false → d = .close) := by
  refine (foldl_returns he (respond_returns hnow call resp)).imp_right ?_
  rintro ⟨before, after, hsplit, done, ⟨y, r, n, hy, hr, ha, hn, hwhole⟩, hdone⟩
  obtain ⟨fields, hhead, hiff, hclose⟩ := Answer.disposition_iff env.serverName call resp
    c.shared.bodyRead hstatus (hdate n)
  refine ⟨before, after, _, done, y, r, fields, hsplit, hdone, hy, hr, hwhole, ha, ?_, hiff, hclose⟩
  rw [ha, hn]
  exact hhead

/-- A handler that spells `close` in its own way, on a request that could be
kept alive. -/
def closingResponse : Response :=
  ⟨200, [(.connection, ascii "x, CLOSE"), (.connection, ascii "Keep-Alive")], .full (ascii "hi")⟩

/-- The connection at the call of its handler. -/
def calledConn : Conn := run sampleEnv [] [.read (.ok getRequest)]

def plainCall : Call := ⟨.http11, true, false, false, false⟩

/-- The response is written and flushed. -/
def closingEvents : List Event := [.write (.ok 1000), .flush .ok]

theorem response_says_disposition_close :
    (closingEvents.foldl (step sampleEnv)
      (respond sampleEnv plainCall closingResponse calledConn)).pc.quiet = true ∧
    ∃ (before : List Event) (d : Disposition) (done : Conn) (r : Reply)
      (fields : List (Bytes × Bytes)),
      before.foldl (step sampleEnv) (respond sampleEnv plainCall closingResponse calledConn)
        = dispose sampleEnv done d ∧
      r.answer = Answer.of none plainCall closingResponse calledConn.shared.bodyRead ∧
      HeadOf (r.answer.head r.date) (statusText .http11 r.answer.status) fields ∧
      (d = .keepAlive ↔ saysPersists .http11 fields = true) ∧
      (saysPersists .http11 fields = false → d = .close) := by
  have hquiet : (closingEvents.foldl (step sampleEnv)
      (respond sampleEnv plainCall closingResponse calledConn)).pc.quiet = true := by
    decide +kernel
  obtain ⟨x, hx⟩ : ∃ x, calledConn.now = some x :=
    Option.isSome_iff_exists.mp (by decide +kernel)
  have hdate : validFieldValue (ascii "Thu, 01 Jan 1970 00:00:00 GMT") = true := by decide
  refine ⟨hquiet, ?_⟩
  rcases response_says_disposition sampleEnv
    (fun _ => hdate) plainCall closingResponse calledConn x hx
    (by decide +kernel) closingEvents (by simp [closingEvents, Smooth, WritesOk, WriteOk])
    with hwriting | ⟨before, -, d, done, -, r, fields, -, hdone, -, -, -, ha, hhead, hiff, hclose⟩
  · refine absurd hwriting ?_
    generalize closingEvents.foldl (step sampleEnv)
      (respond sampleEnv plainCall closingResponse calledConn) = c at hquiet
    unfold Writing
    cases hpc : c.pc with
    | reading => simp
    | ended => simp
    | _ => rw [hpc] at hquiet; cases hquiet
  · exact ⟨before, d, done, r, fields, hdone, ha, hhead, hiff, hclose⟩

end Conn

end ArmatureH1

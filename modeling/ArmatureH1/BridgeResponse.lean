/-
ArmatureH1.BridgeResponse — the two backends answer alike.

The native writer and the bridge each derive, in code of their own, which
responses cannot be sent, whether the connection persists, which tokens go
into `Connection`, and which lengths of a handler are passed on. Both start
from one response: the handler's, or a bare 500 in its place (`degraded`).
The native answer in terms of it is `answer_of`, the bridge's loop over the
fields is `respondLoop_spec`, and the rest compares the two.
-/
import ArmatureH1.Bridge
import ArmatureH1.Persistence

namespace ArmatureH1

open ByteString Client

/-! ## 1. Names -/

theorem isTchar_toAsciiLowercase (b : UInt8) : isTchar (toAsciiLowercase b) = isTchar b := by
  have := forall_byte (p := fun b => isTchar (toAsciiLowercase b) == isTchar b)
    (by decide +kernel) b
  simpa using this

theorem isToken_lowercase {t : Bytes} : IsToken (lowercase t) ↔ IsToken t := by
  unfold IsToken lowercase
  simp [isTchar_toAsciiLowercase]

/-- The name of a field that is well known can be written, however it is
spelled. -/
theorem writable_of_canonical {id k : HeaderId} (hk : k ∈ HeaderId.wellKnown) (h : id.canonical = k)
    (value : Bytes) : writable id value = validFieldValue value := by
  rcases HeaderId.mem_wellKnown_or_other id with hknown | ⟨name, rfl⟩
  · unfold writable
    cases id with
    | other name => simp [HeaderId.wellKnown] at hknown
    | _ => rfl
  · have htoken : IsToken name.bytes := by
      have hlower := HeaderId.lowercase_canonical (.other name)
      rw [h] at hlower
      rw [← isToken_lowercase]
      change IsToken (lowercase (HeaderId.other name).asStr)
      rw [← hlower, isToken_lowercase]
      exact HeaderId.isToken_asStr hk
    simp [writable, validFieldName_iff.mpr htoken]

/-- Letter case does not matter to a client. -/
theorem eqIgnoreAsciiCase_lowercase (s t : Bytes) :
    eqIgnoreAsciiCase (lowercase s) t = eqIgnoreAsciiCase s t := by
  rw [eqIgnoreAsciiCase, eqIgnoreAsciiCase, lowercase_idem]

/-! ## 2. What the bridge relies on -/

/-- What the `http` crate documents of the functions that the bridge calls:
every number from 100 to 999 is a status, a name that is taken is turned
into lowercase, `content-length` is one, and a value is taken that is made
of tokens, commas and spaces. -/
structure HttpCrate.Documented (http : HttpCrate) : Prop where
  statusCode : ∀ n, 100 ≤ n → n < 1000 → http.statusCode n = some n
  headerName : ∀ name made, http.headerName name = some made → made = lowercase name
  contentLength : http.headerName (ascii "content-length") = some (ascii "content-length")
  headerValue : ∀ v, (∀ b ∈ v, isTchar b = true ∨ b = 44 ∨ b = SP) → http.headerValue v = true

theorem HttpCrate.Documented.digits {http : HttpCrate} (h : http.Documented) {v : Bytes}
    (hv : IsDigits v) : http.headerValue v = true := by
  have hall := fun b =>
    forall_byte (p := fun b => !isAsciiDigit b || isTchar b) (by decide +kernel) b
  refine h.headerValue v fun b hb => Or.inl ?_
  simpa [hv.2 b hb] using hall b

theorem mem_joinTokens {tokens : List Bytes} {b : UInt8} (h : b ∈ joinTokens tokens) :
    b ∈ ascii ", " ∨ ∃ t ∈ tokens, b ∈ t := by
  cases tokens with
  | nil => cases h
  | cons first rest =>
      rcases List.mem_append.mp h with h | h
      · exact Or.inr ⟨first, by simp, h⟩
      · obtain ⟨t, ht, h⟩ := List.mem_flatMap.mp h
        rcases List.mem_append.mp h with h | h
        · exact Or.inl h
        · exact Or.inr ⟨t, by simp [ht], h⟩

theorem HttpCrate.Documented.tokens {http : HttpCrate} (h : http.Documented) {tokens : List Bytes}
    (htokens : ∀ t ∈ tokens, IsToken t) : http.headerValue (joinTokens tokens) = true := by
  refine h.headerValue _ fun b hb => ?_
  rcases mem_joinTokens hb with hb | ⟨t, ht, hb⟩
  · have hcomma : ascii ", " = [44, SP] := by decide
    rw [hcomma] at hb
    simpa using Or.inr hb
  · exact Or.inl ((htokens t ht).2 b hb)

/-! ## 3. The loop over the fields -/

/-- The lengths of a handler that the bridge passes on. -/
def passedLengths (stale : Bytes → Bool) (headers : HeaderVec) : List Bytes :=
  (headers.filter fun f => f.1.canonical == .contentLength && !stale f.2).map Prod.snd

/-- A field that the bridge hands on under a well-known name. -/
theorem values_passed {http : HttpCrate} (h : http.Documented) {id k : HeaderId}
    (hk : k ∈ HeaderId.wellKnown) {name v : Bytes}
    (hname : http.headerName id.canonical.asStr = some name) :
    values k.asStr [(name, v)] = if id.canonical = k then [v] else [] := by
  rw [h.headerName _ _ hname, values, List.filter_cons]
  rw [show eqIgnoreAsciiCase (lowercase id.canonical.asStr, v).1 k.asStr
    = eqIgnoreAsciiCase id.canonical.asStr k.asStr from eqIgnoreAsciiCase_lowercase _ _]
  by_cases heq : id.canonical = k
  · rw [if_pos ((HeaderId.eq_canonical_iff hk).mpr heq), if_pos heq]
    rfl
  · rw [if_neg (fun h' => heq ((HeaderId.eq_canonical_iff hk).mp h')), if_neg heq]
    rfl

/-- What the loop collects. -/
structure Collected (stale : Bytes → Bool) (headers : HeaderVec) (s s' : RespondLoop) : Prop where
  tokens : s'.connectionTokens = s.connectionTokens ++ handlerTokens headers
  connection : values (ascii "connection") s'.headers = values (ascii "connection") s.headers
  lengths : values (ascii "content-length") s'.headers
    = values (ascii "content-length") s.headers ++ passedLengths stale headers

theorem Collected.trans {stale : Bytes → Bool} {f : HeaderId × Bytes} {headers : HeaderVec}
    {s s' s'' : RespondLoop} (h : Collected stale [f] s s') (h' : Collected stale headers s' s'') :
    Collected stale (f :: headers) s s'' where
  tokens := by
    rw [h'.tokens, h.tokens, List.append_assoc]
    congr 1
    by_cases hf : f.1.canonical = .connection <;> simp [handlerTokens, hf]
  connection := h'.connection.trans h.connection
  lengths := by
    rw [h'.lengths, h.lengths, List.append_assoc]
    congr 1
    by_cases hf : (f.1.canonical == .contentLength && !stale f.2) = true <;>
      simp [passedLengths, hf]

/-- One field: a length that is stale and every coding go, tokens are
gathered, and of the rest only a length matters here. -/
theorem respondLoop_step {http : HttpCrate} (h : http.Documented) {stale : Bytes → Bool}
    (hstale : ∀ v, stale v = false → IsDigits v) (s : RespondLoop) (f : HeaderId × Bytes) :
    Collected stale [f] s (s.step http stale f) := by
  have hlength : HeaderId.contentLength ∈ HeaderId.wellKnown := by decide
  have hconnection : HeaderId.connection ∈ HeaderId.wellKnown := by decide
  by_cases hcl : f.1.canonical = .contentLength
  · have htokens : handlerTokens [f] = [] := by simp [handlerTokens, hcl]
    cases hs : stale f.2 with
    | true =>
        have hstep : s.step http stale f = s := by simp [RespondLoop.step, hcl, hs]
        rw [hstep]
        exact ⟨by rw [htokens, List.append_nil], rfl, by simp [passedLengths, hcl, hs]⟩
    | false =>
        have hname : http.headerName f.1.canonical.asStr = some (ascii "content-length") := by
          rw [hcl]
          exact h.contentLength
        have hstep : s.step http stale f
            = { s with headers := s.headers ++ [(ascii "content-length", f.2)] } := by
          have hname' : http.headerName HeaderId.contentLength.asStr
              = some (ascii "content-length") := h.contentLength
          simp [RespondLoop.step, hcl, hs, hname', h.digits (hstale f.2 hs)]
        rw [hstep]
        have hseen := values_passed h hlength (v := f.2) hname
        have hunseen := values_passed h hconnection (v := f.2) hname
        rw [if_pos hcl] at hseen
        rw [if_neg (by rw [hcl]; decide)] at hunseen
        refine ⟨by rw [htokens, List.append_nil], ?_, ?_⟩
        · show values (ascii "connection") (s.headers ++ [_]) = _
          rw [values_append]
          exact (congrArg _ hunseen).trans (List.append_nil _)
        · show values (ascii "content-length") (s.headers ++ [_]) = _
          rw [values_append]
          refine congrArg _ (hseen.trans ?_)
          simp [passedLengths, hcl, hs]
  · have hlengths : passedLengths stale [f] = [] := by simp [passedLengths, hcl]
    by_cases hte : f.1.canonical = .transferEncoding
    · have hstep : s.step http stale f = s := by simp [RespondLoop.step, hte]
      rw [hstep]
      exact ⟨by simp [handlerTokens, hte], rfl, by rw [hlengths, List.append_nil]⟩
    · by_cases hconn : f.1.canonical = .connection
      · have hstep : s.step http stale f
            = { s with connectionTokens := s.connectionTokens ++ connectionTokens f.2 } := by
          simp [RespondLoop.step, hconn]
        rw [hstep]
        exact ⟨by simp [handlerTokens, hconn], rfl, by rw [hlengths, List.append_nil]⟩
      · have htokens : handlerTokens [f] = [] := by simp [handlerTokens, hconn]
        have hkeep : Collected stale [f] s s :=
          ⟨by rw [htokens, List.append_nil], rfl, by rw [hlengths, List.append_nil]⟩
        unfold RespondLoop.step
        simp only [hcl, hte, hconn, false_and, if_false]
        split
        · exact hkeep
        · rename_i name hname
          split
          · have hunseen := values_passed h hconnection (v := f.2) hname
            have hnolen := values_passed h hlength (v := f.2) hname
            rw [if_neg hconn] at hunseen
            rw [if_neg hcl] at hnolen
            refine ⟨by rw [htokens, List.append_nil], ?_, ?_⟩
            · show values (ascii "connection") (s.headers ++ [_]) = _
              rw [values_append]
              exact (congrArg _ hunseen).trans (List.append_nil _)
            · show values (ascii "content-length") (s.headers ++ [_]) = _
              rw [values_append, hlengths]
              exact congrArg _ hnolen
          · exact hkeep

theorem respondLoop_spec {http : HttpCrate} (h : http.Documented) {stale : Bytes → Bool}
    (hstale : ∀ v, stale v = false → IsDigits v) (headers : HeaderVec) (s : RespondLoop) :
    Collected stale headers s (headers.foldl (RespondLoop.step http stale) s) := by
  induction headers generalizing s with
  | nil => exact ⟨(List.append_nil _).symm, rfl, (List.append_nil _).symm⟩
  | cons f headers ih => exact (respondLoop_step h hstale s f).trans (ih _)

/-! ## 4. One verdict on a length -/

/-- A length that is not stale is a number. -/
theorem isDigits_of_not_stale {v : Bytes} {instances status : Nat} {headRequest competing : Bool}
    {bodyLen : Option Nat}
    (h : handlerLengthIsStale v instances status headRequest bodyLen competing = false) :
    IsDigits v := by
  obtain ⟨n, hn⟩ := Option.isSome_iff_exists.mp (not_stale h).2.2.1
  exact (parseLen_eq_some hn).1

/-- Where a status forbids a body, its length does not enter the verdict. -/
theorem handlerLengthIsStale_forbidden {v : Bytes} {instances status : Nat}
    {headRequest competing : Bool} {bodyLen : Option Nat} (h : forbidsBodyFraming status = true)
    (bodyLen' : Option Nat) :
    handlerLengthIsStale v instances status headRequest bodyLen competing
      = handlerLengthIsStale v instances status headRequest bodyLen' competing := by
  unfold handlerLengthIsStale
  split
  · rfl
  · rename_i hfirst
    have hdescriptive : contentLengthIsDescriptive status = true := by
      rw [not_or, h] at hfirst
      simpa using hfirst.2
    rw [if_pos (by rw [hdescriptive]; rfl), if_pos (by rw [hdescriptive]; rfl)]

/-- The values that are counted are those that can be written. -/
theorem lengthInstances_eq (headers : HeaderVec) :
    (headers.filter fun f => f.1.canonical == .contentLength && validFieldValue f.2).length
      = (writableValues .contentLength headers).length := by
  rw [writableValues, List.length_map]
  congr 1
  refine List.filter_congr fun f _ => ?_
  by_cases hf : f.1.canonical = .contentLength
  · rw [writable_of_canonical (by decide) hf, Bool.and_comm]
  · rw [beq_eq_false_iff_ne.mpr hf, Bool.false_and, Bool.and_false]

/-- The bridge passes on those writable lengths that are not stale. -/
theorem passedLengths_eq {stale : Bytes → Bool} (hstale : ∀ v, stale v = false → IsDigits v)
    (headers : HeaderVec) :
    passedLengths stale headers
      = (writableValues .contentLength headers).filter fun v => !stale v := by
  rw [passedLengths, writableValues, List.filter_map, List.filter_filter]
  congr 1
  refine List.filter_congr fun f _ => ?_
  by_cases hf : f.1.canonical = .contentLength
  · cases hs : stale f.2 with
    | true => simp [hs]
    | false =>
        have hvalid : validFieldValue f.2 = true := (hstale f.2 hs).writes
        simp [hf, hs, writable_of_canonical (by decide) hf, hvalid]
  · simp [beq_eq_false_iff_ne.mpr hf]

/-- **One verdict.** Without a coding that is kept, the native writer keeps
the lengths that are not stale by themselves: it judges the first and keeps
them all, but more than one is stale in any case. -/
theorem keptLengths_eq {version : Version} {resp : ResponseHead} {body : OutBody}
    {headRequest : Bool} (hcodings : keptCodings version resp body = []) :
    keptLengths version resp body headRequest
      = (writableValues .contentLength resp.headers).filter fun v =>
        !handlerLengthIsStale v (writableValues .contentLength resp.headers).length resp.status
          headRequest body.len false := by
  obtain ⟨hlen, hcount, hte, -⟩ := scan_spec resp.headers
  have hcompeting : ((FieldScan.ofHeaders resp.headers).handlerTe.isSome
      && !verdictTe version resp body) = false := by
    rw [hte]
    cases hverdict : verdictTe version resp body with
    | true => simp
    | false =>
        rw [keptCodings, hverdict] at hcodings
        simpa using hcodings
  rw [keptLengths, verdictLen, staleContentLength, hcompeting, hlen, hcount]
  cases hvalues : writableValues .contentLength resp.headers with
  | nil => rfl
  | cons v rest =>
      cases rest with
      | nil =>
          cases hv : handlerLengthIsStale v 1 resp.status headRequest body.len false <;> simp [hv]
      | cons w rest =>
          have hmany : ∀ u, handlerLengthIsStale u (v :: w :: rest).length resp.status headRequest
              body.len false = true := by
            intro u
            unfold handlerLengthIsStale
            rw [if_pos (Or.inl (by simp))]
          rw [List.head?_cons, Option.any_some, hmany v, if_pos rfl]
          symm
          rw [List.filter_eq_nil_iff]
          intro u _
          rw [hmany u]
          simp

/-! ## 5. One response -/

/-- What the native backend makes of a handler's response. -/
def nativeAnswer (serverName : Option Bytes) (h : Head) (resp : Response) (consumed : Bool) :
    Answer :=
  Answer.of serverName (Call.ofHead h) resp consumed

/-- The fields that the native backend writes. -/
def nativeFields (a : Answer) (date : Bytes) : List (Bytes × Bytes) :=
  headFields a.version ⟨a.status, a.headers⟩ a.outBody date a.keepAlive a.isHeadRequest

/-- Those of them that are the handler's. -/
def nativeHandlerFields (a : Answer) : List (Bytes × Bytes) :=
  handlerFields a.version ⟨a.status, a.headers⟩ a.outBody a.isHeadRequest

section Answers

variable (serverName : Option Bytes) (h : Head) (resp : Response) (consumed : Bool)

/-- The native answer is one to the same response, and takes the same
decision about the connection. -/
theorem nativeAnswer_eq :
    (nativeAnswer serverName h resp consumed).status = (Bridge.degraded h resp).status ∧
      (nativeAnswer serverName h resp consumed).headers
        = Answer.withServer serverName (Bridge.degraded h resp).headers ∧
      (nativeAnswer serverName h resp consumed).body = (Bridge.degraded h resp).body := by
  unfold nativeAnswer Answer.of Bridge.degraded Bridge.impossibleStatus
  cases isFinalStatus resp.status (Call.ofHead h).wantsUpgrade <;> exact ⟨rfl, rfl, rfl⟩

theorem keepAlive_eq (hstatus : (nativeAnswer serverName h resp consumed).status ≠ 101) :
    persistsAfter (Bridge.keepAlive h resp consumed) (Bridge.degraded h resp).headers
      = (nativeAnswer serverName h resp consumed).keepAlive := by
  rw [(nativeAnswer_eq serverName h resp consumed).1] at hstatus
  unfold nativeAnswer Answer.of persistsAfter Bridge.keepAlive
  unfold Bridge.degraded at hstatus ⊢
  cases hfinal : isFinalStatus resp.status (Call.ofHead h).wantsUpgrade with
  | false => simp [Bridge.impossibleStatus, hfinal]
  | true =>
      have hnot : Bridge.impossibleStatus h resp = false := by
        simp [Bridge.impossibleStatus, hfinal]
      rw [hnot] at hstatus ⊢
      simp only [Bool.false_eq_true, if_false] at hstatus ⊢
      have h101 : (resp.status == 101) = false := by simpa using hstatus
      simp only [h101, Bool.false_and, Bool.not_false, Bool.or_false, Bool.and_true, if_true,
        Bool.true_and, Call.ofHead, Bool.not_not]
      cases h.isKeepAlive <;> cases consumed <;> cases Answer.saysClose resp.headers <;> simp

/-- A status that survives the degrading is one the `http` crate takes. -/
theorem statusCode_degraded {http : HttpCrate} (hhttp : http.Documented) :
    (http.statusCode (Bridge.degraded h resp).status).getD 500
      = (Bridge.degraded h resp).status := by
  have hrange : 100 ≤ (Bridge.degraded h resp).status ∧ (Bridge.degraded h resp).status < 1000 := by
    unfold Bridge.degraded
    split
    · exact ⟨by decide, by decide⟩
    · rename_i hnot
      simp only [Bridge.impossibleStatus, Bool.not_eq_true', Bool.not_eq_false, isFinalStatus,
        Bool.or_eq_true, Bool.and_eq_true, decide_eq_true_eq, beq_iff_eq] at hnot
      omega
  rw [hhttp.statusCode _ hrange.1 hrange.2]
  rfl

end Answers

/-- The server's name is neither a length nor a `Connection` field. -/
theorem withServer_eq (name : Option Bytes) (headers : HeaderVec) :
    writableValues .contentLength (Answer.withServer name headers)
        = writableValues .contentLength headers ∧
      handlerTokens (Answer.withServer name headers) = handlerTokens headers := by
  have hlen : HeaderId.server.canonical ≠ .contentLength := by decide
  have hconn : HeaderId.server.canonical ≠ .connection := by decide
  unfold Answer.withServer
  split
  · split
    · exact ⟨rfl, rfl⟩
    · exact ⟨by simp [writableValues, hlen], by simp [handlerTokens, hconn]⟩
  · exact ⟨rfl, rfl⟩

/-! ## 6. The two responses -/

/-- The one `Connection` value is read back as its tokens. -/
theorem connectionElements_connectionHeader {http : HttpCrate} (hhttp : http.Documented)
    {tokens : List Bytes} {serverToken : Option Bytes} (htokens : ∀ t ∈ tokens, IsToken t)
    (hserver : ∀ t ∈ serverToken, IsToken t) :
    connectionElements (connectionHeader http tokens serverToken)
      = tokens ++ serverToken.toList := by
  have hname : eqIgnoreAsciiCase (ascii "connection") (ascii "connection") = true := by decide
  have hone : ∀ v, connectionElements [(ascii "connection", v)] = elements v := by
    intro v
    simp [connectionElements, values, hname]
  have hall : ∀ t ∈ tokens ++ serverToken.toList, IsToken t := by
    intro t ht
    rcases List.mem_append.mp ht with ht | ht
    · exact htokens t ht
    · exact hserver t (by simpa using ht)
  unfold connectionHeader
  split
  · rename_i hnil
    rw [hnil, List.nil_append]
    cases serverToken with
    | none => rfl
    | some token =>
        have htoken := hserver token rfl
        rw [Option.toList_some, List.map_singleton, hone, elements,
          List.splitOn_eq_singleton (comma_notMem htoken), List.map_singleton,
          trimOws_of_isToken htoken]
  · rename_i hne
    simp only [hhttp.tokens hall, if_true]
    rw [hone, elements_joinTokens (by simp [hne]) hall]

theorem isToken_connectionField (version : Version) (keepAlive : Bool) :
    ∀ t ∈ connectionField version keepAlive, IsToken t := by
  intro t ht
  rw [← validFieldName_iff]
  cases version <;> cases keepAlive <;> cases ht <;> decide

/-- A field of the server's own name is neither of the two. -/
theorem values_server {k : HeaderId} (hk : k = .connection ∨ k = .contentLength)
    (name : Option Bytes) :
    values k.asStr (name.toList.map fun n => (ascii "server", n)) = [] := by
  have hconn : eqIgnoreAsciiCase (ascii "server") HeaderId.connection.asStr = false := by decide
  have hlen : eqIgnoreAsciiCase (ascii "server") HeaderId.contentLength.asStr = false := by decide
  rcases hk with rfl | rfl <;> cases name <;> simp [values, hconn, hlen]

/-- The `Connection` field that the bridge adds is no length. -/
theorem lengths_connectionHeader (http : HttpCrate) (tokens : List Bytes)
    (serverToken : Option Bytes) :
    values (ascii "content-length") (connectionHeader http tokens serverToken) = [] := by
  have hname : eqIgnoreAsciiCase (ascii "connection") (ascii "content-length") = false := by decide
  unfold connectionHeader
  split
  · cases serverToken <;> simp [values, hname]
  · simp only
    split <;> simp [values, hname]

section Response

variable {http : HttpCrate} (hhttp : http.Documented) (serverName : Option Bytes) (resp : Response)
  (version : Version) (keepAlive headRequest : Bool)

include hhttp

/-- What a response of the bridge says in its `Connection` fields, and the
handler's lengths among its fields. -/
theorem convertResponse_spec (hstatus : (http.statusCode resp.status).getD 500 = resp.status) :
    connectionElements (convertResponse http serverName resp version keepAlive headRequest).headers
        = handlerTokens resp.headers
          ++ (if resp.status ≠ 101 then
                connectionField version (persistsAfter keepAlive resp.headers) else none).toList ∧
      values (ascii "content-length")
          (convertResponse http serverName resp version keepAlive headRequest).headers
        = (writableValues .contentLength resp.headers).filter fun v =>
          !handlerLengthIsStale v (writableValues .contentLength resp.headers).length resp.status
            headRequest (expectedLen (if forbidsBodyFraming resp.status then .empty else resp.body))
            false := by
  unfold convertResponse
  simp only [hstatus, lengthInstances_eq]
  generalize hstale : (fun v => handlerLengthIsStale v
    (writableValues .contentLength resp.headers).length resp.status headRequest
    (expectedLen (if forbidsBodyFraming resp.status then .empty else resp.body)) false) = stale
  have hdigits : ∀ v, stale v = false → IsDigits v := by
    intro v hv
    subst hstale
    exact isDigits_of_not_stale hv
  have hloop := respondLoop_spec hhttp hdigits resp.headers ⟨false, [], []⟩
  generalize resp.headers.foldl (RespondLoop.step http stale) ⟨false, [], []⟩ = loop at hloop
  have hserver : ∀ k, k = .connection ∨ k = .contentLength → values (HeaderId.asStr k)
      (if loop.hasServer then [] else
        (serverName.filter http.headerValue).toList.map fun name => (ascii "server", name))
          = [] := by
    intro k hk
    split
    · rfl
    · exact values_server hk _
  have htokens : loop.connectionTokens = handlerTokens resp.headers := by
    rw [hloop.tokens, List.nil_append]
  have hisToken : ∀ t ∈ loop.connectionTokens, IsToken t := by
    intro t ht
    rw [htokens] at ht
    obtain ⟨f, -, ht⟩ := List.mem_flatMap.mp ht
    exact isToken_of_mem_connectionTokens ht
  have hown : ∀ t ∈ (if resp.status ≠ 101 then
      connectionField version (persistsAfter keepAlive resp.headers) else none), IsToken t := by
    intro t ht
    split at ht
    · exact isToken_connectionField _ _ t ht
    · cases ht
  constructor
  · rw [connectionElements_append, connectionElements_append,
      connectionElements_connectionHeader hhttp hisToken hown, htokens]
    have hnone : connectionElements loop.headers = [] := by
      rw [connectionElements, hloop.connection]
      rfl
    have hnone' := congrArg (List.flatMap elements) (hserver .connection (Or.inl rfl))
    rw [hnone, List.nil_append]
    exact congrArg (· ++ _) hnone'
  · rw [values_append, values_append, lengths_connectionHeader, List.append_nil, hloop.lengths,
      passedLengths_eq hdigits]
    refine (congrArg _ (hserver .contentLength (Or.inr rfl))).trans ?_
    rw [List.append_nil, ← hstale]
    rfl

end Response

/-- A status that cannot be a final response: the bridge sends a bare 500 and
closes. -/
theorem call_impossible {http : HttpCrate} (hhttp : http.Documented) (serverName : Option Bytes)
    {h : Head} {resp : Response} (consumed : Bool)
    (hfinal : isFinalStatus resp.status (Call.ofHead h).wantsUpgrade = false) :
    Bridge.degraded h resp = ⟨500, [], .empty⟩ ∧
      (Bridge.call http serverName h resp consumed).body = .empty ∧
      (Bridge.call http serverName h resp consumed).headers
        = (serverName.filter http.headerValue).toList.map (fun n => (ascii "server", n))
          ++ [(ascii "connection", ascii "close")] := by
  have himpossible : Bridge.impossibleStatus h resp = true := by
    simp [Bridge.impossibleStatus, hfinal]
  have hdegraded : Bridge.degraded h resp = ⟨500, [], .empty⟩ := by
    simp [Bridge.degraded, himpossible]
  have hclose : Bridge.keepAlive h resp consumed = false := by
    simp [Bridge.keepAlive, hdegraded, himpossible]
  have h500 : (http.statusCode 500).getD 500 = 500 := by
    rw [hhttp.statusCode 500 (by decide) (by decide)]
    rfl
  have hcall : Bridge.call http serverName h resp consumed
      = convertResponse http serverName ⟨500, [], .empty⟩ h.version false (h.method == .head) := by
    rw [Bridge.call, hdegraded, hclose]
  have hfield : connectionField h.version false = some (ascii "close") := by
    cases h.version <;> rfl
  refine ⟨hdegraded, ?_, ?_⟩
  · rw [hcall]
    simp only [convertResponse, h500]
    rfl
  · rw [hcall]
    simp [convertResponse, h500, persistsAfter, hfield, connectionHeader]

/-- The codings of the handler that the native writer keeps. -/
theorem native_codings (a : Answer) : values (ascii "transfer-encoding") (nativeHandlerFields a)
    = keptCodings a.version ⟨a.status, a.headers⟩ a.outBody := by
  have hwritten := values_written (k := .transferEncoding) (by decide) (by decide)
    (verdictLen a.version ⟨a.status, a.headers⟩ a.outBody a.isHeadRequest)
    (verdictTe a.version ⟨a.status, a.headers⟩ a.outBody) a.headers
  rw [keptCodings]
  refine Eq.trans hwritten ?_
  simp

/-- The lengths of the handler that it keeps. -/
theorem native_lengths (a : Answer) : values (ascii "content-length") (nativeHandlerFields a)
    = keptLengths a.version ⟨a.status, a.headers⟩ a.outBody a.isHeadRequest := by
  have hwritten := values_written (k := .contentLength) (by decide) (by decide)
    (verdictLen a.version ⟨a.status, a.headers⟩ a.outBody a.isHeadRequest)
    (verdictTe a.version ⟨a.status, a.headers⟩ a.outBody) a.headers
  rw [keptLengths]
  refine Eq.trans hwritten ?_
  simp

/-- **The two backends frame and persist alike.** For every request head,
handler response and configuration: a status that cannot be a final response
is a bare 500 under both; where the status is not 101 both take the same
decision about the connection, and the bridge's response says it; the
elements of all `Connection` fields are the same list; and, unless the native
writer keeps a coding of the handler, the bridge passes on exactly the
lengths of the handler that the native writer writes. -/
theorem backends_answer_alike {http : HttpCrate} (hhttp : http.Documented)
    (serverName : Option Bytes)
    (h : Head) (resp : Response) (consumed : Bool) (date : Bytes) (a : Answer)
    (ha : a = nativeAnswer serverName h resp consumed) (b : HyperResponse)
    (hb : b = Bridge.call http serverName h resp consumed) :
    (isFinalStatus resp.status (Call.ofHead h).wantsUpgrade = true →
      a.status = resp.status ∧ b.status = resp.status) ∧
    (isFinalStatus resp.status (Call.ofHead h).wantsUpgrade = false →
      a.status = 500 ∧ a.headers = Answer.withServer serverName [] ∧ a.body = .empty ∧
      b.status = 500 ∧ b.body = .empty ∧
      b.headers = (serverName.filter http.headerValue).toList.map (fun n => (ascii "server", n))
        ++ [(ascii "connection", ascii "close")]) ∧
    (a.status ≠ 101 →
      persistsAfter (Bridge.keepAlive h resp consumed) (Bridge.degraded h resp).headers
        = a.keepAlive ∧
      (a.disposition = .keepAlive ↔ saysPersists h.version b.headers = true) ∧
      (a.disposition = .close ↔ saysPersists h.version b.headers = false)) ∧
    connectionElements b.headers = connectionElements (nativeFields a date) ∧
    (values (ascii "transfer-encoding") (nativeHandlerFields a) = [] →
      values (ascii "content-length") b.headers
        = values (ascii "content-length") (nativeHandlerFields a)) := by
  have hstatus := statusCode_degraded h resp hhttp
  obtain ⟨hsame, hheaders, hbody⟩ := nativeAnswer_eq serverName h resp consumed
  obtain ⟨hconn, hlen⟩ := convertResponse_spec hhttp serverName (Bridge.degraded h resp) h.version
    (Bridge.keepAlive h resp consumed) (h.method == .head) hstatus
  have hbstatus : b.status = (Bridge.degraded h resp).status := by rw [hb]; exact hstatus
  have hversion : a.version = h.version := by rw [ha]; rfl
  have hhead : a.isHeadRequest = (h.method == .head) := by rw [ha]; rfl
  rw [← ha] at hsame hheaders hbody
  rw [show convertResponse http serverName (Bridge.degraded h resp) h.version
    (Bridge.keepAlive h resp consumed) (h.method == .head) = b from hb.symm] at hconn hlen
  have hkeep : a.status ≠ 101 →
      persistsAfter (Bridge.keepAlive h resp consumed) (Bridge.degraded h resp).headers
        = a.keepAlive := by
    intro hne
    rw [ha] at hne ⊢
    exact keepAlive_eq serverName h resp consumed hne
  -- the same elements, which carry the decision along
  have helements : connectionElements b.headers = connectionElements (nativeFields a date) := by
    rw [hconn, nativeFields, connectionElements_headFields]
    dsimp only
    rw [hheaders, (withServer_eq serverName _).2, hversion, ← hsame]
    congr 1
    split
    · rename_i hne
      rw [hkeep hne]
    · rfl
  refine ⟨?_, ?_, ?_, helements, ?_⟩
  · intro hfinal
    have hdegraded : Bridge.degraded h resp = resp := by
      simp [Bridge.degraded, Bridge.impossibleStatus, hfinal]
    rw [hdegraded] at hsame hbstatus
    exact ⟨hsame, hbstatus⟩
  · intro hfinal
    obtain ⟨hdegraded, hempty, hfields⟩ := call_impossible hhttp serverName consumed hfinal
    rw [hdegraded] at hsame hheaders hbody hbstatus
    rw [← hb] at hempty hfields
    exact ⟨hsame, hheaders, hbody, hbstatus, hempty, hfields⟩
  · intro hne
    have hupgrade : ¬ a.upgrading = true := by
      intro hup
      rw [ha] at hup hne
      exact hne (Answer.upgrading_of hup)
    have hpersists : saysPersists h.version b.headers = a.keepAlive := by
      have hnative := @saysPersists_headFields a.version ⟨a.status, a.headers⟩ hne a.outBody
        date a.keepAlive a.isHeadRequest
      rw [← hversion, ← hnative]
      unfold saysPersists
      rw [any_valueHasToken, any_valueHasToken, any_valueHasToken, any_valueHasToken, helements]
      rfl
    refine ⟨hkeep hne, ?_⟩
    rw [hpersists, Answer.disposition, if_neg hupgrade]
    cases a.keepAlive <;> simp
  · intro hcodings
    rw [native_codings] at hcodings
    rw [native_lengths, keptLengths_eq hcodings, hlen]
    dsimp only
    rw [hheaders, (withServer_eq serverName _).1, hsame, hhead]
    congr 1
    funext v
    congr 1
    have hout : a.outBody.len = expectedLen (Bridge.degraded h resp).body := by
      rw [Answer.outBody, hbody]
      cases (Bridge.degraded h resp).body <;> rfl
    rw [hout]
    split
    · rename_i hforbids
      exact handlerLengthIsStale_forbidden hforbids _
    · rfl

/-- The `http` crate on its documented domain. -/
def sampleHttp : HttpCrate where
  statusCode n := if 100 ≤ n ∧ n < 1000 then some n else none
  headerName name := if validFieldName name then some (lowercase name) else none
  headerValue v := v.all fun b => b == 9 || (32 ≤ b && b != 127)

theorem sampleHttp_documented : sampleHttp.Documented where
  statusCode n hlow hhigh := by simp [sampleHttp, hlow, hhigh]
  headerName name made h := by
    simp only [sampleHttp] at h
    split at h
    · exact (Option.some.inj h).symm
    · cases h
  contentLength := by decide
  headerValue v h := by
    have hall := fun b => forall_byte
      (p := fun b => !(isTchar b || b == 44 || b == SP) || (b == 9 || (32 ≤ b && b != 127)))
      (by decide +kernel) b
    simp only [sampleHttp, List.all_eq_true]
    intro b hb
    have hb' : (isTchar b || b == 44 || b == SP) = true := by simpa [or_assoc] using h b hb
    simpa [hb'] using hall b

/-- A handler that spells a length its own way and spreads its tokens, a
`Close` among them, over two fields. -/
def spreadResponse : Response :=
  ⟨200, [(.connection, ascii "X-Hop"),
    (.other (.literal "Content-Length" (Eq.refl true)), ascii "2"),
    (.connection, ascii "Close , x-two")], .full (ascii "hi")⟩

/-- An HTTP/1.0 request that asks to be kept alive. -/
def oldHead : Head :=
  ⟨.get, .literal "/" (Eq.refl true), .http10, [(.connection, ascii "keep-alive")]⟩

theorem backends_answer_alike_spread :
    connectionElements (Bridge.call sampleHttp none oldHead spreadResponse true).headers
        = connectionElements (nativeFields (nativeAnswer none oldHead spreadResponse true) []) ∧
      values (ascii "content-length")
        (Bridge.call sampleHttp none oldHead spreadResponse true).headers
        = [ascii "2"] ∧
      saysPersists .http10 (Bridge.call sampleHttp none oldHead spreadResponse true).headers
        = false := by
  obtain ⟨-, -, hpersists, helements, -⟩ := backends_answer_alike sampleHttp_documented none oldHead
    spreadResponse true [] _ rfl _ rfl
  exact ⟨helements, by decide +kernel, (hpersists (by decide)).2.2.mp (by decide +kernel)⟩

end ArmatureH1

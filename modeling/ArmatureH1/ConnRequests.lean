/-
ArmatureH1.ConnRequests — two connections that receive the same bytes.

`ConnInput` says of one connection that its requests are its stream's, but a
stream could be taken apart in more than one way. It cannot: a head ends at
its first empty line and does not begin with one (`IsHead`), so there is one
place where the next head can begin and one where it can end; the head says
how its body is framed, and the framing says where the body ends
(`Whole.unique`). That the loop never takes anything else for a head, is an
invariant of its own: it rests on the scanner, whose cursor and whose found
end are right in every state (`ConnScan`).

So what a peer asks for is a matter of its bytes alone, not of how they were
cut into reads, when they came, what handlers did with the bodies, or how the
responses went out (`requests_of_stream`).
-/
import ArmatureH1.ConnScan

namespace ArmatureH1

open ByteString BodyState

/-! ## 1. What a head is -/

/-- Its first empty line is its end, and it does not begin with one. -/
structure IsHead (head : Bytes) : Prop where
  ends : findHeadEnd head = some head.length
  begins : skipBlank head = head

/-- What does not begin with a blank line does not come to by being cut. -/
theorem skipBlank_take {s : Bytes} (h : skipBlank s = s) {n : Nat} (hn : 2 ≤ n)
    (hle : n ≤ s.length) : skipBlank (s.take n) = s.take n := by
  obtain ⟨k, rfl⟩ := Nat.exists_eq_add_of_le' hn
  obtain ⟨a, b, rest, rfl⟩ : ∃ a b rest, s = a :: b :: rest := by
    cases s with
    | nil => simp at hle
    | cons a s =>
        cases s with
        | nil => simp at hle
        | cons b rest => exact ⟨a, b, rest, rfl⟩
  have hpair : ¬ (a = CR ∧ b = LF) := by
    rintro ⟨rfl, rfl⟩
    have hlen := congrArg List.length h
    simp [skipBlank, blankPairs] at hlen
    omega
  simp [skipBlank, blankPairs, hpair]

/-- What the scanner finds in a buffer that has been stripped. -/
theorem isHead_take {s : Bytes} (hs : skipBlank s = s) {n : Nat} (h : findHeadEnd s = some n) :
    IsHead (s.take n) := by
  obtain ⟨hfour, hle⟩ := findHeadEnd_le h
  have hlen : (s.take n).length = n := List.length_take_of_le hle
  constructor
  · rw [hlen]
    cases hfind : findHeadEnd (s.take n) with
    | some m =>
        have hmore := findHeadEnd_append hfind (s.drop n)
        rw [List.take_append_drop, h] at hmore
        exact hmore.symm
    | none =>
        have hlate := findHeadEnd_append_gt (t := s.drop n) hfind (by rw [List.take_append_drop, h])
        omega
  · exact skipBlank_take hs (by omega) hle

/-- A stream begins with at most one head, and with one run of blank lines. -/
theorem IsHead.unique {head head' rest rest' : Bytes} {n n' : Nat} (h : IsHead head)
    (h' : IsHead head')
    (heq : blankLines n ++ head ++ rest = blankLines n' ++ head' ++ rest') :
    head = head' ∧ rest = rest' := by
  have hskip : ∀ {head rest : Bytes} {n : Nat}, IsHead head →
      skipBlank (blankLines n ++ head ++ rest) = head ++ rest := by
    intro head rest n h
    have htwo := (findHeadEnd_le h.ends).1
    rw [List.append_assoc, skipBlank_blankLines, skipBlank_append_of_two h.begins (by omega)]
  have hsame : head ++ rest = head' ++ rest' := by
    rw [← hskip (n := n) h, heq, hskip h']
  have hlen : head.length = head'.length := by
    have hfound := findHeadEnd_append h.ends rest
    rw [hsame, findHeadEnd_append h'.ends rest'] at hfound
    exact (Option.some.inj hfound).symm
  exact List.append_inj hsame hlen

/-- What `has_complete_head` found is a head. -/
theorem isHead_of_complete {st : IoState} (hs : st.ScanOk) (h : st.hasCompleteHead.1 = true)
    {n : Nat} (hn : st.hasCompleteHead.2.headLength = some n) :
    IsHead (st.hasCompleteHead.2.splitHead n).1 := by
  rw [IoState.hasCompleteHead_eq hs] at h hn ⊢
  cases hfind : findHeadEnd (skipBlank st.buf) with
  | none =>
      rw [hfind] at h
      cases h
  | some m =>
      rw [hfind] at hn
      obtain rfl : m = n := Option.some.inj hn
      have hbuf : st.stripBlank.buf = skipBlank st.buf := IoState.stripBlank_buf st
      change IsHead (st.stripBlank.buf.take m)
      rw [hbuf]
      exact isHead_take (skipBlank_skipBlank _) hfind

namespace Conn

/-! ## 2. The heads that the loop takes up -/

/-- Every head so far is one. -/
def Heads (c : Conn) : Prop := ∀ x ∈ c.exchanges, IsHead x.request.head

/-- The history may say more about the current request. -/
theorem Heads.map {c c' : Conn} (h : Heads c) (f : Exchange → Exchange)
    (hf : ∀ x, (f x).request.head = x.request.head) (hpast : c'.past = c.past)
    (hnow : c'.now = c.now.map f) : Heads c' := by
  intro x hx
  rw [exchanges, hpast, hnow] at hx
  rcases List.mem_append.mp hx with hx | hx
  · exact h x (List.mem_append_left _ hx)
  · obtain ⟨y, hy, rfl⟩ := Option.mem_map.mp (Option.mem_toList.mp hx)
    rw [hf]
    exact h y (List.mem_append_right _ (Option.mem_toList.mpr hy))

section Loop

variable {c : Conn}

theorem flushOr_heads {next : AfterFlush} {done : Conn} (h : Heads c) (hdone : Heads done) :
    Heads (flushOr next c done) := by
  unfold flushOr
  split
  · exact hdone
  · exact h

theorem settleContinue_heads {next : AfterSettle} {go : Conn → Conn} (hs : c.ScanOk) (h : Heads c)
    (hgo : ∀ c' : Conn, c'.ScanOk → Heads c' → Heads (go c')) :
    Heads (settleContinue next c go) := by
  unfold settleContinue
  split
  · exact hgo c.dropContinue hs h
  · split
    · exact hgo c hs h
    · exact h

theorem writeErrorHead_heads (h : Heads c) (env : Env) (version : Version) (status : Nat) :
    Heads (writeErrorHead env version status c) := flushOr_heads h h

theorem writeError_heads (hs : c.ScanOk) (h : Heads c) (env : Env) (version : Version)
    (status : Nat) : Heads (writeError env version status c) :=
  settleContinue_heads hs h fun _ _ h' => writeErrorHead_heads h' env version status

theorem callHandler_heads (hc : Heads c) (env : Env) (h : Head) (kind : BodyKind) :
    Heads (callHandler env h kind c) := by
  unfold callHandler
  simp only
  split
  · exact hc
  · split
    · exact hc
    · exact hc

/-- The next request begins with the head that the scanner found. -/
theorem startRequest_heads (h : Heads c)
    (hfound : ∀ n, c.shared.io.headLength = some n → IsHead (c.shared.io.splitHead n).1)
    (env : Env) : Heads (startRequest env c) := by
  unfold startRequest
  split
  · exact h
  · rename_i n hn
    simp only
    generalize hc : ({ c.setIo (c.shared.io.splitHead n).2 with
        current := none
        stale := c.current.toList ++ c.stale
        past := c.past ++ c.now.toList
        now := some (Exchange.start (c.shared.io.splitHead n).1) } : Conn) = c'
    have hscan : c'.ScanOk := by subst hc; exact IoState.scanOk_of_zero rfl
    have hheads : Heads c' := by
      subst hc
      intro x hx
      rcases List.mem_append.mp hx with hx | hx
      · exact h x hx
      · obtain rfl := List.mem_singleton.mp hx
        exact hfound n hn
    split
    · exact writeError_heads hscan hheads _ _ _
    · split
      · exact writeError_heads hscan hheads _ _ _
      · exact callHandler_heads hheads _ _ _

theorem enterRead_heads (hs : c.ScanOk) (h : Heads c) (env : Env) : Heads (enterRead env c) := by
  have hs' : (c.setIo c.shared.io.hasCompleteHead.2).ScanOk := IoState.ScanOk.hasCompleteHead hs
  have h' : Heads (c.setIo c.shared.io.hasCompleteHead.2) := h
  unfold enterRead
  simp only
  split
  · rename_i hcomplete
    exact startRequest_heads h' (fun _ hn => isHead_of_complete hs hcomplete hn) env
  · exact flushOr_heads h' h'

theorem dispose_heads (hs : c.ScanOk) (h : Heads c) (env : Env) (d : Disposition) :
    Heads (dispose env c d) := by
  cases d with
  | keepAlive => exact enterRead_heads hs h env
  | close => exact h
  | upgrade =>
      unfold dispose
      simp only
      split
      · exact h
      · exact h

theorem conclude_heads (hs : c.ScanOk) (h : Heads c) (env : Env) (a : Answer) :
    Heads (conclude env a c) := by
  have hs' : (c.setIo c.shared.io.hasCompleteHead.2).ScanOk := IoState.ScanOk.hasCompleteHead hs
  have h' : Heads (c.setIo c.shared.io.hasCompleteHead.2) := h
  unfold conclude
  split
  · simp only
    split
    · exact dispose_heads hs' h' env _
    · exact flushOr_heads h' (dispose_heads hs' h' env _)
  · exact flushOr_heads h (dispose_heads hs h env _)

theorem respondHead_heads (hs : c.ScanOk) (h : Heads c) (env : Env) (a : Answer) :
    Heads (respondHead env a c) := by
  have hanswered : ∀ (out : Bytes) (pc : Pc), Heads { c with
      out := out
      pc := pc
      heads := c.heads + 1
      now := c.now.map (Exchange.answer ⟨a, env.date c.heads, [], false⟩) } := fun _ _ =>
    h.map (Exchange.answer _) (fun _ => rfl) rfl rfl
  unfold respondHead
  simp only
  split
  · split
    · exact conclude_heads (by exact hs) (hanswered _ _) env a
    · exact conclude_heads (by exact hs) (hanswered _ _) env a
    · exact flushOr_heads (hanswered _ _) (hanswered _ _)
  · exact conclude_heads (by exact hs) (hanswered _ _) env a

theorem respond_heads (hs : c.ScanOk) (h : Heads c) (env : Env) (call : Call) (resp : Response) :
    Heads (respond env call resp c) :=
  settleContinue_heads (by exact hs) (h.map (Exchange.responded resp) (fun _ => rfl) rfl rfl)
    fun _ hs' h' => respondHead_heads hs' h' env _

theorem stepFlushing_heads (hs : c.ScanOk) (h : Heads c) (env : Env) (written : Nat)
    (next : AfterFlush) (e : Event) : Heads (stepFlushing env c written next e) := by
  have hfail : Heads (failFlush c next) := by cases next <;> exact h
  have hproceed : Heads (proceed env { c with out := [] } next) := by
    cases next with
    | finish a => exact dispose_heads (by exact hs) (by exact h) env _
    | _ => exact h
  unfold stepFlushing
  repeat' split
  all_goals first | exact h | exact hfail | exact hproceed

theorem stepSettling_heads (hs : c.ScanOk) (h : Heads c) (env : Env) (next : AfterSettle)
    (e : Event) : Heads (stepSettling env c next e) := by
  have hrecord : ∀ io : IoState, Heads (c.record io) := fun _ =>
    h.map (Exchange.sentInterim _) (fun _ => rfl) rfl rfl
  have hfail : ∀ c' : Conn, Heads c' → Heads (failSettle c' next) := by
    intro c' h'
    cases next <;> exact h'
  unfold stepSettling
  split
  · rename_i writes flush
    have hsend := IoState.rescans_pollSendContinue flush writes c.shared.io
    split
    · exact hrecord _
    · rename_i heq
      rw [heq] at hsend
      cases next with
      | respond a =>
          exact respondHead_heads (c := c.record _) (hsend.scanOk hs) (hrecord _) env a
      | error version status => exact writeErrorHead_heads (hrecord _) env version status
    · exact hfail _ (hrecord _)
  · exact hfail c h
  · exact h

theorem stepReading_heads (hs : c.ScanOk) (h : Heads c) (env : Env) (started : Bool) (e : Event) :
    Heads (stepReading env c started e) := by
  unfold stepReading
  split
  · exact h
  · rename_i b
    split
    · exact h
    · have hmore : (c.shared.io.readMore b).ScanOk := IoState.ScanOk.readMore hs b
      have hio := headRead_io env.limits started b c.shared.io
      split
      · rename_i io heq
        have hcomplete : (c.shared.io.readMore b).hasCompleteHead.1 = true := by
          unfold headRead at heq
          simp only at heq
          split at heq
          · assumption
          · split at heq <;> cases heq
        rw [heq] at hio
        obtain rfl : io = _ := hio
        exact startRequest_heads (c := c.setIo _) (by exact h)
          (fun _ hn => isHead_of_complete hmore hcomplete hn) env
      · rename_i io heq
        rw [heq] at hio
        obtain rfl : io = _ := hio
        exact writeError_heads (c := c.setIo _) hmore.hasCompleteHead (by exact h) _ _ _
      · exact h
  · split
    · exact writeError_heads hs h _ _ _
    · exact h
  · exact h

theorem stepFirstPoll_heads (hs : c.ScanOk) (h : Heads c) (env : Env) (call : Call) (held : Bytes)
    (e : Event) : Heads (stepFirstPoll env c call held e) := by
  unfold stepFirstPoll
  split
  · exact flushOr_heads h h
  · exact respond_heads (by exact hs) (by exact h) env call _
  · exact h
  · exact h

theorem stepHandling_heads (hs : c.ScanOk) (h : Heads c) (env : Env) (call : Call) (e : Event) :
    Heads (stepHandling env c call e) := by
  unfold stepHandling
  split
  · exact respond_heads hs h env call _
  · exact h
  · split
    · exact h
    · exact writeError_heads hs h _ _ _
  · exact writeError_heads hs h _ _ _
  · exact h

theorem stepStreaming_heads (hs : c.ScanOk) (h : Heads c) (env : Env) (a : Answer) (parked : Bool)
    (e : Event) : Heads (stepStreaming env c a parked e) := by
  have hitem : ∀ b : Bytes, Heads (addItem a b c) := fun _ =>
    h.map (Exchange.onReply _) (fun _ => rfl) rfl rfl
  have hend : Heads (addEnd a c) := h.map (Exchange.onReply _) (fun _ => rfl) rfl rfl
  unfold stepStreaming
  split
  · split
    · exact h
    · exact flushOr_heads h h
  · simp only
    split
    · exact flushOr_heads (hitem _) (hitem _)
    · exact hitem _
  · exact flushOr_heads h h
  · exact conclude_heads (by exact hs) hend env a
  · exact h
  · split
    · exact h
    · exact h
  · exact h

theorem stepBody_heads (h : Heads c) (b : BodyState) (op : BodyOp) : Heads (stepBody c b op) := by
  cases op with
  | poll a => exact h.map (Exchange.polled _ _ _) (fun _ => rfl) rfl rfl
  | abandon =>
      simp only [stepBody]
      split
      · exact h
      · exact h.map (Exchange.polled (.error .tooLarge) [] false) (fun _ => rfl) rfl rfl
  | drop => exact h

theorem stepStale_heads (h : Heads c) (i : Nat) (b : BodyState) (op : BodyOp) :
    Heads (stepStale c i b op) := by
  cases op with
  | poll a => exact h
  | abandon =>
      simp only [stepStale]
      split
      · exact h
      · exact h
  | drop => exact h

theorem step_heads (hs : c.ScanOk) (h : Heads c) (env : Env) (e : Event) :
    Heads (step env c e) := by
  unfold step
  split
  · split
    · split
      · exact stepBody_heads h _ _
      · exact h
    · exact h
  · split
    · split
      · exact h
      · exact stepStale_heads h _ _ _
    · exact h
  · split
    · exact stepReading_heads hs h _ _ _
    · exact stepFlushing_heads hs h _ _ _ _
    · exact stepSettling_heads hs h _ _ _
    · exact stepFirstPoll_heads hs h _ _ _ _
    · exact stepHandling_heads hs h _ _ _
    · exact stepStreaming_heads hs h _ _ _ _
    · exact h

end Loop

theorem init_heads (env : Env) (buffered : Bytes) : Heads (init env buffered) := by
  refine enterRead_heads ?_ ?_ env
  · exact IoState.scanOk_of_zero rfl
  · intro x hx
    cases hx

/-- Whatever happened: what the loop took for heads, are heads. -/
theorem run_heads (env : Env) (buffered : Bytes) (events : List Event) :
    Heads (run env buffered events) := by
  have hboth := List.foldlRecOn (motive := fun c : Conn => c.ScanOk ∧ Heads c) events (step env)
    ⟨enterRead_scan (IoState.scanOk_of_zero rfl) env, init_heads env buffered⟩
    fun _ hc e _ => ⟨step_scan hc.1 env e, step_heads hc.1 hc.2 env e⟩
  exact hboth.2

end Conn

/-! ## 3. A stream has one reading -/

/-- The heads of what was served. -/
def AllHeads (xs : List Incoming) : Prop := ∀ x ∈ xs, IsHead x.head

theorem AllHeads.take {xs : List Incoming} (h : AllHeads xs) (k : Nat) : AllHeads (xs.take k) :=
  fun x hx => h x (List.mem_of_mem_take hx)

theorem AllHeads.init {xs : List Incoming} {x : Incoming} (h : AllHeads (xs ++ [x])) :
    AllHeads xs := fun y hy => h y (List.mem_append_left _ hy)

theorem AllHeads.last {xs : List Incoming} {x : Incoming} (h : AllHeads (xs ++ [x])) :
    IsHead x.head := h x (by simp)

/-- What a peer asks for: a head, and the body behind it. -/
def Incoming.asked (x : Incoming) : Bytes × Bytes := (x.head, PollLog.delivered x.polls)

/-- What was served first, was served of a beginning of the stream. -/
theorem Served.take {env : Env} {xs : List Incoming} {pre : Bytes} (h : Served env xs pre)
    (k : Nat) : ∃ pre' rest, Served env (xs.take k) pre' ∧ pre = pre' ++ rest := by
  induction h with
  | nil => exact ⟨[], [], by simpa using Served.nil, rfl⟩
  | @snoc xs pre body x hd kind n hserved hverdict hend hwhole ih =>
      by_cases hk : k ≤ xs.length
      · obtain ⟨pre', rest, htaken, hpre⟩ := ih
        refine ⟨pre', rest ++ (blankLines n ++ (x.head ++ body)), ?_, ?_⟩
        · rw [List.take_append_of_le_length hk]
          exact htaken
        · rw [hpre]
          simp only [List.append_assoc]
      · refine ⟨pre ++ blankLines n ++ x.head ++ body, [], ?_, (List.append_nil _).symm⟩
        rw [List.take_of_length_le (by simp; omega)]
        exact .snoc hserved hverdict hend hwhole

section OneReading

variable {env env' : Env}

/-- As many requests of one stream are the same requests, and end at the same
place: by induction from the last one back, since it is the stream's beginning
that is the same. -/
theorem Served.unique (hverdict : verdict env' = verdict env) (hlimits : env'.limits = env.limits)
    {xs ys : List Incoming} {pre pre' rest rest' : Bytes} (h : Served env xs pre)
    (h' : Served env' ys pre') (hheads : AllHeads xs) (hheads' : AllHeads ys)
    (hlen : xs.length = ys.length) (heq : pre ++ rest = pre' ++ rest') :
    xs.map Incoming.asked = ys.map Incoming.asked ∧ pre = pre' := by
  induction h generalizing ys pre' rest rest' with
  | nil =>
      obtain rfl : ys = [] := List.length_eq_zero_iff.mp hlen.symm
      generalize hnil : ([] : List Incoming) = ys at h'
      cases h' with
      | nil => exact ⟨rfl, rfl⟩
      | snoc => simp at hnil
  | @snoc xs pre body x hd kind n hserved hv hend hwhole ih =>
      rcases List.eq_nil_or_concat ys with rfl | ⟨ys, y, rfl⟩
      · simp at hlen
      rw [List.concat_eq_append] at h' hheads' hlen ⊢
      obtain ⟨pre₁, body', hd', kind', n', hserved', hv', -, hwhole', rfl⟩ := h'.inv
      have hfront : pre ++ (blankLines n ++ x.head ++ (body ++ rest))
          = pre₁ ++ (blankLines n' ++ y.head ++ (body' ++ rest')) := by
        simpa only [List.append_assoc] using heq
      obtain ⟨hsame, rfl⟩ := ih hserved' hheads.init hheads'.init (by simpa using hlen) hfront
      obtain ⟨hhead, hbehind⟩ :=
        hheads.last.unique hheads'.last (List.append_cancel_left hfront)
      rw [hverdict, ← hhead, hv] at hv'
      cases hv'
      rw [hlimits] at hwhole'
      obtain ⟨rfl, hdelivered, rfl⟩ := hwhole.unique hwhole' hbehind
      have hasked : x.asked = y.asked := by rw [Incoming.asked, Incoming.asked, hhead, hdelivered]
      exact ⟨by simp [hsame, hasked], List.append_cancel_right heq⟩

/-- `Taken env stream xs`: the requests `xs` stand at the front of the stream,
all but the last of them served; of the last there is the head. -/
inductive Taken (env : Env) (stream : Bytes) : List Incoming → Prop
  | nil : Taken env stream []
  | snoc {xs : List Incoming} {x : Incoming} {pre rest : Bytes} {n : Nat} : Served env xs pre →
      stream = pre ++ (blankLines n ++ x.head ++ rest) → Taken env stream (xs ++ [x])

theorem Served.taken {xs : List Incoming} {pre : Bytes} (h : Served env xs pre)
    {stream rest : Bytes} (heq : stream = pre ++ rest) : Taken env stream xs := by
  cases h with
  | nil => exact .nil
  | @snoc xs pre body x hd kind n hserved _ _ _ =>
      refine @Taken.snoc env stream xs x pre (body ++ rest) n hserved (heq.trans ?_)
      simp only [List.append_assoc]

theorem Taken.take {stream : Bytes} {xs : List Incoming} (h : Taken env stream xs) (k : Nat) :
    Taken env stream (xs.take k) := by
  cases h with
  | nil => simpa using Taken.nil
  | @snoc xs x pre rest n hserved heq =>
      by_cases hk : k ≤ xs.length
      · obtain ⟨pre', more, htaken, rfl⟩ := hserved.take k
        rw [List.take_append_of_le_length hk]
        exact htaken.taken (heq.trans (List.append_assoc _ _ _))
      · rw [List.take_of_length_le (by simp; omega)]
        exact .snoc hserved heq

/-- As many requests of one stream have the same heads, the last included. -/
theorem Taken.heads (hverdict : verdict env' = verdict env) (hlimits : env'.limits = env.limits)
    {stream : Bytes} {xs ys : List Incoming} (h : Taken env stream xs) (h' : Taken env' stream ys)
    (hheads : AllHeads xs) (hheads' : AllHeads ys) (hlen : xs.length = ys.length) :
    xs.map Incoming.head = ys.map Incoming.head := by
  cases h with
  | nil =>
      obtain rfl : ys = [] := List.length_eq_zero_iff.mp hlen.symm
      rfl
  | @snoc xs x pre rest n hserved heq =>
      cases h' with
      | nil => simp at hlen
      | @snoc ys y pre' rest' n' hserved' heq' =>
          obtain ⟨hasked, rfl⟩ := hserved.unique hverdict hlimits hserved' hheads.init
            hheads'.init (by simpa using hlen) (heq.symm.trans heq')
          have hlast := hheads.last.unique hheads'.last
            (List.append_cancel_left (heq.symm.trans heq'))
          have hbefore := congrArg (List.map Prod.fst) hasked
          rw [List.map_map, List.map_map] at hbefore
          rw [List.map_append, List.map_append, List.map_singleton, List.map_singleton, hlast.1]
          exact congrArg (· ++ [y.head]) hbefore

end OneReading

/-! ## 4. Two connections -/

/-- Of two lists that agree as far as both go, one is the other's beginning. -/
theorem prefix_or_prefix_of_take {α : Type} {l l' : List α}
    (h : l.take l'.length = l'.take l.length) : l <+: l' ∨ l' <+: l := by
  rcases Nat.le_total l.length l'.length with hle | hle
  · rw [List.take_of_length_le hle] at h
    exact .inl (List.prefix_iff_eq_take.mpr h)
  · rw [List.take_of_length_le hle] at h
    exact .inr (List.prefix_iff_eq_take.mpr h.symm)

namespace Conn

/-- Every request so far, the current one included. -/
def requests (c : Conn) : List Incoming := c.exchanges.map Exchange.request

theorem requests_eq (c : Conn) : c.requests = c.earlier ++ c.request.toList := by
  rw [requests, exchanges, List.map_append, earlier, request]
  cases c.now <;> rfl

theorem Heads.requests {c : Conn} (h : Heads c) : AllHeads c.requests := by
  intro x hx
  obtain ⟨y, hy, rfl⟩ := List.mem_map.mp hx
  exact h y hy

theorem Heads.earlier {c : Conn} (h : Heads c) : AllHeads c.earlier := by
  intro x hx
  refine h.requests x ?_
  rw [requests_eq]
  exact List.mem_append_left _ hx

/-- What the stream of a connection begins with. -/
theorem InputInv.taken {env : Env} {c : Conn} (h : InputInv env c) {stream : Bytes}
    (hstream : c.received <+: stream) :
    (∃ pre rest, Served env c.earlier pre ∧ stream = pre ++ rest) ∧
      Taken env stream c.requests := by
  obtain ⟨more, rfl⟩ := hstream
  obtain ⟨pre, hserved, hlast⟩ := h.stream.heads
  rw [requests_eq]
  cases hx : c.request with
  | some x =>
      obtain ⟨n, rest, hreceived⟩ := hlast x hx
      have heq : c.received ++ more = pre ++ (blankLines n ++ x.head ++ (rest ++ more)) := by
        rw [hreceived]
        simp only [List.append_assoc]
      exact ⟨⟨pre, _, hserved, heq⟩, .snoc hserved heq⟩
  | none =>
      rw [Option.toList_none, List.append_nil]
      cases h.stream with
      | @settled n hsettled =>
          obtain ⟨-, pre, hserved, hreceived⟩ := hsettled
          rw [hx, Option.toList_none, List.append_nil] at hserved
          have heq : c.received ++ more = pre ++ (blankLines n ++ c.buf ++ more) := by
            rw [hreceived]
            simp only [List.append_assoc]
          exact ⟨⟨pre, _, hserved, heq⟩, hserved.taken heq⟩
      | underway _ hsome => simp [hx] at hsome
      | spent _ hsome => simp [hx] at hsome

/-- **What a peer asks for is a matter of its bytes.** Take two connections
with the same limits (and tokenizer), in any runs: other reads of the stream,
other times, other handlers, other transports. If what they have received are
beginnings of one stream, then the requests that one has behind it, bodies
included, are the first of those the other has behind it, and the heads that
one has taken up, that of its current request included, are the first of those
that the other has taken up. -/
theorem requests_of_stream (env env' : Env) (hparser : env'.httparse = env.httparse)
    (hlimits : env'.limits = env.limits) (buffered buffered' : Bytes) (events events' : List Event)
    (stream : Bytes) (hstream : (run env buffered events).received <+: stream)
    (hstream' : (run env' buffered' events').received <+: stream) :
    ((run env buffered events).earlier.map Incoming.asked
        <+: (run env' buffered' events').earlier.map Incoming.asked ∨
      (run env' buffered' events').earlier.map Incoming.asked
        <+: (run env buffered events).earlier.map Incoming.asked) ∧
    ((run env buffered events).requests.map Incoming.head
        <+: (run env' buffered' events').requests.map Incoming.head ∨
      (run env' buffered' events').requests.map Incoming.head
        <+: (run env buffered events).requests.map Incoming.head) := by
  have hverdict : verdict env' = verdict env := by
    funext head
    rw [verdict, verdict, hparser, hlimits]
  have hheads := run_heads env buffered events
  have hheads' := run_heads env' buffered' events'
  obtain ⟨⟨pre, rest, hserved, heq⟩, htaken⟩ := (run_inv env buffered events).taken hstream
  obtain ⟨⟨pre', rest', hserved', heq'⟩, htaken'⟩ :=
    (run_inv env' buffered' events').taken hstream'
  generalize run env buffered events = c at *
  generalize run env' buffered' events' = c' at *
  constructor
  · refine prefix_or_prefix_of_take ?_
    obtain ⟨front, more, hfront, rfl⟩ := hserved.take c'.earlier.length
    obtain ⟨front', more', hfront', rfl⟩ := hserved'.take c.earlier.length
    have hsame := hfront.unique hverdict hlimits hfront' (hheads.earlier.take _)
      (hheads'.earlier.take _) (by simp [Nat.min_comm])
      ((List.append_assoc _ _ _).symm.trans (heq.symm.trans (heq'.trans (List.append_assoc _ _ _))))
    simpa only [List.length_map, List.map_take] using hsame.1
  · refine prefix_or_prefix_of_take ?_
    have hsame := (htaken.take c'.requests.length).heads hverdict hlimits
      (htaken'.take c.requests.length) (hheads.requests.take _) (hheads'.requests.take _)
      (by simp [Nat.min_comm])
    simpa only [List.length_map, List.map_take] using hsame

/-- The stream of `pipelinedRun`, in other pieces and not to its end, to a
server that flushes each response. -/
def cutRun : Conn :=
  run { sampleEnv with coalescing := .eager } (getRequest.take 5)
    [.read (.ok ((getRequest.drop 5).take 9)),
      .read (.ok (getRequest.drop 14 ++ getRequest.take 3)), .handler .pending]

theorem requests_of_stream_cut : cutRun.requests.length = 1 ∧ pipelinedRun.requests.length = 2 ∧
    cutRun.requests.map Incoming.head <+: pipelinedRun.requests.map Incoming.head := by
  have hone : cutRun.requests.length = 1 := by decide +kernel
  have htwo : pipelinedRun.requests.length = 2 := by decide +kernel
  have hcut : cutRun.received <+: getRequest ++ getRequest := by decide +kernel
  have hall : pipelinedRun.received <+: getRequest ++ getRequest := by decide +kernel
  have hheads : cutRun.requests.map Incoming.head <+: pipelinedRun.requests.map Incoming.head ∨
      pipelinedRun.requests.map Incoming.head <+: cutRun.requests.map Incoming.head :=
    (requests_of_stream { sampleEnv with coalescing := .eager } sampleEnv rfl rfl _ [] _ _ _ hcut
      hall).2
  refine ⟨hone, htwo, hheads.resolve_right fun hback => ?_⟩
  have hle : pipelinedRun.requests.length ≤ cutRun.requests.length := by
    simpa only [List.length_map] using hback.length_le
  omega

end Conn

end ArmatureH1

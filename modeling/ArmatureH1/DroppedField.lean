/-
ArmatureH1.DroppedField — what a field that is not written changes.

A field with a name or a value that would split the response is dropped, and
the response is to be as if it had never been supplied. Whether a field is
there is asked in several places: by the walk of `write_head_for` for the date
and the two framing fields, by its loop, and before that by `write_response`
for the handler's `Connection: close` and for the server's name. The walk and
the loop ask for what is written (`writeHeadFor_insert`). The question for
`Server` does not: a `Server` field that is dropped still keeps the configured
name out, and that is the only trace there can be
(`dropped_field_leaves_no_trace_iff`).
-/
import ArmatureH1.Conn
import ArmatureH1.WriteTheorems

namespace ArmatureH1

open ByteString

/-! ## 1. The writer -/

theorem ofHeaders_insert {f : HeaderId × Bytes} (hf : writable f.1 f.2 = false)
    (front back : HeaderVec) :
    FieldScan.ofHeaders (front ++ f :: back) = FieldScan.ofHeaders (front ++ back) := by
  have hstep : ∀ s : FieldScan, s.step f = s := fun s => if_pos hf
  rw [FieldScan.ofHeaders, FieldScan.ofHeaders, List.foldl_append, List.foldl_append,
    List.foldl_cons, hstep]

/-- The loop writes nothing for a field that cannot be written. -/
theorem writeField_dropped {f : HeaderId × Bytes} (hf : writable f.1 f.2 = false)
    (hconn : f.1.canonical ≠ .connection) (staleLen staleTe : Bool) :
    writeField staleLen staleTe f = [] := by
  have hnot : (f.1.canonical == .connection) = false := by simpa using hconn
  unfold writeField
  simp only [hf, hnot, Bool.false_eq_true, if_false, if_true, ite_self]

/-- **`write_head_for` asks for what it writes.** -/
theorem writeHeadFor_insert {f : HeaderId × Bytes} (hf : writable f.1 f.2 = false)
    (hconn : f.1.canonical ≠ .connection) (version : Version) (status : Nat)
    (front back : HeaderVec) (body : OutBody) (date : Bytes) (keepAlive headRequest : Bool) :
    writeHeadFor version ⟨status, front ++ f :: back⟩ body date keepAlive headRequest
      = writeHeadFor version ⟨status, front ++ back⟩ body date keepAlive headRequest := by
  unfold writeHeadFor
  simp only [ofHeaders_insert hf, List.flatMap_append, List.flatMap_cons,
    writeField_dropped hf hconn, List.nil_append]

theorem ofHeaders_server (headers : HeaderVec) (name : Bytes) :
    FieldScan.ofHeaders (headers ++ [(.server, name)]) = FieldScan.ofHeaders headers := by
  rw [FieldScan.ofHeaders, FieldScan.ofHeaders, List.foldl_append]
  show (headers.foldl FieldScan.step FieldScan.empty).step (.server, name) = _
  unfold FieldScan.step
  split
  · rfl
  · rfl

/-- A server's name that can be written is one more line. -/
theorem length_writeHeadFor_server {name : Bytes} (hname : validFieldValue name = true)
    (version : Version) (status : Nat) (headers : HeaderVec) (body : OutBody) (date : Bytes)
    (keepAlive headRequest : Bool) :
    (writeHeadFor version ⟨status, headers⟩ body date keepAlive headRequest).length
      < (writeHeadFor version ⟨status, headers ++ [(.server, name)]⟩ body date keepAlive
          headRequest).length := by
  have hline : ∀ staleLen staleTe,
      writeField staleLen staleTe (.server, name) = writeFieldLine (ascii "server") name := by
    intro staleLen staleTe
    have hwritable : writable .server name = true := by simp [writable, hname]
    simp [writeField, HeaderId.canonical, hwritable, HeaderId.asStr]
  have hpos : 0 < (writeFieldLine (ascii "server") name).length := by
    simp [writeFieldLine]
  unfold writeHeadFor
  simp only [ofHeaders_server, List.flatMap_append, List.flatMap_cons, List.flatMap_nil, hline,
    List.append_nil, List.length_append]
  omega

/-! ## 2. The response -/

namespace Answer

theorem any_insert {p : HeaderId × Bytes → Bool} {f : HeaderId × Bytes} (hf : p f = false)
    (front back : HeaderVec) : (front ++ f :: back).any p = (front ++ back).any p := by
  rw [List.any_append, List.any_append, List.any_cons, hf, Bool.false_or]

/-- The two responses a reader cannot tell apart: the same bytes whenever they
are written and whatever the stream yields, and the same disposition. -/
def SameOnWire (a a' : Answer) : Prop :=
  (∀ (date : Bytes) (items : List Bytes) (ended : Bool),
    Reply.bytes ⟨a', date, items, ended⟩ = Reply.bytes ⟨a, date, items, ended⟩) ∧
    a'.disposition = a.disposition

/-- A dropped `Server` field that keeps the configured name out: there is a
name, it could have been written, and nothing else keeps it out. -/
def HidesServer (serverName : Option Bytes) (call : Call) (status : Nat) (headers : HeaderVec)
    (f : HeaderId × Bytes) : Prop :=
  isFinalStatus status call.wantsUpgrade = true ∧ f.1.canonical = .server ∧
    (∃ name, serverName = some name ∧ validFieldValue name = true) ∧
    ∀ g ∈ headers, g.1.canonical ≠ .server

/-- The fields are all that a field that is no `Connection` can change. -/
theorem of_insert {f : HeaderId × Bytes} (hconn : f.1.canonical ≠ .connection)
    (serverName : Option Bytes) (call : Call) (status : Nat) (body : ResponseBody)
    (front back : HeaderVec) (consumed : Bool) :
    of serverName call ⟨status, front ++ f :: back, body⟩ consumed
      = { of serverName call ⟨status, front ++ back, body⟩ consumed with
          headers := withServer serverName
            (if isFinalStatus status call.wantsUpgrade then front ++ f :: back else []) } := by
  have hclose : saysClose (front ++ f :: back) = saysClose (front ++ back) := by
    refine any_insert ?_ front back
    have hnot : (f.1.canonical == .connection) = false := by simpa using hconn
    rw [hnot, Bool.false_and]
  unfold of
  cases isFinalStatus status call.wantsUpgrade with
  | false => rfl
  | true => simp only [if_true, hclose]

/-- Answers that differ in their fields only are told apart by their heads. -/
theorem sameOnWire_iff (a : Answer) (headers : HeaderVec) :
    SameOnWire a { a with headers := headers } ↔
      ∀ date, head { a with headers := headers } date = a.head date := by
  constructor
  · rintro ⟨hbytes, -⟩ date
    have h := hbytes date [] false
    rw [Reply.bytes, Reply.bytes] at h
    exact List.append_cancel_right h
  · intro hhead
    refine ⟨fun date items ended => ?_, rfl⟩
    rw [Reply.bytes, Reply.bytes]
    show head { a with headers := headers } date ++ _ = a.head date ++ _
    rw [hhead]
    rfl

theorem head_insert {f : HeaderId × Bytes} (hf : writable f.1 f.2 = false)
    (hconn : f.1.canonical ≠ .connection) (a : Answer) {front back : HeaderVec}
    (hheaders : a.headers = front ++ back) (date : Bytes) :
    head { a with headers := front ++ f :: back } date = a.head date := by
  unfold head
  rw [hheaders]
  exact writeHeadFor_insert hf hconn _ _ _ _ _ _ _ _

/-- The fields with the server's name, before and after one more field: it is
one more there too, unless it is the first `Server` and stands in for the
name. -/
theorem withServer_insert (serverName : Option Bytes) (front back : HeaderVec)
    (f : HeaderId × Bytes) :
    ((serverName = none ∨ f.1.canonical ≠ .server ∨ ∃ g ∈ front ++ back, g.1.canonical = .server) ∧
      ∃ back', withServer serverName (front ++ back) = front ++ back' ∧
        withServer serverName (front ++ f :: back) = front ++ f :: back') ∨
    (∃ name, serverName = some name ∧ f.1.canonical = .server ∧
      (∀ g ∈ front ++ back, g.1.canonical ≠ .server) ∧
      withServer serverName (front ++ back) = front ++ back ++ [(.server, name)] ∧
      withServer serverName (front ++ f :: back) = front ++ f :: back) := by
  cases serverName with
  | none => exact Or.inl ⟨Or.inl rfl, back, rfl, rfl⟩
  | some name =>
      by_cases hany : ((front ++ back).any fun g => g.1.canonical == .server) = true
      · -- another `Server` keeps the name out either way
        have hany' : ((front ++ f :: back).any fun g => g.1.canonical == .server) = true := by
          rw [List.any_append, List.any_cons]
          rw [List.any_append] at hany
          simp only [Bool.or_eq_true] at hany ⊢
          tauto
        obtain ⟨g, hg, hserver⟩ := List.any_eq_true.mp hany
        exact Or.inl ⟨Or.inr (Or.inr ⟨g, hg, by simpa using hserver⟩), back, if_pos hany,
          if_pos hany'⟩
      · by_cases hserver : f.1.canonical = .server
        · have hnone : ∀ g ∈ front ++ back, g.1.canonical ≠ .server := by
            intro g hg hg'
            exact hany (List.any_eq_true.mpr ⟨g, hg, by simp [hg']⟩)
          exact Or.inr ⟨name, rfl, hserver, hnone, if_neg hany, if_pos (by simp [hserver])⟩
        · have hmiss : ¬ ((front ++ f :: back).any fun g => g.1.canonical == .server) = true := by
            rw [any_insert (by simpa using hserver)]
            exact hany
          refine Or.inl ⟨Or.inr (Or.inl hserver), back ++ [(.server, name)], ?_, ?_⟩
          · rw [withServer, if_neg hany, List.append_assoc]
          · rw [withServer, if_neg hmiss, List.append_assoc, List.cons_append]

/-- A name that cannot be written was not going to be. -/
theorem head_server_dropped {name : Bytes} (hname : validFieldValue name = false) (a : Answer)
    {headers : HeaderVec} (hheaders : a.headers = headers ++ [(.server, name)]) (date : Bytes) :
    head { a with headers := headers } date = a.head date := by
  have hdropped := @head_insert (.server, name) (by simp [writable, hname])
    (by simp [HeaderId.canonical]) { a with headers := headers } headers []
    (List.append_nil _).symm date
  rw [← hheaders] at hdropped
  exact hdropped.symm

/-- **A dropped field leaves no trace, but for the server's name.** For every
request and every response, a field that cannot be written and is no
`Connection` changes nothing in what is written and nothing in what becomes of
the connection, wherever it stands among the fields; unless it is a `Server`
field, the only one, and a name that could be written is configured: that name
is then missing from the response. -/
theorem dropped_field_leaves_no_trace_iff (serverName : Option Bytes) (call : Call) (status : Nat)
    (body : ResponseBody) (front back : HeaderVec) (f : HeaderId × Bytes) (consumed : Bool)
    (hf : writable f.1 f.2 = false) (hconn : f.1.canonical ≠ .connection) :
    SameOnWire (of serverName call ⟨status, front ++ back, body⟩ consumed)
        (of serverName call ⟨status, front ++ f :: back, body⟩ consumed) ↔
      ¬ HidesServer serverName call status (front ++ back) f := by
  rw [of_insert hconn, sameOnWire_iff]
  have hfields : (of serverName call ⟨status, front ++ back, body⟩ consumed).headers
      = withServer serverName
          (if isFinalStatus status call.wantsUpgrade then front ++ back else []) := rfl
  generalize of serverName call ⟨status, front ++ back, body⟩ consumed = a at hfields ⊢
  cases hfinal : isFinalStatus status call.wantsUpgrade with
  | false =>
      -- the handler's fields go with its status, the dropped one among them
      rw [hfinal, if_neg (by simp)] at hfields
      rw [if_neg (by simp), ← hfields]
      refine iff_of_true (fun _ => rfl) ?_
      rintro ⟨h, -⟩
      rw [hfinal] at h
      cases h
  | true =>
      rw [hfinal, if_pos rfl] at hfields
      rw [if_pos rfl]
      rcases withServer_insert serverName front back f with
        ⟨hkept, back', hwithout, hwith⟩ | ⟨name, rfl, hserver, hnone, hwithout, hwith⟩
      · rw [hwith]
        refine iff_of_true (head_insert hf hconn a (hfields.trans hwithout)) ?_
        rintro ⟨-, hserver, ⟨name, rfl, -⟩, hnone⟩
        rcases hkept with h | h | ⟨g, hg, h⟩
        · cases h
        · exact h hserver
        · exact hnone g hg h
      · rw [hwith]
        have hdropped : ∀ date, head { a with headers := front ++ f :: back } date
            = head { a with headers := front ++ back } date :=
          head_insert hf hconn { a with headers := front ++ back } rfl
        simp only [hdropped]
        cases hname : validFieldValue name with
        | false =>
            refine iff_of_true (head_server_dropped hname a (hfields.trans hwithout)) ?_
            rintro ⟨-, -, ⟨n, hn, hvalid⟩, -⟩
            cases hn
            rw [hname] at hvalid
            cases hvalid
        | true =>
            refine iff_of_false (fun hsame => ?_) ?_
            · have hlonger := length_writeHeadFor_server hname a.version a.status
                (front ++ back) a.outBody [] a.keepAlive a.isHeadRequest
              have heq := congrArg List.length (hsame [])
              unfold head at heq
              rw [hfields, hwithout] at heq
              exact absurd heq (Nat.ne_of_lt hlonger)
            · exact not_not_intro ⟨hfinal, hserver, ⟨name, rfl, hname⟩, hnone⟩

/-- A plain HTTP/1.1 request. -/
def plainGet : Call := ⟨.http11, true, false, false, false⟩

/-- A handler's `Location` with a line break in it, between two good fields. -/
theorem dropped_location_leaves_no_trace :
    writable .location (ascii "/a\r\nx: y") = false ∧
      SameOnWire
        (of (some (ascii "s")) plainGet ⟨302, [(.vary, ascii "a")] ++ [(.date, ascii "d")], .empty⟩
          true)
        (of (some (ascii "s")) plainGet
          ⟨302, [(.vary, ascii "a")] ++ (.location, ascii "/a\r\nx: y") :: [(.date, ascii "d")],
            .empty⟩ true) := by
  have hdropped : writable .location (ascii "/a\r\nx: y") = false := by decide
  refine ⟨hdropped, ?_⟩
  refine (dropped_field_leaves_no_trace_iff (some (ascii "s")) plainGet 302 .empty
    [(.vary, ascii "a")] [(.date, ascii "d")] (.location, ascii "/a\r\nx: y") true hdropped
    (by decide)).mpr ?_
  rintro ⟨-, hserver, -⟩
  cases hserver

/-- A handler's `Server` with a line break in it: with and without it, the
response has no server's name and the configured one. -/
theorem dropped_server_leaves_trace :
    writable .server (ascii "a\r\nb") = false ∧
      ¬ SameOnWire (of (some (ascii "s")) plainGet ⟨204, [], .empty⟩ true)
        (of (some (ascii "s")) plainGet ⟨204, [(.server, ascii "a\r\nb")], .empty⟩ true) ∧
      head (of (some (ascii "s")) plainGet ⟨204, [], .empty⟩ true) (ascii "d")
        = ascii "HTTP/1.1 204 No Content\r\nserver: s\r\ndate: d\r\n\r\n" ∧
      head (of (some (ascii "s")) plainGet ⟨204, [(.server, ascii "a\r\nb")], .empty⟩ true)
        (ascii "d") = ascii "HTTP/1.1 204 No Content\r\ndate: d\r\n\r\n" := by
  have hwithout : head (of (some (ascii "s")) plainGet ⟨204, [], .empty⟩ true) (ascii "d")
      = ascii "HTTP/1.1 204 No Content\r\nserver: s\r\ndate: d\r\n\r\n" := by decide +kernel
  have hwith : head (of (some (ascii "s")) plainGet ⟨204, [(.server, ascii "a\r\nb")], .empty⟩ true)
      (ascii "d") = ascii "HTTP/1.1 204 No Content\r\ndate: d\r\n\r\n" := by decide +kernel
  refine ⟨by decide, ?_, hwithout, hwith⟩
  rintro ⟨hbytes, -⟩
  have hsame := hbytes (ascii "d") [] false
  have hheads := List.append_cancel_right
    (show head (of (some (ascii "s")) plainGet ⟨204, [(.server, ascii "a\r\nb")], .empty⟩ true)
        (ascii "d") ++ [] = head (of (some (ascii "s")) plainGet ⟨204, [], .empty⟩ true)
        (ascii "d") ++ [] from hsame)
  rw [hwithout, hwith] at hheads
  exact absurd hheads (by decide +kernel)

end Answer

end ArmatureH1

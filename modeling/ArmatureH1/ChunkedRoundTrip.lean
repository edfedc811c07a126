/-
ArmatureH1.ChunkedRoundTrip — what `write_chunk` and `write_last_chunk`
write, the decoder reads back.

The writer's output is a `Message`: `write_hex` writes a size line, and the
trailers that survive `write_last_chunk` are valid field lines. The two sides
classify a trailer's name by different code, `canonical` here and `from_bytes`
plus lowercasing there; `canonical_forbidden_iff` is where they meet.

`drain_written_iff` is the limit of the round trip. An empty chunk is written
as `0 CRLF CRLF`, which is the end of a chunked body, so a list with an empty
chunk in it never comes back.
-/
import ArmatureH1.ChunkedGrammar
import ArmatureH1.Write

namespace ArmatureH1

open ByteString

/-! ## 1. Size lines -/

theorem hexValue_hexDigit {d : Nat} (h : d < 16) : hexValue (hexDigit d) = some d := by
  have hall : ∀ d ∈ List.range 16, hexValue (hexDigit d) = some d := by decide
  exact hall d (List.mem_range.mpr h)

theorem isAsciiHexdigit_hexDigit {d : Nat} (h : d < 16) : isAsciiHexdigit (hexDigit d) = true := by
  have hall : ∀ d ∈ List.range 16, isAsciiHexdigit (hexDigit d) = true := by decide
  exact hall d (List.mem_range.mpr h)

theorem hexNumber_map_hexDigit {ds : List Nat} (h : ∀ d ∈ ds, d < 16) :
    hexNumber (ds.map hexDigit) = Numeral.value 16 ds := by
  have hmap : (ds.map hexDigit).map (fun b => (hexValue b).getD 0) = ds := by
    rw [List.map_map]
    conv => rhs; rw [← List.map_id ds]
    refine List.map_congr_left fun d hd => ?_
    simp [hexValue_hexDigit (h d hd)]
  rw [hexNumber, hmap]

theorem writeHex_eq {n : Nat} (h : n < 2 ^ 64) :
    ∃ ds, Numeral.IsNumeral 16 n ds ∧ ds.length ≤ 16 ∧ writeHex n = ds.map hexDigit := by
  have hn : n < 16 ^ (15 + 1) := by
    norm_num
    omega
  obtain ⟨ds, hds, hlen, hr⟩ := Numeral.render_eq hexDigit (by omega) 15 n [] hn
  rw [List.append_nil] at hr
  exact ⟨ds, hds, hlen, hr⟩

/-- `write_hex` writes a size line. -/
theorem sizeLineFits_writeHex {n : Nat} (h : n < 2 ^ 64) : SizeLineFits (writeHex n) n := by
  obtain ⟨ds, hds, hlen, hw⟩ := writeHex_eq h
  have hline : SizeLine (ds.map hexDigit) n := by
    refine ⟨ds.map hexDigit, [], [], by simp, by simpa using hds.ne_nil, ?_, .nil, ?_, ?_, h⟩
    · intro b hb
      obtain ⟨d, hd, rfl⟩ := List.mem_map.mp hb
      exact isAsciiHexdigit_hexDigit (hds.digit_lt d hd)
    · intro b hb; cases hb
    · rw [hexNumber_map_hexDigit hds.digit_lt, hds.value_eq]
  have hfits : (ds.map hexDigit).length ≤ maxSizeLine := by
    have hmap : (ds.map hexDigit).length = ds.length := List.length_map _
    have hmax : maxSizeLine = 272 := by decide
    omega
  rw [hw]
  exact ⟨hline, hfits⟩

theorem sizeLineFits_zero : SizeLineFits (ascii "0") 0 := by
  have hzero : writeHex 0 = ascii "0" := by decide
  rw [← hzero]
  exact sizeLineFits_writeHex (by omega)

/-! ## 2. Trailers -/

theorem HeaderId.isUtf8_asStr (id : HeaderId) : isUtf8 id.asStr = true := by
  rcases mem_wellKnown_or_other id with hknown | ⟨name, rfl⟩
  · exact (isToken_asStr hknown).isUtf8
  · exact name.utf8

/-- `as_str`, as the string it is. -/
def HeaderId.name (id : HeaderId) : ByteStr := ⟨id.asStr, id.isUtf8_asStr⟩

/-- The two classifications agree: a field is dropped by the writer when its
name is one the reader refuses. -/
theorem canonical_forbidden_iff (id : HeaderId) :
    id.canonical.forbiddenInTrailers = true ↔ ForbiddenName id.asStr := by
  have hbytes : id.name.bytes = id.asStr := rfl
  rw [HeaderId.canonical_eq, ← hbytes, ← intern_forbidden_iff, hbytes]
  cases hf : HeaderId.fromBytes id.asStr with
  | some known => simp only [intern, hbytes, hf, Option.getD_some]
  | none =>
      -- an unknown name is an `Other`, on either side
      have hid : id.forbiddenInTrailers = false := by
        by_contra hc
        rw [Bool.not_eq_false] at hc
        rw [HeaderId.fromBytes_asStr (HeaderId.forbiddenInTrailers_wellKnown hc).1] at hf
        cases hf
      simp only [intern, hbytes, hf, Option.getD_none, hid]
      split <;> simp [HeaderId.forbiddenInTrailers]

theorem isToken_of_writable {id : HeaderId} {value : Bytes} (h : writable id value = true) :
    IsToken id.asStr := by
  rcases HeaderId.mem_wellKnown_or_other id with hknown | ⟨name, rfl⟩
  · exact HeaderId.isToken_asStr hknown
  · simp only [writable, Bool.and_eq_true] at h
    exact validFieldName_iff.mp h.1

theorem mem_of_mem_trimOws {b : UInt8} {s : Bytes} (h : b ∈ trimOws s) : b ∈ s := by
  rw [trimOws, List.rdropWhile, List.mem_reverse] at h
  have h' := List.dropWhile_subset _ h
  exact List.dropWhile_subset _ (List.mem_reverse.mp h')

theorem trimOws_cons_SP (s : Bytes) : trimOws (SP :: s) = trimOws s := by
  rw [trimOws, trimOws, List.dropWhile_cons_of_pos (by decide)]

/-- The trailers `write_last_chunk` writes. -/
def writtenTrailers (trailers : HeaderVec) : HeaderVec :=
  trailers.filter fun f => !f.1.canonical.forbiddenInTrailers && writable f.1 f.2

/-- A trailer as the writer spells it. -/
def trailerLine (f : HeaderId × Bytes) : FieldLine := ⟨f.1.name, SP :: f.2⟩

/-- What a reader makes of a trailer. -/
def readTrailer (f : HeaderId × Bytes) : HeaderId × Bytes := (intern f.1.name, trimOws f.2)

theorem field_trailerLine (f : HeaderId × Bytes) : (trailerLine f).field = readTrailer f := by
  simp only [FieldLine.field, trailerLine, trimOws_cons_SP, readTrailer]

theorem flatMap_writeTrailer (trailers : HeaderVec) :
    trailers.flatMap writeTrailer
      = Message.fieldLines ((writtenTrailers trailers).map trailerLine) := by
  induction trailers with
  | nil => rfl
  | cons f rest ih =>
      rw [List.flatMap_cons, ih]
      unfold writtenTrailers
      cases hforb : f.1.canonical.forbiddenInTrailers with
      | true => simp [writeTrailer, hforb]
      | false =>
          cases hw : writable f.1 f.2 with
          | false => simp [writeTrailer, hforb, hw]
          | true =>
              have hsep : ascii ": " = [0x3a, SP] := by decide
              have hname : f.1.name.bytes = f.1.asStr := rfl
              have hline : writeTrailer f = (trailerLine f).line ++ crlf := by
                simp [writeTrailer, hforb, hw, writeFieldLine, FieldLine.line, trailerLine, hsep,
                  hname]
              rw [hline]
              simp [Message.fieldLines, hforb, hw]

theorem valid_trailerLine {trailers : HeaderVec} {f : HeaderId × Bytes}
    (hf : f ∈ writtenTrailers trailers) (hctl : ∀ b ∈ f.2, isCtl b = false) :
    (trailerLine f).Valid := by
  obtain ⟨_, hkeep⟩ := List.mem_filter.mp hf
  rw [Bool.and_eq_true, Bool.not_eq_true'] at hkeep
  refine ⟨isToken_of_writable hkeep.2, ?_, ?_⟩
  · intro hforb
    have := (canonical_forbidden_iff f.1).mpr hforb
    rw [hkeep.1] at this; cases this
  · intro b hb
    have hb' : b ∈ trimOws f.2 := by
      rw [← trimOws_cons_SP]; exact hb
    exact hctl b (mem_of_mem_trimOws hb')

/-! ## 3. The round trip -/

/-- The message the writer writes. -/
def writtenMessage (chunks : List Bytes) (trailers : HeaderVec) : Message where
  chunks := chunks.map fun c => ⟨writeHex c.length, c⟩
  last := ascii "0"
  fields := (writtenTrailers trailers).map trailerLine

theorem encode_writtenMessage (chunks : List Bytes) (trailers : HeaderVec) :
    (writtenMessage chunks trailers).encode
      = chunks.flatMap writeChunk ++ writeLastChunk trailers := by
  have hchunks : (chunks.map fun c => (⟨writeHex c.length, c⟩ : Chunk)).flatMap Chunk.encode
      = chunks.flatMap writeChunk := by
    have hone : writeChunk = fun c => Chunk.encode ⟨writeHex c.length, c⟩ := by
      funext c
      simp [writeChunk, Chunk.encode]
    rw [List.flatMap_map, hone]
  have hzero : ascii "0\r\n" = ascii "0" ++ crlf := by decide
  rw [Message.encode, writtenMessage, hchunks, writeLastChunk, flatMap_writeTrailer, hzero]
  simp [Message.trailerSection]

theorem body_writtenMessage (chunks : List Bytes) (trailers : HeaderVec) :
    (writtenMessage chunks trailers).body = chunks.flatten := by
  simp [Message.body, writtenMessage, List.flatMap_def, Function.comp_def]

/-- The limits have room for what is written. -/
structure LargeEnough (limits : Limits) (chunks : List Bytes) (trailers : HeaderVec) : Prop where
  body : chunks.flatten.length ≤ limits.maxBodyBytes
  count : (writtenTrailers trailers).length ≤ limits.maxHeaders
  bytes : (trailers.flatMap writeTrailer ++ crlf).length ≤ limits.maxHeadBytes

theorem valid_writtenMessage {limits : Limits} {chunks : List Bytes} {trailers : HeaderVec}
    (hroom : LargeEnough limits chunks trailers) (hne : ∀ c ∈ chunks, c ≠ [])
    (hctl : ∀ f ∈ writtenTrailers trailers, ∀ b ∈ f.2, isCtl b = false) :
    (writtenMessage chunks trailers).Valid limits where
  chunks := by
    intro c hc
    obtain ⟨data, hdata, rfl⟩ := List.mem_map.mp hc
    have hlen : data.length < 2 ^ 64 := by
      have h1 : data.length ≤ chunks.flatten.length :=
        (List.sublist_flatten_of_mem hdata).length_le
      have h2 := hroom.body
      have h3 := limits.maxBodyBytes_lt
      omega
    exact ⟨sizeLineFits_writeHex hlen, hne data hdata⟩
  last := sizeLineFits_zero
  fields := by
    intro f hf
    obtain ⟨g, hg, rfl⟩ := List.mem_map.mp hf
    exact valid_trailerLine hg (hctl g hg)
  body := by rw [body_writtenMessage]; exact hroom.body
  count := by simpa [writtenMessage] using hroom.count
  trailerSection := by
    have := hroom.bytes
    rwa [flatMap_writeTrailer] at this

open ChunkedDecoder

/-- **Chunks and trailers come back as they were written**: each chunk, then
the trailers that may be written, and none if none may. -/
theorem transcript_written {limits : Limits} {chunks : List Bytes} {trailers : HeaderVec}
    (hroom : LargeEnough limits chunks trailers) (hne : ∀ c ∈ chunks, c ≠ [])
    (hctl : ∀ f ∈ writtenTrailers trailers, ∀ b ∈ f.2, isCtl b = false) (rest : Bytes) :
    (new limits).transcript (chunks.flatMap writeChunk ++ writeLastChunk trailers ++ rest) =
      ⟨chunks.map .data ++
          (Message.trailerEvents ((writtenTrailers trailers).map readTrailer)).map .trailers,
        .ended rest⟩ := by
  rw [← encode_writtenMessage, transcript_message (valid_writtenMessage hroom hne hctl)]
  simp only [messageEvents, writtenMessage, List.map_map, Function.comp_def, field_trailerLine]

/-- Two chunks, and a trailer list with one field to keep, one to refuse and
one that cannot be written. -/
theorem transcript_written_sample :
    let trailers : HeaderVec := [(.other (.literal "X-Sum"), ascii " 7 "),
      (.other (.literal "Content-Length"), ascii "3"), (.etag, [CR])]
    LargeEnough Limits.default [ascii "ab", ascii "c"] trailers ∧
    (new Limits.default).transcript
        ([ascii "ab", ascii "c"].flatMap writeChunk ++ writeLastChunk trailers ++ ascii "GET") =
      ⟨[.data (ascii "ab"), .data (ascii "c"),
        .trailers [(.other (.literal "x-sum"), ascii "7")]], .ended (ascii "GET")⟩ := by
  intro trailers
  have hroom : LargeEnough Limits.default [ascii "ab", ascii "c"] trailers :=
    ⟨by decide +kernel, by decide +kernel, by decide +kernel⟩
  refine ⟨hroom, ?_⟩
  rw [transcript_written hroom (by decide +kernel) (by decide +kernel)]
  decide +kernel

/-! ## 4. The empty chunk -/

/-- A streamed body without trailers. -/
theorem drain_written {limits : Limits} {chunks : List Bytes}
    (hbody : chunks.flatten.length ≤ limits.maxBodyBytes) (hhead : 2 ≤ limits.maxHeadBytes)
    (hne : ∀ c ∈ chunks, c ≠ []) (rest : Bytes) :
    (new limits).drain (chunks.flatMap writeChunk ++ writeLastChunk [] ++ rest) =
      ⟨chunks.flatten, [], .ended rest⟩ := by
  have hroom : LargeEnough limits chunks [] := ⟨hbody, Nat.zero_le _, hhead⟩
  have hvalid := valid_writtenMessage hroom hne (by intro f hf; cases hf)
  rw [← encode_writtenMessage, drain_message hvalid, body_writtenMessage]
  rfl

/-- **A list of chunks comes back, and leaves what follows it, exactly when
none of them is empty.** -/
theorem drain_written_iff {limits : Limits} {chunks : List Bytes}
    (hbody : chunks.flatten.length ≤ limits.maxBodyBytes) (hhead : 2 ≤ limits.maxHeadBytes)
    (rest : Bytes) :
    (new limits).drain (chunks.flatMap writeChunk ++ writeLastChunk [] ++ rest) =
      ⟨chunks.flatten, [], .ended rest⟩ ↔ ∀ c ∈ chunks, c ≠ [] := by
  constructor
  · intro h c hc hnil
    subst hnil
    -- up to the first empty chunk the output is a whole message of its own
    obtain ⟨front, back, hsplit, hfront⟩ := List.eq_append_cons_of_mem hc
    have hempty : writeChunk [] = writeLastChunk [] := by decide
    have hfit : front.flatten.length ≤ limits.maxBodyBytes := by
      have := congrArg (fun l => l.flatten.length) hsplit
      simp only [List.flatten_append, List.length_append] at this
      omega
    have hne : ∀ c ∈ front, c ≠ [] := fun c hc hnil => hfront (by rw [← hnil]; exact hc)
    have hrun := drain_written hfit hhead hne (back.flatMap writeChunk ++ writeLastChunk [] ++ rest)
    rw [hsplit, List.flatMap_append, List.flatMap_cons, hempty] at h
    simp only [List.append_assoc] at h hrun
    rw [hrun] at h
    have hlen := congrArg (fun o => match o.stop with | .ended r => r.length | _ => 0) h
    simp only [List.length_append] at hlen
    have hpos : (writeLastChunk []).length = 5 := by decide
    omega
  · intro hne
    exact drain_written hbody hhead hne rest

end ArmatureH1

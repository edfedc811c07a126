/-
ArmatureH1.ChunkedGrammar — the language of the chunked decoder.

A `Message` is a chunked body spelled out: the chunks with their size lines
as written, the zero-size line, and the trailer fields as written. `encode`
puts it on the wire and `Valid` holds it to RFC 9112 section 7.1 and to the
limits. Nothing in either mentions the decoder.

Two theorems tie the two together. `transcript_message` runs the decoder over
an encoded message and says which events it emits, in which order.
`exists_message` goes the other way: a run that reached the end read a valid
message. Both follow the message from left to right, one state of the machine
per line of the grammar.
-/
import ArmatureH1.ChunkedTheorems
import ArmatureH1.SizeLine

namespace ArmatureH1

open ByteString

/-! ## 1. Messages -/

/-- A chunk as written: its size line without the CRLF, and its data. -/
structure Chunk where
  line : Bytes
  data : Bytes
  deriving DecidableEq

def Chunk.encode (c : Chunk) : Bytes := c.line ++ crlf ++ (c.data ++ crlf)

/-- A size line the decoder has room for. -/
def SizeLineFits (line : Bytes) (n : Nat) : Prop := SizeLine line n ∧ line.length ≤ maxSizeLine

def Chunk.Valid (c : Chunk) : Prop := SizeLineFits c.line c.data.length ∧ c.data ≠ []

/-- A trailer field as written: `name ":" rest`, with the whitespace around
the value still in `rest`. -/
structure FieldLine where
  name : ByteStr
  rest : Bytes
  deriving DecidableEq

def FieldLine.line (f : FieldLine) : Bytes := f.name.bytes ++ 0x3a :: f.rest

/-- The field a line stands for. -/
def FieldLine.field (f : FieldLine) : HeaderId × Bytes := (intern f.name, trimOws f.rest)

/-- The name is, in some letter case, one that has no place in a trailer. -/
def ForbiddenName (name : Bytes) : Prop :=
  ∃ id : HeaderId, id.forbiddenInTrailers = true ∧ lowercase name = id.asStr

structure FieldLine.Valid (f : FieldLine) : Prop where
  token : IsToken f.name.bytes
  allowed : ¬ ForbiddenName f.name.bytes
  value : ∀ b ∈ trimOws f.rest, isCtl b = false

/-- A chunked body as written. -/
structure Message where
  chunks : List Chunk
  last : Bytes
  fields : List FieldLine
  deriving DecidableEq

namespace Message

def fieldLines (fields : List FieldLine) : Bytes := fields.flatMap fun f => f.line ++ crlf

/-- The trailer section, through the CRLF that ends it. -/
def trailerSection (fields : List FieldLine) : Bytes := fieldLines fields ++ crlf

def encode (m : Message) : Bytes :=
  m.chunks.flatMap Chunk.encode ++ (m.last ++ crlf ++ trailerSection m.fields)

def body (m : Message) : Bytes := m.chunks.flatMap Chunk.data

/-- The trailer sections reported for the fields: none when there are
none. -/
def trailerEvents (fields : HeaderVec) : List HeaderVec := if fields = [] then [] else [fields]

structure Valid (limits : Limits) (m : Message) : Prop where
  chunks : ∀ c ∈ m.chunks, c.Valid
  last : SizeLineFits m.last 0
  fields : ∀ f ∈ m.fields, f.Valid
  body : m.body.length ≤ limits.maxBodyBytes
  count : m.fields.length ≤ limits.maxHeaders
  trailerSection : (trailerSection m.fields).length ≤ limits.maxHeadBytes

end Message

/-- Whole chunks, within the body limit. -/
structure ChunksFit (limits : Limits) (chunks : List Chunk) : Prop where
  valid : ∀ c ∈ chunks, c.Valid
  body : (chunks.flatMap Chunk.data).length ≤ limits.maxBodyBytes

/-- Whole trailer lines, within the limits on their number and length. -/
structure FieldsFit (limits : Limits) (fields : List FieldLine) : Prop where
  valid : ∀ f ∈ fields, f.Valid
  count : fields.length ≤ limits.maxHeaders
  bytes : (Message.fieldLines fields).length ≤ limits.maxHeadBytes

theorem FieldsFit.nil (limits : Limits) : FieldsFit limits [] where
  valid := by simp
  count := by simp
  bytes := by simp [Message.fieldLines]

theorem Message.fieldLines_append (fields : List FieldLine) (f : FieldLine) :
    Message.fieldLines (fields ++ [f]) = Message.fieldLines fields ++ (f.line ++ crlf) := by
  simp [Message.fieldLines]

theorem ChunksFit.snoc {limits : Limits} {chunks : List Chunk} {c : Chunk}
    (h : ChunksFit limits chunks) (hc : c.Valid)
    (hb : (chunks.flatMap Chunk.data).length + c.data.length ≤ limits.maxBodyBytes) :
    ChunksFit limits (chunks ++ [c]) where
  valid := by
    intro c' hc'
    rcases List.mem_append.mp hc' with hc' | hc'
    · exact h.valid c' hc'
    · have : c' = c := by simpa using hc'
      rw [this]; exact hc
  body := by simpa using hb

theorem FieldsFit.snoc {limits : Limits} {fields : List FieldLine} {f : FieldLine}
    (h : FieldsFit limits fields) (hf : f.Valid) (hroom : fields.length < limits.maxHeaders)
    (hb : (Message.fieldLines fields).length + (f.line.length + 2) ≤ limits.maxHeadBytes) :
    FieldsFit limits (fields ++ [f]) where
  valid := by
    intro f' hf'
    rcases List.mem_append.mp hf' with hf' | hf'
    · exact h.valid f' hf'
    · have : f' = f := by simpa using hf'
      rw [this]; exact hf
  count := by simpa using Nat.succ_le_of_lt hroom
  bytes := by
    rw [Message.fieldLines_append]
    simpa using hb

/-! ## 2. Trailer lines -/

theorem isTchar_lt {b : UInt8} (h : isTchar b = true) : b < 128 := by
  have := forall_byte (p := fun b => !isTchar b || b < 128) (by decide +kernel) b
  simpa [h] using this

theorem isTchar_not_whitespace {b : UInt8} (h : isTchar b = true) :
    isAsciiWhitespace b = false := by
  by_contra hspace
  simp only [isAsciiWhitespace, Bool.not_eq_false, Bool.or_eq_true, beq_iff_eq] at hspace
  rcases hspace with (((rfl | rfl) | rfl) | rfl) | rfl
  all_goals exact absurd h (by decide)

theorem IsToken.isUtf8 {t : Bytes} (h : IsToken t) : isUtf8 t = true := by
  apply isUtf8_of_isAscii
  rw [isAscii, List.all_eq_true]
  intro b hb
  exact decide_eq_true (isTchar_lt (h.2 b hb))

theorem validFieldName_iff {name : Bytes} : validFieldName name = true ↔ IsToken name := by
  simp [validFieldName, IsToken, List.all_eq_true]

/-- The well-known names are tokens. -/
theorem HeaderId.isToken_asStr {k : HeaderId} (h : k ∈ wellKnown) : IsToken k.asStr := by
  rw [← validFieldName_iff]
  have hall : ∀ k ∈ wellKnown, validFieldName k.asStr = true := by decide +kernel
  exact hall k h

theorem IsToken.colon_notMem {t : Bytes} (h : IsToken t) : 0x3a ∉ t := h.notMem (by decide)

/-- `push_trailer` identifies a name as `intern` does. -/
theorem fieldId_eq (name : ByteStr) : fieldId name.bytes = some (intern name) := by
  unfold fieldId intern
  cases HeaderId.fromBytes name.bytes with
  | some id => rfl
  | none =>
      by_cases hup : name.bytes.any isAsciiUppercase = true
      · simp only [hup, if_true, ByteStr.fromUtf8, isUtf8_lowercase name.utf8, dif_pos,
          Option.map_some]
      · simp only [hup, Bool.false_eq_true, if_false, ByteStr.fromUtf8, name.utf8, dif_pos,
          Option.map_some]

/-- The names `forbidden_in_trailers` lists are well known, and written in
lowercase. -/
theorem HeaderId.forbiddenInTrailers_wellKnown {id : HeaderId}
    (h : id.forbiddenInTrailers = true) : id ∈ wellKnown ∧ lowercase id.asStr = id.asStr := by
  rcases mem_wellKnown_or_other id with hknown | ⟨name, rfl⟩
  · exact ⟨hknown, lowercase_asStr hknown⟩
  · cases h

theorem intern_forbidden_iff {name : ByteStr} :
    (intern name).forbiddenInTrailers = true ↔ ForbiddenName name.bytes := by
  constructor
  · intro h
    unfold intern at h
    cases hf : HeaderId.fromBytes name.bytes with
    | some id =>
        simp only [hf] at h
        refine ⟨id, h, ?_⟩
        rw [(HeaderId.fromBytes_eq_some hf).2, (HeaderId.forbiddenInTrailers_wellKnown h).2]
    | none =>
        simp only [hf] at h
        split at h <;> cases h
  · intro h
    obtain ⟨id, hid, hname⟩ := h
    obtain ⟨hwk, hlow⟩ := HeaderId.forbiddenInTrailers_wellKnown hid
    have hf : HeaderId.fromBytes name.bytes = some id := by
      rw [HeaderId.fromBytes_congr (hname.trans hlow.symm), HeaderId.fromBytes_asStr hwk]
    rw [intern, hf]
    exact hid

theorem any_isCtl_eq_false {value : Bytes} :
    value.any isCtl = false ↔ ∀ b ∈ value, isCtl b = false := by
  simp

/-- **`push_trailer` accepts exactly the valid field lines, while there is
room.** -/
theorem pushTrailer_iff {max : Nat} {stored : Option HeaderVec} {line : Bytes} {t : HeaderVec} :
    pushTrailer max stored line = .ok t ↔
      (stored.getD []).length < max ∧
        ∃ f : FieldLine, f.Valid ∧ line = f.line ∧ t = stored.getD [] ++ [f.field] := by
  constructor
  · intro h
    unfold pushTrailer at h
    split at h
    · cases h
    · split at h
      · cases h
      · rename_i hroom
        split at h
        · cases h
        · rename_i colon hcolon
          obtain ⟨name, rest, rfl, _, rfl⟩ := memchr_eq_some.mp hcolon
          have htake : (name ++ 0x3a :: rest).take name.length = name := by simp
          have hdrop : (name ++ 0x3a :: rest).drop (name.length + 1) = rest := by
            simp
          simp only [htake, hdrop] at h
          iterate 2 (split at h; · cases h)
          split at h
          · cases h
          · rename_i hname
            rw [Bool.not_eq_false, Bool.and_eq_true, validFieldName_iff] at hname
            rw [fieldId_eq ⟨name, hname.1⟩] at h
            simp only at h
            split at h
            · cases h
            · rename_i hforb
              split at h
              · cases h
              · rename_i hctl
                cases h
                refine ⟨by omega, ⟨⟨name, hname.1⟩, rest⟩, ⟨hname.2, ?_, ?_⟩, rfl, rfl⟩
                · rw [← intern_forbidden_iff]; exact hforb
                · rw [Bool.not_eq_true] at hctl
                  exact any_isCtl_eq_false.mp hctl
  · intro h
    obtain ⟨hroom, f, hf, rfl, rfl⟩ := h
    obtain ⟨hne, htok⟩ := hf.token
    have hhead : ¬ (f.line.head? = some SP ∨ f.line.head? = some HTAB) := by
      unfold FieldLine.line
      cases hn : f.name.bytes with
      | nil => exact absurd hn hne
      | cons b rest =>
          have hb : isTchar b = true := htok b (by simp [hn])
          have : isOws b = false := isOws_false_of_isTchar hb
          simpa [isOws] using this
    have hcolon : memchr 0x3a f.line = some f.name.bytes.length :=
      memchr_append_cons f.rest hf.token.colon_notMem
    have htake : f.line.take f.name.bytes.length = f.name.bytes := by simp [FieldLine.line]
    have hdrop : f.line.drop (f.name.bytes.length + 1) = f.rest := by simp [FieldLine.line]
    have hlast : ¬ (f.name.bytes.getLast?.any isAsciiWhitespace) = true := by
      intro h
      obtain ⟨b, hb, hws⟩ := Option.any_eq_true _ _ |>.mp h
      have := isTchar_not_whitespace (htok b (List.mem_of_getLast? hb))
      rw [this] at hws; cases hws
    have hname : ¬ (isUtf8 f.name.bytes && validFieldName f.name.bytes) = false := by
      simp [f.name.utf8, validFieldName_iff.mpr hf.token]
    have hforb : ¬ (intern f.name).forbiddenInTrailers = true := by
      rw [intern_forbidden_iff]; exact hf.allowed
    have hctl : ¬ (trimOws f.rest).any isCtl = true := by
      rw [any_isCtl_eq_false.mpr hf.value]; simp
    simp only [pushTrailer, if_neg hhead, if_neg (Nat.not_le.mpr hroom), hcolon, htake, hdrop,
      if_neg hne, if_neg hlast, if_neg hname, fieldId_eq f.name, if_neg hforb, if_neg hctl,
      FieldLine.field]

/-! ### No line feed -/

/-- Trimming takes nothing but SP and HTAB. -/
theorem mem_trimOws {b : UInt8} {s : Bytes} (hb : b ∈ s) (hows : isOws b = false) :
    b ∈ trimOws s := by
  have hdrop : ∀ l : Bytes, b ∈ l → b ∈ l.dropWhile isOws := by
    intro l hl
    rw [← List.takeWhile_append_dropWhile (p := isOws) (l := l)] at hl
    rcases List.mem_append.mp hl with h | h
    · rw [List.mem_takeWhile_imp h] at hows; cases hows
    · exact h
  rw [trimOws, List.rdropWhile, List.mem_reverse]
  exact hdrop _ (List.mem_reverse.mpr (hdrop s hb))

theorem FieldLine.Valid.lf_notMem {f : FieldLine} (h : f.Valid) : LF ∉ f.line := by
  intro hmem
  rcases List.mem_append.mp hmem with hname | hrest
  · exact h.token.lf_notMem hname
  · rcases List.mem_cons.mp hrest with hcolon | hrest
    · exact absurd hcolon (by decide)
    · exact absurd (h.value _ (mem_trimOws hrest (by decide))) (by decide)

theorem FieldLine.line_ne_nil (f : FieldLine) : f.line ≠ [] := by
  simp [FieldLine.line]

/-! ## 3. One reading -/

theorem line_unique {a b x y : Bytes} (ha : LF ∉ a) (hb : LF ∉ b)
    (h : a ++ crlf ++ x = b ++ crlf ++ y) : a = b ∧ x = y := by
  have hlen : a.length = b.length := by
    have hx : memchr LF (a ++ [CR] ++ LF :: x) = some (a ++ [CR]).length :=
      memchr_append_cons x (by simpa using ha)
    have hy : memchr LF (b ++ [CR] ++ LF :: y) = some (b ++ [CR]).length :=
      memchr_append_cons y (by simpa using hb)
    have heq : a ++ [CR] ++ LF :: x = b ++ [CR] ++ LF :: y := by simpa [crlf] using h
    rw [heq, hy] at hx
    simpa using hx.symm
  rw [List.append_assoc, List.append_assoc] at h
  obtain ⟨hab, hxy⟩ := List.append_inj h hlen
  exact ⟨hab, List.append_cancel_left hxy⟩

theorem FieldLine.line_injective {f g : FieldLine} (hf : f.Valid) (hg : g.Valid)
    (h : f.line = g.line) : f = g := by
  have h' : f.name.bytes ++ 0x3a :: f.rest = g.name.bytes ++ 0x3a :: g.rest := h
  have hlen : f.name.bytes.length = g.name.bytes.length := by
    have h1 := memchr_append_cons f.rest hf.token.colon_notMem
    rw [h', memchr_append_cons g.rest hg.token.colon_notMem] at h1
    simpa using h1.symm
  obtain ⟨hn, hr⟩ := List.append_inj h' hlen
  obtain ⟨⟨_, _⟩, _⟩ := f
  obtain ⟨⟨_, _⟩, _⟩ := g
  simp only [List.cons.injEq, true_and] at hn hr
  subst hn hr
  rfl

theorem trailerSection_unique : ∀ {fs gs : List FieldLine} {x y : Bytes}, (∀ f ∈ fs, f.Valid) →
    (∀ g ∈ gs, g.Valid) → Message.trailerSection fs ++ x = Message.trailerSection gs ++ y →
    fs = gs ∧ x = y := by
  have hcons : ∀ (f : FieldLine) (fs : List FieldLine) (x : Bytes),
      Message.trailerSection (f :: fs) ++ x
        = f.line ++ crlf ++ (Message.trailerSection fs ++ x) := by
    intro f fs x
    simp [Message.trailerSection, Message.fieldLines]
  have hnil : ∀ x : Bytes, Message.trailerSection [] ++ x = [] ++ crlf ++ x := fun _ => rfl
  intro fs
  induction fs with
  | nil =>
      intro gs x y _ hg h
      cases gs with
      | nil =>
          rw [hnil, hnil] at h
          exact ⟨rfl, (line_unique (by simp) (by simp) h).2⟩
      | cons g gs =>
          rw [hnil, hcons] at h
          exact absurd (line_unique (by simp) (hg g (by simp)).lf_notMem h).1.symm g.line_ne_nil
  | cons f fs ih =>
      intro gs x y hf hg h
      cases gs with
      | nil =>
          rw [hnil, hcons] at h
          exact absurd (line_unique (hf f (by simp)).lf_notMem (by simp) h).1 f.line_ne_nil
      | cons g gs =>
          rw [hcons, hcons] at h
          have hfv := hf f (by simp)
          have hgv := hg g (by simp)
          obtain ⟨hline, hrest⟩ := line_unique hfv.lf_notMem hgv.lf_notMem h
          obtain ⟨htail, hxy⟩ := ih (fun f' h' => hf f' (by simp [h']))
            (fun g' h' => hg g' (by simp [h'])) hrest
          exact ⟨by rw [FieldLine.line_injective hfv hgv hline, htail], hxy⟩

/-- The size lines of a chunk and of the last chunk are told apart by their
value. -/
theorem chunk_line_ne_last {c : Chunk} {last : Bytes} (hc : c.Valid) (hl : SizeLineFits last 0) :
    c.line ≠ last := by
  intro h
  have h0 := hl.1
  rw [← h] at h0
  exact hc.2 (List.length_eq_zero_iff.mp (hc.1.1.functional h0))

theorem chunks_unique : ∀ {cs ds : List Chunk} {l k x y : Bytes}, (∀ c ∈ cs, c.Valid) →
    (∀ d ∈ ds, d.Valid) → SizeLineFits l 0 → SizeLineFits k 0 →
    cs.flatMap Chunk.encode ++ (l ++ crlf ++ x) = ds.flatMap Chunk.encode ++ (k ++ crlf ++ y) →
    cs = ds ∧ l = k ∧ x = y := by
  have hcons : ∀ (c : Chunk) (cs : List Chunk) (x : Bytes), (c :: cs).flatMap Chunk.encode ++ x
      = c.line ++ crlf ++ (c.data ++ (crlf ++ (cs.flatMap Chunk.encode ++ x))) := by
    intro c cs x
    simp [Chunk.encode]
  intro cs
  induction cs with
  | nil =>
      intro ds l k x y _ hd hl hk h
      cases ds with
      | nil =>
          obtain ⟨hlk, hxy⟩ := line_unique hl.1.lf_notMem hk.1.lf_notMem h
          exact ⟨rfl, hlk, hxy⟩
      | cons d ds =>
          have hdv := hd d (by simp)
          rw [hcons] at h
          exact absurd (line_unique hl.1.lf_notMem hdv.1.1.lf_notMem h).1.symm
            (chunk_line_ne_last hdv hl)
  | cons c cs ih =>
      intro ds l k x y hc hd hl hk h
      have hcv := hc c (by simp)
      cases ds with
      | nil =>
          rw [hcons] at h
          exact absurd (line_unique hcv.1.1.lf_notMem hk.1.lf_notMem h).1
            (chunk_line_ne_last hcv hk)
      | cons d ds =>
          have hdv := hd d (by simp)
          rw [hcons, hcons] at h
          obtain ⟨hline, hrest⟩ := line_unique hcv.1.1.lf_notMem hdv.1.1.lf_notMem h
          have hdata : SizeLine d.line c.data.length := by
            rw [← hline]; exact hcv.1.1
          obtain ⟨hdata, htail⟩ := List.append_inj hrest (hdata.functional hdv.1.1)
          obtain ⟨hcs, hlk, hxy⟩ := ih (fun c' h' => hc c' (by simp [h']))
            (fun d' h' => hd d' (by simp [h'])) hl hk (List.append_cancel_left htail)
          have hcd : c = d := by
            cases c; cases d
            simp only at hline hdata
            rw [hline, hdata]
          exact ⟨by rw [hcd, hcs], hlk, hxy⟩

/-- **No input has two readings as a message and a rest.** -/
theorem Message.encode_unique {limits : Limits} {m m' : Message} {x y : Bytes}
    (hm : m.Valid limits) (hm' : m'.Valid limits) (h : m.encode ++ x = m'.encode ++ y) :
    m = m' ∧ x = y := by
  have h' : m.chunks.flatMap Chunk.encode
        ++ (m.last ++ crlf ++ (Message.trailerSection m.fields ++ x))
      = m'.chunks.flatMap Chunk.encode
        ++ (m'.last ++ crlf ++ (Message.trailerSection m'.fields ++ y)) := by
    simpa [Message.encode] using h
  obtain ⟨hc, hl, hrest⟩ := chunks_unique hm.chunks hm'.chunks hm.last hm'.last h'
  obtain ⟨hf, hxy⟩ := trailerSection_unique hm.fields hm'.fields hrest
  refine ⟨?_, hxy⟩
  cases m; cases m'
  simp only at hc hl hf
  rw [hc, hl, hf]

/-! ## 4. Running over a message -/

namespace ChunkedDecoder

/-- Events in front of a transcript. -/
def Transcript.prepend (events : List ChunkEvent) (t : Transcript) : Transcript :=
  ⟨events ++ t.events, t.stop⟩

@[simp] theorem Transcript.prepend_stop (events : List ChunkEvent) (t : Transcript) :
    (t.prepend events).stop = t.stop := rfl

@[simp] theorem Transcript.prepend_nil (t : Transcript) : t.prepend [] = t := rfl

@[simp] theorem Transcript.prepend_prepend (e₁ e₂ : List ChunkEvent) (t : Transcript) :
    (t.prepend e₂).prepend e₁ = t.prepend (e₁ ++ e₂) := by
  simp [Transcript.prepend]

theorem transcript_again {d d' : ChunkedDecoder} {buf buf' : Bytes}
    (h : d.turn buf = .again d' buf') : d.transcript buf = d'.transcript buf' := by
  rw [transcript_turn, h]

/-- A size line within the budget, whatever follows it. -/
theorem turn_sizeLine {d : ChunkedDecoder} {line : Bytes} {n : Nat} (hs : d.state = .size)
    (hmax : d.maxBody < 2 ^ 64) (hline : SizeLineFits line n)
    (hbudget : d.decoded + n ≤ d.maxBody) (rest : Bytes) :
    d.turn (line ++ crlf ++ rest) =
      .again (if n = 0 then { d with state := .trailers }
        else { d with remaining := n, state := .data }) rest := by
  have hsum : checkedAdd d.decoded n = some (d.decoded + n) := if_pos (by omega)
  have hok : ¬ ((checkedAdd d.decoded n).all fun total => total > d.maxBody) = true := by
    rw [hsum]
    simpa using hbudget
  rw [turn_of_size hs, turnSize_line d rest hline.1.lf_notMem hline.2, onSizeLine,
    parseChunkSize_iff.mpr hline.1]
  simp only [if_neg hok]
  split <;> rfl

/-- One chunk: its data comes out as one event. -/
theorem transcript_chunk {d : ChunkedDecoder} {c : Chunk} (hs : d.state = .size)
    (hr : d.remaining = 0) (hmax : d.maxBody < 2 ^ 64) (hc : c.Valid)
    (hbudget : d.decoded + c.data.length ≤ d.maxBody) (x : Bytes) :
    d.transcript (c.encode ++ x) =
      (transcript { d with decoded := d.decoded + c.data.length } x).prepend [.data c.data] := by
  obtain ⟨hline, hne⟩ := hc
  have hn : c.data.length ≠ 0 := by simpa using hne
  have henc : c.encode ++ x = c.line ++ crlf ++ (c.data ++ (crlf ++ x)) := by
    simp [Chunk.encode]
  rw [henc, transcript_again (turn_sizeLine hs hmax hline hbudget _), if_neg hn]
  have hbuf : c.data ++ (crlf ++ x) ≠ [] := by simp [hne]
  have hk : min (c.data ++ (crlf ++ x)).length c.data.length = c.data.length := by simp
  rw [transcript_turn, turn_of_data rfl hbuf]
  simp only [hk, List.take_left', List.drop_left', Transcript.ofPoll, advance, Nat.sub_self,
    if_true]
  have hcrlf : ∀ d' : ChunkedDecoder, d'.state = .dataCrlf →
      d'.transcript (crlf ++ x) = transcript { d' with state := .size } x := by
    intro d' hs'
    apply transcript_again
    simp [turn, hs', turnDataCrlf, crlf]
  rw [hcrlf _ rfl]
  have hd : ({ d with decoded := d.decoded + c.data.length } : ChunkedDecoder)
      = { d with state := .size, remaining := 0, decoded := d.decoded + c.data.length } := by
    rw [← hs, ← hr]
  rw [hd]
  rfl

theorem transcript_chunks : ∀ (chunks : List Chunk) {d : ChunkedDecoder}, d.state = .size →
    d.remaining = 0 → d.maxBody < 2 ^ 64 → (∀ c ∈ chunks, c.Valid) →
    d.decoded + (chunks.flatMap Chunk.data).length ≤ d.maxBody → ∀ x : Bytes,
    d.transcript (chunks.flatMap Chunk.encode ++ x) =
      (transcript { d with decoded := d.decoded + (chunks.flatMap Chunk.data).length } x).prepend
        (chunks.map fun c => .data c.data) := by
  intro chunks
  induction chunks with
  | nil => intro d _ _ _ _ _ x; simp
  | cons c rest ih =>
      intro d hs hr hmax hv hbudget x
      simp only [List.flatMap_cons, List.length_append] at hbudget
      rw [List.flatMap_cons, List.append_assoc,
        transcript_chunk hs hr hmax (hv c (by simp)) (by omega)]
      have := ih (d := { d with decoded := d.decoded + c.data.length }) hs hr hmax
        (fun c' hc' => hv c' (by simp [hc'])) (by simp only; omega) x
      rw [this]
      simp [Nat.add_assoc]

/-- The decoder past one more trailer line. -/
def withField (d : ChunkedDecoder) (f : FieldLine) : ChunkedDecoder :=
  { d with
    trailerBytes := d.trailerBytes + (f.line.length + 2)
    trailers := some (d.trailers.getD [] ++ [f.field]) }

/-- A trailer line within the budgets, whatever follows it. -/
theorem turn_fieldLine {d : ChunkedDecoder} {f : FieldLine} (hs : d.state = .trailers)
    (hf : f.Valid) (hroom : (d.trailers.getD []).length < d.maxTrailers)
    (hbytes : d.trailerBytes + (f.line.length + 2) ≤ d.maxTrailer) (rest : Bytes) :
    d.turn (f.line ++ crlf ++ rest) = .again (d.withField f) rest := by
  have hpush : pushTrailer d.maxTrailers d.trailers f.line
      = .ok (d.trailers.getD [] ++ [f.field]) :=
    pushTrailer_iff.mpr ⟨hroom, f, hf, rfl, rfl⟩
  have hzero : ¬ f.line.length = 0 := by simpa using f.line_ne_nil
  rw [turn_of_trailers hs, turnTrailers_line d _ hf.lf_notMem (by omega), onTrailerLine]
  simp only [if_neg (Nat.not_lt.mpr hbytes), if_neg hzero, hpush, withField]

/-- The trailer section, from any number of fields already stored. -/
theorem transcript_fields : ∀ (fields : List FieldLine) {d : ChunkedDecoder},
    d.state = .trailers → d.trailers ≠ some [] → (∀ f ∈ fields, f.Valid) →
    (d.trailers.getD []).length + fields.length ≤ d.maxTrailers →
    d.trailerBytes + (Message.trailerSection fields).length ≤ d.maxTrailer → ∀ x : Bytes,
    d.transcript (Message.trailerSection fields ++ x) =
      ⟨(Message.trailerEvents (d.trailers.getD [] ++ fields.map FieldLine.field)).map .trailers,
        .ended x⟩ := by
  intro fields
  induction fields with
  | nil =>
      intro d hs hne _ _ hbytes x
      have hbytes' : ¬ d.trailerBytes + 2 > d.maxTrailer := by
        simpa [Message.trailerSection, Message.fieldLines] using hbytes
      have hturn := @turnTrailers_line d [] x (by simp) (Nat.zero_le _)
      simp only [List.nil_append, List.length_nil, Nat.zero_add] at hturn
      have hbuf : Message.trailerSection [] ++ x = crlf ++ x := rfl
      rw [hbuf, transcript_turn, turn_of_trailers hs, hturn]
      simp only [onTrailerLine, if_neg hbytes', List.length_nil, if_true]
      cases ht : d.trailers with
      | none =>
          simp only
          rw [transcript_turn]
          rfl
      | some t =>
          have htne : t ≠ [] := fun h => hne (by rw [ht, h])
          simp only [Transcript.ofPoll]
          rw [transcript_turn]
          simp [turn, Transcript.ofPoll, Message.trailerEvents, htne]
  | cons f rest ih =>
      intro d hs hne hv hcount hbytes x
      have hf : f.Valid := hv f (by simp)
      have hlen : (Message.trailerSection (f :: rest)).length
          = f.line.length + 2 + (Message.trailerSection rest).length := by
        simp [Message.trailerSection, Message.fieldLines]
        omega
      rw [hlen] at hbytes
      simp only [List.length_cons] at hcount
      have hbuf : Message.trailerSection (f :: rest) ++ x
          = f.line ++ crlf ++ (Message.trailerSection rest ++ x) := by
        simp [Message.trailerSection, Message.fieldLines]
      have hturn := turn_fieldLine hs hf (by omega) (by omega) (Message.trailerSection rest ++ x)
      have hnext := ih (d := d.withField f) hs (by simp [withField])
        (fun f' hf' => hv f' (by simp [hf'])) (by simp [withField]; omega)
        (by simp only [withField]; omega) x
      rw [hbuf, transcript_again hturn, hnext]
      simp [withField]

/-- The events a message is read as. -/
def messageEvents (m : Message) : List ChunkEvent :=
  m.chunks.map (fun c => .data c.data) ++
    (Message.trailerEvents (m.fields.map FieldLine.field)).map .trailers

/-- **Fed a message and whatever follows it, a fresh decoder emits the
chunks, then the trailer section if there is one, and stops at the end of the
message.** -/
theorem transcript_message {limits : Limits} {m : Message} (h : m.Valid limits) (x : Bytes) :
    (new limits).transcript (m.encode ++ x) = ⟨messageEvents m, .ended x⟩ := by
  have hbody : (new limits).decoded + (m.chunks.flatMap Chunk.data).length
      ≤ (new limits).maxBody := by
    have := h.body
    rw [Message.body] at this
    show 0 + _ ≤ limits.maxBodyBytes
    omega
  have hmax : (new limits).maxBody < 2 ^ 64 := limits.maxBodyBytes_lt
  rw [Message.encode, List.append_assoc,
    transcript_chunks m.chunks rfl rfl hmax h.chunks hbody, List.append_assoc]
  generalize (new limits).decoded + (m.chunks.flatMap Chunk.data).length = total at hbody
  have hlast := turn_sizeLine (d := { new limits with decoded := total }) rfl hmax h.last hbody
    (Message.trailerSection m.fields ++ x)
  rw [transcript_again hlast, if_pos rfl, transcript_fields m.fields rfl (by simp [new]) h.fields
    (by simpa [new] using h.count) (by simpa [new] using h.trailerSection)]
  rfl

/-! ## 5. Where a run can stand

`Along limits c d`: a fresh decoder that has read `c` stands at `d`. The
constructors are the states of the machine, each with the piece of the
grammar that leads there. -/

/-- The decoder between two chunks. -/
def atSize (limits : Limits) (chunks : List Chunk) : ChunkedDecoder :=
  { new limits with decoded := (chunks.flatMap Chunk.data).length }

/-- The decoder in the trailer section. -/
def atTrailers (limits : Limits) (chunks : List Chunk) (fields : List FieldLine) : ChunkedDecoder :=
  { atSize limits chunks with
    state := .trailers
    trailerBytes := (Message.fieldLines fields).length
    trailers := if fields = [] then none else some (fields.map FieldLine.field) }

inductive Along (limits : Limits) : Bytes → ChunkedDecoder → Prop
  | size {chunks : List Chunk} : ChunksFit limits chunks →
      Along limits (chunks.flatMap Chunk.encode) (atSize limits chunks)
  | data {chunks : List Chunk} {line y : Bytes} {n : Nat} : ChunksFit limits chunks →
      SizeLineFits line n → (chunks.flatMap Chunk.data).length + n ≤ limits.maxBodyBytes →
      y.length < n →
      Along limits (chunks.flatMap Chunk.encode ++ (line ++ crlf ++ y))
        { atSize limits chunks with
          state := .data
          remaining := n - y.length
          decoded := (chunks.flatMap Chunk.data).length + y.length }
  | dataCrlf {chunks : List Chunk} {c : Chunk} : ChunksFit limits (chunks ++ [c]) →
      Along limits (chunks.flatMap Chunk.encode ++ (c.line ++ crlf ++ c.data))
        { atSize limits (chunks ++ [c]) with state := .dataCrlf }
  | trailers {chunks : List Chunk} {last : Bytes} {fields : List FieldLine} :
      ChunksFit limits chunks → SizeLineFits last 0 → FieldsFit limits fields →
      Along limits (chunks.flatMap Chunk.encode ++ (last ++ crlf ++ Message.fieldLines fields))
        (atTrailers limits chunks fields)
  | ending {m : Message} {d : ChunkedDecoder} : m.Valid limits → d.state = .ending →
      Along limits m.encode d

/-- Inversion of a turn that reads a size line. -/
theorem turn_size_inv {d d' : ChunkedDecoder} {buf rest : Bytes} (hs : d.state = .size)
    (h : d.turn buf = .again d' rest) :
    ∃ line n, buf = line ++ crlf ++ rest ∧ SizeLineFits line n ∧ d.decoded + n ≤ d.maxBody ∧
      d' = if n = 0 then { d with state := .trailers }
        else { d with remaining := n, state := .data } := by
  rw [turn_of_size hs, turnSize] at h
  split at h
  · cases h
  · cases h
  · rename_i hf
    obtain ⟨line, rest', rfl, _, hlen, rfl, rfl⟩ := findLine_ok_some hf
    have htake : (line ++ crlf ++ rest').take line.length = line := by simp
    have hdrop : (line ++ crlf ++ rest').drop (line.length + 2) = rest' := by simp [crlf]
    rw [htake, hdrop, onSizeLine] at h
    split at h
    · cases h
    · rename_i n hn
      split at h
      · cases h
      · rename_i hb
        have hsum : d.decoded + n ≤ d.maxBody := by
          unfold checkedAdd at hb
          split at hb
          · simpa using hb
          · simp at hb
        refine ⟨line, n, ?_, ⟨parseChunkSize_iff.mp hn, hlen⟩, hsum, ?_⟩
        · split at h <;> cases h <;> rfl
        · split at h <;> cases h <;> simp [*]

/-- Inversion of a turn that reads a trailer line. -/
theorem turn_trailers_inv {d : ChunkedDecoder} {buf : Bytes} (hs : d.state = .trailers)
    (h : ∀ e d' b, d.turn buf ≠ .ret (.error e) d' b) (hlf : LF ∈ buf) :
    ∃ line rest, buf = line ++ crlf ++ rest ∧ LF ∉ line ∧
      d.trailerBytes + (line.length + 2) ≤ d.maxTrailer ∧
      ((line = [] ∧ d.turn buf =
          match d.trailers with
          | none => .again { d with
              trailerBytes := d.trailerBytes + 2, state := .ending } rest
          | some t => .ret (.ok (some (.trailers t))) { d with
              trailerBytes := d.trailerBytes + 2, state := .ending, trailers := none } rest) ∨
       (∃ f : FieldLine, f.Valid ∧ line = f.line ∧
          (d.trailers.getD []).length < d.maxTrailers ∧
            d.turn buf = .again (d.withField f) rest)) := by
  rcases findLine_cases buf d.maxTrailer .trailerTooLarge with
    ⟨line, rest, rfl, hline⟩ | ⟨hno, _⟩ | ⟨_, _, _, _, _, hf⟩
  · refine ⟨line, rest, rfl, hline, ?_⟩
    by_cases hlen : line.length ≤ d.maxTrailer
    · rw [turn_of_trailers hs, turnTrailers_line d rest hline hlen] at h ⊢
      unfold onTrailerLine at h ⊢
      by_cases hbytes : d.trailerBytes + (line.length + 2) > d.maxTrailer
      · simp only [if_pos hbytes] at h
        exact absurd rfl (h _ _ _)
      · simp only [if_neg hbytes] at h ⊢
        refine ⟨by omega, ?_⟩
        by_cases hz : line.length = 0
        · left
          have hnil : line = [] := List.length_eq_zero_iff.mp hz
          subst hnil
          rw [if_pos hz]
          exact ⟨rfl, by cases d.trailers <;> rfl⟩
        · right
          simp only [if_neg hz] at h ⊢
          cases hp : pushTrailer d.maxTrailers d.trailers line with
          | error e =>
              simp only [hp] at h
              exact absurd rfl (h _ _ _)
          | ok t =>
              obtain ⟨hroom, f, hf, rfl, rfl⟩ := pushTrailer_iff.mp hp
              exact ⟨f, hf, rfl, hroom, rfl⟩
    · have : d.turn (line ++ crlf ++ rest)
          = .ret (.error .trailerTooLarge) d (line ++ crlf ++ rest) := by
        rw [turn_of_trailers hs, turnTrailers, findLine_line rest hline]
        simp only [if_pos (Nat.not_le.mp hlen)]
      exact absurd this (h _ _ _)
  · exact absurd hlf hno
  · have : d.turn buf = .ret (.error .missingCrlf) d buf := by
      rw [turn_of_trailers hs, turnTrailers, hf]
    exact absurd this (h _ _ _)

theorem turn_dataCrlf_inv {d d' : ChunkedDecoder} {buf rest : Bytes} (hs : d.state = .dataCrlf)
    (h : d.turn buf = .again d' rest) : buf = crlf ++ rest ∧ d' = { d with state := .size } := by
  simp only [turn, hs, turnDataCrlf] at h
  split at h
  · cases h
  · split at h
    · cases h
    · rename_i hcr
      cases h
      simp only [ne_eq, Decidable.not_not] at hcr
      exact ⟨by rw [← hcr, List.take_append_drop], rfl⟩

theorem atTrailers_stored (limits : Limits) (chunks : List Chunk) (fields : List FieldLine) :
    (atTrailers limits chunks fields).trailers.getD [] = fields.map FieldLine.field := by
  by_cases h : fields = [] <;> simp [atTrailers, h]

theorem withField_atTrailers (limits : Limits) (chunks : List Chunk) (fields : List FieldLine)
    (f : FieldLine) :
    (atTrailers limits chunks fields).withField f = atTrailers limits chunks (fields ++ [f]) := by
  unfold withField
  rw [atTrailers_stored]
  simp [atTrailers, Message.fieldLines_append]

/-- The message whose trailer section has just been closed. -/
theorem valid_of_fit {limits : Limits} {chunks : List Chunk} {last : Bytes}
    {fields : List FieldLine} (hc : ChunksFit limits chunks) (hl : SizeLineFits last 0)
    (hf : FieldsFit limits fields)
    (hb : (Message.fieldLines fields).length + 2 ≤ limits.maxHeadBytes) :
    Message.Valid limits ⟨chunks, last, fields⟩ where
  chunks := hc.valid
  last := hl
  fields := hf.valid
  body := hc.body
  count := hf.count
  trailerSection := by simpa [Message.trailerSection] using hb

theorem encode_closed (chunks : List Chunk) (last : Bytes) (fields : List FieldLine) :
    chunks.flatMap Chunk.encode ++ (last ++ crlf ++ Message.fieldLines fields) ++ crlf
      = Message.encode ⟨chunks, last, fields⟩ := by
  simp [Message.encode, Message.trailerSection]

theorem Along.cast {limits : Limits} {c c' : Bytes} {d d' : ChunkedDecoder}
    (h : Along limits c d) (hc : c' = c) (hd : d' = d) : Along limits c' d' := by
  rw [hc, hd]; exact h

/-- A turn in the trailer section that does not fail stores one more field
or closes the section. -/
theorem turn_atTrailers {limits : Limits} {chunks : List Chunk} {fields : List FieldLine}
    {c' : Bytes} (hf : FieldsFit limits fields)
    (hok : ∀ e d' b, (atTrailers limits chunks fields).turn c' ≠ .ret (.error e) d' b)
    (hmore : ∀ d' b, (atTrailers limits chunks fields).turn c' ≠ .ret (.ok none) d' b)
    (hrest : ((atTrailers limits chunks fields).turn c').buffer = []) :
    (∃ f, c' = f.line ++ crlf ∧ FieldsFit limits (fields ++ [f]) ∧
      (atTrailers limits chunks fields).turn c'
        = .again (atTrailers limits chunks (fields ++ [f])) []) ∨
    (c' = crlf ∧ (Message.fieldLines fields).length + 2 ≤ limits.maxHeadBytes ∧
      ((atTrailers limits chunks fields).turn c').decoder.state = .ending) := by
  have hlf : LF ∈ c' := by
    by_contra hno
    have hopen := turn_trailers_open (d := atTrailers limits chunks fields) rfl hno
    by_cases hlen : c'.length > (atTrailers limits chunks fields).maxTrailer
    · rw [if_pos hlen] at hopen; exact hok _ _ _ hopen
    · rw [if_neg hlen] at hopen; exact hmore _ _ hopen
  obtain ⟨line, rest, rfl, _, hb, hcase⟩ := turn_trailers_inv rfl hok hlf
  rcases hcase with ⟨rfl, heq⟩ | ⟨f, hfv, rfl, hroom, heq⟩
  · right
    have hrest' : rest = [] := by
      rw [heq] at hrest
      cases ht : (atTrailers limits chunks fields).trailers <;> rw [ht] at hrest <;> exact hrest
    refine ⟨by simp [hrest'], hb, ?_⟩
    rw [heq]
    cases (atTrailers limits chunks fields).trailers <;> rfl
  · left
    have hrest' : rest = [] := by rw [heq] at hrest; exact hrest
    rw [atTrailers_stored, List.length_map] at hroom
    refine ⟨f, by simp [hrest'], hf.snoc hfv hroom hb, ?_⟩
    rw [heq, withField_atTrailers, hrest']

/-- **Every run of a fresh decoder stands somewhere along a message.** -/
theorem along_invariant (limits : Limits) : Invariant (Along limits) where
  pos := by
    intro c d h hs
    cases h with
    | size => cases hs
    | data _ _ _ hy => exact Nat.sub_pos_of_lt hy
    | dataCrlf => cases hs
    | trailers => cases hs
    | ending _ hd => rw [hd] at hs; cases hs
  again := by
    intro c c' d d' h hturn
    have h0 := hturn []
    rw [List.append_nil] at h0
    cases h with
    | @size chunks hfit =>
        obtain ⟨line, n, rfl, hline, hb, rfl⟩ := turn_size_inv rfl h0
        by_cases hn : n = 0
        · subst hn
          exact (Along.trailers hfit hline (FieldsFit.nil limits)).cast
            (by simp [Message.fieldLines]) rfl
        · rw [if_neg hn]
          exact (Along.data (y := []) hfit hline hb (Nat.pos_of_ne_zero hn)).cast rfl rfl
    | data =>
        simp only [turn, turnData] at h0
        split at h0 <;> cases h0
    | @dataCrlf chunks c hfit =>
        obtain ⟨rfl, rfl⟩ := turn_dataCrlf_inv rfl h0
        exact (Along.size hfit).cast (by simp [Chunk.encode]) rfl
    | @trailers chunks last fields hc hl hf =>
        rcases turn_atTrailers hf (by rw [h0]; intros; simp) (by rw [h0]; intros; simp)
          (by rw [h0]; rfl) with ⟨f, rfl, hfit, heq⟩ | ⟨rfl, hb, hst⟩
        · rw [h0] at heq
          cases heq
          exact (Along.trailers hc hl hfit).cast (by simp [Message.fieldLines_append]) rfl
        · rw [h0] at hst
          exact (Along.ending (valid_of_fit hc hl hf hb) hst).cast (encode_closed _ _ _) rfl
    | ending _ hd => simp only [turn, hd] at h0; cases h0
  data := by
    intro c y d h hs hne hle
    cases h with
    | size => cases hs
    | @data chunks line y₀ n hfit hline hb hy =>
        have hle' : y.length ≤ n - y₀.length := hle
        have hpos : 0 < y.length := List.length_pos_iff.mpr hne
        by_cases hfull : y₀.length + y.length = n
        · have hlen : (y₀ ++ y).length = n := by rw [List.length_append]; exact hfull
          have hline' : SizeLineFits line (y₀ ++ y).length := by rw [hlen]; exact hline
          have hc : Chunk.Valid ⟨line, y₀ ++ y⟩ := ⟨hline', by simp [hne]⟩
          have hz : n - y₀.length - y.length = 0 := by omega
          refine (Along.dataCrlf (c := ⟨line, y₀ ++ y⟩) (hfit.snoc hc ?_)).cast (by simp) ?_
          · simp only [hlen]; exact hb
          · simp only [advance, atSize, if_pos hz]
            simp [hz, new, Nat.add_assoc]
        · have hz : ¬ n - (y₀.length + y.length) = 0 := by omega
          refine (Along.data (y := y₀ ++ y) hfit hline hb ?_).cast (by simp) ?_
          · rw [List.length_append]; omega
          · simp only [advance, atSize, if_neg hz, Nat.add_assoc, Nat.sub_sub, List.length_append]
    | dataCrlf => cases hs
    | trailers => cases hs
    | ending _ hd => rw [hd] at hs; cases hs
  trailers := by
    intro c c' d d' t h hturn
    have h0 := hturn []
    rw [List.append_nil] at h0
    have hst : d.state = .trailers := by
      rcases turn_ret h0 with ⟨_, he⟩ | ⟨he, _⟩ | ⟨_, he, _⟩ | ⟨_, _, _, hst, _⟩ | ⟨he, _⟩
      · cases he
      · cases he
      · cases he
      · exact hst
      · cases he
    cases h with
    | @trailers chunks last fields hc hl hf =>
        rcases turn_atTrailers hf (by rw [h0]; intros; simp) (by rw [h0]; intros; simp)
          (by rw [h0]; rfl) with ⟨f, _, _, heq⟩ | ⟨rfl, hb, hst⟩
        · rw [h0] at heq; cases heq
        · rw [h0] at hst
          exact (Along.ending (valid_of_fit hc hl hf hb) hst).cast (encode_closed _ _ _) rfl
    | size => cases hst
    | data => cases hst
    | dataCrlf => cases hst
    | ending _ hd => rw [hd] at hst; cases hst

theorem along_new (limits : Limits) : Along limits [] (new limits) :=
  @Along.size limits [] ⟨by simp, by simp⟩

/-- No state but `ending` answers the empty buffer with the end. -/
theorem Along.state_of_ended {limits : Limits} {c b : Bytes} {d d₁ : ChunkedDecoder}
    (h : Along limits c d) (hend : d.turn [] = .ret (.ok (some .ended)) d₁ b) :
    d.state = .ending := by
  cases h with
  | size => rw [turn_size_open rfl (by simp)] at hend; cases hend
  | data => simp [turn, turnData] at hend
  | dataCrlf => simp [turn, turnDataCrlf] at hend
  | trailers => rw [turn_trailers_open rfl (by simp)] at hend; cases hend
  | ending _ hst => exact hst

/-- A run that reached the end read a valid message. -/
theorem exists_message {limits : Limits} {buf x : Bytes}
    (h : ((new limits).drain buf).stop = .ended x) :
    ∃ m : Message, m.Valid limits ∧ buf = m.encode ++ x := by
  obtain ⟨c, rest, body, trailers, d', hstop⟩ :=
    drain_stops (along_invariant limits) _ (new limits) [] buf (along_new limits)
      (Nat.lt_succ_self _)
  rcases hstop.stop with ⟨_, hrun⟩ | ⟨e, _, _, _, hrun⟩ | ⟨hturn, hrun⟩
  · rw [hrun] at h; cases h
  · rw [hrun] at h; cases h
  · rw [hrun] at h
    cases h
    have hinv : Along limits c d' := hstop.inv
    have hst := hinv.state_of_ended (hturn [])
    cases hinv with
    | size => cases hst
    | data => cases hst
    | dataCrlf => cases hst
    | trailers => cases hst
    | @ending m _ hv _ => exact ⟨m, hv, hstop.split⟩

/-! ## 6. The language -/

/-- What a message is read as, however its data is cut. -/
theorem drain_message {limits : Limits} {m : Message} (h : m.Valid limits) (x : Bytes) :
    (new limits).drain (m.encode ++ x) =
      ⟨m.body, Message.trailerEvents (m.fields.map FieldLine.field), .ended x⟩ := by
  have hdata : ∀ cs : List Chunk, (cs.map fun c => ChunkEvent.data c.data).flatMap eventBody
      = cs.flatMap Chunk.data := by
    intro cs
    simp [List.flatMap_map, eventBody]
  have hnone : ∀ cs : List Chunk,
      (cs.map fun c => ChunkEvent.data c.data).filterMap eventTrailers = [] := by
    intro cs
    simp [List.filterMap_map, Function.comp_def, eventTrailers]
  have htb : ∀ ts : List HeaderVec, (ts.map ChunkEvent.trailers).flatMap eventBody = [] := by
    intro ts
    simp [List.flatMap_map, eventBody]
  have htt : ∀ ts : List HeaderVec, (ts.map ChunkEvent.trailers).filterMap eventTrailers = ts := by
    intro ts
    simp [List.filterMap_map, Function.comp_def, eventTrailers]
  rw [drain, transcript_message h]
  simp only [Transcript.outcome, messageEvents, List.flatMap_append, List.filterMap_append, hdata,
    hnone, htb, htt, Message.body, List.append_nil, List.nil_append]

/-- **The decoder accepts exactly its grammar.** A run over `buf` ends with
`x` unread iff `buf` is a valid message followed by `x`. The message is then
the only one in front of `buf`, the body is its chunks' data, and the trailer
section its fields. -/
theorem drain_ended_iff_message (limits : Limits) (buf x : Bytes) :
    (((new limits).drain buf).stop = .ended x ↔
      ∃ m : Message, m.Valid limits ∧ buf = m.encode ++ x) ∧
    ∀ m : Message, m.Valid limits → buf = m.encode ++ x →
      (new limits).drain buf =
          ⟨m.body, Message.trailerEvents (m.fields.map FieldLine.field), .ended x⟩ ∧
        ∀ (m' : Message) (x' : Bytes), m'.Valid limits → buf = m'.encode ++ x' →
          m' = m ∧ x' = x := by
  refine ⟨⟨exists_message, ?_⟩, ?_⟩
  · intro h
    obtain ⟨m, hm, rfl⟩ := h
    rw [drain_message hm]
  · intro m hm hbuf
    refine ⟨by rw [hbuf, drain_message hm], ?_⟩
    intro m' x' hm' hbuf'
    exact Message.encode_unique hm' hm (hbuf' ▸ hbuf)

end ChunkedDecoder

end ArmatureH1

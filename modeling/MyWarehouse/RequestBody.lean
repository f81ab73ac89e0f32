/-
The end of the headers and the body under the parser.

A line feed ends the headers, the line of a chunk's size and the chunk itself, and each time
the count of header bytes starts again. The parser has four ways on from the empty line: the
message may end there, because its length is 0 or because a request without a length has no
body; a body of known length may follow (`reads_body`); or chunks, each of them a line with
the size and the data (`reads_chunks`), the last of them a line with the size 0 and a trailer
(`reads_last_chunk`).
-/
import MyWarehouse.RequestFields

set_option autoImplicit false

namespace MyWarehouse

open Loop http_parser_execute Segment

/-- A byte behind which the count starts again. -/
theorem readsByte_reset (es : List ParserEvent) {c c' : parser_core} {b : UInt8}
    {tail : List ParserEvent}
    (h : ∀ pos k, read_byte pos b ⟨c, k, []⟩ = .ok ⟨c', 0, es⟩)
    (hes : es.filter http_session.parser_settings_.hears = tail) (n : ℕ) :
    ReadsByte b false tail c n c' 0 := fun pos k _ =>
  ⟨es, 0, le_refl 0, h pos k, hes⟩

/-- A byte more, when the count stays small. -/
theorem reads_quiet {c c' : parser_core} {b : UInt8} {n : ℕ} (h : quiet c b = some c')
    (hn : 2 * (n + 1) < HTTP_MAX_HEADER_SIZE) : Reads [(b, false)] c n c' (n + 1) :=
  .cons (readsByte_of_quiet h n) hn (.nil _ _)

/-- A byte behind which the count starts again, as a layout of its own. -/
theorem reads_reset {c c' : parser_core} {b : UInt8} {n : ℕ} (h : ReadsByte b false [] c n c' 0) :
    Reads [(b, false)] c n c' 0 :=
  .cons h (by decide) (.nil _ _)

/-! ## The end of the headers -/

/-- The frame of a request without an upgrade or anything else unusual, in front of its empty
line. -/
structure Frame.Plain (f : Frame) : Prop where
  type_ : f.type_ = .HTTP_REQUEST
  method : f.method ≠ .HTTP_CONNECT
  trailing : f.trailing = false
  skipbody : f.skipbody = false
  wants_upgrade : f.wants_upgrade = false
  upgrade : f.upgrade = false

/-- The parser behind a message. -/
def after_message (c : parser_core) : parser_core := { c with state := NEW_MESSAGE c }

/-- The carriage return of the empty line. -/
theorem quiet_empty_line {c : parser_core} (h : c.state.at_line) :
    quiet c (byte '\r') = some { next_line c with state := .s_headers_almost_done } := by
  rw [quiet_next_line h (by decide)]
  refine quiet_of_next ?_
  simp only [one_byte, single, next_line_state]
  rfl

/-- The parser where the headers are done. -/
def headers_done (c : parser_core) : parser_core :=
  { c with state := .s_headers_done, upgrade := false }

/-- The line feed of the empty line. -/
theorem read_headers_done {c : parser_core} (hs : c.state = .s_headers_almost_done)
    (hplain : c.frame.Plain) (pos k : ℕ) :
    read_byte pos (byte '\n') ⟨c, k, []⟩ =
      (s_headers_done (headers_done c) (byte '\n')).read pos none (k + 1) [.headers_complete] := by
  have htrailing : c.flags.F_TRAILING = false := hplain.trailing
  have hupgrade : (c.flags.F_UPGRADE && c.flags.F_CONNECTION_UPGRADE ||
      decide (c.method = .HTTP_CONNECT)) = false := by
    have hwants : c.flags.F_UPGRADE = false := hplain.wants_upgrade
    have hmethod : c.method ≠ .HTTP_CONNECT := hplain.method
    rw [hwants, decide_eq_false hmethod]
    rfl
  have hskip : { c with
      state := state.s_headers_done
      upgrade := false
      flags.F_SKIPBODY := c.flags.F_SKIPBODY || false } = headers_done c := by
    rw [Bool.or_false]
    rfl
  have hone : one_byte c (byte '\n') = s_headers_almost_done c (byte '\n') := by
    simp only [one_byte, single, hs]
  unfold read_byte
  dsimp only
  rw [hone, s_headers_almost_done, Script.strict_check, if_neg (by decide), htrailing,
    if_neg (by decide), hupgrade, hs]
  show (s_headers_done _ (byte '\n')).read pos none (k + 1) [.headers_complete] = _
  rw [← hskip]

/-- The headers end in front of a body of known length. -/
theorem read_headers_length {c : parser_core} (hs : c.state = .s_headers_almost_done)
    (hplain : c.frame.Plain) (hchunked : c.frame.chunked = false) (hpos : 0 < c.content_length)
    (hlt : c.content_length < 2 ^ 63) (n : ℕ) :
    ReadsByte (byte '\n') false [] c n { headers_done c with state := .s_body_identity } 0 := by
  refine readsByte_reset [.headers_complete] (fun pos k => ?_) rfl n
  have hskip : (headers_done c).flags.F_SKIPBODY = false := hplain.skipbody
  have hflag : (headers_done c).flags.F_CHUNKED = false := hchunked
  have hzero : (headers_done c).content_length ≠ 0 := hpos.ne'
  have hmax : (headers_done c).content_length ≠ ULLONG_MAX := by
    show c.content_length ≠ ULLONG_MAX
    unfold ULLONG_MAX
    omega
  rw [read_headers_done hs hplain, s_headers_done, Script.strict_check, if_neg (by decide)]
  dsimp only [Script.read]
  rw [if_neg (by simp [headers_done]), hskip, if_neg (by decide), hflag, if_neg (by decide),
    if_neg hzero, if_pos hmax]
  rfl

/-- The headers end the message when the length is 0, and when none is given: a request has no
body that goes on to the end of the connection. -/
theorem read_headers_empty {c : parser_core} (hs : c.state = .s_headers_almost_done)
    (hplain : c.frame.Plain) (hchunked : c.frame.chunked = false)
    (hlength : c.content_length = 0 ∨ c.content_length = ULLONG_MAX) (n : ℕ) :
    ReadsByte (byte '\n') false [.notify .message_complete] c n
      (after_message (headers_done c)) 0 := by
  refine readsByte_reset [.headers_complete, .notify .message_complete]
    (fun pos k => ?_) rfl n
  have hskip : (headers_done c).flags.F_SKIPBODY = false := hplain.skipbody
  have hflag : (headers_done c).flags.F_CHUNKED = false := hchunked
  have hrequest : (headers_done c).type_ = .HTTP_REQUEST := hplain.type_
  have heof : http_message_needs_eof (headers_done c) = false := by
    unfold http_message_needs_eof
    rw [if_pos hrequest]
  rw [read_headers_done hs hplain, s_headers_done, Script.strict_check, if_neg (by decide)]
  dsimp only [Script.read]
  rw [if_neg (by simp [headers_done]), hskip, if_neg (by decide), hflag, if_neg (by decide)]
  rcases hlength with hzero | hnone
  · -- the length is 0
    have hzero : (headers_done c).content_length = 0 := hzero
    rw [if_pos hzero]
    rfl
  · -- there is no length: only a response goes on to the end of the connection
    have hnone : (headers_done c).content_length = ULLONG_MAX := hnone
    rw [if_neg (by rw [hnone]; decide), if_neg (not_not_intro hnone), heof, if_pos (by decide)]
    rfl

/-- The headers end in front of the first chunk. -/
theorem read_headers_chunked {c : parser_core} (hs : c.state = .s_headers_almost_done)
    (hplain : c.frame.Plain) (hchunked : c.frame.chunked) (n : ℕ) :
    ReadsByte (byte '\n') false [] c n { headers_done c with state := .s_chunk_size_start } 0 := by
  refine readsByte_reset [.headers_complete] (fun pos k => ?_) rfl n
  have hskip : (headers_done c).flags.F_SKIPBODY = false := hplain.skipbody
  have hflag : (headers_done c).flags.F_CHUNKED = true := hchunked
  rw [read_headers_done hs hplain, s_headers_done, Script.strict_check, if_neg (by decide)]
  dsimp only [Script.read]
  rw [if_neg (by simp [headers_done]), hskip, if_neg (by decide), hflag, if_pos rfl]
  rfl

/-! ## A body of known length -/

/-- In a body no byte of a header is counted. -/
theorem count_of_body {s : state} (hs : s.parsing_header = false) (k : ℕ) : s.count k = k := by
  unfold state.count
  rw [hs]
  rfl

/-- A byte of the body that is not the last. -/
theorem reads_body_byte {c : parser_core} (hs : c.state = .s_body_identity)
    (hlen : 1 < c.content_length) (b : UInt8) (n : ℕ) :
    ReadsByte b true [] c n { c with content_length := c.content_length - 1 } n := by
  intro pos k hk
  refine ⟨[.data .body pos], k, hk, ?_, rfl⟩
  have hne : c.content_length - 1 ≠ 0 := by omega
  have hone : one_byte c b = body_byte c := by
    unfold one_byte
    rw [hs]
  unfold read_byte
  dsimp only
  rw [hone, body_byte, count_of_body (by rw [hs]; rfl)]
  dsimp only
  rw [if_neg hne]
  rfl

/-- The end of a message in the same protocol. -/
theorem s_message_done_eq {c : parser_core} (hup : c.upgrade = false) : s_message_done c =
    .CALLBACK_NOTIFY .message_complete (after_message c) (.next (after_message c)) := by
  have hstays : ¬ (after_message c).upgrade = true := by
    rw [after_message, hup]
    decide
  show Script.CALLBACK_NOTIFY _ (after_message c) (if (after_message c).upgrade then _ else _) = _
  rw [if_neg hstays]
  rfl

/-- The last byte. -/
theorem reads_last_byte {c : parser_core} (hs : c.state = .s_body_identity)
    (hlen : c.content_length = 1) (hup : c.upgrade = false) (b : UInt8) (n : ℕ) :
    ReadsByte b true [.notify .message_complete] c n
      (after_message { c with content_length := 0, state := .s_message_done }) n := by
  intro pos k hk
  refine ⟨[.data .body pos, .notify .message_complete], k, hk, ?_, rfl⟩
  have hzero : c.content_length - 1 = 0 := by omega
  have hone : one_byte c b = body_byte c := by
    unfold one_byte
    rw [hs]
  unfold read_byte
  dsimp only
  rw [hone, body_byte, count_of_body (by rw [hs]; rfl)]
  dsimp only
  rw [if_pos hzero, hzero, s_message_done_eq (by exact hup)]
  rfl

/-- **A body of known length** is read to its end, and with it the message ends. The induction
is on its bytes. -/
theorem reads_body (body : Bytes) (hne : body ≠ []) {n : ℕ} (hn : 2 * n < HTTP_MAX_HEADER_SIZE) :
    ∀ c : parser_core, c.state = .s_body_identity → c.content_length = body.length →
      c.upgrade = false → ∃ c', ReadsMessage (content body) c n c' n := by
  induction body with
  | nil => exact absurd rfl hne
  | cons b body ih =>
    intro c hs hlen hup
    rcases body with _ | ⟨b', body⟩
    · exact ⟨_, [], b, true, c, n, rfl, .nil c n, reads_last_byte hs hlen hup b n, hn⟩
    · -- what is left is a body of its own, shorter by one
      rw [List.length_cons, List.length_cons] at hlen
      have hbyte := reads_body_byte hs (by omega) b n
      obtain ⟨c', hrest⟩ := ih (List.cons_ne_nil _ _)
        { c with content_length := c.content_length - 1 } hs
        (by dsimp only; rw [List.length_cons]; omega) hup
      have hfirst : Reads [(b, true)] c n { c with content_length := c.content_length - 1 } n :=
        .cons hbyte hn (.nil _ _)
      exact ⟨c', hfirst.message hrest⟩

/-! ## Chunks -/

/-- What the parser makes of a hexadecimal digit. -/
theorem of_hexadecimal_digit {ch : UInt8} {v : ℕ} (h : hexadecimal_digit ch = some v) :
    unhex ch = some v ∧ v < 16 ∧ ch ≠ byte '\r' := by
  have hall : ∀ n < 256, ∀ v ∈ hexadecimal_digit (UInt8.ofNat n),
      v < 16 ∧ UInt8.ofNat n ≠ byte '\r' := by
    decide +kernel
  have hch := hall ch.toNat ch.toNat_lt v (by rw [UInt8.ofNat_toNat]; exact h)
  rw [UInt8.ofNat_toNat] at hch
  refine ⟨?_, hch⟩
  unfold hexadecimal_digit at h
  split_ifs at h with hhex
  exact h

/-- The size of a chunk: the digits in front of the last, then the last. `Numeral` leaves the
case of the letters and zeros in front open, as the parser does. -/
theorem quiets_hexadecimal {c : parser_core} (hs : c.state = .s_chunk_size_start) {ds : Bytes}
    {n : ℕ} (h : Numeral 16 hexadecimal_digit ds n) : n < 2 ^ 63 →
    quiets c ds = some { c with content_length := n, state := .s_chunk_size } := by
  refine Numeral.induction (P := fun ds n => n < 2 ^ 63 →
    quiets c ds = some { c with content_length := n, state := .s_chunk_size }) ?_ ?_ h
  · -- the first digit sets the size
    intro ch v hv _
    obtain ⟨hval, -, -⟩ := of_hexadecimal_digit hv
    have hdigit : quiet c ch = some { c with content_length := v, state := .s_chunk_size } := by
      refine quiet_of_next ?_
      simp only [one_byte, single, hs]
      rw [s_chunk_size_start, hval]
    exact quiets_singleton hdigit
  · -- each digit behind it is appended
    intro ds n ch v hv ih hn
    obtain ⟨hval, hlt, hcr⟩ := of_hexadecimal_digit hv
    have hroom : ¬ (ULLONG_MAX - 16) / 16 < n := by
      rw [ULLONG_MAX]
      omega
    have hsum : (n * 16 + v) % 2 ^ 64 = n * 16 + v := by omega
    have hdigit : quiet { c with content_length := n, state := .s_chunk_size } ch =
        some { c with content_length := n * 16 + v, state := .s_chunk_size } := by
      refine quiet_of_next ?_
      simp only [one_byte, single]
      rw [s_chunk_size, if_neg hcr, hval]
      dsimp only
      rw [if_neg hroom, hsum]
    rw [quiets_trans (ih (by omega))]
    exact quiets_singleton hdigit

/-- What may stand between the size of a chunk and the end of its line. -/
structure Extension (ext : Bytes) : Prop where
  head : ∀ ch ∈ ext.head?, ch = byte ';' ∨ ch = byte ' '
  cr : ∀ ch ∈ ext, ch ≠ byte '\r'

instance (ext : Bytes) : Decidable (Extension ext) :=
  decidable_of_iff ((∀ ch ∈ ext.head?, ch = byte ';' ∨ ch = byte ' ') ∧
      ∀ ch ∈ ext, ch ≠ byte '\r')
    ⟨fun h => ⟨h.1, h.2⟩, fun h => ⟨h.head, h.cr⟩⟩

/-- The rest of the line, up to the carriage return. -/
theorem quiets_extension (c : parser_core) {ext : Bytes} (h : Extension ext) :
    quiets { c with state := .s_chunk_size } (ext ++ [byte '\r']) =
      some { c with state := .s_chunk_size_almost_done } := by
  have hrest : ∀ rest : Bytes, (∀ ch ∈ rest, ch ≠ byte '\r') →
      quiets { c with state := .s_chunk_parameters } (rest ++ [byte '\r']) =
        some { c with state := .s_chunk_size_almost_done } := by
    intro rest
    induction rest with
    | nil => exact fun _ => rfl
    | cons ch rest ih =>
      intro hcr
      have hch : quiet { c with state := .s_chunk_parameters } ch =
          some { c with state := .s_chunk_parameters } := by
        refine quiet_of_next ?_
        simp only [one_byte, single]
        rw [s_chunk_parameters, if_neg (hcr ch List.mem_cons_self)]
      rw [List.cons_append, quiets_step hch]
      exact ih fun d hd => hcr d (List.mem_cons_of_mem _ hd)
  rcases ext with _ | ⟨ch, rest⟩
  · rfl
  · have hch : quiet { c with state := .s_chunk_size } ch =
        some { c with state := .s_chunk_parameters } := by
      refine quiet_of_next ?_
      simp only [one_byte, single]
      rcases h.head ch rfl with rfl | rfl
      · rfl
      · rfl
    rw [List.cons_append, quiets_step hch]
    exact hrest rest fun d hd => h.cr d (List.mem_cons_of_mem _ hd)

/-- A line with the size of a chunk: the size, and what else stands there. -/
structure SizeLine where
  size : Bytes
  extension : Bytes

/-- The line on the wire. -/
def SizeLine.wire (l : SizeLine) : Bytes := l.size ++ l.extension ++ bytes "\r\n"

/-- The line of a chunk with `len` bytes of data. -/
structure SizeLine.For (l : SizeLine) (len : ℕ) : Prop where
  size : Numeral 16 hexadecimal_digit l.size len
  extension : Extension l.extension

instance (l : SizeLine) (len : ℕ) : Decidable (l.For len) :=
  decidable_of_iff (Numeral 16 hexadecimal_digit l.size len ∧ Extension l.extension)
    ⟨fun h => ⟨h.1, h.2⟩, fun h => ⟨h.size, h.extension⟩⟩

/-- **The line of a chunk's size.** The parser has the size when it comes to the line feed;
what the line feed does depends on whether this is the last chunk. -/
theorem reads_size_line {c c' : parser_core} (hs : c.state = .s_chunk_size_start) {l : SizeLine}
    {len : ℕ} (hl : l.For len) (hlen : len < 2 ^ 63)
    (hshort : 2 * l.wire.length < HTTP_MAX_HEADER_SIZE)
    (hend : ∀ n, ReadsByte (byte '\n') false []
      { c with content_length := len, state := .s_chunk_size_almost_done } n c' 0) :
    Reads (framing l.wire) c 0 c' 0 := by
  have hquiets : quiets c (l.size ++ (l.extension ++ [byte '\r'])) =
      some { c with content_length := len, state := .s_chunk_size_almost_done } := by
    rw [quiets_trans (quiets_hexadecimal hs hl.size hlen)]
    exact quiets_extension { c with content_length := len } hl.extension
  have hwire : l.wire = l.size ++ (l.extension ++ [byte '\r']) ++ [byte '\n'] := by
    rw [List.append_assoc, List.append_assoc, SizeLine.wire, List.append_assoc]
    rfl
  have hline := reads_framing (n := 0) hquiets (by
    rw [hwire, List.length_append, List.length_singleton] at hshort
    omega)
  rw [hwire, framing_append]
  exact hline.append (reads_reset (hend _))

/-- The line feed behind the size of a chunk. -/
theorem reads_chunk_header {c : parser_core} (hs : c.state = .s_chunk_size_almost_done)
    (hlen : c.content_length ≠ 0) (n : ℕ) :
    ReadsByte (byte '\n') false [] c n { c with state := .s_chunk_data } 0 := by
  refine readsByte_reset [.notify .chunk_header] (fun pos k => ?_) rfl n
  unfold read_byte
  simp only [one_byte, single, hs]
  rw [s_chunk_size_almost_done, Script.strict_check, if_neg (by decide)]
  dsimp only
  rw [if_neg hlen]
  rfl

/-- A byte of the data. -/
theorem reads_chunk_byte {c : parser_core} (hs : c.state = .s_chunk_data) (b : UInt8) (n : ℕ) :
    ReadsByte b true [] c n
      (if c.content_length - 1 = 0 then
        { c with content_length := 0, state := .s_chunk_data_almost_done }
      else { c with content_length := c.content_length - 1 }) n := by
  intro pos k hk
  refine ⟨[.data .body pos], k, hk, ?_, rfl⟩
  have hone : one_byte c b = chunk_byte c := by
    unfold one_byte
    rw [hs]
  unfold read_byte
  dsimp only
  rw [hone, chunk_byte, count_of_body (by rw [hs]; rfl)]
  dsimp only
  split_ifs with hzero
  · rw [hzero]
    rfl
  · rfl

/-- The data of a chunk. The induction is on its bytes. -/
theorem reads_chunk_data (data : Bytes) (hne : data ≠ []) {n : ℕ}
    (hn : 2 * n < HTTP_MAX_HEADER_SIZE) :
    ∀ c : parser_core, c.state = .s_chunk_data → c.content_length = data.length →
      Reads (content data) c n
        { c with content_length := 0, state := .s_chunk_data_almost_done } n := by
  induction data with
  | nil => exact absurd rfl hne
  | cons b data ih =>
    intro c hs hlen
    have hbyte := reads_chunk_byte hs b n
    rcases data with _ | ⟨b', data⟩
    · rw [List.length_singleton] at hlen
      rw [if_pos (by omega)] at hbyte
      exact .cons hbyte hn (.nil _ _)
    · rw [List.length_cons, List.length_cons] at hlen
      rw [if_neg (by omega)] at hbyte
      exact .cons hbyte hn (ih (List.cons_ne_nil _ _)
        { c with content_length := c.content_length - 1 } hs
        (by dsimp only; rw [List.length_cons]; omega))

/-- The line end behind the data of a chunk. -/
theorem reads_chunk_end {c : parser_core} (hs : c.state = .s_chunk_data_almost_done) :
    Reads (framing (bytes "\r\n")) c 0 { c with state := .s_chunk_size_start } 0 := by
  have hcr : quiet c (byte '\r') = some { c with state := .s_chunk_data_done } := by
    unfold quiet read_byte
    simp only [one_byte, single, hs]
    rfl
  have hlf : ReadsByte (byte '\n') false [] { c with state := .s_chunk_data_done } 1
      { c with state := .s_chunk_size_start } 0 :=
    readsByte_reset [.notify .chunk_complete] (fun _ _ => rfl) rfl 1
  exact (reads_quiet hcr (by decide)).append (reads_reset hlf)

/-- A chunk: the line with its size, and its data. -/
structure Chunk where
  line : SizeLine
  data : Bytes

/-- The chunk on the wire. -/
def Chunk.layout (k : Chunk) : Layout :=
  framing k.line.wire ++ content k.data ++ framing (bytes "\r\n")

/-- A chunk with some data, whose size is what the line says. -/
structure Chunk.WellFormed (k : Chunk) : Prop where
  line : k.line.For k.data.length
  ne : k.data ≠ []

instance (k : Chunk) : Decidable k.WellFormed :=
  decidable_of_iff (k.line.For k.data.length ∧ k.data ≠ [])
    ⟨fun h => ⟨h.1, h.2⟩, fun h => ⟨h.line, h.ne⟩⟩

/-- **A chunk** leads to the next one. -/
theorem reads_chunk {c : parser_core} (hs : c.state = .s_chunk_size_start) {k : Chunk}
    (h : k.WellFormed) (hlen : k.data.length < 2 ^ 63)
    (hshort : 2 * k.line.wire.length < HTTP_MAX_HEADER_SIZE) :
    Reads k.layout c 0 { c with content_length := 0 } 0 := by
  have hzero : k.data.length ≠ 0 := fun hzero => h.ne (List.length_eq_zero_iff.mp hzero)
  have hsize := reads_size_line hs h.line hlen hshort (reads_chunk_header
    (c := { c with content_length := k.data.length, state := .s_chunk_size_almost_done }) rfl hzero)
  have hdata := reads_chunk_data k.data h.ne (n := 0) (by decide)
    { c with content_length := k.data.length, state := .s_chunk_data } rfl rfl
  have hend := reads_chunk_end
    (c := { c with content_length := 0, state := .s_chunk_data_almost_done }) rfl
  -- behind the chunk the parser is where it was, but for the length
  have hagain : ({ c with content_length := 0, state := .s_chunk_size_start } : parser_core) =
      { c with content_length := 0 } := by
    rw [← hs]
  rw [← hagain]
  exact (hsize.append hdata).append hend

/-- Any number of chunks. What the message's end depends on, the flags and `upgrade`, is as
before. -/
theorem reads_chunks {chunks : List Chunk} (hchunks : ∀ k ∈ chunks, k.WellFormed)
    (hlen : ∀ k ∈ chunks, k.data.length < 2 ^ 63)
    (hshort : ∀ k ∈ chunks, 2 * k.line.wire.length < HTTP_MAX_HEADER_SIZE) :
    ∀ c : parser_core, c.state = .s_chunk_size_start →
      ∃ c', Reads (chunks.flatMap Chunk.layout) c 0 c' 0 ∧ c'.state = .s_chunk_size_start ∧
        c'.flags = c.flags ∧ c'.upgrade = c.upgrade := by
  induction chunks with
  | nil => exact fun c hs => ⟨c, .nil c 0, hs, rfl, rfl⟩
  | cons k chunks ih =>
    intro c hs
    obtain ⟨hk, hchunks⟩ := List.forall_mem_cons.mp hchunks
    obtain ⟨hklen, hlen⟩ := List.forall_mem_cons.mp hlen
    obtain ⟨hkshort, hshort⟩ := List.forall_mem_cons.mp hshort
    obtain ⟨c', hrest, hs', hflags, hup⟩ := ih hchunks hlen hshort { c with content_length := 0 } hs
    refine ⟨c', ?_, hs', hflags, hup⟩
    rw [List.flatMap_cons]
    exact (reads_chunk hs hk hklen hkshort).append hrest

/-! ## The last chunk -/

/-- The bytes of header fields and the carriage return of the empty line behind them. -/
theorem reads_fields {c d : parser_core} {bs : Bytes} (hquiets : quiets c bs = some d)
    (hline : d.state.at_line) (hn : 2 * (bs ++ bytes "\r\n").length < HTTP_MAX_HEADER_SIZE) :
    Reads (framing bs ++ [(byte '\r', false)]) c 0
      { next_line d with state := .s_headers_almost_done } (bs.length + 1) := by
  have hlen : 2 * (bs.length + 2) < HTTP_MAX_HEADER_SIZE := by
    rw [List.length_append] at hn
    exact hn
  have hreads := reads_framing (n := 0) hquiets (by omega)
  rw [Nat.zero_add] at hreads
  exact hreads.append (reads_quiet (quiet_empty_line hline) (by omega))

/-- Header fields, the empty line, and what its line feed begins. -/
theorem framing_empty_line (bs : Bytes) (l : Layout) :
    framing (bs ++ bytes "\r\n") ++ l =
      framing bs ++ [(byte '\r', false)] ++ ([(byte '\n', false)] ++ l) := by
  rw [framing_append, List.append_assoc, List.append_assoc]
  rfl

/-- The empty line behind a trailer ends the message. -/
theorem read_trailer_end {c : parser_core} (hs : c.state = .s_headers_almost_done)
    (htrailing : c.flags.F_TRAILING) (hup : c.upgrade = false) (n : ℕ) :
    ReadsByte (byte '\n') false [.notify .message_complete] c n
      (after_message { c with state := .s_message_done }) (n + 1) := by
  have hone : one_byte c (byte '\n') = s_headers_almost_done c (byte '\n') := by
    simp only [one_byte, single, hs]
  have hread : read_byte 0 (byte '\n') ⟨c, 0, []⟩ =
      .ok ⟨after_message { c with state := .s_message_done }, c.state.count 0,
        [.notify .chunk_complete, .notify .message_complete]⟩ := by
    unfold read_byte
    dsimp only
    rw [hone, s_headers_almost_done, Script.strict_check, if_neg (by decide), if_pos htrailing]
    rw [hs]
    dsimp only
    rw [s_message_done_eq (by exact hup)]
    rfl
  exact (readsByte_of_read false [.message_complete] hread rfl n).mono (count_le_succ _ n)

/-- The last chunk, which has no data, and the trailer behind it. -/
structure LastChunk where
  line : SizeLine
  trailer : List HeaderField

/-- The trailer and the empty line on the wire. -/
def LastChunk.fields (k : LastChunk) : Bytes :=
  k.trailer.flatMap HeaderField.wire ++ bytes "\r\n"

/-- The last chunk on the wire. -/
def LastChunk.wire (k : LastChunk) : Bytes := k.line.wire ++ k.fields

/-- A last chunk whose trailer does not speak of the body. -/
structure LastChunk.WellFormed (k : LastChunk) : Prop where
  line : k.line.For 0
  trailer : ∀ f ∈ k.trailer, f.Ordinary

instance (k : LastChunk) : Decidable k.WellFormed :=
  decidable_of_iff (k.line.For 0 ∧ ∀ f ∈ k.trailer, f.Ordinary)
    ⟨fun h => ⟨h.1, h.2⟩, fun h => ⟨h.line, h.trailer⟩⟩

/-- **The last chunk and the trailer** end the message. -/
theorem reads_last_chunk {c : parser_core} (hs : c.state = .s_chunk_size_start)
    (hup : c.upgrade = false) {k : LastChunk} (h : k.WellFormed)
    (hline : 2 * k.line.wire.length < HTTP_MAX_HEADER_SIZE)
    (hfields : 2 * k.fields.length < HTTP_MAX_HEADER_SIZE) :
    ∃ c' n', ReadsMessage (framing k.wire) c 0 c' n' := by
  -- the size 0 begins the trailer
  have hbegin : ∀ n, ReadsByte (byte '\n') false []
      { c with content_length := 0, state := .s_chunk_size_almost_done } n
      { c with content_length := 0, flags.F_TRAILING := true, state := .s_header_field_start } 0 :=
    readsByte_reset [.notify .chunk_header] (fun _ _ => rfl) rfl
  have hsize := reads_size_line hs h.line (by decide) hline hbegin
  obtain ⟨d, hquiets, hstate, hframe⟩ := read_headers h.trailer
    { c with content_length := 0, flags.F_TRAILING := true, state := .s_header_field_start } rfl
  have htrailer := reads_fields hquiets hstate hfields
  have hend := read_trailer_end (c := { next_line d with state := .s_headers_almost_done }) rfl
    (congrArg Frame.trailing hframe) ((congrArg Frame.upgrade hframe).trans hup)
    ((k.trailer.flatMap HeaderField.wire).length + 1)
  have hmessage : ReadsMessage [(byte '\n', false)] _ _ _ _ :=
    ⟨[], byte '\n', false, _, _, rfl, .nil _ _, hend, by
      rw [LastChunk.fields, List.length_append] at hfields
      exact hfields⟩
  have hsplit := framing_empty_line (k.trailer.flatMap HeaderField.wire) []
  rw [List.append_nil, List.append_nil] at hsplit
  rw [LastChunk.wire, framing_append, LastChunk.fields, hsplit]
  exact ⟨_, _, hsize.message (htrailer.message hmessage)⟩

end MyWarehouse

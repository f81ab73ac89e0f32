/-
What `http_parser_execute` reports, without marks.

A data callback reports a piece of `data` that began somewhere in it; where the piece began
is kept in a mark, and a call that ends inside a field reports what it has of it. `read_byte`
has neither marks nor pieces: every byte that belongs to a field is an event with its
position in the stream, and so is every other callback. `execute_read` says that the pieces
`http_parser_execute` reports are these events, for callbacks that return 0.

`Script.Sound` is what the marks of a script must be like for that: at most one is set, the
one of the field the parser is in. Every byte keeps to it (`one_byte_sound`). `Script.Counts`
is what it must be like with the count of header bytes (`one_byte_counts`).
-/
import MyWarehouse.ParserBlocks

set_option autoImplicit false

namespace MyWarehouse

open Loop http_parser_execute

/-! ## Events -/

/-- What is reported of a stream: that the byte at a position belongs to a field, or a
callback without data. -/
inductive ParserEvent where
  | data (f : http_data) (pos : ℕ)
  | notify (n : http_notify)
  | headers_complete
  deriving DecidableEq, Repr

/-- The events of a callback, when `data` begins at `off` in the stream. -/
def ParserCall.events (off : ℕ) : ParserCall → List ParserEvent
  | .data f at_ len => (List.range' (off + at_) len).map (.data f)
  | .notify n => [.notify n]
  | .headers_complete => [.headers_complete]

/-- Whether the callback of an event is installed. -/
def http_parser_settings.hears (settings : http_parser_settings) : ParserEvent → Bool
  | .data f _ => settings.on_data f
  | .notify n => settings.on_notify n
  | .headers_complete => settings.on_headers_complete

/-- The parser, the bytes it has counted of a header, and what it has reported. -/
structure ParserReport where
  parser : parser_core
  nread : ℕ
  events : List ParserEvent
  deriving DecidableEq, Repr

/-- Why the reading of a stream ends early: an error at a position, or another protocol from
a position on. -/
inductive Stop where
  | failed (pos : ℕ) (r : ParserReport)
  | left (pos : ℕ) (r : ParserReport)
  deriving DecidableEq, Repr

/-- The event of the byte at `pos` inside the field `m`. -/
def byte_event (m : Option http_data) (pos : ℕ) : List ParserEvent :=
  m.toList.map fun f => .data f pos

/-- What a script makes of the count `n` and reports of the byte at `pos`, when the parser is
inside the field `m`. The byte is reported as one of `m` where the script comes to its end or
closes the field with the byte in it; a field that ends in front of the byte does not get it. -/
def Script.read (pos : ℕ) :
    Option http_data → Script → ℕ → List ParserEvent → Except Stop ParserReport
  | m, .next c, n, es => .ok ⟨c, n, es ++ byte_event m pos⟩
  | _, .error c e, n, es => .error (.failed pos ⟨{ c with http_errno := e }, n, es⟩)
  | _, .leave c, n, es => .error (.left (pos + 1) ⟨c, n, es⟩)
  | _, .mark f k, n, es => k.read pos (some f) n es
  | m, .reset_nread k, _, es => k.read pos m 0 es
  | m, .callback_data _ len _ _ k, n, es =>
    k.read pos none n (es ++ if len = 0 then [] else byte_event m pos)
  | m, .callback_notify a _ _ k, n, es => k.read pos m n (es ++ [.notify a])
  | m, .headers_complete _ k, n, es => (k false).read pos m n (es ++ [.headers_complete])

/-- One byte of the stream. -/
def read_byte (pos : ℕ) (ch : UInt8) (r : ParserReport) : Except Stop ParserReport :=
  (one_byte r.parser ch).read pos (open_field r.parser.state) (r.parser.state.count r.nread)
    r.events

/-- A piece of the stream, from `pos` on. -/
def read_bytes (pos : ℕ) (data : Bytes) (r : ParserReport) : Except Stop ParserReport :=
  each read_byte pos data r

/-! ## The marks of a script -/

/-- The states in which bytes of a body may be waiting to be reported. -/
def state.holds_body : state → Bool
  | .s_body_identity | .s_chunk_data | .s_body_identity_eof | .s_chunk_data_almost_done => true
  | _ => false

/-- `m` is the field whose mark is set between two bytes. It can be told from the state, except
for the body: its mark is set by its first byte and not by the state in front of it. -/
def Marked (m : Option http_data) (s : state) : Prop :=
  m = open_field s ∨ m = some .body ∧ s.holds_body

/-- How far a script has come with a piece of the body: the parser is in no body, or it is
and the script has done nothing about it, has set the mark, or has reported the piece. -/
inductive BodyPhase where
  | outside
  | before
  | marked
  | closed
  deriving DecidableEq, Repr

/-- The phase a script begins in. -/
def state.phase (s : state) : BodyPhase := if s.holds_body then .before else .outside

/-- The script keeps the marks in order when `m` is the one that is set. A mark is set only when
none is, or the same; a callback for data closes the field that is open; and the other callbacks
come where none is. At its end the script leaves the mark that belongs to the state, so that the
next byte may rely on it. -/
def Script.Sound : Option http_data → BodyPhase → Script → Prop
  | m, ph, .next c =>
    c.http_errno = .HPE_OK ∧ Marked m c.state ∧ (ph = .closed → c.state.holds_body = false)
  | _, _, .error _ e => e ≠ .HPE_OK
  | m, _, .leave c => c.http_errno = .HPE_OK ∧ m = none ∧ c.upgrade
  | m, ph, .mark f k =>
    (m = none ∨ m = some f) ∧ (f = .body → ph = .before) ∧
      k.Sound (some f) (if f = .body then .marked else ph)
  | m, ph, .reset_nread k => k.Sound m ph
  | m, ph, .callback_data f len _ _ k =>
    (m = none ∨ m = some f) ∧ len ≤ 1 ∧
      (f = .body → ph = .before ∨ ph = .marked ∧ len = 1) ∧
      k.Sound none (if f = .body then .closed else ph)
  | m, ph, .callback_notify _ _ _ k => m = none ∧ k.Sound m ph
  | m, ph, .headers_complete _ k => m = none ∧ ∀ skip, (k skip).Sound m ph

section Sound

variable {c : parser_core} {m : Option http_data} {ph : BodyPhase}

/-- The script ends in a state whose field is the one that is open. -/
theorem next_sound (hc : c.http_errno = .HPE_OK) (hm : open_field c.state = m) :
    (Script.next c).Sound m .outside :=
  ⟨hc, Or.inl hm.symm, (absurd · (by decide))⟩

/-- Behind an error the marks do not matter, since no byte follows. -/
theorem error_sound {e : http_errno} (he : e ≠ .HPE_OK) : (Script.error c e).Sound m ph := he

/-- A field of a header ends here: its mark is cleared. -/
theorem field_end_sound {f : http_data} (hf : f ≠ .body) {len ret : ℕ} (hlen : len ≤ 1)
    {d : parser_core} {k : Script} (hk : k.Sound none ph) :
    (Script.callback_data f len ret d k).Sound (some f) ph := by
  refine ⟨Or.inr rfl, hlen, (absurd · hf), ?_⟩
  rw [if_neg hf]
  exact hk

/-- A field of a header begins here: its mark is set. -/
theorem field_begin_sound {f : http_data} (hf : f ≠ .body) {k : Script}
    (hk : k.Sound (some f) ph) : (Script.mark f k).Sound none ph := by
  refine ⟨Or.inl rfl, (absurd · hf), ?_⟩
  rw [if_neg hf]
  exact hk

/-- Behind a message, no mark is set and no body is read. -/
theorem new_message_sound (c : parser_core) :
    open_field (NEW_MESSAGE c) = none ∧ (NEW_MESSAGE c).holds_body = false := by
  unfold NEW_MESSAGE start_state
  split_ifs
  · exact ⟨rfl, rfl⟩
  · exact ⟨rfl, rfl⟩
  · exact ⟨rfl, rfl⟩

/-- The end of a message finds no mark set. -/
theorem message_complete_sound {k : parser_core → Script}
    (hk : (k { c with state := NEW_MESSAGE c }).Sound none ph) :
    (message_complete c k).Sound none ph :=
  ⟨rfl, hk⟩

/-- The message ends, and the parser leaves for another protocol or begins the next. -/
theorem s_message_done_sound (hc : c.http_errno = .HPE_OK) :
    (s_message_done c).Sound none ph := by
  obtain ⟨hopen, hbody⟩ := new_message_sound c
  refine message_complete_sound ?_
  dsimp only
  split_ifs with hup
  · exact ⟨hc, rfl, hup⟩
  · exact ⟨hc, Or.inl hopen.symm, fun _ => hbody⟩

/-- A byte that has to be a certain one. -/
theorem strict_check_sound {cond : Prop} [Decidable cond] {k : Script}
    (hk : ¬ cond → k.Sound m ph) : (Script.strict_check c cond k).Sound m ph := by
  unfold Script.strict_check
  split_ifs with h
  · exact error_sound (by decide)
  · exact hk h

/-- The end of the headers, in each of the ways in which the message may go on. -/
theorem s_headers_done_sound (hc : c.http_errno = .HPE_OK) (ch : UInt8) :
    (s_headers_done c ch).Sound none .outside := by
  obtain ⟨hopen, -⟩ := new_message_sound c
  have hdone : (Script.next { c with state := NEW_MESSAGE c }).Sound none .outside :=
    next_sound hc hopen
  refine strict_check_sound fun _ => ?_
  show Script.Sound none .outside (if _ then _ else _)
  split_ifs with hup
  · -- the rest is in another protocol, and `upgrade` says so
    refine message_complete_sound ⟨hc, rfl, ?_⟩
    simp only [Bool.and_eq_true] at hup
    exact hup.1
  · exact message_complete_sound hdone
  · -- chunks
    exact next_sound hc rfl
  · exact message_complete_sound hdone
  · -- a body of known length
    exact next_sound hc rfl
  · exact message_complete_sound hdone
  · -- a body that goes on to the end of the stream
    exact next_sound hc rfl

/-- The line feed of the empty line, whatever the callback for the end of the headers returns. -/
theorem s_headers_almost_done_sound (hc : c.http_errno = .HPE_OK) (ch : UInt8) :
    (s_headers_almost_done c ch).Sound none .outside := by
  refine strict_check_sound fun _ => ?_
  show Script.Sound none .outside (if _ then _ else _)
  split_ifs
  · exact ⟨rfl, s_message_done_sound hc⟩
  · refine ⟨rfl, fun skip => ?_⟩
    apply s_headers_done_sound
    exact hc

/-- A line that is empty, or a name that begins with a mark of its own. -/
theorem s_header_field_start_sound (hc : c.http_errno = .HPE_OK) (ch : UInt8) :
    (s_header_field_start c ch).Sound none .outside := by
  unfold s_header_field_start
  split_ifs
  · exact next_sound hc rfl
  · apply s_headers_almost_done_sound
    exact hc
  · exact error_sound (by decide)
  · exact field_begin_sound (by decide) (next_sound hc rfl)

/-- A character of a name brings no error. -/
theorem field_char_errno (ch : UInt8) : (field_char c ch).http_errno = c.http_errno := by
  unfold field_char match_name
  split <;> dsimp only <;> split_ifs <;> rfl

/-- A byte of a name. The mark stays until the colon, which ends the field. -/
theorem field_byte_sound (hc : c.http_errno = .HPE_OK) (hs : c.state = .s_header_field)
    (ch : UInt8) : (field_byte c ch).Sound (some .header_field) .outside := by
  unfold field_byte
  split_ifs
  · refine next_sound ((field_char_errno ch).trans hc) ?_
    rw [field_char_state, hs]
    rfl
  · exact field_end_sound (by decide) (Nat.zero_le 1) (next_sound hc rfl)
  · exact error_sound (by decide)

/-- Nor does the first character of a value that is taken. -/
theorem value_start_errno {c' : parser_core} {ch : UInt8} (h : value_start c ch = some c') :
    c'.http_errno = c.http_errno := by
  unfold value_start at h
  rcases hh : c.header_state <;> simp only [hh] at h
  all_goals
    try split_ifs at h
  all_goals
    cases h
    rfl

/-- A byte of a value changes neither the state nor the error. -/
theorem value_char_keeps {c' : parser_core} {ch : UInt8} (h : value_char c ch = some c')
    (hs : c.state = .s_header_value) :
    c'.http_errno = c.http_errno ∧ c'.state = .s_header_value := by
  unfold value_char match_name after_token at h
  rcases hh : c.header_state <;> simp only [hh] at h
  all_goals
    try split_ifs at h
  all_goals
    cases h
    exact ⟨rfl, by first | exact hs | rfl⟩

/-- A value begins with a mark of its own. -/
theorem s_header_value_start_sound (hc : c.http_errno = .HPE_OK) (ch : UInt8) :
    (s_header_value_start c ch).Sound none .outside := by
  refine field_begin_sound (by decide) ?_
  dsimp only
  rcases hv : value_start { c with state := .s_header_value, index := 0 } ch with _ | c'
  · exact error_sound (by decide)
  · refine next_sound ((value_start_errno hv).trans hc) ?_
    rw [(value_start_spec hv).1]
    rfl

/-- A byte of a value. Either byte of a line end ends the field. -/
theorem value_byte_sound (hc : c.http_errno = .HPE_OK) (hs : c.state = .s_header_value)
    (ch : UInt8) : (value_byte c ch).Sound (some .header_value) .outside := by
  unfold value_byte
  split_ifs
  · exact field_end_sound (by decide) (Nat.zero_le 1) (next_sound hc rfl)
  · exact field_end_sound (by decide) (Nat.zero_le 1) (strict_check_sound fun _ =>
      next_sound hc rfl)
  · rcases hv : value_char c ch with _ | c'
    · exact error_sound (by decide)
    · obtain ⟨herrno, hstate⟩ := value_char_keeps hv hs
      refine next_sound (herrno.trans hc) ?_
      rw [hstate]
      rfl

/-- The flag of a header leaves the error. -/
theorem finish_header_errno (c : parser_core) : (finish_header c).http_errno = c.http_errno := by
  unfold finish_header
  split <;> rfl

/-- In front of a value no mark is set. -/
theorem s_header_value_discard_ws_sound (hc : c.http_errno = .HPE_OK)
    (hs : c.state = .s_header_value_discard_ws) (ch : UInt8) :
    (s_header_value_discard_ws c ch).Sound none .outside := by
  unfold s_header_value_discard_ws
  split_ifs
  · exact next_sound hc (by rw [hs]; rfl)
  · exact next_sound hc rfl
  · exact next_sound hc rfl
  · exact s_header_value_start_sound hc ch

/-- Behind a value none is set either: it has been reported with its line. -/
theorem s_header_value_lws_sound (hc : c.http_errno = .HPE_OK) (ch : UInt8) :
    (s_header_value_lws c ch).Sound none .outside := by
  unfold s_header_value_lws
  split_ifs
  · apply s_header_value_start_sound
    exact hc
  · apply s_header_field_start_sound
    exact (finish_header_errno c).trans hc

/-- An empty value is marked and reported in front of the byte that shows it to be empty, so that
it has no byte. -/
theorem s_header_value_discard_lws_sound (hc : c.http_errno = .HPE_OK) (ch : UInt8) :
    (s_header_value_discard_lws c ch).Sound none .outside := by
  unfold s_header_value_discard_lws
  split_ifs
  · exact next_sound hc rfl
  · refine field_begin_sound (by decide) (field_end_sound (by decide) (Nat.zero_le 1) ?_)
    apply s_header_field_start_sound
    exact (finish_header_errno c).trans hc

/-- The bytes of a body, whether the mark is set or not. -/
theorem body_byte_sound (hc : c.http_errno = .HPE_OK) (hs : c.state = .s_body_identity)
    (hm : m = none ∨ m = some .body) : (body_byte c).Sound m .before := by
  refine ⟨hm, ⟨fun _ => rfl, ?_⟩⟩
  show Script.Sound _ .marked (if _ then _ else _)
  split_ifs
  · -- the last byte is reported with the piece it ends
    exact ⟨Or.inr rfl, le_refl 1, fun _ => Or.inr ⟨rfl, rfl⟩, s_message_done_sound hc⟩
  · exact ⟨hc, Or.inr ⟨rfl, by rw [hs]; rfl⟩, (absurd · (by decide))⟩

/-- The bytes of a chunk. The last of them leaves the mark set, for the line end behind the
chunk. -/
theorem chunk_byte_sound (hc : c.http_errno = .HPE_OK) (hs : c.state = .s_chunk_data)
    (hm : m = none ∨ m = some .body) : (chunk_byte c).Sound m .before := by
  refine ⟨hm, ⟨fun _ => rfl, ?_⟩⟩
  show Script.Sound _ .marked (.next (if _ then _ else _))
  split_ifs
  · exact ⟨hc, Or.inr ⟨rfl, rfl⟩, (absurd · (by decide))⟩
  · exact ⟨hc, Or.inr ⟨rfl, by dsimp only; rw [hs]; rfl⟩, (absurd · (by decide))⟩

/-- No field is open in front of a request. -/
theorem s_start_req_sound (hc : c.http_errno = .HPE_OK) (hs : c.state = .s_start_req)
    (ch : UInt8) : (s_start_req c ch).Sound none .outside := by
  unfold s_start_req
  dsimp only
  split_ifs
  · exact next_sound hc (by rw [hs]; rfl)
  · rcases first_method.lookup ch with _ | method
    · exact error_sound (by decide)
    · exact ⟨rfl, next_sound hc rfl⟩
  · exact error_sound (by decide)

/-- Nor is one in its method. -/
theorem s_req_method_sound (hc : c.http_errno = .HPE_OK) (hs : c.state = .s_req_method)
    (ch : UInt8) : (s_req_method c ch).Sound none .outside := by
  unfold s_req_method
  dsimp only
  split_ifs
  · exact error_sound (by decide)
  · exact next_sound hc rfl
  · exact next_sound hc (by rw [hs]; rfl)
  · rcases other_method c.method c.index ch with _ | method
    · exact error_sound (by decide)
    · exact next_sound hc (by dsimp only; rw [hs]; rfl)

/-- A byte of a URL leads to a state of a URL. -/
theorem open_field_parse_url_char {s : url_state} {ch : UInt8}
    (h : parse_url_char s ch ≠ .s_dead) : open_field (.url (parse_url_char s ch)) = some .url := by
  rcases hs : parse_url_char s ch
  case s_dead => exact absurd hs h
  case s_req_spaces_before_url =>
    -- no byte leads back to the spaces
    unfold parse_url_char at hs
    rcases s <;> dsimp only at hs <;> split_ifs at hs
  all_goals rfl

/-- A byte of a URL leaves its mark set. -/
theorem update_url_sound (hc : c.http_errno = .HPE_OK) (s : url_state) (ch : UInt8) :
    (update_url c s ch).Sound (some .url) .outside := by
  unfold update_url
  dsimp only
  split_ifs with hdead
  · exact error_sound (by decide)
  · exact next_sound hc (open_field_parse_url_char fun h => hdead (by rw [h]))

/-- A byte of a URL that may also end it. -/
theorem s_req_in_url_sound (hc : c.http_errno = .HPE_OK) (s : url_state) (ch : UInt8) :
    (s_req_in_url c s ch).Sound (some .url) .outside := by
  unfold s_req_in_url
  dsimp only
  split_ifs
  · exact field_end_sound (by decide) (Nat.zero_le 1) (next_sound hc rfl)
  · exact field_end_sound (by decide) (Nat.zero_le 1) (next_sound hc rfl)
  · exact field_end_sound (by decide) (Nat.zero_le 1) (next_sound hc rfl)
  · exact update_url_sound hc s ch

/-- A byte of a URL in front of its server, where nothing may end it. -/
theorem s_req_before_server_sound (hc : c.http_errno = .HPE_OK) (s : url_state) (ch : UInt8) :
    (s_req_before_server c s ch).Sound (some .url) .outside := by
  unfold s_req_before_server
  split_ifs
  · exact error_sound (by decide)
  · exact update_url_sound hc s ch

/-- A byte that has to be a certain one, in a state in which no field is open. -/
theorem strict_char_sound (hc : c.http_errno = .HPE_OK) (ch expected : UInt8) {next : state}
    (hnext : open_field next = m) : (strict_char c ch expected next).Sound m .outside :=
  strict_check_sound fun _ => next_sound hc hnext

/-- The digits of a version are no field. -/
theorem http_major_sound (hc : c.http_errno = .HPE_OK) (hs : open_field c.state = none)
    (ch : UInt8) {next : state} (hnext : open_field next = none) :
    (http_major c ch next).Sound none .outside := by
  unfold http_major
  dsimp only
  split_ifs
  · exact next_sound hc hnext
  · exact error_sound (by decide)
  · exact next_sound hc hs
  · exact error_sound (by decide)

/-- The digits behind the dot. -/
theorem http_minor_sound (hc : c.http_errno = .HPE_OK) (hs : open_field c.state = none)
    (ch : UInt8) : (http_minor c ch).Sound none .outside := by
  unfold http_minor
  dsimp only
  split_ifs
  · exact error_sound (by decide)
  · exact next_sound hc hs
  · exact error_sound (by decide)

/-- In a body the mark may be set or not. -/
theorem Marked.of_holds_body {s : state} (hm : Marked m s) (h : s.holds_body) :
    m = none ∨ m = some .body := by
  rcases hm with rfl | ⟨rfl, -⟩
  · rcases s
    all_goals
      try cases h
    all_goals exact Or.inl rfl
  · exact Or.inr rfl

/-- Outside a body the state says which mark is set. -/
theorem Marked.of_not_holds_body {s : state} (hm : Marked m s) (h : s.holds_body = false) :
    m = open_field s := by
  rcases hm with rfl | ⟨rfl, hs⟩
  · rfl
  · rw [h] at hs
    cases hs

/-- The states that hold bytes of a body. -/
theorem one_byte_sound_of_body (hc : c.http_errno = .HPE_OK) (hs : c.state.holds_body)
    (hm : m = none ∨ m = some .body) (ch : UInt8) : (one_byte c ch).Sound m .before := by
  rcases hstate : c.state
  all_goals
    rw [hstate] at hs
    try cases hs
  all_goals simp only [one_byte, single, hstate]
  case s_body_identity => exact body_byte_sound hc hstate hm
  case s_chunk_data => exact chunk_byte_sound hc hstate hm
  case s_body_identity_eof =>
    exact ⟨hm, ⟨fun _ => rfl, ⟨hc, Or.inr ⟨rfl, by rw [hstate]; rfl⟩, (absurd · (by decide))⟩⟩⟩
  case s_chunk_data_almost_done =>
    -- the data of the chunk are reported with the carriage return behind them, whose event
    -- they do not get
    refine strict_check_sound fun _ => ⟨hm, Nat.zero_le 1, fun _ => Or.inl rfl, ?_⟩
    exact ⟨hc, Or.inl rfl, fun _ => rfl⟩

/-- The other states. The cases are those of the switch. -/
theorem one_byte_sound_of_not_body (hc : c.http_errno = .HPE_OK)
    (hbody : c.state.holds_body = false) (ch : UInt8) :
    (one_byte c ch).Sound (open_field c.state) .outside := by
  rcases hs : c.state with s | _
  all_goals
    rw [hs] at hbody
    try exact absurd hbody (by decide)
  all_goals simp only [one_byte, single, hs]
  case s_start_req => exact s_start_req_sound hc hs ch
  case s_req_method => exact s_req_method_sound hc hs ch
  case s_header_field => exact field_byte_sound hc hs ch
  case s_header_value => exact value_byte_sound hc hs ch
  case s_header_field_start => exact s_header_field_start_sound hc ch
  case s_header_value_discard_ws => exact s_header_value_discard_ws_sound hc hs ch
  case s_header_value_discard_lws => exact s_header_value_discard_lws_sound hc ch
  case s_header_value_start => exact s_header_value_start_sound hc ch
  case s_header_value_lws => exact s_header_value_lws_sound hc ch
  case s_header_almost_done => exact strict_check_sound fun _ => next_sound hc rfl
  case s_headers_almost_done => exact s_headers_almost_done_sound hc ch
  case s_headers_done => exact s_headers_done_sound hc ch
  case s_message_done => exact s_message_done_sound hc
  case url =>
    rcases s
    case s_dead =>
      unfold s_dead
      split_ifs
      · exact next_sound hc (by rw [hs])
      · exact error_sound (by decide)
    case s_req_spaces_before_url =>
      unfold s_req_spaces_before_url
      split_ifs
      · exact next_sound hc (by rw [hs])
      · exact field_begin_sound (by decide) (update_url_sound hc _ ch)
      · exact field_begin_sound (by decide) (update_url_sound hc _ ch)
    case s_req_schema | s_req_schema_slash | s_req_schema_slash_slash | s_req_server_start =>
      exact s_req_before_server_sound hc _ ch
    all_goals exact s_req_in_url_sound hc _ ch
  case s_start_req_or_res =>
    unfold s_start_req_or_res
    dsimp only
    split_ifs
    · exact next_sound hc (by rw [hs])
    · exact ⟨rfl, next_sound hc rfl⟩
    · -- it is a request, which begins with the same byte
      apply s_start_req_sound ?_ rfl
      exact hc
  case s_res_or_resp_H =>
    unfold s_res_or_resp_H
    split_ifs
    · exact next_sound hc rfl
    · exact error_sound (by decide)
    · exact next_sound hc rfl
  case s_start_res =>
    unfold s_start_res
    dsimp only
    split_ifs
    · exact ⟨rfl, next_sound hc rfl⟩
    · exact ⟨rfl, next_sound hc (by rw [hs])⟩
    · exact error_sound (by decide)
  case s_res_status =>
    unfold s_res_status
    dsimp only
    split_ifs
    · exact field_end_sound (by decide) (Nat.zero_le 1) (next_sound hc rfl)
    · exact field_end_sound (by decide) (Nat.zero_le 1) (next_sound hc rfl)
    · exact next_sound hc (by rw [hs])
  case s_res_status_start =>
    unfold s_res_status_start
    split_ifs
    · exact next_sound hc rfl
    · exact next_sound hc rfl
    · exact field_begin_sound (by decide) (next_sound hc rfl)
  case s_chunk_size_start =>
    unfold s_chunk_size_start
    rcases unhex ch with _ | v
    · exact error_sound (by decide)
    · exact next_sound hc rfl
  case s_chunk_size =>
    unfold s_chunk_size
    rcases unhex ch with _ | v
    · dsimp only
      split_ifs
      · exact next_sound hc rfl
      · exact next_sound hc rfl
      · exact error_sound (by decide)
    · dsimp only
      split_ifs
      · exact next_sound hc rfl
      · exact error_sound (by decide)
      · exact next_sound hc (by dsimp only; rw [hs])
  case s_chunk_parameters =>
    unfold s_chunk_parameters
    split_ifs
    · exact next_sound hc rfl
    · exact next_sound hc (by rw [hs])
  case s_chunk_size_almost_done =>
    refine strict_check_sound fun _ => ⟨rfl, ?_⟩
    show (Script.next (if _ then _ else _)).Sound none .outside
    split_ifs
    · exact next_sound hc rfl
    · exact next_sound hc rfl
  case s_chunk_data_done => exact strict_check_sound fun _ => ⟨rfl, next_sound hc rfl⟩
  case s_res_first_http_major | s_req_first_http_major =>
    first | unfold s_res_first_http_major | unfold s_req_first_http_major
    split_ifs
    · exact error_sound (by decide)
    · exact next_sound hc rfl
  case s_res_first_http_minor | s_req_first_http_minor =>
    unfold first_http_minor
    split_ifs
    · exact next_sound hc rfl
    · exact error_sound (by decide)
  case s_res_http_minor =>
    unfold s_res_http_minor
    split_ifs
    · exact next_sound hc rfl
    · exact http_minor_sound hc (by rw [hs]; rfl) ch
  case s_req_http_minor =>
    unfold s_req_http_minor
    split_ifs
    · exact next_sound hc rfl
    · exact next_sound hc rfl
    · exact http_minor_sound hc (by rw [hs]; rfl) ch
  case s_res_first_status_code =>
    unfold s_res_first_status_code
    split_ifs
    · exact next_sound hc rfl
    · exact next_sound hc (by rw [hs])
    · exact error_sound (by decide)
  case s_res_status_code =>
    unfold s_res_status_code
    dsimp only
    split_ifs
    · exact error_sound (by decide)
    · exact next_sound hc (by dsimp only; rw [hs])
    · exact next_sound hc rfl
    · exact next_sound hc rfl
    · exact next_sound hc rfl
    · exact error_sound (by decide)
  case s_req_http_start =>
    unfold s_req_http_start
    split_ifs
    · exact next_sound hc rfl
    · exact next_sound hc (by rw [hs])
    · exact error_sound (by decide)
  case s_req_line_almost_done =>
    unfold s_req_line_almost_done
    split_ifs
    · exact error_sound (by decide)
    · exact next_sound hc rfl
  case s_res_http_major | s_req_http_major =>
    exact http_major_sound hc (by rw [hs]; rfl) ch rfl
  all_goals exact strict_char_sound hc ch _ rfl

/-- **Every byte keeps the marks in order**: what `Marked` says in front of it, it says behind
it. This is why the assertion behind the loop, that at most one mark is set, holds, and why the
pieces that the callbacks get are the bytes of their fields. -/
theorem one_byte_sound (hc : c.http_errno = .HPE_OK) (hm : Marked m c.state) (ch : UInt8) :
    (one_byte c ch).Sound m c.state.phase := by
  unfold state.phase
  split_ifs with hbody
  · exact one_byte_sound_of_body hc hbody (hm.of_holds_body hbody) ch
  · rw [Bool.not_eq_true] at hbody
    rw [hm.of_not_holds_body hbody]
    exact one_byte_sound_of_not_body hc hbody ch

end Sound

/-! ## The count of a script -/

/-- A byte that leaves the parser in a name or a value has been counted. `b` says that it has
been so far, and that the count has not been reset. -/
def Script.Counts : Bool → Script → Prop
  | b, .next c => c.state.in_line → b
  | _, .error _ _ => True
  | _, .leave _ => True
  | b, .mark _ k => k.Counts b
  | _, .reset_nread k => k.Counts false
  | b, .callback_data _ _ _ _ k => k.Counts b
  | b, .callback_notify _ _ _ k => k.Counts b
  | b, .headers_complete _ k => ∀ skip, (k skip).Counts b

section Counts

variable {c : parser_core} {b : Bool}

/-- The next message begins in no name. -/
theorem new_message_in_line (c : parser_core) : (NEW_MESSAGE c).in_line = false := by
  unfold NEW_MESSAGE start_state
  split_ifs
  · rfl
  · rfl
  · rfl

/-- A message ends in no line. -/
theorem message_complete_counts {k : parser_core → Script}
    (hk : ∀ d : parser_core, d.state.in_line = false → (k d).Counts b) :
    (message_complete c k).Counts b :=
  hk _ (new_message_in_line c)

/-- A script that ends outside a line has nothing to show. -/
theorem next_counts_of (h : c.state.in_line = false) : (Script.next c).Counts b :=
  fun h' => absurd (h.symm.trans h') Bool.false_ne_true

/-- The end of a message, with the parser that follows. -/
theorem s_message_done_counts : (s_message_done c).Counts b := by
  refine message_complete_counts fun d hd => ?_
  split_ifs
  · trivial
  · exact next_counts_of hd

/-- The end of the headers resets the count, but leads to no line. -/
theorem s_headers_done_counts (ch : UInt8) : (s_headers_done c ch).Counts b := by
  unfold s_headers_done Script.strict_check
  dsimp only
  split_ifs
  · trivial
  · exact message_complete_counts fun _ _ => trivial
  · exact message_complete_counts fun _ hd => next_counts_of hd
  · exact next_counts_of rfl
  · exact message_complete_counts fun _ hd => next_counts_of hd
  · exact next_counts_of rfl
  · exact message_complete_counts fun _ hd => next_counts_of hd
  · exact next_counts_of rfl

/-- The empty line. -/
theorem s_headers_almost_done_counts (ch : UInt8) : (s_headers_almost_done c ch).Counts b := by
  unfold s_headers_almost_done Script.strict_check
  split_ifs
  · trivial
  · exact s_message_done_counts
  · exact fun _ => s_headers_done_counts ch

/-- The first character of a name is counted. -/
theorem s_header_field_start_counts (ch : UInt8) : (s_header_field_start c ch).Counts true := by
  unfold s_header_field_start
  split_ifs
  · exact fun _ => rfl
  · exact s_headers_almost_done_counts ch
  · trivial
  · exact fun _ => rfl

/-- And that of a value. -/
theorem s_header_value_start_counts (ch : UInt8) : (s_header_value_start c ch).Counts true := by
  unfold s_header_value_start
  dsimp only [Script.Counts]
  split
  · trivial
  · exact fun _ => rfl

/-- In a header nothing but a reset matters. -/
theorem one_byte_counts_of_header (hs : c.state.parsing_header) (ch : UInt8) :
    (one_byte c ch).Counts true := by
  rcases hstate : c.state with u | _
  all_goals
    rw [hstate] at hs
    try exact absurd hs Bool.false_ne_true
  all_goals
    simp only [one_byte, single, hstate]
  case url =>
    rcases u
    all_goals
      simp only [s_dead, s_req_spaces_before_url, s_req_before_server, s_req_in_url, update_url]
      split_ifs <;> simp [Script.Counts, Script.CALLBACK_DATA]
  case s_header_field_start => exact s_header_field_start_counts ch
  case s_headers_almost_done => exact s_headers_almost_done_counts ch
  case s_headers_done => exact s_headers_done_counts ch
  case s_header_value_start => exact s_header_value_start_counts ch
  case s_header_value_lws =>
    unfold s_header_value_lws
    split_ifs
    · exact s_header_value_start_counts ch
    · exact s_header_field_start_counts ch
  case s_header_value_discard_lws =>
    unfold s_header_value_discard_lws
    split_ifs
    · exact fun _ => rfl
    · exact s_header_field_start_counts ch
  case s_header_value_discard_ws =>
    unfold s_header_value_discard_ws
    split_ifs
    · exact fun _ => rfl
    · exact fun _ => rfl
    · exact fun _ => rfl
    · exact s_header_value_start_counts ch
  case s_chunk_size_almost_done =>
    unfold s_chunk_size_almost_done Script.strict_check
    dsimp only [Script.CALLBACK_NOTIFY]
    split_ifs
    · trivial
    · exact (absurd · Bool.false_ne_true)
    · exact (absurd · Bool.false_ne_true)
  -- the other cases do not reset the count
  all_goals
    simp only [field_byte, value_byte, s_header_almost_done, strict_char, s_chunk_size_start,
      s_chunk_size, s_chunk_parameters, s_start_req_or_res, s_start_req, s_req_method,
      s_req_http_start, s_req_first_http_major, s_req_http_minor, s_req_line_almost_done,
      s_res_or_resp_H, s_start_res, s_res_first_http_major, s_res_http_minor,
      s_res_first_status_code, s_res_status_code, s_res_status_start, s_res_status, http_major,
      first_http_minor, http_minor, Script.strict_check, Script.CALLBACK_DATA,
      Script.CALLBACK_DATA_NOADVANCE, Script.CALLBACK_NOTIFY]
    repeat' split
    all_goals
      first
        | trivial
        | exact fun _ => rfl

/-- A body leads to no name. -/
theorem one_byte_counts_of_body (hs : c.state.parsing_header = false) (ch : UInt8) :
    (one_byte c ch).Counts false := by
  rcases hstate : c.state
  all_goals
    rw [hstate] at hs
    try exact absurd hs.symm Bool.false_ne_true
  all_goals
    simp only [one_byte, single, hstate]
  case s_message_done => exact s_message_done_counts
  case s_body_identity =>
    unfold body_byte
    dsimp only
    split_ifs
    · exact s_message_done_counts
    · exact next_counts_of (by dsimp only; rw [hstate]; rfl)
  case s_chunk_data =>
    refine next_counts_of ?_
    split_ifs
    · rfl
    · dsimp only
      rw [hstate]
      rfl
  case s_body_identity_eof => exact next_counts_of (by rw [hstate]; rfl)
  case s_chunk_data_almost_done =>
    unfold s_chunk_data_almost_done Script.strict_check
    split_ifs
    · trivial
    · exact next_counts_of (c := { c with state := .s_chunk_data_done }) rfl
  case s_chunk_data_done =>
    unfold s_chunk_data_done Script.strict_check
    split_ifs
    · trivial
    · exact next_counts_of (c := { c with state := .s_chunk_size_start }) rfl

/-- **A byte that leaves the parser in a name or a value has been counted.** The loop over a name
or a value counts its bytes a second time when it ends; the first time is what this says. -/
theorem one_byte_counts (c : parser_core) (ch : UInt8) :
    (one_byte c ch).Counts c.state.parsing_header := by
  rcases hs : c.state.parsing_header
  · exact one_byte_counts_of_body hs ch
  · exact one_byte_counts_of_header hs ch

end Counts

end MyWarehouse

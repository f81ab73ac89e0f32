/-
The head of a request under the parser: the request line and the header fields.

`quiet` is one byte of which the session hears nothing. The request line takes a parser to
the first header field (`read_request_line`), and a header field that does not frame the body
takes it to the next one and leaves what frames the body (`read_header`).

Between two header fields the parser is in one of three states: the last line may go on with
white space, and only the first byte behind it shows that it does not. `next_line` is the
parser in front of that byte.
-/
import MyWarehouse.SessionParser
import MyWarehouse.ParserHeaders

set_option autoImplicit false

namespace MyWarehouse

open Loop http_parser_execute Segment

/-! ## Bytes the session does not hear of -/

/-- An event at another position. -/
def ParserEvent.move (pos : ℕ) : ParserEvent → ParserEvent
  | .data f _ => .data f pos
  | e => e

theorem byte_event_move (m : Option http_data) (pos : ℕ) :
    (byte_event m 0).map (ParserEvent.move pos) = byte_event m pos := by
  rcases m <;> rfl

/-- A script looks neither at the position nor at the count, which it keeps or resets. -/
theorem Script.read_at {k : Script} {m : Option http_data} {n₀ j : ℕ} {es es' : List ParserEvent}
    {c' : parser_core} (h : k.read 0 m n₀ es = .ok ⟨c', j, es'⟩) (pos n : ℕ) :
    ∃ j', j' ≤ n ∧ k.read pos m n (es.map (ParserEvent.move pos)) =
      .ok ⟨c', j', es'.map (ParserEvent.move pos)⟩ := by
  induction k generalizing m n₀ n es with
  | next c =>
    cases h
    refine ⟨n, le_refl n, ?_⟩
    rw [Script.read, List.map_append, byte_event_move]
  | error c e => cases h
  | leave c => cases h
  | mark f k ih => exact ih h n
  | reset_nread k ih =>
    obtain ⟨j', hj', hread⟩ := ih h 0
    exact ⟨j', hj'.trans (Nat.zero_le n), hread⟩
  | callback_data f len er c k ih =>
    obtain ⟨j', hj', hread⟩ := ih h n
    refine ⟨j', hj', ?_⟩
    rw [List.map_append] at hread
    rw [Script.read]
    split_ifs at hread ⊢ with hlen
    · exact hread
    · rw [byte_event_move] at hread
      exact hread
  | callback_notify a er c k ih =>
    obtain ⟨j', hj', hread⟩ := ih h n
    rw [List.map_append] at hread
    exact ⟨j', hj', hread⟩
  | headers_complete c k ih =>
    obtain ⟨j', hj', hread⟩ := ih false h n
    rw [List.map_append] at hread
    exact ⟨j', hj', hread⟩

theorem filter_hears_move (settings : http_parser_settings) (pos : ℕ) (es : List ParserEvent) :
    (es.map (ParserEvent.move pos)).filter settings.hears =
      (es.filter settings.hears).map (ParserEvent.move pos) := by
  rw [List.filter_map]
  congr 2
  funext e
  rcases e <;> rfl

theorem count_le (s : state) {k n : ℕ} (h : k ≤ n) : s.count k ≤ s.count n := by
  unfold state.count
  split_ifs
  · exact Nat.succ_le_succ h
  · exact h

theorem count_le_succ (s : state) (n : ℕ) : s.count n ≤ n + 1 := by
  unfold state.count
  split_ifs
  · exact le_refl _
  · exact Nat.le_succ n

/-- One byte at position 0 and what the session hears with it. -/
theorem readsByte_of_read {b : UInt8} (mk : Bool) (as : List http_notify) {c c' : parser_core}
    {j : ℕ} {es : List ParserEvent} (h : read_byte 0 b ⟨c, 0, []⟩ = .ok ⟨c', j, es⟩)
    (hes : es.filter http_session.parser_settings_.hears =
      (if mk then [.data .body 0] else []) ++ as.map .notify) (n : ℕ) :
    ReadsByte b mk (as.map .notify) c n c' (c.state.count n) := by
  intro pos k hk
  obtain ⟨j', hj', hread⟩ := Script.read_at h pos (c.state.count k)
  refine ⟨es.map (ParserEvent.move pos), j', hj'.trans (count_le _ hk), hread, ?_⟩
  rw [filter_hears_move, hes, List.map_append, List.map_map]
  rcases mk <;> rfl

/-- The parser behind a byte of which the session hears nothing. -/
def quiet (c : parser_core) (b : UInt8) : Option parser_core :=
  match read_byte 0 b ⟨c, 0, []⟩ with
  | .ok r =>
    if r.events.filter http_session.parser_settings_.hears = [] then some r.parser else none
  | .error _ => none

/-- A byte of which the session hears nothing is a byte in front of or behind the body, and
counts at most once. -/
theorem readsByte_of_quiet {c c' : parser_core} {b : UInt8} (h : quiet c b = some c') (n : ℕ) :
    ReadsByte b false [] c n c' (n + 1) := by
  unfold quiet at h
  rcases hread : read_byte 0 b ⟨c, 0, []⟩ with s | ⟨p, j, es⟩
  · rw [hread] at h
    cases h
  · rw [hread] at h
    dsimp only at h
    split_ifs at h with hes
    obtain rfl := Option.some.inj h
    intro pos k hk
    obtain ⟨es', k', hk', hbyte⟩ := readsByte_of_read false [] hread hes n pos k hk
    exact ⟨es', k', hk'.trans (count_le_succ _ n), hbyte⟩

/-- Several bytes. -/
def quiets (c : parser_core) (bs : Bytes) : Option parser_core := bs.foldlM quiet c

/-- Bytes behind others. -/
theorem quiets_append (c : parser_core) (bs bs' : Bytes) :
    quiets c (bs ++ bs') = (quiets c bs).bind fun c => quiets c bs' :=
  List.foldlM_append

theorem quiets_cons (c : parser_core) (b : UInt8) (bs : Bytes) :
    quiets c (b :: bs) = (quiet c b).bind fun c => quiets c bs :=
  List.foldlM_cons

/-- Behind bytes that lead to a known parser, that parser reads on. -/
theorem quiets_trans {c c' : parser_core} {bs : Bytes} (h : quiets c bs = some c') (bs' : Bytes) :
    quiets c (bs ++ bs') = quiets c' bs' := by
  rw [quiets_append, h]
  rfl

/-- The same behind one byte. -/
theorem quiets_step {c c' : parser_core} {b : UInt8} (h : quiet c b = some c') (bs : Bytes) :
    quiets c (b :: bs) = quiets c' bs := by
  rw [quiets_cons, h]
  rfl

theorem quiets_singleton {c c' : parser_core} {b : UInt8} (h : quiet c b = some c') :
    quiets c [b] = some c' := quiets_step h []

/-- The bytes of a header, each of which counts. -/
theorem reads_framing {bs : Bytes} {c c' : parser_core} {n : ℕ} (h : quiets c bs = some c')
    (hn : 2 * (n + bs.length) < HTTP_MAX_HEADER_SIZE) :
    Reads (framing bs) c n c' (n + bs.length) := by
  induction bs generalizing c n with
  | nil =>
    obtain rfl := Option.some.inj h
    exact .nil c n
  | cons b bs ih =>
    rw [List.length_cons] at hn ⊢
    have hlen : n + (bs.length + 1) = n + 1 + bs.length := by omega
    rw [hlen] at hn ⊢
    rw [quiets_cons] at h
    rcases hb : quiet c b with _ | c₁
    · rw [hb] at h
      cases h
    · rw [hb] at h
      exact .cons (readsByte_of_quiet hb n) (by omega) (ih h hn)

/-- No byte of a field that is open across calls is heard of. -/
theorem open_field_quiet (s : state) (pos : ℕ) :
    (byte_event (open_field s) pos).filter http_session.parser_settings_.hears = [] := by
  unfold open_field
  split <;> rfl

/-- The byte is consumed, and nothing else. -/
theorem quiet_of_next {c c' : parser_core} {b : UInt8} (h : one_byte c b = .next c') :
    quiet c b = some c' := by
  unfold quiet read_byte
  dsimp only
  rw [h, Script.read]
  dsimp only [List.nil_append]
  rw [if_pos (open_field_quiet c.state 0)]

/-- It begins a field the session does not hear of. -/
theorem quiet_of_mark {c c' : parser_core} {b : UInt8} {f : http_data} (hf : f ≠ .body)
    (h : one_byte c b = .mark f (.next c')) : quiet c b = some c' := by
  unfold quiet read_byte
  dsimp only
  rw [h]
  rcases f
  case body => exact absurd rfl hf
  all_goals rfl

/-! ## The request line -/

/-- The parser behind the method and the space. -/
def after_method (m : http_method) : parser_core :=
  { (http_parser_init .HTTP_REQUEST).toparser_core with
    content_length := ULLONG_MAX
    method := m
    index := UInt8.ofNat (method_strings m).length + 1
    state := .url .s_req_spaces_before_url }

/-- The method and the space behind it, for each of the methods the parser knows. -/
theorem quiets_method (m : http_method) :
    quiets (http_parser_init .HTTP_REQUEST).toparser_core (method_strings m ++ bytes " ") =
      some (after_method m) := by
  cases m <;> decide +kernel

/-- The states of a URL that a space may end. -/
def url_state.may_end : url_state → Bool
  | .s_req_server | .s_req_server_with_at | .s_req_path | .s_req_query_string_start
  | .s_req_query_string | .s_req_fragment_start | .s_req_fragment => true
  | _ => false

/-- No white space is part of a URL. -/
theorem not_space_of_alive {s : url_state} {ch : UInt8} (h : parse_url_char s ch ≠ .s_dead) :
    ¬ (ch = byte ' ' ∨ ch = byte '\r' ∨ ch = byte '\n') := by
  intro hch
  unfold parse_url_char at h
  rw [if_pos hch] at h
  exact h rfl

/-- Nothing leads out of the state of a URL that is none. -/
theorem parse_url_char_dead (ch : UInt8) : parse_url_char .s_dead ch = .s_dead := by
  unfold parse_url_char
  split_ifs <;> rfl

/-- A character of a URL. -/
theorem quiet_url {c : parser_core} {s : url_state} {ch : UInt8} (hs : c.state = .url s)
    (hm : c.method ≠ .HTTP_CONNECT) (halive : parse_url_char s ch ≠ .s_dead) :
    quiet c ch = some { c with state := .url (parse_url_char s ch) } := by
  have hspace := not_space_of_alive halive
  have hurl : ∀ d : parser_core, update_url d s ch =
      .next { d with state := .url (parse_url_char s ch) } := by
    intro d
    unfold update_url
    dsimp only
    rw [if_neg (by simpa using halive)]
  -- the first byte of the URL sets its mark, the others find it set
  have hone : one_byte c ch = .next { c with state := .url (parse_url_char s ch) } ∨
      one_byte c ch = .mark .url (.next { c with state := .url (parse_url_char s ch) }) := by
    rcases s
    all_goals simp only [one_byte, single, hs]
    case s_dead => exact absurd (parse_url_char_dead ch) halive
    case s_req_spaces_before_url =>
      rw [s_req_spaces_before_url, if_neg fun h => hspace (Or.inl h), if_neg hm, hurl]
      exact Or.inr rfl
    case s_req_schema | s_req_schema_slash | s_req_schema_slash_slash | s_req_server_start =>
      rw [s_req_before_server, if_neg hspace, hurl]
      exact Or.inl rfl
    all_goals
      rw [s_req_in_url, if_neg fun h => hspace (Or.inl h), if_neg fun h => hspace (Or.inr h), hurl]
      exact Or.inl rfl
  rcases hone with hone | hone
  · exact quiet_of_next hone
  · exact quiet_of_mark (by decide) hone

theorem foldl_parse_url_char_dead (url : Bytes) : url.foldl parse_url_char .s_dead = .s_dead := by
  induction url with
  | nil => rfl
  | cons ch url ih =>
    rw [List.foldl_cons, parse_url_char_dead]
    exact ih

/-- A URL. -/
theorem quiets_url (url : Bytes) : ∀ (c : parser_core) (s : url_state), c.state = .url s →
    c.method ≠ .HTTP_CONNECT → url.foldl parse_url_char s ≠ .s_dead →
    quiets c url = some { c with state := .url (url.foldl parse_url_char s) } := by
  induction url with
  | nil =>
    intro c s hs _ _
    rw [List.foldl_nil, ← hs]
    rfl
  | cons ch url ih =>
    intro c s hs hm halive
    rw [List.foldl_cons] at halive ⊢
    have hch : parse_url_char s ch ≠ .s_dead := by
      intro hdead
      rw [hdead, foldl_parse_url_char_dead] at halive
      exact halive rfl
    rw [quiets_step (quiet_url hs hm hch)]
    exact ih _ _ rfl hm halive

/-- The space behind a URL. -/
theorem quiet_end_url {c : parser_core} {s : url_state} (hs : c.state = .url s)
    (hend : s.may_end) : quiet c (byte ' ') = some { c with state := .s_req_http_start } := by
  unfold quiet read_byte
  rcases s
  all_goals
    try exact absurd hend Bool.false_ne_true
  all_goals
    simp only [one_byte, single, hs]
    rfl

/-- What behind a request line is left of it: a version with one digit on either side. -/
theorem quiets_version (c : parser_core) {major minor : UInt8}
    (hmajor : byte '1' ≤ major ∧ major ≤ byte '9') (hminor : IS_NUM minor) :
    quiets { c with state := .s_req_http_start }
        (bytes "HTTP/" ++ [major] ++ bytes "." ++ [minor] ++ bytes "\r\n") =
      some { c with
        http_major := major.toNat - 48
        http_minor := minor.toNat - 48
        state := .s_header_field_start } := by
  have hname : quiets { c with state := .s_req_http_start } (bytes "HTTP/") =
      some { c with state := .s_req_first_http_major } := rfl
  have hfirst : quiet { c with state := .s_req_first_http_major } major =
      some { c with http_major := major.toNat - 48, state := .s_req_http_major } := by
    have hdigit : ¬ (major < byte '1' ∨ byte '9' < major) := by
      rintro (h | h)
      · exact absurd hmajor.1 (UInt8.not_le.mpr h)
      · exact absurd hmajor.2 (UInt8.not_le.mpr h)
    refine quiet_of_next ?_
    unfold one_byte
    dsimp only [single, s_req_first_http_major]
    rw [if_neg hdigit]
  have hdot : quiets { c with http_major := major.toNat - 48, state := .s_req_http_major }
      (bytes ".") =
      some { c with http_major := major.toNat - 48, state := .s_req_first_http_minor } := rfl
  have hsecond : quiet { c with http_major := major.toNat - 48, state := .s_req_first_http_minor }
      minor = some { c with
        http_major := major.toNat - 48
        http_minor := minor.toNat - 48
        state := .s_req_http_minor } := by
    refine quiet_of_next ?_
    unfold one_byte
    dsimp only [single, first_http_minor]
    rw [if_neg (not_not_intro hminor)]
  rw [List.append_assoc, List.append_assoc, List.append_assoc, quiets_trans hname,
    quiets_trans (quiets_singleton hfirst), quiets_trans hdot,
    quiets_trans (quiets_singleton hsecond)]
  rfl

/-- A request line: the method, the URL and the digits of the version. -/
structure RequestLine where
  method : http_method
  url : Bytes
  major : UInt8
  minor : UInt8

/-- The line on the wire. -/
def RequestLine.wire (l : RequestLine) : Bytes :=
  method_strings l.method ++ bytes " " ++ l.url ++ bytes " " ++
    (bytes "HTTP/" ++ [l.major] ++ bytes "." ++ [l.minor] ++ bytes "\r\n")

/-- A line the parser takes. Behind `CONNECT` it takes no more than the headers. -/
structure RequestLine.Valid (l : RequestLine) : Prop where
  method : l.method ≠ .HTTP_CONNECT
  url : (l.url.foldl parse_url_char .s_req_spaces_before_url).may_end
  major : byte '1' ≤ l.major ∧ l.major ≤ byte '9'
  minor : IS_NUM l.minor

/-- What in a parser decides how the body is framed, and where the message ends. -/
structure Frame where
  type_ : http_parser_type
  method : http_method
  content_length : ℕ
  chunked : Bool
  trailing : Bool
  skipbody : Bool
  wants_upgrade : Bool
  upgrade : Bool
  deriving DecidableEq, Repr

/-- What a parser knows of the frame. -/
def parser_core.frame (c : parser_core) : Frame where
  type_ := c.type_
  method := c.method
  content_length := c.content_length
  chunked := c.flags.F_CHUNKED
  trailing := c.flags.F_TRAILING
  skipbody := c.flags.F_SKIPBODY
  wants_upgrade := c.flags.F_UPGRADE
  upgrade := c.upgrade

/-- The frame of a request with the given method, before a header has said anything. -/
def Frame.fresh (m : http_method) : Frame where
  type_ := .HTTP_REQUEST
  method := m
  content_length := ULLONG_MAX
  chunked := false
  trailing := false
  skipbody := false
  wants_upgrade := false
  upgrade := false

/-- **The request line** leads to the header fields. -/
theorem read_request_line {l : RequestLine} (h : l.Valid) :
    ∃ c, quiets (http_parser_init .HTTP_REQUEST).toparser_core l.wire = some c ∧
      c.state = .s_header_field_start ∧ c.frame = .fresh l.method := by
  have halive : l.url.foldl parse_url_char .s_req_spaces_before_url ≠ .s_dead := by
    intro hdead
    have hend := h.url
    rw [hdead] at hend
    exact absurd hend Bool.false_ne_true
  have hurl := quiets_url l.url (after_method l.method) _ rfl h.method halive
  have hend := quiet_end_url (c := { after_method l.method with
    state := .url (l.url.foldl parse_url_char .s_req_spaces_before_url) }) rfl h.url
  have hspace : quiets { after_method l.method with
      state := .url (l.url.foldl parse_url_char .s_req_spaces_before_url) } (bytes " ") =
        some { after_method l.method with state := .s_req_http_start } := quiets_singleton hend
  rw [RequestLine.wire, List.append_assoc, List.append_assoc, quiets_trans (quiets_method _),
    quiets_trans hurl, quiets_trans hspace]
  exact ⟨_, quiets_version _ h.major h.minor, rfl, rfl⟩

/-! ## The name of a header field -/

/-- The first character of a name. -/
theorem quiet_name_first {c : parser_core} (hs : c.state = .s_header_field_start) {ch : UInt8}
    (htoken : TOKEN ch ≠ 0) : quiet c ch = some { c with
      index := 0
      state := .s_header_field
      header_state := first_header_state (TOKEN ch) } := by
  have hcr : ch ≠ byte '\r' := by
    rintro rfl
    exact htoken (by decide)
  have hlf : ch ≠ byte '\n' := by
    rintro rfl
    exact htoken (by decide)
  refine quiet_of_mark (f := .header_field) (by decide) ?_
  simp only [one_byte, single, hs]
  rw [s_header_field_start, if_neg hcr, if_neg hlf, if_neg htoken]

/-- The characters behind it. The induction is on them. -/
theorem quiets_name_rest (name : Bytes) : ∀ c : parser_core, c.state = .s_header_field →
    (∀ ch ∈ name, TOKEN ch ≠ 0) → quiets c name = some (name.foldl field_char c) := by
  induction name with
  | nil => exact fun c _ _ => rfl
  | cons ch name ih =>
    intro c hs htoken
    have hch : quiet c ch = some (field_char c ch) := by
      refine quiet_of_next ?_
      simp only [one_byte, hs]
      rw [field_byte, if_pos (htoken ch List.mem_cons_self)]
    rw [quiets_step hch]
    exact ih _ ((field_char_state ch).trans hs) fun d hd => htoken d (List.mem_cons_of_mem _ hd)

/-- The name of a header field. -/
theorem quiets_name {c : parser_core} (hs : c.state = .s_header_field_start) {name : Bytes}
    (hne : name ≠ []) (htoken : ∀ ch ∈ name, TOKEN ch ≠ 0) :
    quiets c name = some (read_name { c with state := .s_header_field } name) := by
  obtain ⟨first, rest, rfl⟩ := List.exists_cons_of_ne_nil hne
  rw [quiets_step (quiet_name_first hs (htoken first List.mem_cons_self))]
  exact quiets_name_rest rest _ rfl fun d hd => htoken d (List.mem_cons_of_mem _ hd)

/-- A character of a name says nothing of the body. -/
theorem field_char_frame (c : parser_core) (ch : UInt8) : (field_char c ch).frame = c.frame := by
  unfold field_char match_name
  split <;> dsimp only <;> split_ifs <;> rfl

/-- A name leaves the state and the frame. -/
theorem read_name_keeps (c : parser_core) (name : Bytes) :
    (read_name c name).state = c.state ∧ (read_name c name).frame = c.frame := by
  have hfold : ∀ (rest : Bytes) (d : parser_core),
      (rest.foldl field_char d).state = d.state ∧ (rest.foldl field_char d).frame = d.frame := by
    intro rest
    induction rest with
    | nil => exact fun d => ⟨rfl, rfl⟩
    | cons ch rest ih =>
      intro d
      obtain ⟨hstate, hframe⟩ := ih (field_char d ch)
      exact ⟨hstate.trans (field_char_state ch), hframe.trans (field_char_frame d ch)⟩
  rcases name with _ | ⟨first, rest⟩
  · exact ⟨rfl, rfl⟩
  · exact hfold rest _

/-- The colon behind a name. -/
theorem quiet_colon {c : parser_core} (hs : c.state = .s_header_field) :
    quiet c (byte ':') = some { c with state := .s_header_value_discard_ws } := by
  unfold quiet read_byte
  simp only [one_byte, hs]
  rfl

/-! ## The value of a header field -/

/-- The header fields whose values do not frame the body. -/
def header_states.harmless : header_states → Bool
  | .h_content_length | .h_transfer_encoding | .h_upgrade | .h_matching_transfer_encoding_chunked
  | .h_transfer_encoding_chunked => false
  | _ => true

/-- The parser is in the value of such a field. -/
structure InValue (c : parser_core) : Prop where
  state : c.state = .s_header_value_discard_ws ∨ c.state = .s_header_value
  harmless : c.header_state.harmless

theorem connection_token_harmless (ch : UInt8) : (connection_token ch).harmless := by
  unfold connection_token
  split_ifs <;> rfl

/-- The first character. -/
theorem value_start_harmless {c : parser_core} (h : c.header_state.harmless) (ch : UInt8) :
    ∃ c', value_start c ch = some c' ∧ c'.state = c.state ∧ c'.header_state.harmless ∧
      c'.frame = c.frame := by
  unfold value_start
  rcases hh : c.header_state
  all_goals
    rw [hh] at h
    try exact absurd h Bool.false_ne_true
  case h_connection => exact ⟨_, rfl, rfl, connection_token_harmless _, rfl⟩
  case h_matching_connection_token_start => exact ⟨_, rfl, rfl, by rw [hh]; rfl, rfl⟩
  all_goals exact ⟨_, rfl, rfl, rfl, rfl⟩

theorem match_name_harmless (c : parser_core) (name : Bytes) (ch : UInt8)
    {matching matched mismatch : header_states} (h : matching.harmless) (h' : matched.harmless)
    (h'' : mismatch.harmless) :
    (match_name c name ch matching matched mismatch).header_state.harmless := by
  unfold match_name
  dsimp only
  split_ifs
  · exact h''
  · exact h'
  · exact h

/-- Behind a token of a `Connection` header the next one may begin, or the header state stays. -/
theorem after_token_harmless {c d : parser_core} (ch : UInt8) {s : state} (hc : c.state = s)
    (hd : d.state = s) (hframe : d.frame = c.frame) (h : c.header_state.harmless) :
    (after_token c d ch).state = s ∧ (after_token c d ch).header_state.harmless ∧
      (after_token c d ch).frame = c.frame := by
  unfold after_token
  split_ifs
  · exact ⟨hd, rfl, hframe⟩
  · exact ⟨hc, rfl, rfl⟩
  · exact ⟨hc, h, rfl⟩

/-- A character more. -/
theorem value_char_harmless {c : parser_core} (hs : c.state = .s_header_value)
    (h : c.header_state.harmless) (ch : UInt8) :
    ∃ c', value_char c ch = some c' ∧ c'.state = .s_header_value ∧ c'.header_state.harmless ∧
      c'.frame = c.frame := by
  unfold value_char
  rcases hh : c.header_state
  all_goals
    rw [hh] at h
    try exact absurd h Bool.false_ne_true
  case h_general | h_connection => exact ⟨c, rfl, hs, by rw [hh]; rfl, rfl⟩
  case h_matching_connection_token_start =>
    dsimp only
    split_ifs
    · exact ⟨_, rfl, hs, connection_token_harmless _, rfl⟩
    · exact ⟨_, rfl, hs, by rw [hh]; rfl, rfl⟩
    · exact ⟨_, rfl, hs, rfl, rfl⟩
  case h_matching_connection_keep_alive | h_matching_connection_close |
      h_matching_connection_upgrade =>
    exact ⟨_, rfl, hs, match_name_harmless _ _ _ rfl rfl rfl, rfl⟩
  case h_matching_connection_token =>
    dsimp only
    split_ifs
    · exact ⟨_, rfl, hs, rfl, rfl⟩
    · exact ⟨_, rfl, hs, by rw [hh]; rfl, rfl⟩
  case h_connection_keep_alive | h_connection_close | h_connection_upgrade =>
    exact ⟨_, rfl, after_token_harmless ch hs hs rfl (by rw [hh]; rfl)⟩
  all_goals exact ⟨_, rfl, rfl, rfl, rfl⟩

/-- A character of a value. -/
theorem quiet_value {c : parser_core} {ch : UInt8} (h : InValue c) (hch : ¬ line_end ch) :
    ∃ c', quiet c ch = some c' ∧ InValue c' ∧ c'.frame = c.frame := by
  have hcr : ch ≠ byte '\r' := fun h => hch (Or.inl h)
  have hlf : ch ≠ byte '\n' := fun h => hch (Or.inr h)
  obtain ⟨hs | hs, hharmless⟩ := h
  · by_cases hspace : ch = byte ' ' ∨ ch = byte '\t'
    · refine ⟨c, ?_, ⟨Or.inl hs, hharmless⟩, rfl⟩
      refine quiet_of_next ?_
      simp only [one_byte, single, hs]
      rw [s_header_value_discard_ws, if_pos hspace]
    · -- the first character, which sets the mark
      obtain ⟨c', hstart, hstate, hharmless', hframe⟩ := value_start_harmless
        (c := { c with state := .s_header_value, index := 0 }) hharmless ch
      refine ⟨c', ?_, ⟨Or.inr hstate, hharmless'⟩, hframe⟩
      refine quiet_of_mark (f := .header_value) (by decide) ?_
      simp only [one_byte, single, hs]
      rw [s_header_value_discard_ws, if_neg hspace, if_neg hcr, if_neg hlf, s_header_value_start]
      dsimp only
      rw [hstart]
  · obtain ⟨c', hchar, hstate, hharmless', hframe⟩ := value_char_harmless hs hharmless ch
    refine ⟨c', ?_, ⟨Or.inr hstate, hharmless'⟩, hframe⟩
    refine quiet_of_next ?_
    simp only [one_byte, hs]
    rw [value_byte, if_neg hcr, if_neg hlf, hchar]

/-- A value. -/
theorem quiets_value (value : Bytes) (hvalue : ∀ ch ∈ value, ¬ line_end ch) :
    ∀ c : parser_core, InValue c →
      ∃ c', quiets c value = some c' ∧ InValue c' ∧ c'.frame = c.frame := by
  induction value with
  | nil => exact fun c hc => ⟨c, rfl, hc, rfl⟩
  | cons ch value ih =>
    intro c hc
    obtain ⟨c₁, hch, hc₁, hframe₁⟩ := quiet_value hc (hvalue ch List.mem_cons_self)
    obtain ⟨c₂, hrest, hc₂, hframe₂⟩ := ih (fun d hd => hvalue d (List.mem_cons_of_mem _ hd)) c₁ hc₁
    refine ⟨c₂, ?_, hc₂, hframe₂.trans hframe₁⟩
    rw [quiets_step hch]
    exact hrest

/-! ## Between two header fields -/

/-- The states between two header fields. -/
def state.at_line : state → Bool
  | .s_header_field_start | .s_header_value_lws | .s_header_value_discard_lws => true
  | _ => false

/-- The parser in front of a byte there that is no white space. -/
def next_line (c : parser_core) : parser_core :=
  if c.state = .s_header_field_start then c
  else { finish_header c with state := .s_header_field_start }

theorem next_line_state (c : parser_core) : (next_line c).state = .s_header_field_start := by
  unfold next_line
  split_ifs with hs
  · exact hs
  · rfl

/-- The byte shows that the line does not go on, and is read as the first one of the next line.
-/
theorem quiet_next_line {c : parser_core} {ch : UInt8} (h : c.state.at_line)
    (hch : ¬ (ch = byte ' ' ∨ ch = byte '\t')) : quiet c ch = quiet (next_line c) ch := by
  unfold next_line
  split_ifs with hs
  · rfl
  · unfold quiet read_byte
    rcases hstate : c.state
    all_goals
      rw [hstate] at h hs
      first
        | exact absurd h Bool.false_ne_true
        | exact absurd rfl hs
        | skip
    all_goals
      simp only [one_byte, single, hstate]
    case s_header_value_lws =>
      rw [s_header_value_lws, if_neg hch]
      rfl
    case s_header_value_discard_lws =>
      rw [s_header_value_discard_lws, if_neg hch]
      rfl

/-- The same, with what is behind that byte. -/
theorem quiets_next_line {c : parser_core} {ch : UInt8} (h : c.state.at_line)
    (hch : ¬ (ch = byte ' ' ∨ ch = byte '\t')) (bs : Bytes) :
    quiets c (ch :: bs) = quiets (next_line c) (ch :: bs) := by
  rw [quiets_cons, quiets_cons, quiet_next_line h hch]

/-- The flag of a header does not depend on the state. -/
theorem finish_header_state (c : parser_core) (s : state) :
    finish_header { c with state := s } = { finish_header c with state := s } := by
  obtain ⟨type_, flags, state, header_state⟩ := c
  rcases header_state <;> rfl

/-- The end of a line. -/
theorem quiets_line_end {c : parser_core}
    (hs : c.state = .s_header_value_discard_ws ∨ c.state = .s_header_value) :
    ∃ c', quiets c (bytes "\r\n") = some c' ∧ c'.state.at_line ∧
      next_line c' = { finish_header c with state := .s_header_field_start } := by
  have hfinish := finish_header_state c
  have hbytes : ∀ c : parser_core, quiets c (bytes "\r\n") =
      (quiet c (byte '\r')).bind fun c => (quiet c (byte '\n')).bind some :=
    fun c => by
      have hcons : bytes "\r\n" = [byte '\r', byte '\n'] := rfl
      rw [hcons, quiets_cons]
      rfl
  rcases hs with hs | hs
  · -- the value is empty, and its callback waits for the next line
    have hcr : quiet c (byte '\r') =
        some { c with state := .s_header_value_discard_ws_almost_done } := by
      unfold quiet read_byte
      simp only [one_byte, single, hs]
      rfl
    refine ⟨{ c with state := .s_header_value_discard_lws }, ?_, rfl, ?_⟩
    · rw [hbytes, hcr]
      rfl
    · unfold next_line
      rw [if_neg (by simp), hfinish]
  · have hcr : quiet c (byte '\r') = some { c with state := .s_header_almost_done } := by
      unfold quiet read_byte
      simp only [one_byte, hs]
      rfl
    refine ⟨{ c with state := .s_header_value_lws }, ?_, rfl, ?_⟩
    · rw [hbytes, hcr]
      rfl
    · unfold next_line
      rw [if_neg (by simp), hfinish]

end MyWarehouse

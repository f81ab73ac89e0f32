/-
The assertions of `http_parser_execute`.

`Asserts` is what they say of a parser between two bytes, with what is needed to carry them
on. Every byte keeps it (`one_byte_asserts`), whatever the callbacks return.
-/
import MyWarehouse.ParserBytewise

set_option autoImplicit false

namespace MyWarehouse

/-- The header states of a field name. -/
def header_states.of_field : header_states → Bool
  | .h_general | .h_C | .h_CO | .h_CON | .h_matching_connection | .h_matching_proxy_connection
  | .h_matching_content_length | .h_matching_transfer_encoding | .h_matching_upgrade
  | .h_connection | .h_content_length | .h_transfer_encoding | .h_upgrade => true
  | _ => false

/-- The header states of a value. -/
def header_states.of_value : header_states → Bool
  | .h_general | .h_content_length | .h_matching_transfer_encoding_chunked
  | .h_matching_connection_token_start | .h_matching_connection_keep_alive
  | .h_matching_connection_close | .h_matching_connection_upgrade | .h_matching_connection_token
  | .h_transfer_encoding_chunked | .h_connection_keep_alive | .h_connection_close
  | .h_connection_upgrade => true
  | _ => false

/-- What the assertions say of a parser in front of a byte, by its state. In `s_req_method`
there is none, but the matcher is read at `index`. -/
def Asserted (c : parser_core) : Prop :=
  match c.state with
  | .s_req_method => c.index.toNat ≤ (method_strings c.method).length
  | .s_header_field => c.header_state.of_field
  | .s_header_value => c.header_state.of_value
  | .s_body_identity => c.content_length ≠ 0 ∧ c.content_length ≠ ULLONG_MAX
  | .s_chunk_size_start | .s_chunk_data_done => c.flags.F_CHUNKED
  | .s_chunk_size | .s_chunk_parameters | .s_chunk_size_almost_done =>
    c.flags.F_CHUNKED ∧ c.content_length ≠ ULLONG_MAX
  | .s_chunk_data => c.flags.F_CHUNKED ∧ c.content_length ≠ 0 ∧ c.content_length ≠ ULLONG_MAX
  | .s_chunk_data_almost_done => c.flags.F_CHUNKED ∧ c.content_length = 0
  | _ => True

/-- What is carried from byte to byte: the assertion of the state the parser is in, and that
`content_length` is a value of 64 bits, without which a length that is counted down or multiplied
by 16 could not be bounded. -/
structure Asserts (c : parser_core) : Prop where
  bounded : c.content_length ≤ ULLONG_MAX
  here : Asserted c

/-! ## Every byte keeps them -/

section Asserts

variable {c : parser_core}

/-- An error is stored in `http_errno` only, which no assertion speaks of. This is how a callback
that asks for an error is dealt with everywhere below. -/
theorem asserts_errno (c : parser_core) (e : http_errno) (h : Asserts c) :
    Asserts { c with http_errno := e } :=
  ⟨h.bounded, h.here⟩

/-- The state behind a message asserts nothing: it is a start state or `s_dead`. -/
theorem asserts_new_message (h : c.content_length ≤ ULLONG_MAX) :
    Asserts { c with state := NEW_MESSAGE c } := by
  refine ⟨h, ?_⟩
  rcases hnew : NEW_MESSAGE c
  all_goals first | trivial | skip
  all_goals
    unfold NEW_MESSAGE start_state at hnew
    split_ifs at hnew

/-- The end of a message, and what the script goes on with behind the callback. -/
theorem message_complete_asserts {k : parser_core → Script} (h : c.content_length ≤ ULLONG_MAX)
    (hk : ∀ c, Asserts c → (k c).All Asserts) : (message_complete c k).All Asserts :=
  ⟨asserts_new_message h, hk _ (asserts_new_message h)⟩

/-- The state `s_message_done` is run in the same round as the last byte of a body. -/
theorem s_message_done_asserts (h : c.content_length ≤ ULLONG_MAX) :
    (s_message_done c).All Asserts := by
  refine message_complete_asserts h fun c hc => ?_
  split_ifs
  · exact hc
  · exact hc

/-- A byte that `STRICT_CHECK` refuses leaves the parser as it is, with an error. -/
theorem strict_check_asserts {cond : Prop} [Decidable cond] {k : Script} (hc : Asserts c)
    (hk : ¬ cond → k.All Asserts) : (Script.strict_check c cond k).All Asserts := by
  unfold Script.strict_check
  split_ifs with h
  · exact hc
  · exact hk h

/-- Behind the headers: chunks are begun only with `F_CHUNKED` set, and a body of known length
only where the length is neither 0 nor `ULLONG_MAX`. These are the assertions of the states the
parser goes to. -/
theorem s_headers_done_asserts (hc : Asserts c) (ch : UInt8) :
    (s_headers_done c ch).All Asserts := by
  refine strict_check_asserts hc fun _ => ?_
  have hb := hc.bounded
  show Script.All Asserts (if _ then _ else _)
  split_ifs with _ _ hchunked hzero hknown
  · -- the rest is in another protocol
    exact message_complete_asserts hb fun c hc => hc
  · -- a response that has no body
    exact message_complete_asserts hb fun c hc => hc
  · exact ⟨hb, hchunked⟩
  · exact message_complete_asserts hb fun c hc => hc
  · exact ⟨hb, hzero, hknown⟩
  · -- no length is given, and none is needed
    exact message_complete_asserts hb fun c hc => hc
  · exact ⟨hb, trivial⟩

/-- The empty line. With a trailer behind it the message ends; without one the next state runs in
the same round. -/
theorem s_headers_almost_done_asserts (hc : Asserts c) (ch : UInt8) :
    (s_headers_almost_done c ch).All Asserts := by
  refine strict_check_asserts hc fun _ => ?_
  have hb := hc.bounded
  show Script.All Asserts (if _ then _ else _)
  split_ifs
  · exact ⟨⟨hb, trivial⟩, s_message_done_asserts hb⟩
  · refine ⟨⟨hb, trivial⟩, fun _ => ?_⟩
    apply s_headers_done_asserts
    exact ⟨hb, trivial⟩

/-- The first character of a name sets one of the header states that the loop over the name
knows. -/
theorem s_header_field_start_asserts (hc : Asserts c) (ch : UInt8) :
    (s_header_field_start c ch).All Asserts := by
  have hb := hc.bounded
  unfold s_header_field_start
  split_ifs
  · exact ⟨hb, trivial⟩
  · apply s_headers_almost_done_asserts
    exact ⟨hb, trivial⟩
  · exact hc
  · refine ⟨hb, ?_⟩
    show (first_header_state (TOKEN ch)).of_field
    unfold first_header_state
    split_ifs <;> rfl

/-- A character of a name changes the header state and the index, never the state. -/
theorem field_char_state (ch : UInt8) : (field_char c ch).state = c.state := by
  unfold field_char match_name
  split <;> dsimp only <;> split_ifs <;> rfl

/-- Nor does it touch the length. -/
theorem field_char_content_length (ch : UInt8) :
    (field_char c ch).content_length = c.content_length := by
  unfold field_char match_name
  split <;> dsimp only <;> split_ifs <;> rfl

/-- The header states of a name go over into each other, so that the loop over a name never comes
to `assert(0 && "Unknown header_state")`. -/
theorem field_char_of_field (ch : UInt8) (h : c.header_state.of_field) :
    (field_char c ch).header_state.of_field := by
  unfold field_char match_name
  split
  all_goals first
    | exact h
    | dsimp only
      split_ifs <;> first | rfl | exact h

/-- A byte in the loop over a name. -/
theorem field_byte_asserts (hc : Asserts c) (hs : c.state = .s_header_field) (ch : UInt8) :
    (field_byte c ch).All Asserts := by
  have hb := hc.bounded
  have hfield : c.header_state.of_field := by
    have hhere := hc.here
    rwa [Asserted, hs] at hhere
  unfold field_byte
  split_ifs
  · refine ⟨by rw [field_char_content_length]; exact hb, ?_⟩
    rw [Asserted, field_char_state, hs]
    exact field_char_of_field ch hfield
  · exact ⟨⟨hb, trivial⟩, hb, trivial⟩
  · exact hc

/-- A decimal digit is at most 9. -/
theorem digit_le (ch : UInt8) (h : IS_NUM ch) : ch.toNat - 48 ≤ 9 := by
  simp only [IS_NUM, Bool.and_eq_true, decide_eq_true_eq, UInt8.le_iff_toNat_le] at h
  have hnine : (byte '9').toNat = 57 := rfl
  omega

/-- The token of a `Connection` header begins in a header state of a value. -/
theorem connection_token_of_value (ch : UInt8) : (connection_token ch).of_value := by
  unfold connection_token
  split_ifs <;> rfl

/-- Where a value starts, the state stays and the header state becomes one of a value. -/
theorem value_start_spec {c' : parser_core} {ch : UInt8} (h : value_start c ch = some c') :
    c'.state = c.state ∧ c'.header_state.of_value ∧
      (c'.content_length = c.content_length ∨ c'.content_length ≤ 9) := by
  unfold value_start at h
  rcases hh : c.header_state <;> simp only [hh] at h
  case h_transfer_encoding =>
    split_ifs at h <;> cases h <;> exact ⟨rfl, rfl, Or.inl rfl⟩
  case h_content_length =>
    -- the only value that sets the length, to its first digit
    split_ifs at h with hnum
    cases h
    exact ⟨rfl, rfl, Or.inr (digit_le ch hnum)⟩
  case h_connection =>
    cases h
    exact ⟨rfl, connection_token_of_value _, Or.inl rfl⟩
  case h_matching_connection_token_start =>
    cases h
    exact ⟨rfl, by rw [hh]; rfl, Or.inl rfl⟩
  all_goals
    cases h
    exact ⟨rfl, rfl, Or.inl rfl⟩

/-- Only the first character of a `Content-Length` can be refused. -/
theorem value_start_none {ch : UInt8} (h : value_start c ch = none) :
    c.header_state = .h_content_length := by
  unfold value_start at h
  rcases hh : c.header_state <;> simp only [hh] at h
  case h_transfer_encoding => split_ifs at h
  all_goals first | rfl | cases h

/-- Inside a value the state stays and the header state remains one of a value. -/
theorem value_char_spec {c' : parser_core} {ch : UInt8} (h : value_char c ch = some c')
    (hs : c.state = .s_header_value) (hv : c.header_state.of_value)
    (hb : c.content_length ≤ ULLONG_MAX) :
    c'.state = .s_header_value ∧ c'.header_state.of_value ∧ c'.content_length ≤ ULLONG_MAX := by
  unfold value_char match_name after_token at h
  rcases hh : c.header_state <;> simp only [hh] at h hv
  all_goals try cases hv
  case h_content_length =>
    split_ifs at h
    · cases h
      exact ⟨hs, by rw [hh]; rfl, hb⟩
    · cases h
      refine ⟨hs, rfl, ?_⟩
      -- the sum is one of 64 bits, as in the source
      have hlt : append_digit c.content_length ch % 2 ^ 64 < 2 ^ 64 := Nat.mod_lt _ (by omega)
      unfold ULLONG_MAX
      show append_digit c.content_length ch % 2 ^ 64 ≤ _
      omega
  case h_matching_connection_token_start =>
    split_ifs at h <;> cases h
    · exact ⟨hs, connection_token_of_value _, hb⟩
    · exact ⟨hs, by rw [hh]; rfl, hb⟩
    · exact ⟨hs, rfl, hb⟩
  case h_general =>
    cases h
    exact ⟨hs, by rw [hh]; rfl, hb⟩
  all_goals first
    | cases h
      refine ⟨hs, ?_, hb⟩
      dsimp only
      split_ifs <;> rfl
    | split_ifs at h <;> cases h <;> refine ⟨hs, ?_, hb⟩ <;> first | rfl | (rw [hh]; rfl)

/-- A value begins. The header state of the name becomes one that the loop over a value knows,
also where the value is refused. -/
theorem s_header_value_start_asserts (hc : Asserts c) (ch : UInt8) :
    (s_header_value_start c ch).All Asserts := by
  have hb := hc.bounded
  unfold s_header_value_start
  dsimp only [Script.All]
  rcases hv : value_start { c with state := .s_header_value, index := 0 } ch with _ | c'
  · -- only a `Content-Length` can fail here
    refine ⟨hb, ?_⟩
    show c.header_state.of_value
    rw [value_start_none hv]
    rfl
  · obtain ⟨hs, hof, hlen⟩ := value_start_spec hv
    refine ⟨?_, ?_⟩
    · rcases hlen with hlen | hlen
      · rw [hlen]
        exact hb
      · unfold ULLONG_MAX
        omega
    · rw [Asserted, hs]
      exact hof

/-- White space in front of a value, and a value that is empty. -/
theorem s_header_value_discard_ws_asserts (hc : Asserts c) (ch : UInt8) :
    (s_header_value_discard_ws c ch).All Asserts := by
  have hb := hc.bounded
  unfold s_header_value_discard_ws
  split_ifs
  · exact hc
  · exact ⟨hb, trivial⟩
  · exact ⟨hb, trivial⟩
  · exact s_header_value_start_asserts hc ch

/-- The flag that a header sets leaves the length. -/
theorem finish_header_content_length (c : parser_core) :
    (finish_header c).content_length = c.content_length := by
  unfold finish_header
  split <;> rfl

/-- Behind a value: it may go on with white space, or the next header begins. -/
theorem s_header_value_lws_asserts (hc : Asserts c) (ch : UInt8) :
    (s_header_value_lws c ch).All Asserts := by
  have hb := hc.bounded
  unfold s_header_value_lws
  split_ifs
  · apply s_header_value_start_asserts
    exact ⟨hb, trivial⟩
  · apply s_header_field_start_asserts
    exact ⟨by simp only [finish_header_content_length]; exact hb, trivial⟩

/-- Behind an empty value, whose callback comes here. -/
theorem s_header_value_discard_lws_asserts (hc : Asserts c) (ch : UInt8) :
    (s_header_value_discard_lws c ch).All Asserts := by
  have hb := hc.bounded
  unfold s_header_value_discard_lws
  split_ifs
  · exact ⟨hb, trivial⟩
  · have hnext : Asserts { finish_header c with state := .s_header_field_start } :=
      ⟨by simp only [finish_header_content_length]; exact hb, trivial⟩
    exact ⟨hnext, s_header_field_start_asserts hnext ch⟩

/-- The line feed of a header. -/
theorem s_header_almost_done_asserts (hc : Asserts c) (ch : UInt8) :
    (s_header_almost_done c ch).All Asserts :=
  strict_check_asserts hc fun _ => ⟨hc.bounded, trivial⟩

/-- A byte in the loop over a value, which therefore never comes to `assert(0 && "Shouldn't get
here.")`. -/
theorem value_byte_asserts (hc : Asserts c) (hs : c.state = .s_header_value) (ch : UInt8) :
    (value_byte c ch).All Asserts := by
  have hb := hc.bounded
  have hvalue : c.header_state.of_value := by
    have hhere := hc.here
    rwa [Asserted, hs] at hhere
  unfold value_byte
  split_ifs
  · exact ⟨⟨hb, trivial⟩, hb, trivial⟩
  · refine ⟨⟨hb, trivial⟩, ?_⟩
    apply s_header_almost_done_asserts
    exact ⟨hb, trivial⟩
  · rcases hv : value_char c ch with _ | c'
    · exact hc
    · obtain ⟨hs', hof, hlen⟩ := value_char_spec hv hs hvalue hb
      refine ⟨hlen, ?_⟩
      rw [Asserted, hs']
      exact hof

/-- A byte of a body of known length: the length is counted down, and the last byte leaves the
state. -/
theorem body_byte_asserts (hc : Asserts c) (hs : c.state = .s_body_identity) :
    (body_byte c).All Asserts := by
  have hb := hc.bounded
  have hhere := hc.here
  rw [Asserted, hs] at hhere
  have hless : c.content_length - 1 ≤ ULLONG_MAX := by omega
  show Script.All Asserts (if _ then _ else _)
  split_ifs with hzero
  · exact ⟨⟨hless, trivial⟩, s_message_done_asserts hless⟩
  · refine ⟨hless, ?_⟩
    simp only [Asserted, hs]
    dsimp only at hzero
    omega

/-- A byte of a chunk: the same, but the last byte leads to the state that asserts a length of 0.
-/
theorem chunk_byte_asserts (hc : Asserts c) (hs : c.state = .s_chunk_data) :
    (chunk_byte c).All Asserts := by
  have hb := hc.bounded
  have hhere := hc.here
  rw [Asserted, hs] at hhere
  have hless : c.content_length - 1 ≤ ULLONG_MAX := by omega
  show Asserts (if _ then _ else _)
  split_ifs with hzero
  · exact ⟨hless, hhere.1, hzero⟩
  · refine ⟨hless, ?_⟩
    simp only [Asserted, hs]
    dsimp only at hzero
    exact ⟨hhere.1, hzero, by omega⟩

/-- A request begins, with the index behind the first character of its method. -/
theorem s_start_req_asserts (hc : Asserts c) (hs : c.state = .s_start_req) (ch : UInt8) :
    (s_start_req c ch).All Asserts := by
  unfold s_start_req
  dsimp only
  split_ifs
  · exact hc
  · rcases hm : first_method.lookup ch with _ | m
    · exact ⟨le_refl _, by simp only [Asserted, hs]⟩
    · have hnext : Asserts { c with
          flags := {}, content_length := ULLONG_MAX, index := 1, method := m
          state := .s_req_method } := by
        refine ⟨le_refl _, ?_⟩
        show (1 : UInt8).toNat ≤ (method_strings m).length
        cases m <;> decide
      exact ⟨hnext, hnext⟩
  · exact ⟨le_refl _, by simp only [Asserted, hs]⟩

/-- A character that changes the method continues what has been read of it. -/
theorem other_method_spec {m m' : http_method} {index ch : UInt8}
    (h : other_method m index ch = some m') :
    index.toNat < (method_strings m').length ∧
      (method_strings m').take (index.toNat + 1) =
        (method_strings m).take index.toNat ++ [ch] := by
  unfold other_method at h
  split_ifs at h
  all_goals
    obtain rfl := Option.some.inj h
    simp only [not_and] at *
    try casesm* _ ∧ _
    subst_vars
    decide

/-- A byte of a method. The index stays inside the name it is compared with: where it would leave
it, the byte has been compared with the end of the name. -/
theorem s_req_method_asserts (hc : Asserts c) (hs : c.state = .s_req_method) (ch : UInt8) :
    (s_req_method c ch).All Asserts := by
  have hb := hc.bounded
  have hhere := hc.here
  rw [Asserted, hs] at hhere
  have hsucc : (c.index + 1).toNat ≤ c.index.toNat + 1 := by
    rw [UInt8.toNat_add]
    exact Nat.mod_le _ _
  unfold s_req_method
  dsimp only
  split_ifs with hnul hend hsame
  · exact hc
  · exact ⟨hb, trivial⟩
  · refine ⟨hb, ?_⟩
    simp only [Asserted, hs]
    -- what the byte was compared with is not the end of the matcher
    have hlt : c.index.toNat < (method_strings c.method).length := by
      by_contra hge
      rw [List.getD_eq_default _ _ (by omega)] at hsame
      exact hnul hsame
    omega
  · rcases hm : other_method c.method c.index ch with _ | m
    · exact hc
    · obtain ⟨hlt, -⟩ := other_method_spec hm
      refine ⟨hb, ?_⟩
      simp only [Asserted, hs]
      omega

/-- A byte of a URL. Its states assert nothing. -/
theorem update_url_asserts (hb : c.content_length ≤ ULLONG_MAX) (s : url_state) (ch : UInt8) :
    (update_url c s ch).All Asserts := by
  unfold update_url
  dsimp only
  split_ifs
  · exact ⟨hb, trivial⟩
  · exact ⟨hb, trivial⟩

/-- A byte of a URL that may also end it. -/
theorem s_req_in_url_asserts (hc : Asserts c) (s : url_state) (ch : UInt8) :
    (s_req_in_url c s ch).All Asserts := by
  have hb := hc.bounded
  unfold s_req_in_url
  dsimp only
  split_ifs
  · exact ⟨⟨hb, trivial⟩, hb, trivial⟩
  · exact ⟨⟨hb, trivial⟩, hb, trivial⟩
  · exact ⟨⟨hb, trivial⟩, hb, trivial⟩
  · exact update_url_asserts hb s ch

/-- A byte that has to be a certain one. -/
theorem strict_char_asserts (hc : Asserts c) (ch expected : UInt8) {next : state}
    (hnext : Asserts { c with state := next }) : (strict_char c ch expected next).All Asserts :=
  strict_check_asserts hc fun _ => hnext

/-- The rest of a request line or a status line asserts nothing, and keeps `content_length`. -/
structure Line (c : parser_core) : Prop where
  bounded : c.content_length ≤ ULLONG_MAX
  here : ∀ c' : parser_core, c'.state = c.state → Asserted c'

/-- What is known of a line holds of every parser in the same state with the same length. -/
theorem Line.asserts (h : Line c) {c' : parser_core} (hs : c'.state = c.state)
    (hlen : c'.content_length = c.content_length) : Asserts c' :=
  ⟨by rw [hlen]; exact h.bounded, h.here c' hs⟩

/-- The digits of a version in front of the dot. -/
theorem http_major_asserts (h : Line c) (ch : UInt8) {next : state}
    (hnext : Asserts { c with state := next }) : (http_major c ch next).All Asserts := by
  unfold http_major
  dsimp only
  split_ifs
  · exact hnext
  · exact h.asserts rfl rfl
  · exact h.asserts rfl rfl
  · exact h.asserts rfl rfl

/-- The digits behind it. -/
theorem http_minor_asserts (h : Line c) (ch : UInt8) : (http_minor c ch).All Asserts := by
  unfold http_minor
  dsimp only
  split_ifs
  · exact h.asserts rfl rfl
  · exact h.asserts rfl rfl
  · exact h.asserts rfl rfl

/-- A hexadecimal digit is less than 16; a byte from 128 on is taken for 0. -/
theorem unhex_lt {ch : UInt8} {v : ℕ} (h : unhex ch = some v) : v < 16 := by
  unfold unhex IS_NUM at h
  simp only [Bool.and_eq_true, decide_eq_true_eq, UInt8.le_iff_toNat_le] at h
  have h9 : (byte '9').toNat = 57 := rfl
  have hF : (byte 'F').toNat = 70 := rfl
  have hf : (byte 'f').toNat = 102 := rfl
  split_ifs at h
  all_goals
    obtain rfl := Option.some.inj h
    omega

/-- **Every byte keeps the assertions**, whatever it is. The cases are those of the switch; a
case that only moves to the next state has no lemma of its own. -/
theorem one_byte_asserts (hc : Asserts c) (ch : UInt8) : (one_byte c ch).All Asserts := by
  have hb := hc.bounded
  have hhere := hc.here
  rw [Asserted] at hhere
  rcases hs : c.state with s | _
  all_goals simp only [one_byte, single, hs] at hhere ⊢
  case s_start_req => exact s_start_req_asserts hc hs ch
  case s_req_method => exact s_req_method_asserts hc hs ch
  case s_header_field => exact field_byte_asserts hc hs ch
  case s_header_value => exact value_byte_asserts hc hs ch
  case s_body_identity => exact body_byte_asserts hc hs
  case s_chunk_data => exact chunk_byte_asserts hc hs
  case s_header_field_start => exact s_header_field_start_asserts hc ch
  case s_header_value_discard_ws => exact s_header_value_discard_ws_asserts hc ch
  case s_header_value_discard_lws => exact s_header_value_discard_lws_asserts hc ch
  case s_header_value_start => exact s_header_value_start_asserts hc ch
  case s_header_value_lws => exact s_header_value_lws_asserts hc ch
  case s_header_almost_done => exact s_header_almost_done_asserts hc ch
  case s_headers_almost_done => exact s_headers_almost_done_asserts hc ch
  case s_headers_done => exact s_headers_done_asserts hc ch
  case s_message_done => exact s_message_done_asserts hb
  case url =>
    rcases s
    case s_dead =>
      unfold s_dead
      split_ifs
      · exact hc
      · exact hc
    case s_req_spaces_before_url =>
      unfold s_req_spaces_before_url
      split_ifs
      · exact hc
      · exact update_url_asserts hb _ ch
      · exact update_url_asserts hb _ ch
    case s_req_schema | s_req_schema_slash | s_req_schema_slash_slash | s_req_server_start =>
      unfold s_req_before_server
      split_ifs
      · exact hc
      · exact update_url_asserts hb _ ch
    all_goals exact s_req_in_url_asserts hc _ ch
  case s_start_req_or_res =>
    unfold s_start_req_or_res
    dsimp only
    split_ifs
    · exact hc
    · exact ⟨⟨le_refl _, trivial⟩, le_refl _, trivial⟩
    · -- it is a request, which begins with the same byte
      apply s_start_req_asserts ?_ rfl
      exact ⟨le_refl _, trivial⟩
  case s_res_or_resp_H =>
    unfold s_res_or_resp_H
    split_ifs
    · exact ⟨hb, trivial⟩
    · exact hc
    · -- the two bytes are those of `HEAD`
      exact ⟨hb, by show (2 : UInt8).toNat ≤ (method_strings .HTTP_HEAD).length; decide⟩
  case s_start_res =>
    have hline : ∀ c' : parser_core, c'.state = c.state → Asserted c' := fun c' h => by
      simp only [Asserted, h, hs]
    unfold s_start_res
    dsimp only
    split_ifs
    · exact ⟨⟨le_refl _, trivial⟩, le_refl _, trivial⟩
    · exact ⟨⟨le_refl _, hline _ rfl⟩, le_refl _, hline _ rfl⟩
    · exact ⟨le_refl _, hline _ rfl⟩
  case s_res_status =>
    unfold s_res_status
    dsimp only
    split_ifs
    · exact ⟨⟨hb, trivial⟩, hb, trivial⟩
    · exact ⟨⟨hb, trivial⟩, hb, trivial⟩
    · exact hc
  case s_chunk_size_start =>
    unfold s_chunk_size_start
    rcases hv : unhex ch with _ | v
    · exact hc
    · have hlt := unhex_lt hv
      refine ⟨?_, hhere, ?_⟩
      · unfold ULLONG_MAX
        show v ≤ _
        omega
      · unfold ULLONG_MAX
        show v ≠ _
        omega
  case s_chunk_size =>
    unfold s_chunk_size
    rcases hv : unhex ch with _ | v
    · dsimp only
      split_ifs
      · exact ⟨hb, hhere⟩
      · exact ⟨hb, hhere⟩
      · exact hc
    · dsimp only
      split_ifs with _ hover
      · exact ⟨hb, hhere⟩
      · exact hc
      · -- the check in front of it leaves room for one digit more
        have hlt := unhex_lt hv
        unfold ULLONG_MAX at hover
        have hmod : (c.content_length * 16 + v) % 2 ^ 64 = c.content_length * 16 + v :=
          Nat.mod_eq_of_lt (by omega)
        refine ⟨?_, ?_⟩
        · unfold ULLONG_MAX
          show (c.content_length * 16 + v) % 2 ^ 64 ≤ _
          omega
        · simp only [Asserted, hs, hmod]
          refine ⟨hhere.1, ?_⟩
          unfold ULLONG_MAX
          omega
  case s_chunk_parameters =>
    unfold s_chunk_parameters
    split_ifs
    · exact ⟨hb, hhere⟩
    · exact hc
  case s_chunk_size_almost_done =>
    refine strict_check_asserts hc fun _ => ?_
    -- the size 0 begins the trailer, any other the data
    have hnext : Asserts (if c.content_length = 0 then
        { c with flags.F_TRAILING := true, state := .s_header_field_start }
        else { c with state := .s_chunk_data }) := by
      split_ifs with hzero
      · exact ⟨hb, trivial⟩
      · exact ⟨hb, hhere.1, hzero, hhere.2⟩
    exact ⟨hnext, hnext⟩
  case s_chunk_data_almost_done =>
    exact strict_check_asserts hc fun _ => ⟨⟨hb, hhere.1⟩, hb, hhere.1⟩
  case s_chunk_data_done => exact strict_check_asserts hc fun _ => ⟨⟨hb, hhere⟩, hb, hhere⟩
  case s_body_identity_eof => exact hc
  case s_res_first_http_major | s_req_first_http_major =>
    first | unfold s_res_first_http_major | unfold s_req_first_http_major
    split_ifs
    · exact hc
    · exact ⟨hb, trivial⟩
  case s_res_first_http_minor | s_req_first_http_minor =>
    unfold first_http_minor
    split_ifs
    · exact ⟨hb, trivial⟩
    · exact hc
  case s_res_http_minor =>
    unfold s_res_http_minor
    split_ifs
    · exact ⟨hb, trivial⟩
    · exact http_minor_asserts ⟨hb, fun c' h => by simp only [Asserted, h, hs]⟩ ch
  case s_req_http_minor =>
    unfold s_req_http_minor
    split_ifs
    · exact ⟨hb, trivial⟩
    · exact ⟨hb, trivial⟩
    · exact http_minor_asserts ⟨hb, fun c' h => by simp only [Asserted, h, hs]⟩ ch
  case s_res_first_status_code =>
    unfold s_res_first_status_code
    split_ifs
    · exact ⟨hb, trivial⟩
    · exact hc
    · exact hc
  case s_res_status_code =>
    have hline : ∀ c' : parser_core, c'.state = c.state → Asserted c' := fun c' h => by
      simp only [Asserted, h, hs]
    unfold s_res_status_code
    dsimp only
    split_ifs
    · exact ⟨hb, hline _ rfl⟩
    · exact ⟨hb, hline _ rfl⟩
    · exact ⟨hb, trivial⟩
    · exact ⟨hb, trivial⟩
    · exact ⟨hb, trivial⟩
    · exact hc
  case s_res_status_start =>
    unfold s_res_status_start
    split_ifs
    · exact ⟨hb, trivial⟩
    · exact ⟨hb, trivial⟩
    · exact ⟨hb, trivial⟩
  case s_req_http_start =>
    unfold s_req_http_start
    split_ifs
    · exact ⟨hb, trivial⟩
    · exact hc
    · exact hc
  case s_req_line_almost_done =>
    unfold s_req_line_almost_done
    split_ifs
    · exact hc
    · exact ⟨hb, trivial⟩
  case s_res_http_major | s_req_http_major =>
    exact http_major_asserts ⟨hb, fun c' h => by simp only [Asserted, h, hs]⟩ ch ⟨hb, trivial⟩
  all_goals exact strict_char_asserts hc ch _ ⟨hb, trivial⟩

end Asserts

end MyWarehouse

/-
`http_parser.h` and the `switch` of `http_parser_execute` in `http_parser.c`: what one
byte does to the parser in each state.

A case of the switch changes the parser, sets marks, runs callbacks, and ends in one of
three ways: `break` consumes the byte, `goto error` and `RETURN` leave the function. It is
written as a `Script`: the changes and calls of the case in the order the code makes them.
`REEXECUTE()` after `UPDATE_STATE(s)` is the script of the case `s` for the same byte.

The five cases that move over several bytes at once are in `ParserExecute`; here are the
functions they share with a reading byte by byte. `nread` is kept beside the other members
of the parser: a case may reset it, and only the loop around the switch looks at it.

`HTTP_PARSER_STRICT` is 1. A callback does not change the parser.
-/
import MyWarehouse.HttpUrl

set_option autoImplicit false

namespace MyWarehouse

/-! ## The enumerations -/

/-- `enum http_parser_type`. -/
inductive http_parser_type where
  | HTTP_REQUEST
  | HTTP_RESPONSE
  | HTTP_BOTH
  deriving DecidableEq, Repr

/-- `enum http_method`. -/
inductive http_method where
  | HTTP_DELETE
  | HTTP_GET
  | HTTP_HEAD
  | HTTP_POST
  | HTTP_PUT
  | HTTP_CONNECT
  | HTTP_OPTIONS
  | HTTP_TRACE
  | HTTP_COPY
  | HTTP_LOCK
  | HTTP_MKCOL
  | HTTP_MOVE
  | HTTP_PROPFIND
  | HTTP_PROPPATCH
  | HTTP_SEARCH
  | HTTP_UNLOCK
  | HTTP_REPORT
  | HTTP_MKACTIVITY
  | HTTP_CHECKOUT
  | HTTP_MERGE
  | HTTP_MSEARCH
  | HTTP_NOTIFY
  | HTTP_SUBSCRIBE
  | HTTP_UNSUBSCRIBE
  | HTTP_PATCH
  | HTTP_PURGE
  | HTTP_MKCALENDAR
  deriving DecidableEq, Repr

/-- `method_strings`. -/
def method_strings : http_method → Bytes
  | .HTTP_DELETE => bytes "DELETE"
  | .HTTP_GET => bytes "GET"
  | .HTTP_HEAD => bytes "HEAD"
  | .HTTP_POST => bytes "POST"
  | .HTTP_PUT => bytes "PUT"
  | .HTTP_CONNECT => bytes "CONNECT"
  | .HTTP_OPTIONS => bytes "OPTIONS"
  | .HTTP_TRACE => bytes "TRACE"
  | .HTTP_COPY => bytes "COPY"
  | .HTTP_LOCK => bytes "LOCK"
  | .HTTP_MKCOL => bytes "MKCOL"
  | .HTTP_MOVE => bytes "MOVE"
  | .HTTP_PROPFIND => bytes "PROPFIND"
  | .HTTP_PROPPATCH => bytes "PROPPATCH"
  | .HTTP_SEARCH => bytes "SEARCH"
  | .HTTP_UNLOCK => bytes "UNLOCK"
  | .HTTP_REPORT => bytes "REPORT"
  | .HTTP_MKACTIVITY => bytes "MKACTIVITY"
  | .HTTP_CHECKOUT => bytes "CHECKOUT"
  | .HTTP_MERGE => bytes "MERGE"
  | .HTTP_MSEARCH => bytes "M-SEARCH"
  | .HTTP_NOTIFY => bytes "NOTIFY"
  | .HTTP_SUBSCRIBE => bytes "SUBSCRIBE"
  | .HTTP_UNSUBSCRIBE => bytes "UNSUBSCRIBE"
  | .HTTP_PATCH => bytes "PATCH"
  | .HTTP_PURGE => bytes "PURGE"
  | .HTTP_MKCALENDAR => bytes "MKCALENDAR"

/-- `enum http_errno`. -/
inductive http_errno where
  | HPE_OK
  | HPE_CB_message_begin
  | HPE_CB_url
  | HPE_CB_header_field
  | HPE_CB_header_value
  | HPE_CB_headers_complete
  | HPE_CB_body
  | HPE_CB_message_complete
  | HPE_CB_status
  | HPE_CB_chunk_header
  | HPE_CB_chunk_complete
  | HPE_INVALID_EOF_STATE
  | HPE_HEADER_OVERFLOW
  | HPE_CLOSED_CONNECTION
  | HPE_INVALID_VERSION
  | HPE_INVALID_STATUS
  | HPE_INVALID_METHOD
  | HPE_INVALID_URL
  | HPE_INVALID_HOST
  | HPE_INVALID_PORT
  | HPE_INVALID_PATH
  | HPE_INVALID_QUERY_STRING
  | HPE_INVALID_FRAGMENT
  | HPE_LF_EXPECTED
  | HPE_INVALID_HEADER_TOKEN
  | HPE_INVALID_CONTENT_LENGTH
  | HPE_INVALID_CHUNK_SIZE
  | HPE_INVALID_CONSTANT
  | HPE_INVALID_INTERNAL_STATE
  | HPE_STRICT
  | HPE_PAUSED
  | HPE_UNKNOWN
  deriving DecidableEq, Repr

/-- `enum state`. The states `parse_url_char` knows, `s_dead` among them, are those of
`url_state`. -/
inductive state where
  | url (s : url_state)
  | s_start_req_or_res
  | s_res_or_resp_H
  | s_start_res
  | s_res_H
  | s_res_HT
  | s_res_HTT
  | s_res_HTTP
  | s_res_first_http_major
  | s_res_http_major
  | s_res_first_http_minor
  | s_res_http_minor
  | s_res_first_status_code
  | s_res_status_code
  | s_res_status_start
  | s_res_status
  | s_res_line_almost_done
  | s_start_req
  | s_req_method
  | s_req_http_start
  | s_req_http_H
  | s_req_http_HT
  | s_req_http_HTT
  | s_req_http_HTTP
  | s_req_first_http_major
  | s_req_http_major
  | s_req_first_http_minor
  | s_req_http_minor
  | s_req_line_almost_done
  | s_header_field_start
  | s_header_field
  | s_header_value_discard_ws
  | s_header_value_discard_ws_almost_done
  | s_header_value_discard_lws
  | s_header_value_start
  | s_header_value
  | s_header_value_lws
  | s_header_almost_done
  | s_chunk_size_start
  | s_chunk_size
  | s_chunk_parameters
  | s_chunk_size_almost_done
  | s_headers_almost_done
  | s_headers_done
  | s_chunk_data
  | s_chunk_data_almost_done
  | s_chunk_data_done
  | s_body_identity
  | s_body_identity_eof
  | s_message_done
  deriving DecidableEq, Repr

/-- `PARSING_HEADER`: the states up to `s_headers_done`. -/
def state.parsing_header : state → Bool
  | .s_chunk_data | .s_chunk_data_almost_done | .s_chunk_data_done | .s_body_identity
  | .s_body_identity_eof | .s_message_done => false
  | _ => true

/-- `enum header_states`. -/
inductive header_states where
  | h_general
  | h_C
  | h_CO
  | h_CON
  | h_matching_connection
  | h_matching_proxy_connection
  | h_matching_content_length
  | h_matching_transfer_encoding
  | h_matching_upgrade
  | h_connection
  | h_content_length
  | h_transfer_encoding
  | h_upgrade
  | h_matching_transfer_encoding_chunked
  | h_matching_connection_token_start
  | h_matching_connection_keep_alive
  | h_matching_connection_close
  | h_matching_connection_upgrade
  | h_matching_connection_token
  | h_transfer_encoding_chunked
  | h_connection_keep_alive
  | h_connection_close
  | h_connection_upgrade
  deriving DecidableEq, Repr

/-! ## The parser -/

/-- `enum flags`, a bit for each. -/
structure http_flags where
  F_CHUNKED : Bool := false
  F_CONNECTION_KEEP_ALIVE : Bool := false
  F_CONNECTION_CLOSE : Bool := false
  F_CONNECTION_UPGRADE : Bool := false
  F_TRAILING : Bool := false
  F_UPGRADE : Bool := false
  F_SKIPBODY : Bool := false
  deriving DecidableEq, Repr

/-- `ULLONG_MAX`. -/
def ULLONG_MAX : ℕ := 2 ^ 64 - 1

/-- `http_parser` without `nread` and `data`. `index` has 8 bits. -/
structure parser_core where
  type_ : http_parser_type
  flags : http_flags
  state : state
  header_state : header_states
  index : UInt8
  content_length : ℕ
  http_major : ℕ
  http_minor : ℕ
  status_code : ℕ
  method : http_method
  http_errno : http_errno
  upgrade : Bool
  deriving DecidableEq, Repr

/-- `struct http_parser`. -/
structure http_parser_struct extends parser_core where
  nread : ℕ
  deriving DecidableEq, Repr

/-- `http_parser_init`: everything is 0 but the type and the state. -/
def http_parser_init (t : http_parser_type) : http_parser_struct where
  type_ := t
  flags := {}
  state := match t with
    | .HTTP_REQUEST => .s_start_req
    | .HTTP_RESPONSE => .s_start_res
    | .HTTP_BOTH => .s_start_req_or_res
  header_state := .h_general
  index := 0
  content_length := 0
  http_major := 0
  http_minor := 0
  status_code := 0
  method := .HTTP_DELETE
  http_errno := .HPE_OK
  upgrade := false
  nread := 0

/-- `http_message_needs_eof`. -/
def http_message_needs_eof (parser : parser_core) : Bool :=
  if parser.type_ = .HTTP_REQUEST then false
  else if parser.status_code / 100 = 1 ∨ parser.status_code = 204 ∨ parser.status_code = 304 ∨
      parser.flags.F_SKIPBODY then false
  else if parser.flags.F_CHUNKED ∨ parser.content_length ≠ ULLONG_MAX then false
  else true

/-- `http_should_keep_alive`. -/
def http_should_keep_alive (parser : parser_core) : Bool :=
  if 0 < parser.http_major ∧ 0 < parser.http_minor then
    if parser.flags.F_CONNECTION_CLOSE then false else !http_message_needs_eof parser
  else if !parser.flags.F_CONNECTION_KEEP_ALIVE then false
  else !http_message_needs_eof parser

/-- `start_state`. -/
def start_state (parser : parser_core) : state :=
  if parser.type_ = .HTTP_REQUEST then .s_start_req else .s_start_res

/-- `NEW_MESSAGE()`. -/
def NEW_MESSAGE (parser : parser_core) : state :=
  if http_should_keep_alive parser then start_state parser else .url .s_dead

/-! ## Tables -/

/-- `tokens`: a token character in lower case, 0 for a byte that is none. -/
def tokens (c : UInt8) : UInt8 :=
  if byte 'A' ≤ c ∧ c ≤ byte 'Z' then c + 32
  else if byte 'a' ≤ c ∧ c ≤ byte 'z' ∨ IS_NUM c then c
  else if (bytes "!#$%&'*+-.^_`|~").contains c then c
  else 0

/-- `TOKEN`. -/
def TOKEN (c : UInt8) : UInt8 := tokens c

/-- `STRICT_TOKEN`. -/
def STRICT_TOKEN (c : UInt8) : UInt8 := tokens c

/-- `unhex`, `none` for -1. The table lists 128 of its 256 entries; the others are 0. -/
def unhex (c : UInt8) : Option ℕ :=
  if IS_NUM c then some (c.toNat - 48)
  else if byte 'A' ≤ c ∧ c ≤ byte 'F' then some (c.toNat - 55)
  else if byte 'a' ≤ c ∧ c ≤ byte 'f' then some (c.toNat - 87)
  else if 128 ≤ c then some 0
  else none

/-! ## Scripts -/

/-- The data callbacks; each has a mark. -/
inductive http_data where
  | header_field
  | header_value
  | url
  | body
  | status
  deriving DecidableEq, Repr

/-- The other callbacks but `on_headers_complete`. -/
inductive http_notify where
  | message_begin
  | message_complete
  | chunk_header
  | chunk_complete
  deriving DecidableEq, Repr

/-- What a case of the switch does with one byte. The parser a callback node carries is
the one the callback is run with and that stays when it fails.

* `next`: `break`.
* `error`: `SET_ERRNO(e); goto error`.
* `leave`: `RETURN((p - data) + 1)`.
* `mark`: `MARK(f)`.
* `reset_nread`: `nread = 0`.
* `callback_data f len er`: `CALLBACK_DATA_(f, p - f_mark + len, p - data + er)`.
* `callback_notify n er`: `CALLBACK_NOTIFY_(n, p - data + er)`.
* `headers_complete`: the call of `on_headers_complete`, and how to go on when it returned
  0 or 1. -/
inductive Script where
  | next (parser : parser_core)
  | error (parser : parser_core) (e : http_errno)
  | leave (parser : parser_core)
  | mark (f : http_data) (k : Script)
  | reset_nread (k : Script)
  | callback_data (f : http_data) (len er : ℕ) (parser : parser_core) (k : Script)
  | callback_notify (n : http_notify) (er : ℕ) (parser : parser_core) (k : Script)
  | headers_complete (parser : parser_core) (k : Bool → Script)

namespace Script

/-- `STRICT_CHECK(cond)`. -/
def strict_check (parser : parser_core) (cond : Prop) [Decidable cond] (k : Script) : Script :=
  if cond then .error parser .HPE_STRICT else k

/-- `CALLBACK_DATA`. -/
def CALLBACK_DATA (f : http_data) (parser : parser_core) (k : Script) : Script :=
  .callback_data f 0 1 parser k

/-- `CALLBACK_DATA_NOADVANCE`. -/
def CALLBACK_DATA_NOADVANCE (f : http_data) (parser : parser_core) (k : Script) : Script :=
  .callback_data f 0 0 parser k

/-- `CALLBACK_NOTIFY`. -/
def CALLBACK_NOTIFY (n : http_notify) (parser : parser_core) (k : Script) : Script :=
  .callback_notify n 1 parser k

/-- `CALLBACK_NOTIFY_NOADVANCE`. -/
def CALLBACK_NOTIFY_NOADVANCE (n : http_notify) (parser : parser_core) (k : Script) : Script :=
  .callback_notify n 0 parser k

end Script

/-! ## The end of a message and of its headers -/

/-- A digit is appended to a decimal number of the message. -/
def append_digit (n : ℕ) (ch : UInt8) : ℕ := n * 10 + (ch.toNat - 48)

/-- `UPDATE_STATE(NEW_MESSAGE()); CALLBACK_NOTIFY(message_complete)`. -/
def message_complete (c : parser_core) (k : parser_core → Script) : Script :=
  let c := { c with state := NEW_MESSAGE c }
  .CALLBACK_NOTIFY .message_complete c (k c)

def s_message_done (c : parser_core) : Script :=
  message_complete c fun c => if c.upgrade then .leave c else .next c

def s_headers_done (c : parser_core) (ch : UInt8) : Script :=
  .strict_check c (ch ≠ byte '\n') <| .reset_nread <|
    let hasBody := c.flags.F_CHUNKED || 0 < c.content_length && c.content_length ≠ ULLONG_MAX
    if c.upgrade && (c.method = .HTTP_CONNECT || c.flags.F_SKIPBODY || !hasBody) then
      -- the rest of the message is in a different protocol
      message_complete c fun c => .leave c
    else if c.flags.F_SKIPBODY then message_complete c fun c => .next c
    else if c.flags.F_CHUNKED then
      -- the `Content-Length` header is ignored
      .next { c with state := .s_chunk_size_start }
    else if c.content_length = 0 then message_complete c fun c => .next c
    else if c.content_length ≠ ULLONG_MAX then .next { c with state := .s_body_identity }
    else if !http_message_needs_eof c then
      -- a length of 0 is assumed
      message_complete c fun c => .next c
    else .next { c with state := .s_body_identity_eof }

def s_headers_almost_done (c : parser_core) (ch : UInt8) : Script :=
  .strict_check c (ch ≠ byte '\n') <|
    if c.flags.F_TRAILING then
      -- the end of a chunked message
      let c := { c with state := .s_message_done }
      .CALLBACK_NOTIFY_NOADVANCE .chunk_complete c (s_message_done c)
    else
      let c := { c with
        state := .s_headers_done
        upgrade := c.flags.F_UPGRADE && c.flags.F_CONNECTION_UPGRADE ||
          c.method = .HTTP_CONNECT }
      .headers_complete c fun skip =>
        s_headers_done { c with flags.F_SKIPBODY := c.flags.F_SKIPBODY || skip } ch

/-! ## Header fields -/

/-- The header state a field name starts in. -/
def first_header_state (c : UInt8) : header_states :=
  if c = byte 'c' then .h_C
  else if c = byte 'p' then .h_matching_proxy_connection
  else if c = byte 't' then .h_matching_transfer_encoding
  else if c = byte 'u' then .h_matching_upgrade
  else .h_general

def s_header_field_start (c : parser_core) (ch : UInt8) : Script :=
  if ch = byte '\r' then .next { c with state := .s_headers_almost_done }
  else if ch = byte '\n' then
    -- the line end that ends the headers may be a mere LF
    s_headers_almost_done { c with state := .s_headers_almost_done } ch
  else if TOKEN ch = 0 then .error c .HPE_INVALID_HEADER_TOKEN
  else .mark .header_field <| .next { c with
    index := 0
    state := .s_header_field
    header_state := first_header_state (TOKEN ch) }

/-- One character more of a name that is compared with `name`. -/
def match_name (parser : parser_core) (name : Bytes) (c : UInt8)
    (matching matched mismatch : header_states) : parser_core :=
  let index := parser.index + 1
  { parser with
    index := index
    header_state :=
      if name.length < index.toNat ∨ c ≠ name.getD index.toNat 0 then mismatch
      else if index.toNat = name.length - 1 then matched
      else matching }

/-- The switch over `header_state` in the loop of `s_header_field`. -/
def field_char (parser : parser_core) (ch : UInt8) : parser_core :=
  let c := TOKEN ch
  let next := { parser with index := parser.index + 1 }
  match parser.header_state with
  | .h_general => parser
  | .h_C => { next with header_state := if c = byte 'o' then .h_CO else .h_general }
  | .h_CO => { next with header_state := if c = byte 'n' then .h_CON else .h_general }
  | .h_CON =>
    if c = byte 'n' then { next with header_state := .h_matching_connection }
    else if c = byte 't' then { next with header_state := .h_matching_content_length }
    else { next with header_state := .h_general }
  | .h_matching_connection =>
    match_name parser (bytes "connection") c .h_matching_connection .h_connection .h_general
  | .h_matching_proxy_connection =>
    match_name parser (bytes "proxy-connection") c .h_matching_proxy_connection .h_connection
      .h_general
  | .h_matching_content_length =>
    match_name parser (bytes "content-length") c .h_matching_content_length .h_content_length
      .h_general
  | .h_matching_transfer_encoding =>
    match_name parser (bytes "transfer-encoding") c .h_matching_transfer_encoding
      .h_transfer_encoding .h_general
  | .h_matching_upgrade =>
    match_name parser (bytes "upgrade") c .h_matching_upgrade .h_upgrade .h_general
  | .h_connection | .h_content_length | .h_transfer_encoding | .h_upgrade =>
    if ch ≠ byte ' ' then { parser with header_state := .h_general } else parser
  -- `assert(0 && "Unknown header_state")`
  | _ => parser

/-- What the first character of a `Connection` token makes of the header state. -/
def connection_token (c : UInt8) : header_states :=
  if c = byte 'k' then .h_matching_connection_keep_alive
  else if c = byte 'c' then .h_matching_connection_close
  else if c = byte 'u' then .h_matching_connection_upgrade
  else .h_matching_connection_token

/-- The switch over `header_state` where a value starts. -/
def value_start (parser : parser_core) (ch : UInt8) : Option parser_core :=
  let c := LOWER ch
  match parser.header_state with
  | .h_upgrade => some { parser with flags.F_UPGRADE := true, header_state := .h_general }
  | .h_transfer_encoding =>
    if c = byte 'c' then some { parser with header_state := .h_matching_transfer_encoding_chunked }
    else some { parser with header_state := .h_general }
  | .h_content_length =>
    if ¬ IS_NUM ch then none else some { parser with content_length := ch.toNat - 48 }
  | .h_connection => some { parser with header_state := connection_token c }
  | .h_matching_connection_token_start => some parser
  | _ => some { parser with header_state := .h_general }

def s_header_value_start (c : parser_core) (ch : UInt8) : Script :=
  .mark .header_value <|
    let c := { c with state := .s_header_value, index := 0 }
    match value_start c ch with
    | none => .error c .HPE_INVALID_CONTENT_LENGTH
    | some c => .next c

def s_header_value_discard_ws (c : parser_core) (ch : UInt8) : Script :=
  if ch = byte ' ' ∨ ch = byte '\t' then .next c
  else if ch = byte '\r' then .next { c with state := .s_header_value_discard_ws_almost_done }
  else if ch = byte '\n' then .next { c with state := .s_header_value_discard_lws }
  else s_header_value_start c ch

/-- After a `Connection` token that has been recognised: a comma ends it, other characters
than spaces make it another token. -/
def after_token (parser ended : parser_core) (ch : UInt8) : parser_core :=
  if ch = byte ',' then
    { ended with header_state := .h_matching_connection_token_start, index := 0 }
  else if ch ≠ byte ' ' then { parser with header_state := .h_matching_connection_token }
  else parser

/-- The switch over `header_state` in the loop of `s_header_value`, for a byte that is
neither CR nor LF. `none` is an invalid `Content-Length`. -/
def value_char (parser : parser_core) (ch : UInt8) : Option parser_core :=
  let c := LOWER ch
  match parser.header_state with
  | .h_general => some parser
  -- `assert(0 && "Shouldn't get here.")`
  | .h_connection | .h_transfer_encoding => some parser
  | .h_content_length =>
    if ch = byte ' ' then some parser
    else if ¬ IS_NUM ch then none
    else if (ULLONG_MAX - 10) / 10 < parser.content_length then none
    else some { parser with content_length := append_digit parser.content_length ch % 2 ^ 64 }
  | .h_matching_transfer_encoding_chunked =>
    some (match_name parser (bytes "chunked") c .h_matching_transfer_encoding_chunked
      .h_transfer_encoding_chunked .h_general)
  | .h_matching_connection_token_start =>
    if c = byte 'k' ∨ c = byte 'c' ∨ c = byte 'u' ∨ STRICT_TOKEN c ≠ 0 then
      some { parser with header_state := connection_token c }
    else if c = byte ' ' ∨ c = byte '\t' then some parser
    else some { parser with header_state := .h_general }
  | .h_matching_connection_keep_alive =>
    some (match_name parser (bytes "keep-alive") c .h_matching_connection_keep_alive
      .h_connection_keep_alive .h_matching_connection_token)
  | .h_matching_connection_close =>
    some (match_name parser (bytes "close") c .h_matching_connection_close .h_connection_close
      .h_matching_connection_token)
  | .h_matching_connection_upgrade =>
    some (match_name parser (bytes "upgrade") c .h_matching_connection_upgrade
      .h_connection_upgrade .h_matching_connection_token)
  | .h_matching_connection_token =>
    if ch = byte ',' then
      some { parser with header_state := .h_matching_connection_token_start, index := 0 }
    else some parser
  | .h_transfer_encoding_chunked =>
    if ch ≠ byte ' ' then some { parser with header_state := .h_general } else some parser
  | .h_connection_keep_alive =>
    some (after_token parser { parser with flags.F_CONNECTION_KEEP_ALIVE := true } ch)
  | .h_connection_close =>
    some (after_token parser { parser with flags.F_CONNECTION_CLOSE := true } ch)
  | .h_connection_upgrade =>
    some (after_token parser { parser with flags.F_CONNECTION_UPGRADE := true } ch)
  | _ => some { parser with state := .s_header_value, header_state := .h_general }

/-- The flag a finished header line sets. -/
def finish_header (c : parser_core) : parser_core :=
  match c.header_state with
  | .h_connection_keep_alive => { c with flags.F_CONNECTION_KEEP_ALIVE := true }
  | .h_connection_close => { c with flags.F_CONNECTION_CLOSE := true }
  | .h_transfer_encoding_chunked => { c with flags.F_CHUNKED := true }
  | .h_connection_upgrade => { c with flags.F_CONNECTION_UPGRADE := true }
  | _ => c

def s_header_almost_done (c : parser_core) (ch : UInt8) : Script :=
  .strict_check c (ch ≠ byte '\n') <| .next { c with state := .s_header_value_lws }

def s_header_value_lws (c : parser_core) (ch : UInt8) : Script :=
  if ch = byte ' ' ∨ ch = byte '\t' then
    s_header_value_start { c with state := .s_header_value_start } ch
  else s_header_field_start { finish_header c with state := .s_header_field_start } ch

def s_header_value_discard_lws (c : parser_core) (ch : UInt8) : Script :=
  if ch = byte ' ' ∨ ch = byte '\t' then .next { c with state := .s_header_value_discard_ws }
  else
    -- the value was empty
    let c := { finish_header c with state := .s_header_field_start }
    .mark .header_value <| .CALLBACK_DATA_NOADVANCE .header_value c <| s_header_field_start c ch

/-! ## The request line -/

/-- The method a first letter stands for, until more of it is seen. -/
def first_method : List (UInt8 × http_method) :=
  [(byte 'C', .HTTP_CONNECT), (byte 'D', .HTTP_DELETE), (byte 'G', .HTTP_GET),
    (byte 'H', .HTTP_HEAD), (byte 'L', .HTTP_LOCK), (byte 'M', .HTTP_MKCOL),
    (byte 'N', .HTTP_NOTIFY), (byte 'O', .HTTP_OPTIONS), (byte 'P', .HTTP_POST),
    (byte 'R', .HTTP_REPORT), (byte 'S', .HTTP_SUBSCRIBE), (byte 'T', .HTTP_TRACE),
    (byte 'U', .HTTP_UNLOCK)]

def s_start_req (c : parser_core) (ch : UInt8) : Script :=
  if ch = byte '\r' ∨ ch = byte '\n' then .next c
  else
    let c := { c with flags := {}, content_length := ULLONG_MAX }
    if ¬ IS_ALPHA ch then .error c .HPE_INVALID_METHOD
    else
      let c := { c with method := .HTTP_DELETE, index := 1 }
      match first_method.lookup ch with
      | none => .error c .HPE_INVALID_METHOD
      | some m =>
        let c := { c with method := m, state := .s_req_method }
        .CALLBACK_NOTIFY .message_begin c <| .next c

/-- The method `ch` at `index` turns the one assumed so far into. -/
def other_method (method : http_method) (index : UInt8) (ch : UInt8) : Option http_method :=
  if method = .HTTP_CONNECT then
    if index = 1 ∧ ch = byte 'H' then some .HTTP_CHECKOUT
    else if index = 2 ∧ ch = byte 'P' then some .HTTP_COPY
    else none
  else if method = .HTTP_MKCOL then
    if index = 1 ∧ ch = byte 'O' then some .HTTP_MOVE
    else if index = 1 ∧ ch = byte 'E' then some .HTTP_MERGE
    else if index = 1 ∧ ch = byte '-' then some .HTTP_MSEARCH
    else if index = 2 ∧ ch = byte 'A' then some .HTTP_MKACTIVITY
    else if index = 3 ∧ ch = byte 'A' then some .HTTP_MKCALENDAR
    else none
  else if method = .HTTP_SUBSCRIBE then
    if index = 1 ∧ ch = byte 'E' then some .HTTP_SEARCH else none
  else if index = 1 ∧ method = .HTTP_POST then
    if ch = byte 'R' then some .HTTP_PROPFIND
    else if ch = byte 'U' then some .HTTP_PUT
    else if ch = byte 'A' then some .HTTP_PATCH
    else none
  else if index = 2 then
    if method = .HTTP_PUT then if ch = byte 'R' then some .HTTP_PURGE else none
    else if method = .HTTP_UNLOCK then if ch = byte 'S' then some .HTTP_UNSUBSCRIBE else none
    else none
  else if index = 4 ∧ method = .HTTP_PROPFIND ∧ ch = byte 'P' then some .HTTP_PROPPATCH
  else none

def s_req_method (c : parser_core) (ch : UInt8) : Script :=
  if ch = 0 then .error c .HPE_INVALID_METHOD
  else
    -- behind its last letter the matcher is '\0'
    let matcher := (method_strings c.method).getD c.index.toNat 0
    let next := { c with index := c.index + 1 }
    if ch = byte ' ' ∧ matcher = 0 then .next { next with state := .url .s_req_spaces_before_url }
    else if ch = matcher then .next next
    else match other_method c.method c.index ch with
      | none => .error c .HPE_INVALID_METHOD
      | some m => .next { next with method := m }

/-- `UPDATE_STATE(parse_url_char(s, ch))`, and the check behind it. -/
def update_url (c : parser_core) (s : url_state) (ch : UInt8) : Script :=
  let c := { c with state := .url (parse_url_char s ch) }
  if c.state = .url .s_dead then .error c .HPE_INVALID_URL else .next c

def s_req_spaces_before_url (c : parser_core) (ch : UInt8) : Script :=
  if ch = byte ' ' then .next c
  else .mark .url <|
    update_url c
      (if c.method = .HTTP_CONNECT then .s_req_server_start else .s_req_spaces_before_url) ch

/-- `s_req_schema`, `s_req_schema_slash`, `s_req_schema_slash_slash`, `s_req_server_start`. -/
def s_req_before_server (c : parser_core) (s : url_state) (ch : UInt8) : Script :=
  -- no white space is allowed here
  if ch = byte ' ' ∨ ch = byte '\r' ∨ ch = byte '\n' then .error c .HPE_INVALID_URL
  else update_url c s ch

/-- `s_req_server` and the other states a URL may end in. -/
def s_req_in_url (c : parser_core) (s : url_state) (ch : UInt8) : Script :=
  if ch = byte ' ' then
    let c := { c with state := .s_req_http_start }
    .CALLBACK_DATA .url c <| .next c
  else if ch = byte '\r' ∨ ch = byte '\n' then
    let c := { c with
      http_major := 0
      http_minor := 9
      state := if ch = byte '\r' then .s_req_line_almost_done else .s_header_field_start }
    .CALLBACK_DATA .url c <| .next c
  else update_url c s ch

def s_req_http_start (c : parser_core) (ch : UInt8) : Script :=
  if ch = byte 'H' then .next { c with state := .s_req_http_H }
  else if ch = byte ' ' then .next c
  else .error c .HPE_INVALID_CONSTANT

/-- The states that accept one character only. -/
def strict_char (c : parser_core) (ch expected : UInt8) (next : state) : Script :=
  .strict_check c (ch ≠ expected) <| .next { c with state := next }

/-- `s_req_first_http_major`: the first digit is not 0. -/
def s_req_first_http_major (c : parser_core) (ch : UInt8) : Script :=
  if ch < byte '1' ∨ byte '9' < ch then .error c .HPE_INVALID_VERSION
  else .next { c with http_major := ch.toNat - 48, state := .s_req_http_major }

def s_res_first_http_major (c : parser_core) (ch : UInt8) : Script :=
  if ch < byte '0' ∨ byte '9' < ch then .error c .HPE_INVALID_VERSION
  else .next { c with http_major := ch.toNat - 48, state := .s_res_http_major }

/-- `s_req_http_major`, `s_res_http_major`: one more digit, or the dot. -/
def http_major (c : parser_core) (ch : UInt8) (next : state) : Script :=
  if ch = byte '.' then .next { c with state := next }
  else if ¬ IS_NUM ch then .error c .HPE_INVALID_VERSION
  else
    let c := { c with http_major := append_digit c.http_major ch }
    if 999 < c.http_major then .error c .HPE_INVALID_VERSION else .next c

/-- `s_req_first_http_minor`, `s_res_first_http_minor`. -/
def first_http_minor (c : parser_core) (ch : UInt8) (next : state) : Script :=
  if ¬ IS_NUM ch then .error c .HPE_INVALID_VERSION
  else .next { c with http_minor := ch.toNat - 48, state := next }

/-- One more digit of the minor version. -/
def http_minor (c : parser_core) (ch : UInt8) : Script :=
  if ¬ IS_NUM ch then .error c .HPE_INVALID_VERSION
  else
    let c := { c with http_minor := append_digit c.http_minor ch }
    if 999 < c.http_minor then .error c .HPE_INVALID_VERSION else .next c

def s_req_http_minor (c : parser_core) (ch : UInt8) : Script :=
  if ch = byte '\r' then .next { c with state := .s_req_line_almost_done }
  else if ch = byte '\n' then .next { c with state := .s_header_field_start }
  else http_minor c ch

def s_req_line_almost_done (c : parser_core) (ch : UInt8) : Script :=
  if ch ≠ byte '\n' then .error c .HPE_LF_EXPECTED
  else .next { c with state := .s_header_field_start }

/-! ## The status line -/

def s_start_req_or_res (c : parser_core) (ch : UInt8) : Script :=
  if ch = byte '\r' ∨ ch = byte '\n' then .next c
  else
    let c := { c with flags := {}, content_length := ULLONG_MAX }
    if ch = byte 'H' then
      let c := { c with state := .s_res_or_resp_H }
      .CALLBACK_NOTIFY .message_begin c <| .next c
    else s_start_req { c with type_ := .HTTP_REQUEST, state := .s_start_req } ch

def s_res_or_resp_H (c : parser_core) (ch : UInt8) : Script :=
  if ch = byte 'T' then .next { c with type_ := .HTTP_RESPONSE, state := .s_res_HT }
  else if ch ≠ byte 'E' then .error c .HPE_INVALID_CONSTANT
  else .next { c with
    type_ := .HTTP_REQUEST
    method := .HTTP_HEAD
    index := 2
    state := .s_req_method }

def s_start_res (c : parser_core) (ch : UInt8) : Script :=
  let c := { c with flags := {}, content_length := ULLONG_MAX }
  -- the callback is run for a line end as well
  if ch = byte 'H' then
    let c := { c with state := .s_res_H }
    .CALLBACK_NOTIFY .message_begin c <| .next c
  else if ch = byte '\r' ∨ ch = byte '\n' then .CALLBACK_NOTIFY .message_begin c <| .next c
  else .error c .HPE_INVALID_CONSTANT

def s_res_http_minor (c : parser_core) (ch : UInt8) : Script :=
  if ch = byte ' ' then .next { c with state := .s_res_first_status_code }
  else http_minor c ch

def s_res_first_status_code (c : parser_core) (ch : UInt8) : Script :=
  if ¬ IS_NUM ch then
    if ch = byte ' ' then .next c else .error c .HPE_INVALID_STATUS
  else .next { c with status_code := ch.toNat - 48, state := .s_res_status_code }

def s_res_status_code (c : parser_core) (ch : UInt8) : Script :=
  if ¬ IS_NUM ch then
    if ch = byte ' ' then .next { c with state := .s_res_status_start }
    else if ch = byte '\r' then .next { c with state := .s_res_line_almost_done }
    else if ch = byte '\n' then .next { c with state := .s_header_field_start }
    else .error c .HPE_INVALID_STATUS
  else
    let c := { c with status_code := append_digit c.status_code ch }
    if 999 < c.status_code then .error c .HPE_INVALID_STATUS else .next c

def s_res_status_start (c : parser_core) (ch : UInt8) : Script :=
  if ch = byte '\r' then .next { c with state := .s_res_line_almost_done }
  else if ch = byte '\n' then .next { c with state := .s_header_field_start }
  else .mark .status <| .next { c with state := .s_res_status, index := 0 }

def s_res_status (c : parser_core) (ch : UInt8) : Script :=
  if ch = byte '\r' then
    let c := { c with state := .s_res_line_almost_done }
    .CALLBACK_DATA .status c <| .next c
  else if ch = byte '\n' then
    let c := { c with state := .s_header_field_start }
    .CALLBACK_DATA .status c <| .next c
  else .next c

/-! ## Chunks -/

def s_chunk_size_start (c : parser_core) (ch : UInt8) : Script :=
  match unhex ch with
  | none => .error c .HPE_INVALID_CHUNK_SIZE
  | some v => .next { c with content_length := v, state := .s_chunk_size }

def s_chunk_size (c : parser_core) (ch : UInt8) : Script :=
  if ch = byte '\r' then .next { c with state := .s_chunk_size_almost_done }
  else match unhex ch with
  | none =>
    if ch = byte ';' ∨ ch = byte ' ' then .next { c with state := .s_chunk_parameters }
    else .error c .HPE_INVALID_CHUNK_SIZE
  | some v =>
    if (ULLONG_MAX - 16) / 16 < c.content_length then .error c .HPE_INVALID_CONTENT_LENGTH
    else .next { c with content_length := (c.content_length * 16 + v) % 2 ^ 64 }

def s_chunk_parameters (c : parser_core) (ch : UInt8) : Script :=
  if ch = byte '\r' then .next { c with state := .s_chunk_size_almost_done } else .next c

def s_chunk_size_almost_done (c : parser_core) (ch : UInt8) : Script :=
  .strict_check c (ch ≠ byte '\n') <| .reset_nread <|
    let c :=
      if c.content_length = 0 then
        { c with flags.F_TRAILING := true, state := .s_header_field_start }
      else { c with state := .s_chunk_data }
    .CALLBACK_NOTIFY .chunk_header c <| .next c

def s_chunk_data_almost_done (c : parser_core) (ch : UInt8) : Script :=
  .strict_check c (ch ≠ byte '\r') <|
    let c := { c with state := .s_chunk_data_done }
    .CALLBACK_DATA .body c <| .next c

def s_chunk_data_done (c : parser_core) (ch : UInt8) : Script :=
  .strict_check c (ch ≠ byte '\n') <| .reset_nread <|
    let c := { c with state := .s_chunk_size_start }
    .CALLBACK_NOTIFY .chunk_complete c <| .next c

/-! ## The switch -/

/-- This state is used after a message with `Connection: close`. -/
def s_dead (c : parser_core) (ch : UInt8) : Script :=
  if ch = byte '\r' ∨ ch = byte '\n' then .next c else .error c .HPE_CLOSED_CONNECTION

/-- The cases of the switch that look at one byte. -/
def single (c : parser_core) (ch : UInt8) : Script :=
  match c.state with
  | .url .s_dead => s_dead c ch
  | .s_start_req_or_res => s_start_req_or_res c ch
  | .s_res_or_resp_H => s_res_or_resp_H c ch
  | .s_start_res => s_start_res c ch
  | .s_res_H => strict_char c ch (byte 'T') .s_res_HT
  | .s_res_HT => strict_char c ch (byte 'T') .s_res_HTT
  | .s_res_HTT => strict_char c ch (byte 'P') .s_res_HTTP
  | .s_res_HTTP => strict_char c ch (byte '/') .s_res_first_http_major
  | .s_res_first_http_major => s_res_first_http_major c ch
  | .s_res_http_major => http_major c ch .s_res_first_http_minor
  | .s_res_first_http_minor => first_http_minor c ch .s_res_http_minor
  | .s_res_http_minor => s_res_http_minor c ch
  | .s_res_first_status_code => s_res_first_status_code c ch
  | .s_res_status_code => s_res_status_code c ch
  | .s_res_status_start => s_res_status_start c ch
  | .s_res_status => s_res_status c ch
  | .s_res_line_almost_done => strict_char c ch (byte '\n') .s_header_field_start
  | .s_start_req => s_start_req c ch
  | .s_req_method => s_req_method c ch
  | .url .s_req_spaces_before_url => s_req_spaces_before_url c ch
  | .url .s_req_schema => s_req_before_server c .s_req_schema ch
  | .url .s_req_schema_slash => s_req_before_server c .s_req_schema_slash ch
  | .url .s_req_schema_slash_slash => s_req_before_server c .s_req_schema_slash_slash ch
  | .url .s_req_server_start => s_req_before_server c .s_req_server_start ch
  | .url s => s_req_in_url c s ch
  | .s_req_http_start => s_req_http_start c ch
  | .s_req_http_H => strict_char c ch (byte 'T') .s_req_http_HT
  | .s_req_http_HT => strict_char c ch (byte 'T') .s_req_http_HTT
  | .s_req_http_HTT => strict_char c ch (byte 'P') .s_req_http_HTTP
  | .s_req_http_HTTP => strict_char c ch (byte '/') .s_req_first_http_major
  | .s_req_first_http_major => s_req_first_http_major c ch
  | .s_req_http_major => http_major c ch .s_req_first_http_minor
  | .s_req_first_http_minor => first_http_minor c ch .s_req_http_minor
  | .s_req_http_minor => s_req_http_minor c ch
  | .s_req_line_almost_done => s_req_line_almost_done c ch
  | .s_header_field_start => s_header_field_start c ch
  | .s_header_value_discard_ws => s_header_value_discard_ws c ch
  | .s_header_value_discard_ws_almost_done =>
    strict_char c ch (byte '\n') .s_header_value_discard_lws
  | .s_header_value_discard_lws => s_header_value_discard_lws c ch
  | .s_header_value_start => s_header_value_start c ch
  | .s_header_value_lws => s_header_value_lws c ch
  | .s_header_almost_done => s_header_almost_done c ch
  | .s_chunk_size_start => s_chunk_size_start c ch
  | .s_chunk_size => s_chunk_size c ch
  | .s_chunk_parameters => s_chunk_parameters c ch
  | .s_chunk_size_almost_done => s_chunk_size_almost_done c ch
  | .s_headers_almost_done => s_headers_almost_done c ch
  | .s_headers_done => s_headers_done c ch
  | .s_chunk_data_almost_done => s_chunk_data_almost_done c ch
  | .s_chunk_data_done => s_chunk_data_done c ch
  | .s_message_done => s_message_done c
  -- the states that move over several bytes have cases of their own
  | _ => .error c .HPE_INVALID_INTERNAL_STATE

end MyWarehouse

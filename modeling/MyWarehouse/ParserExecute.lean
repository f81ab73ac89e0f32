/-
`http_parser_execute` of `http_parser.c`: the loop over the bytes of one call.

The variables of the function are the parser, the marks (where in `data` the bytes of a
data callback begin), and the position `p`. Marks and positions are offsets in `data`. The
callbacks that were run are recorded; what one of them returns may depend on all of them so
far. Leaving the function early, by `goto error`, `RETURN` or a failed callback, is an
`error` with the value it returns.

The loop itself runs on fuel; `data.length` is enough, since every round moves `p` forward.
-/
import MyWarehouse.ParserStates

set_option autoImplicit false

namespace MyWarehouse

/-! ## Settings and variables -/

/-- `HTTP_MAX_HEADER_SIZE`. -/
def HTTP_MAX_HEADER_SIZE : ℕ := 80 * 1024

/-- A callback that was run: with a piece of `data`, or without. -/
inductive ParserCall where
  | data (f : http_data) (at_ len : ℕ)
  | notify (n : http_notify)
  | headers_complete
  deriving DecidableEq, Repr

/-- `http_parser_settings`: which callbacks are not NULL, and what the last one of a list of
callbacks returns. -/
structure http_parser_settings where
  on_data : http_data → Bool
  on_notify : http_notify → Bool
  on_headers_complete : Bool
  result : List ParserCall → ℤ

/-- `HPE_CB_##FOR` of a data callback. -/
def http_data.errno : http_data → http_errno
  | .header_field => .HPE_CB_header_field
  | .header_value => .HPE_CB_header_value
  | .url => .HPE_CB_url
  | .body => .HPE_CB_body
  | .status => .HPE_CB_status

/-- `HPE_CB_##FOR` of the other callbacks. -/
def http_notify.errno : http_notify → http_errno
  | .message_begin => .HPE_CB_message_begin
  | .message_complete => .HPE_CB_message_complete
  | .chunk_header => .HPE_CB_chunk_header
  | .chunk_complete => .HPE_CB_chunk_complete

/-- The variables of `http_parser_execute` but `p`. -/
structure Execution where
  parser : parser_core
  nread : ℕ
  marks : http_data → Option ℕ
  calls : List ParserCall

/-- The function goes on, or has returned a value. -/
abbrev Exec (α : Type) := Except (ℕ × Execution) α

namespace Execution

/-- The members of the parser are changed. -/
def set (x : Execution) (parser : parser_core) : Execution := { x with parser := parser }

/-- `SET_ERRNO(e)`, and return. -/
def fail {α : Type} (x : Execution) (ret : ℕ) (e : http_errno) : Exec α :=
  .error (ret, x.set { x.parser with http_errno := e })

/-- `MARK`. -/
def set_mark (x : Execution) (f : http_data) (p : ℕ) : Execution :=
  if (x.marks f).isNone then { x with marks := Function.update x.marks f (some p) } else x

/-- `f_mark = NULL`. -/
def clear_mark (x : Execution) (f : http_data) : Execution :=
  { x with marks := Function.update x.marks f none }

/-- `CALLBACK_DATA_` for the bytes from the mark up to `stop`. -/
def callback_data (settings : http_parser_settings) (x : Execution) (f : http_data)
    (stop ret : ℕ) : Exec Execution :=
  match x.marks f with
  | none => .ok x
  | some m =>
    if settings.on_data f then
      let x := { x with calls := x.calls ++ [ParserCall.data f m (stop - m)] }
      if settings.result x.calls ≠ 0 then x.fail ret f.errno else .ok (x.clear_mark f)
    else .ok (x.clear_mark f)

/-- `CALLBACK_NOTIFY_`. -/
def callback_notify (settings : http_parser_settings) (x : Execution) (n : http_notify)
    (ret : ℕ) : Exec Execution :=
  if settings.on_notify n then
    let x := { x with calls := x.calls ++ [ParserCall.notify n] }
    if settings.result x.calls ≠ 0 then x.fail ret n.errno else .ok x
  else .ok x

/-- The call of `on_headers_complete`; whether it returned 1. -/
def headers_complete (settings : http_parser_settings) (x : Execution) (ret : ℕ) :
    Exec (Bool × Execution) :=
  if settings.on_headers_complete then
    let x := { x with calls := x.calls ++ [ParserCall.headers_complete] }
    if settings.result x.calls = 0 then .ok (false, x)
    else if settings.result x.calls = 1 then .ok (true, x)
    else x.fail ret .HPE_CB_headers_complete
  else .ok (false, x)

/-- `COUNT_HEADER_SIZE`; `nread` has 32 bits. -/
def count_header_size (x : Execution) (v ret : ℕ) : Exec Execution :=
  let x := { x with nread := (x.nread + v) % 2 ^ 32 }
  if HTTP_MAX_HEADER_SIZE < x.nread then x.fail ret .HPE_HEADER_OVERFLOW else .ok x

end Execution

/-- A script is run for the byte at `p`. -/
def Script.run (settings : http_parser_settings) (p : ℕ) : Script → Execution → Exec Execution
  | .next parser, x => .ok (x.set parser)
  | .error parser e, x => (x.set parser).fail p e
  | .leave parser, x => .error (p + 1, x.set parser)
  | .mark f k, x => k.run settings p (x.set_mark f p)
  | .reset_nread k, x => k.run settings p { x with nread := 0 }
  | .callback_data f len er parser k, x => do
    let x ← (x.set parser).callback_data settings f (p + len) (p + er)
    k.run settings p x
  | .callback_notify n er parser k, x => do
    let x ← (x.set parser).callback_notify settings n (p + er)
    k.run settings p x
  | .headers_complete parser k, x => do
    let (skip, x) ← (x.set parser).headers_complete settings p
    (k skip).run settings p x

/-! ## The cases that move over several bytes

Each returns `p` as it is at the end of the case. -/

section Blocks

variable (settings : http_parser_settings) (data : Bytes) (p : ℕ) (x : Execution)

/-- `s_header_field`. -/
def s_header_field : Exec (ℕ × Execution) := do
  let name := (data.drop p).takeWhile fun ch => TOKEN ch ≠ 0
  let start := p
  let p := p + name.length
  let x := x.set (name.foldl field_char x.parser)
  let x ← x.count_header_size (p - start) p
  match data[p]? with
  | none => .ok (p - 1, x)
  | some ch =>
    if ch = byte ':' then
      let x := x.set { x.parser with state := .s_header_value_discard_ws }
      let x ← x.callback_data settings .header_field p (p + 1)
      .ok (p, x)
    else x.fail p .HPE_INVALID_HEADER_TOKEN

/-- How the loop of `s_header_value` ends. -/
inductive ValueEnd where
  | cr
  | lf
  | end_of_data
  | invalid
  deriving DecidableEq, Repr

/-- What `memchr` finds in the rest of a general value: the number of bytes to skip. -/
def skip_general (rest : Bytes) : ℕ :=
  match (rest.take HTTP_MAX_HEADER_SIZE).findIdx? fun ch => ch = byte '\r' ∨ ch = byte '\n' with
  | some n => n
  | none => rest.length

/-- How a general value ends when `n` bytes are skipped. -/
def general_end (rest : Bytes) (n : ℕ) : ValueEnd :=
  match rest[n]? with
  | none => .end_of_data
  | some ch => if ch = byte '\r' then .cr else .lf

/-- The loop of `s_header_value` over the rest of the data: the bytes it passes, how it
ends, and the parser with `h_state` as its `header_state`. -/
def value_loop : parser_core → Bytes → ℕ × ValueEnd × parser_core
  | c, [] => (0, .end_of_data, c)
  | c, ch :: rest =>
    if ch = byte '\r' then (0, .cr, c)
    else if ch = byte '\n' then (0, .lf, c)
    else if c.header_state = .h_general then
      let n := skip_general (ch :: rest)
      (n, general_end (ch :: rest) n, c)
    else match value_char c ch with
      | none => (0, .invalid, c)
      | some c' =>
        let (n, e, c'') := value_loop c' rest
        (n + 1, e, c'')

/-- `s_header_value`. -/
def s_header_value : Exec (ℕ × Execution) := do
  let start := p
  let (n, ended, c) := value_loop x.parser (data.drop p)
  let p := p + n
  match ended with
  | .cr =>
    let x := x.set { c with state := .s_header_almost_done }
    let x ← x.callback_data settings .header_value p (p + 1)
    let x ← x.count_header_size (p - start) p
    .ok (p, x)
  | .lf =>
    -- the bytes are counted before `header_state` is stored
    let c := { c with state := .s_header_almost_done }
    let x ← (x.set { c with header_state := x.parser.header_state }).count_header_size (p - start) p
    let x ← (x.set c).callback_data settings .header_value p p
    let x ← (s_header_almost_done c (byte '\n')).run settings p x
    .ok (p, x)
  | .end_of_data =>
    let x ← (x.set c).count_header_size (p - start) p
    .ok (p - 1, x)
  | .invalid => (x.set c).fail p .HPE_INVALID_CONTENT_LENGTH

/-- `to_read` in `s_body_identity` and `s_chunk_data`. -/
def to_read : ℕ := min x.parser.content_length (data.length - p)

/-- `s_body_identity`. -/
def s_body_identity : Exec (ℕ × Execution) := do
  let n := to_read data p x
  let x := x.set_mark .body p
  let c : parser_core := { x.parser with content_length := x.parser.content_length - n }
  let p := p + n - 1
  if c.content_length = 0 then
    let c := { c with state := .s_message_done }
    -- the last byte is part of the body, and is seen again
    let x ← (x.set c).callback_data settings .body (p + 1) p
    let x ← (s_message_done c).run settings p x
    .ok (p, x)
  else .ok (p, x.set c)

/-- `s_chunk_data`. -/
def s_chunk_data : Exec (ℕ × Execution) :=
  let n := to_read data p x
  let x := x.set_mark .body p
  let c : parser_core := { x.parser with content_length := x.parser.content_length - n }
  let c := if c.content_length = 0 then { c with state := .s_chunk_data_almost_done } else c
  .ok (p + n - 1, x.set c)

/-- `s_body_identity_eof`. -/
def s_body_identity_eof : Exec (ℕ × Execution) :=
  .ok (data.length - 1, x.set_mark .body p)

end Blocks

/-! ## The function -/

namespace http_parser_execute

variable (settings : http_parser_settings) (data : Bytes)

/-- The switch, for the byte `ch` at `p`. -/
def switch (p : ℕ) (ch : UInt8) (x : Execution) : Exec (ℕ × Execution) :=
  match x.parser.state with
  | .s_header_field => s_header_field settings data p x
  | .s_header_value => s_header_value settings data p x
  | .s_body_identity => s_body_identity settings data p x
  | .s_chunk_data => s_chunk_data data p x
  | .s_body_identity_eof => s_body_identity_eof data p x
  | _ => do
    let x ← (single x.parser ch).run settings p x
    .ok (p, x)

/-- The loop, from `p` on. -/
def loop : ℕ → ℕ → Execution → Exec Execution
  | 0, _, x => .ok x
  | fuel + 1, p, x => match data[p]? with
    | none => .ok x
    | some ch => do
      let x ← (if x.parser.state.parsing_header then x.count_header_size 1 p else .ok x)
      let (p, x) ← switch settings data p ch x
      loop fuel (p + 1) x

/-- The mark of the field a call begins in the middle of. -/
def open_field : state → Option http_data
  | .s_header_field => some .header_field
  | .s_header_value => some .header_value
  | .url .s_dead => none
  | .url .s_req_spaces_before_url => none
  | .url _ => some .url
  | .s_res_status => some .status
  | _ => none

/-- The variables at the start of the loop. -/
def start (parser : http_parser_struct) : Execution where
  parser := parser.toparser_core
  nread := parser.nread
  marks f := if open_field parser.state = some f then some 0 else none
  calls := []

/-- The callbacks for the marks that are left after the loop. -/
def leftover (x : Execution) : Exec Execution := do
  let x ← x.callback_data settings .header_field data.length data.length
  let x ← x.callback_data settings .header_value data.length data.length
  let x ← x.callback_data settings .url data.length data.length
  let x ← x.callback_data settings .body data.length data.length
  x.callback_data settings .status data.length data.length

/-- The call with a length of 0, which tells the parser of the end of the stream. -/
def eof (x : Execution) : ℕ × Execution :=
  match x.parser.state with
  | .s_body_identity_eof => match x.callback_notify settings .message_complete 0 with
    | .ok x => (0, x)
    | .error ret => ret
  | .url .s_dead | .s_start_req_or_res | .s_start_res | .s_start_req => (0, x)
  | _ => (1, x.set { x.parser with http_errno := .HPE_INVALID_EOF_STATE })

end http_parser_execute

/-- The parser a call of `http_parser_execute` leaves. -/
def Execution.stored (x : Execution) : http_parser_struct := { x.parser with nread := x.nread }

open http_parser_execute in
/-- `http_parser_execute`: the number of bytes it says it has parsed, the parser, and the
callbacks. -/
def http_parser_execute (settings : http_parser_settings) (parser : http_parser_struct)
    (data : Bytes) : ℕ × http_parser_struct × List ParserCall :=
  if parser.http_errno ≠ .HPE_OK then (0, parser, [])
  else
    let x := start parser
    let (ret, x) :=
      if data = [] then eof settings x
      else match loop settings data data.length 0 x >>= leftover settings data with
        | .ok x => (data.length, x)
        | .error ret => ret
    (ret, x.stored, x.calls)

end MyWarehouse

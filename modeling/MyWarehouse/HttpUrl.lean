/-
`http_parser_parse_url` of `http_parser.c`: the components of a URL by offset and length.

Two automata read the bytes. `parse_url_char` reads all of them, and each state belongs to
a field or is a delimiter; then `http_parse_host_char` reads the bytes of the host field
once more and finds the user info, the host and the port in them.

The `http_parser_url` is a result that the caller passes in. Only `field_set` and `port`
are reset, and what a failed parse has written stays: `return 1` is an `error` with the
structure as it is then. Offsets and lengths are `uint16_t`.

`buf` is the memory from the pointer on, of which `buflen` bytes are the URL. The port is
converted by `strtoul`, which knows nothing of `buflen`.
-/
import MyWarehouse.Base
import MyWarehouse.Lib.Loop
import Mathlib.Logic.Function.Basic

set_option autoImplicit false

namespace MyWarehouse

/-! ## Character classes

`HTTP_PARSER_STRICT` is 1. -/

/-- The byte of a character in the source. -/
def byte (c : Char) : UInt8 := UInt8.ofNat c.toNat

/-- `LOWER`. -/
def LOWER (c : UInt8) : UInt8 := c ||| 0x20

/-- `IS_ALPHA`. -/
def IS_ALPHA (c : UInt8) : Bool := byte 'a' ≤ LOWER c && LOWER c ≤ byte 'z'

/-- `IS_NUM`. -/
def IS_NUM (c : UInt8) : Bool := byte '0' ≤ c && c ≤ byte '9'

/-- `IS_ALPHANUM`. -/
def IS_ALPHANUM (c : UInt8) : Bool := IS_ALPHA c || IS_NUM c

/-- `IS_HEX`. -/
def IS_HEX (c : UInt8) : Bool := IS_NUM c || byte 'a' ≤ LOWER c && LOWER c ≤ byte 'f'

/-- `IS_MARK`. -/
def IS_MARK (c : UInt8) : Bool := (bytes "-_.!~*'()").contains c

/-- `IS_USERINFO_CHAR`. -/
def IS_USERINFO_CHAR (c : UInt8) : Bool :=
  IS_ALPHANUM c || IS_MARK c || (bytes "%;:&=+$,").contains c

/-- `normal_url_char`, a bit for each byte; the rows that are left out are 0. -/
def normal_url_char : List ℕ :=
  [0, 0, 0, 0, 246, 255, 255, 127, 255, 255, 255, 255, 255, 255, 255, 127]

/-- `IS_URL_CHAR`. -/
def IS_URL_CHAR (c : UInt8) : Bool :=
  (normal_url_char.getD (c.toNat / 8) 0).testBit (c.toNat % 8)

/-- `IS_HOST_CHAR`. -/
def IS_HOST_CHAR (c : UInt8) : Bool := IS_ALPHANUM c || c = byte '.' || c = byte '-'

/-! ## The automata -/

/-- `enum state`: the states of a URL. -/
inductive url_state where
  | s_dead
  | s_req_spaces_before_url
  | s_req_schema
  | s_req_schema_slash
  | s_req_schema_slash_slash
  | s_req_server_start
  | s_req_server
  | s_req_server_with_at
  | s_req_path
  | s_req_query_string_start
  | s_req_query_string
  | s_req_fragment_start
  | s_req_fragment
  deriving DecidableEq, Repr

/-- `parse_url_char`. -/
def parse_url_char (s : url_state) (ch : UInt8) : url_state :=
  if ch = byte ' ' ∨ ch = byte '\r' ∨ ch = byte '\n' then .s_dead
  else if ch = byte '\t' ∨ ch = byte '\x0c' then .s_dead
  else match s with
  | .s_req_spaces_before_url =>
    -- a scheme is alphabetic; all methods except CONNECT are followed by '/' or '*'
    if ch = byte '/' ∨ ch = byte '*' then .s_req_path
    else if IS_ALPHA ch then .s_req_schema
    else .s_dead
  | .s_req_schema =>
    if IS_ALPHA ch then s
    else if ch = byte ':' then .s_req_schema_slash
    else .s_dead
  | .s_req_schema_slash => if ch = byte '/' then .s_req_schema_slash_slash else .s_dead
  | .s_req_schema_slash_slash => if ch = byte '/' then .s_req_server_start else .s_dead
  | .s_req_server_with_at | .s_req_server_start | .s_req_server =>
    -- the first of the three falls through to the others after its own test
    if s = .s_req_server_with_at ∧ ch = byte '@' then .s_dead
    else if ch = byte '/' then .s_req_path
    else if ch = byte '?' then .s_req_query_string_start
    else if ch = byte '@' then .s_req_server_with_at
    else if IS_USERINFO_CHAR ch ∨ ch = byte '[' ∨ ch = byte ']' then .s_req_server
    else .s_dead
  | .s_req_path =>
    if IS_URL_CHAR ch then s
    else if ch = byte '?' then .s_req_query_string_start
    else if ch = byte '#' then .s_req_fragment_start
    else .s_dead
  | .s_req_query_string_start | .s_req_query_string =>
    if IS_URL_CHAR ch then .s_req_query_string
    -- an extra '?' is allowed in the query string
    else if ch = byte '?' then .s_req_query_string
    else if ch = byte '#' then .s_req_fragment_start
    else .s_dead
  | .s_req_fragment_start =>
    if IS_URL_CHAR ch then .s_req_fragment
    else if ch = byte '?' then .s_req_fragment
    else if ch = byte '#' then s
    else .s_dead
  | .s_req_fragment =>
    if IS_URL_CHAR ch then s
    else if ch = byte '?' ∨ ch = byte '#' then s
    else .s_dead
  | .s_dead => .s_dead

/-- `enum http_host_state`. -/
inductive http_host_state where
  | s_http_host_dead
  | s_http_userinfo_start
  | s_http_userinfo
  | s_http_host_start
  | s_http_host_v6_start
  | s_http_host
  | s_http_host_v6
  | s_http_host_v6_end
  | s_http_host_port_start
  | s_http_host_port
  deriving DecidableEq, Repr

/-- `http_parse_host_char`. -/
def http_parse_host_char (s : http_host_state) (ch : UInt8) : http_host_state :=
  match s with
  | .s_http_userinfo | .s_http_userinfo_start =>
    if ch = byte '@' then .s_http_host_start
    else if IS_USERINFO_CHAR ch then .s_http_userinfo
    else .s_http_host_dead
  | .s_http_host_start =>
    if ch = byte '[' then .s_http_host_v6_start
    else if IS_HOST_CHAR ch then .s_http_host
    else .s_http_host_dead
  | .s_http_host | .s_http_host_v6_end =>
    -- `s_http_host` falls through, and so does `s_http_host_v6` below
    if s = .s_http_host ∧ IS_HOST_CHAR ch then .s_http_host
    else if ch = byte ':' then .s_http_host_port_start
    else .s_http_host_dead
  | .s_http_host_v6 | .s_http_host_v6_start =>
    if s = .s_http_host_v6 ∧ ch = byte ']' then .s_http_host_v6_end
    else if IS_HEX ch ∨ ch = byte ':' ∨ ch = byte '.' then .s_http_host_v6
    else .s_http_host_dead
  | .s_http_host_port | .s_http_host_port_start =>
    if IS_NUM ch then .s_http_host_port else .s_http_host_dead
  | .s_http_host_dead => .s_http_host_dead

/-! ## The result -/

/-- `enum http_parser_url_fields`, without `UF_MAX`. -/
inductive http_parser_url_fields where
  | UF_SCHEMA
  | UF_HOST
  | UF_PORT
  | UF_PATH
  | UF_QUERY
  | UF_FRAGMENT
  | UF_USERINFO
  deriving DecidableEq, Repr

/-- The value of an enumerator: the number of its bit in `field_set`. -/
def http_parser_url_fields.value : http_parser_url_fields → ℕ
  | .UF_SCHEMA => 0
  | .UF_HOST => 1
  | .UF_PORT => 2
  | .UF_PATH => 3
  | .UF_QUERY => 4
  | .UF_FRAGMENT => 5
  | .UF_USERINFO => 6

/-- Where a field is in the buffer. -/
structure FieldData where
  off : ℕ
  len : ℕ
  deriving DecidableEq, Repr

/-- `http_parser_url`. -/
structure http_parser_url where
  field_set : ℕ
  port : ℕ
  field_data : http_parser_url_fields → FieldData

/-- A number stored in a `uint16_t`. -/
def uint16 (n : ℕ) : ℕ := n % 65536

namespace http_parser_url

/-- All of it is 0. -/
def zero : http_parser_url := ⟨0, 0, fun _ => ⟨0, 0⟩⟩

/-- The bit of a field is set. -/
def has (u : http_parser_url) (uf : http_parser_url_fields) : Bool := u.field_set.testBit uf.value

/-- `u->field_set |= (1 << uf)`. -/
def mark (u : http_parser_url) (uf : http_parser_url_fields) : http_parser_url :=
  { u with field_set := u.field_set ||| 1 <<< uf.value }

/-- `u->field_data[uf]` is changed. -/
def modify (u : http_parser_url) (uf : http_parser_url_fields) (f : FieldData → FieldData) :
    http_parser_url :=
  { u with field_data := Function.update u.field_data uf (f (u.field_data uf)) }

/-- `u->field_data[uf].off = off`. -/
def set_off (u : http_parser_url) (uf : http_parser_url_fields) (off : ℕ) : http_parser_url :=
  u.modify uf fun d => { d with off := uint16 off }

/-- `u->field_data[uf].len = len`. -/
def set_len (u : http_parser_url) (uf : http_parser_url_fields) (len : ℕ) : http_parser_url :=
  u.modify uf fun d => { d with len := uint16 len }

/-- `u->field_data[uf].len++`. -/
def grow (u : http_parser_url) (uf : http_parser_url_fields) : http_parser_url :=
  u.modify uf fun d => { d with len := uint16 (d.len + 1) }

/-- A field begins: its offset and length are stored and its bit is set. -/
def start (u : http_parser_url) (uf : http_parser_url_fields) (off len : ℕ) : http_parser_url :=
  ((u.set_off uf off).set_len uf len).mark uf

end http_parser_url

/-! ## `http_parse_host` -/

/-- The body of the loop of `http_parse_host` for the byte `ch` at `buf[i]`. -/
def http_parse_host.body (i : ℕ) (ch : UInt8) (c : http_host_state × http_parser_url) :
    Except http_parser_url (http_host_state × http_parser_url) :=
  let (s, u) := c
  let new_s := http_parse_host_char s ch
  match new_s with
  | .s_http_host_dead => .error u
  | .s_http_host =>
    .ok (new_s, (if s ≠ .s_http_host then u.set_off .UF_HOST i else u).grow .UF_HOST)
  | .s_http_host_v6 =>
    .ok (new_s, (if s ≠ .s_http_host_v6 then u.set_off .UF_HOST i else u).grow .UF_HOST)
  | .s_http_host_port =>
    .ok (new_s, (if s ≠ .s_http_host_port then u.start .UF_PORT i 0 else u).grow .UF_PORT)
  | .s_http_userinfo =>
    .ok (new_s, (if s ≠ .s_http_userinfo then u.start .UF_USERINFO i 0 else u).grow .UF_USERINFO)
  | _ => .ok (new_s, u)

/-- The states `http_parse_host` must not end in. -/
def http_host_state.unfinished : http_host_state → Bool
  | .s_http_host_start | .s_http_host_v6_start | .s_http_host_v6 | .s_http_host_port_start
  | .s_http_userinfo | .s_http_userinfo_start => true
  | _ => false

/-- `http_parse_host`. -/
def http_parse_host (buf : Bytes) (u : http_parser_url) (found_at : Bool) :
    Except http_parser_url http_parser_url := do
  -- the length is taken before it is set to 0
  let host := u.field_data .UF_HOST
  let (s, u) ← Loop.each http_parse_host.body host.off ((buf.drop host.off).take host.len)
    (if found_at then .s_http_userinfo_start else .s_http_host_start, u.set_len .UF_HOST 0)
  -- the host must not end somewhere unexpected
  if s.unfinished then .error u else .ok u

/-! ## `http_parser_parse_url` -/

/-- The variables of the loop of `http_parser_parse_url`. `old_uf` is `none` for `UF_MAX`. -/
structure UrlLoop where
  s : url_state
  old_uf : Option http_parser_url_fields
  found_at : Bool
  u : http_parser_url

/-- The byte at `buf[i]` belongs to a field: it goes on, or it begins. -/
def UrlLoop.field (c : UrlLoop) (i : ℕ) (uf : http_parser_url_fields) : UrlLoop :=
  if c.old_uf = some uf then { c with u := c.u.grow uf }
  else { c with u := c.u.start uf i 1, old_uf := some uf }

/-- The body of the loop of `http_parser_parse_url` for the byte `ch` at `buf[i]`. -/
def http_parser_parse_url.body (i : ℕ) (ch : UInt8) (c : UrlLoop) :
    Except http_parser_url UrlLoop :=
  let s := parse_url_char c.s ch
  match s with
  | .s_dead => .error c.u
  | .s_req_schema_slash | .s_req_schema_slash_slash | .s_req_server_start
  | .s_req_query_string_start | .s_req_fragment_start => .ok { c with s := s }
  | .s_req_schema => .ok ({ c with s := s }.field i .UF_SCHEMA)
  | .s_req_server_with_at => .ok ({ c with s := s, found_at := true }.field i .UF_HOST)
  | .s_req_server => .ok ({ c with s := s }.field i .UF_HOST)
  | .s_req_path => .ok ({ c with s := s }.field i .UF_PATH)
  | .s_req_query_string => .ok ({ c with s := s }.field i .UF_QUERY)
  | .s_req_fragment => .ok ({ c with s := s }.field i .UF_FRAGMENT)
  -- `assert(!"Unexpected state")`: `parse_url_char` does not lead here
  | .s_req_spaces_before_url => .error c.u

/-- `isspace` of the C locale. -/
def isspace (c : UInt8) : Bool := (bytes " \t\n\x0b\x0c\r").contains c

/-- `strtoul` in base 10, with the 64 bits of an `unsigned long`. -/
def strtoul (text : Bytes) : ℕ :=
  let text := text.dropWhile isspace
  let negative := text.head? = some (byte '-')
  let text := if negative ∨ text.head? = some (byte '+') then text.tail else text
  let v := (text.takeWhile IS_NUM).foldl (fun v c => 10 * v + (c.toNat - 48)) 0
  if 2 ^ 64 ≤ v then 2 ^ 64 - 1
  else if negative then (2 ^ 64 - v) % 2 ^ 64
  else v

/-- `http_parser_parse_url`. -/
def http_parser_parse_url (buf : Bytes) (buflen : ℕ) (is_connect : Bool) (u : http_parser_url) :
    Except http_parser_url http_parser_url := do
  let u := { u with port := 0, field_set := 0 }
  let s := if is_connect then .s_req_server_start else .s_req_spaces_before_url
  let c ← Loop.each http_parser_parse_url.body 0 (buf.take buflen) ⟨s, none, false, u⟩
  -- a host must be present if there is a scheme: `http:///toto` fails
  if c.u.has .UF_SCHEMA ∧ ¬ c.u.has .UF_HOST then .error c.u
  else do
    let u ← (if c.u.has .UF_HOST then http_parse_host buf c.u c.found_at else .ok c.u)
    -- a CONNECT target is "hostname:port" and nothing else
    let host_and_port :=
      1 <<< http_parser_url_fields.UF_HOST.value ||| 1 <<< http_parser_url_fields.UF_PORT.value
    if is_connect ∧ u.field_set ≠ host_and_port then .error u
    else if u.has .UF_PORT then
      -- the digits are converted up to the first byte that is none, wherever that is
      let v := strtoul (buf.drop (u.field_data .UF_PORT).off)
      if 0xffff < v then .error u else .ok { u with port := uint16 v }
    else .ok u

end MyWarehouse

/-
Reading the text of a response back.

The text is a status line, one line for each header, a blank line and the body. A reader
cuts the status line at the first line end, the header lines up to the first empty one
and each of them at its first `": "`, and takes what follows for the body, whatever that
is made of. `decode_end` says that this gives the header map of the response as it stands
after `end`, when no name and no value in it breaks its line.
-/
import MyWarehouse.Response
import MyWarehouse.Lib.Delimited

set_option autoImplicit false

namespace MyWarehouse

open Delimited

/-! ## The reader -/

/-- What a reader makes of the text of a response. -/
structure Decoded where
  status : ℤ
  headers : List (Bytes × Bytes)
  body : Bytes
  deriving DecidableEq, Repr

/-- The number that decimal digits stand for. -/
def number (digits : Bytes) : Option ℕ :=
  digits.foldl (fun n c => n.bind fun n =>
    if 48 ≤ c ∧ c ≤ 57 then some (10 * n + (c.toNat - 48)) else none) (some 0)

/-- The status code of a status line: the number between the version and the reason. -/
def status_of (line : Bytes) : Option ℤ :=
  if (bytes "HTTP/1.1 ").isPrefixOf line then
    (number ((line.drop 9).takeWhile fun c => c ≠ 32)).map Int.ofNat
  else none

/-- The status line, the header lines and the body of a text. 13 and 10 end a line, 58
and 32 stand between a name and its value. -/
def decode (text : Bytes) : Option Decoded := do
  let (line, rest) ← next 13 10 text
  let status ← status_of line
  let (lines, body) ← block 13 10 [] rest
  let headers ← lines.mapM (next 58 32)
  return ⟨status, headers, body⟩

/-- The values given for a header, whatever the case its name is written in. -/
def Decoded.values (d : Decoded) (key : Bytes) : List Bytes :=
  (d.headers.filter fun h => lowered key = lowered h.1).map Prod.snd

/-! ## What can be read back -/

/-- The status codes that `get_status_text` lists. -/
def listed : List ℤ :=
  [100, 101, 200, 201, 202, 203, 204, 205, 206, 300, 301, 302, 303, 304, 305, 307, 400, 401, 402,
    403, 404, 405, 406, 407, 408, 409, 410, 411, 412, 413, 414, 415, 416, 417, 500, 501, 502, 503,
    504, 505]

/-- The first line of the text. -/
def status_line (status : ℤ) : Bytes :=
  bytes "HTTP/1.1 " ++ decimal status ++ bytes " " ++ response.get_status_text status

/-- A header line without its line end. -/
def field (h : Bytes × Bytes) : Bytes := h.1 ++ bytes ": " ++ h.2

/-- A name without a line end and without the separator. -/
structure PlainName (name : Bytes) : Prop where
  line : Unbroken 13 10 name
  separator : Unbroken 58 32 name

/-- A value without a line end. -/
def PlainValue (value : Bytes) : Prop := Unbroken 13 10 value

/-- No header breaks its line. -/
def PlainHeaders (headers : List (Bytes × Bytes)) : Prop :=
  ∀ h ∈ headers, PlainName h.1 ∧ PlainValue h.2

/-- A listed status is read back, and its line is not broken. -/
theorem status_line_listed : ∀ status ∈ listed,
    status_of (status_line status) = some status ∧ (13 : UInt8) ∉ status_line status := by
  decide +kernel

theorem field_unbroken {h : Bytes × Bytes} (hname : PlainName h.1) (hvalue : PlainValue h.2) :
    Unbroken 13 10 (field h) := by
  have hspace : Unbroken 13 10 ((32 : UInt8) :: h.2) :=
    Unbroken.append_cons List.IsChain.nil hvalue (by decide) (by decide)
  have hline : field h = h.1 ++ 58 :: 32 :: h.2 := by
    rw [field, List.append_assoc]
    rfl
  rw [hline]
  exact hname.line.append_cons hspace (by decide) (by decide)

/-- A header line gives its name and its value. -/
theorem next_field {h : Bytes × Bytes} (hname : PlainName h.1) : next 58 32 (field h) = some h := by
  have hline : field h = h.1 ++ 58 :: 32 :: h.2 := by
    rw [field, List.append_assoc]
    rfl
  rw [hline, next_append (by decide) hname.separator]

theorem mapM_field {headers : List (Bytes × Bytes)} (h : PlainHeaders headers) :
    (headers.map field).mapM (next 58 32) = some headers := by
  induction headers with
  | nil => rfl
  | cons e headers ih =>
    have hrest := ih fun t ht => h t (List.mem_cons_of_mem e ht)
    rw [List.map_cons, List.mapM_cons, next_field (h e List.mem_cons_self).1, hrest]
    rfl

/-- The text of a response, line by line. -/
theorem end_lines (write : Value → Bytes) (r : response) :
    (r.end_ write).2 = status_line r.status_ ++ 13 :: 10 ::
      (((r.end_ write).1.headers_.entries.map field).flatMap (fun l => l ++ [13, 10])
        ++ 13 :: 10 :: write r.root_) := by
  have hlines : ∀ headers : List (Bytes × Bytes), headers.flatMap header_line
      = (headers.map field).flatMap fun l => l ++ [13, 10] := by
    intro headers
    rw [List.flatMap_map]
    rfl
  rw [response.end_headers, ← hlines]
  simp only [response.end_, status_line, List.append_assoc]
  rfl

theorem plainName_content_length : PlainName (bytes "Content-Length") :=
  ⟨by decide, by decide⟩

theorem plainName_content_type : PlainName (bytes "Content-Type") :=
  ⟨by decide, by decide⟩

theorem plainValue_decimal (n : ℕ) : PlainValue (decimal n) :=
  unbroken_of_notMem (cr_notMem_decimal n)

/-- `end` adds no header that breaks its line. -/
theorem plain_end (write : Value → Bytes) {r : response}
    (h : PlainHeaders r.headers_.entries) : PlainHeaders (r.end_ write).1.headers_.entries := by
  rw [response.end_headers]
  rcases r.headers_.lookup (bytes "Content-Length") with _ | v
  · exact OrdMap.forall_assign plainName_content_length (plainValue_decimal _) h
  · exact h

/-- **The text of a response decodes** to its status, the headers `end` leaves, and the
body. -/
theorem decode_end (write : Value → Bytes) {r : response} (hstatus : r.status_ ∈ listed)
    (h : PlainHeaders r.headers_.entries) :
    decode (r.end_ write).2
      = some ⟨r.status_, (r.end_ write).1.headers_.entries, write r.root_⟩ := by
  obtain ⟨hcode, hcr⟩ := status_line_listed r.status_ hstatus
  have hplain := plain_end write h
  have hlines : ∀ l ∈ (r.end_ write).1.headers_.entries.map field, l ≠ [] ∧ Unbroken 13 10 l := by
    intro l hl
    obtain ⟨e, he, rfl⟩ := List.mem_map.mp hl
    obtain ⟨hname, hvalue⟩ := hplain e he
    refine ⟨?_, field_unbroken hname hvalue⟩
    simp [field, bytes]
  rw [end_lines]
  simp only [decode, next_append (by decide : (13 : UInt8) ≠ 10) (unbroken_of_notMem hcr),
    block_pieces (by decide : (13 : UInt8) ≠ 10) hlines, mapM_field hplain, hcode,
    Option.bind_eq_bind, Option.bind_some]
  rfl

/-- The values that are read for a header are the one the map holds, if it holds one. -/
theorem values_of_headers (status : ℤ) (headers : Headers) (body key : Bytes) :
    (Decoded.mk status headers.entries body).values key = (headers.lookup key).toList := by
  have hsame := OrdMap.filter_same headers.sorted key
  simp only [same_iff_lowered] at hsame
  exact hsame

/-! ## The first text of a response -/

/-- Calls of `set_header`, one after the other. -/
def set_headers (r : response) (sets : List (Bytes × Bytes)) : response :=
  sets.foldl (fun r h => r.set_header h.1 h.2) r

/-- The value a header was given last. -/
def last_set (sets : List (Bytes × Bytes)) (key : Bytes) : Option Bytes :=
  ((sets.filter fun h => lowered key = lowered h.1).getLast?).map Prod.snd

/-- A fresh response on which headers, the status and the root were set. -/
def prepared (sets : List (Bytes × Bytes)) (status : ℤ) (root : Value) : response :=
  { (set_headers response.ctor sets).set_status status with root_ := root }

/-- A header whose name is not empty, is not `Content-Length`, and holds no line end and no
colon, and whose value holds no line end. -/
structure Settable (h : Bytes × Bytes) : Prop where
  name_ne : h.1 ≠ []
  name : (13 : UInt8) ∉ h.1 ∧ (10 : UInt8) ∉ h.1 ∧ (58 : UInt8) ∉ h.1
  other : lowered h.1 ≠ lowered (bytes "Content-Length")
  value : (13 : UInt8) ∉ h.2 ∧ (10 : UInt8) ∉ h.2

/-- What a header of the first text should be: the length of the body, the value given
last, or the default of the constructor. -/
def first_value (sets : List (Bytes × Bytes)) (body : Bytes) (key : Bytes) : Option Bytes :=
  if lowered key = lowered (bytes "Content-Length") then some (decimal body.length)
  else (last_set sets key).or
    (if lowered key = lowered (bytes "Content-Type") then some (bytes "text/json") else none)

theorem last_set_concat (sets : List (Bytes × Bytes)) (h : Bytes × Bytes) (key : Bytes) :
    last_set (sets ++ [h]) key
      = if lowered key = lowered h.1 then some h.2 else last_set sets key := by
  unfold last_set
  rw [List.filter_append]
  split_ifs with hsame
  · rw [List.filter_cons_of_pos (by exact decide_eq_true hsame), List.filter_nil,
      List.getLast?_concat]
    rfl
  · rw [List.filter_cons_of_neg (by simpa using hsame), List.filter_nil, List.append_nil]

theorem lookup_set_header (r : response) (k v key : Bytes) :
    (r.set_header k v).headers_.lookup key
      = if lowered key = lowered k then some v else r.headers_.lookup key := by
  have hset := OrdMap.lookup_set r.headers_ k key v
  simp only [same_iff_lowered] at hset
  exact hset

/-- Looking a header up after the calls gives the value it was given last. -/
theorem lookup_set_headers (r : response) (sets : List (Bytes × Bytes)) (key : Bytes) :
    (set_headers r sets).headers_.lookup key
      = (last_set sets key).or (r.headers_.lookup key) := by
  induction sets using List.reverseRecOn with
  | nil => rfl
  | append_singleton sets h ih =>
    have hlast : set_headers r (sets ++ [h]) = (set_headers r sets).set_header h.1 h.2 :=
      List.foldl_concat ..
    rw [hlast, lookup_set_header, last_set_concat, ih]
    split_ifs
    · rfl
    · rfl

theorem plain_set_headers {r : response} {sets : List (Bytes × Bytes)}
    (hr : PlainHeaders r.headers_.entries) (hsets : PlainHeaders sets) :
    PlainHeaders (set_headers r sets).headers_.entries := by
  induction sets using List.reverseRecOn with
  | nil => exact hr
  | append_singleton sets h ih =>
    have hlast : set_headers r (sets ++ [h]) = (set_headers r sets).set_header h.1 h.2 :=
      List.foldl_concat ..
    obtain ⟨hname, hvalue⟩ := hsets h (List.mem_append_right sets (List.mem_singleton_self h))
    rw [hlast]
    apply OrdMap.forall_assign hname hvalue
    exact ih fun t ht => hsets t (List.mem_append_left [h] ht)

theorem Settable.plain {h : Bytes × Bytes} (hset : Settable h) : PlainName h.1 ∧ PlainValue h.2 :=
  ⟨⟨unbroken_of_notMem hset.name.1, unbroken_of_notMem hset.name.2.2⟩,
    unbroken_of_notMem hset.value.1⟩

theorem plain_ctor : PlainHeaders response.ctor.headers_.entries := by
  intro h hh
  rw [show h = (bytes "Content-Type", bytes "text/json") from List.mem_singleton.mp hh]
  exact ⟨plainName_content_type, unbroken_of_notMem (by decide)⟩

/-- What no `set_header` named was not given a value. -/
theorem last_set_none {sets : List (Bytes × Bytes)} {key : Bytes}
    (h : ∀ t ∈ sets, lowered t.1 ≠ lowered key) : last_set sets key = none := by
  unfold last_set
  have hnone : sets.filter (fun t => lowered key = lowered t.1) = [] := by
    apply List.filter_eq_nil_iff.mpr
    intro t ht hsame
    exact h t ht (of_decide_eq_true hsame).symm
  rw [hnone]
  rfl

/-- `end` gives the `Content-Length` of the body to a response that has none. -/
theorem lookup_end (write : Value → Bytes) {r : response}
    (hnone : r.headers_.lookup (bytes "Content-Length") = none) (key : Bytes) :
    (r.end_ write).1.headers_.lookup key
      = if lowered key = lowered (bytes "Content-Length") then
          some (decimal (write r.root_).length)
        else r.headers_.lookup key := by
  rw [response.end_headers, hnone]
  exact lookup_set_header r (bytes "Content-Length") (decimal (write r.root_).length) key

/-- **The first text decodes.** Whatever the writer, the root, the listed status and the
headers set on a fresh response, the first text that `end` returns gives back the status,
for each header name one line with the value it should have, and the body. -/
theorem first_end_decodes (write : Value → Bytes) (status : ℤ) (hstatus : status ∈ listed)
    (root : Value) (sets : List (Bytes × Bytes)) (hsets : ∀ h ∈ sets, Settable h) :
    ∃ d, decode ((prepared sets status root).end_ write).2 = some d ∧ d.status = status ∧
      d.body = write root ∧ (∀ key, d.values key = (first_value sets d.body key).toList) ∧
      d.values (bytes "Content-Length") = [decimal d.body.length] := by
  have hplain : PlainHeaders (prepared sets status root).headers_.entries :=
    plain_set_headers plain_ctor fun h hh => (hsets h hh).plain
  have hlookup : ∀ key, (prepared sets status root).headers_.lookup key
      = (last_set sets key).or (response.ctor.headers_.lookup key) :=
    lookup_set_headers response.ctor sets
  have hctor : ∀ key, response.ctor.headers_.lookup key
      = if lowered key = lowered (bytes "Content-Type") then some (bytes "text/json")
        else none := by
    intro key
    have hset := OrdMap.lookup_set (OrdMap.empty : Headers) (bytes "Content-Type") key
      (bytes "text/json")
    simp only [same_iff_lowered, OrdMap.lookup_empty] at hset
    exact hset
  -- nobody has set a length, so `end` sets that of the body
  have hnone : (prepared sets status root).headers_.lookup (bytes "Content-Length") = none := by
    rw [hlookup, last_set_none fun h hh => (hsets h hh).other, hctor]
    decide
  have hvalues : ∀ key, (Decoded.mk status
      ((prepared sets status root).end_ write).1.headers_.entries (write root)).values key
        = (first_value sets (write root) key).toList := by
    intro key
    rw [values_of_headers, lookup_end write hnone, hlookup, hctor]
    rfl
  refine ⟨_, decode_end write hstatus hplain, rfl, rfl, hvalues, ?_⟩
  apply (hvalues (bytes "Content-Length")).trans
  rw [first_value, if_pos rfl]
  rfl

/-- A header set twice under two spellings, and a body that looks like a header and a blank
line. -/
theorem first_end_decodes_twice :
    ∃ d, decode ((prepared [(bytes "X-Id", bytes "1"), (bytes "x-id", bytes "2")] 404 .null).end_
        (fun _ => bytes "a: b\r\n\r\n")).2 = some d ∧ d.status = 404 ∧
      d.body = bytes "a: b\r\n\r\n" ∧
      (∀ key, d.values key = (first_value [(bytes "X-Id", bytes "1"), (bytes "x-id", bytes "2")]
        d.body key).toList) ∧ d.values (bytes "Content-Length") = [decimal d.body.length] := by
  have hsets : ∀ h ∈ [(bytes "X-Id", bytes "1"), (bytes "x-id", bytes "2")], Settable h := by
    intro h hh
    rcases List.mem_pair.mp hh with rfl | rfl
    · exact ⟨by decide, by decide, by decide, by decide⟩
    · exact ⟨by decide, by decide, by decide, by decide⟩
  exact first_end_decodes (fun _ => bytes "a: b\r\n\r\n") 404 (by decide) .null
    [(bytes "X-Id", bytes "1"), (bytes "x-id", bytes "2")] hsets

end MyWarehouse

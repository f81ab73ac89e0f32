/-
A plain reading of the bytes, one at a time, to compare `http_parser_execute` with.

`one_byte` has a script for every state: the switch where that looks at one byte, and for
the states that move over several bytes what they do with the first of them. `bytewise` is
`http_parser_execute` over it; it counts the bytes of headers one by one and has no limit
for them.
-/
import MyWarehouse.ParserExecute
import MyWarehouse.Lib.Loop

set_option autoImplicit false

namespace MyWarehouse

open Loop

/-! ## One byte -/

/-- One byte in `s_header_field`. -/
def field_byte (c : parser_core) (ch : UInt8) : Script :=
  if TOKEN ch ≠ 0 then .next (field_char c ch)
  else if ch = byte ':' then
    let c := { c with state := .s_header_value_discard_ws }
    .CALLBACK_DATA .header_field c <| .next c
  else .error c .HPE_INVALID_HEADER_TOKEN

/-- One byte in `s_header_value`. -/
def value_byte (c : parser_core) (ch : UInt8) : Script :=
  if ch = byte '\r' then
    let c := { c with state := .s_header_almost_done }
    .CALLBACK_DATA .header_value c <| .next c
  else if ch = byte '\n' then
    let c := { c with state := .s_header_almost_done }
    .CALLBACK_DATA_NOADVANCE .header_value c <| s_header_almost_done c ch
  else match value_char c ch with
    | none => .error c .HPE_INVALID_CONTENT_LENGTH
    | some c => .next c

/-- One byte in `s_body_identity`. -/
def body_byte (c : parser_core) : Script :=
  .mark .body <|
    let c := { c with content_length := c.content_length - 1 }
    if c.content_length = 0 then
      let c := { c with state := .s_message_done }
      .callback_data .body 1 0 c <| s_message_done c
    else .next c

/-- One byte in `s_chunk_data`. -/
def chunk_byte (c : parser_core) : Script :=
  .mark .body <|
    let c := { c with content_length := c.content_length - 1 }
    .next (if c.content_length = 0 then { c with state := .s_chunk_data_almost_done } else c)

/-- One byte, in any state. -/
def one_byte (c : parser_core) (ch : UInt8) : Script :=
  match c.state with
  | .s_header_field => field_byte c ch
  | .s_header_value => value_byte c ch
  | .s_body_identity => body_byte c
  | .s_chunk_data => chunk_byte c
  | .s_body_identity_eof => .mark .body <| .next c
  | _ => single c ch

/-- `COUNT_HEADER_SIZE(1)` in front of the switch, without a limit. -/
def state.count (s : state) (nread : ℕ) : ℕ := if s.parsing_header then nread + 1 else nread

def Execution.count (x : Execution) : Execution :=
  { x with nread := x.parser.state.count x.nread }

/-- The body of the loop of `bytewise`. -/
def bytewise.body (settings : http_parser_settings) (p : ℕ) (ch : UInt8) (x : Execution) :
    Exec Execution :=
  (one_byte x.parser ch).run settings p x.count

/-- The loop of `bytewise`. -/
def bytewise.loop (settings : http_parser_settings) : ℕ → Bytes → Execution → Exec Execution :=
  each (bytewise.body settings)

open http_parser_execute in
/-- `http_parser_execute`, byte by byte and without a limit on the headers. -/
def bytewise (settings : http_parser_settings) (parser : http_parser_struct) (data : Bytes) :
    ℕ × parser_core × List ParserCall :=
  if parser.http_errno ≠ .HPE_OK then (0, parser.toparser_core, [])
  else
    let x := start parser
    let (ret, x) :=
      if data = [] then eof settings x
      else match bytewise.loop settings 0 data x >>= leftover settings data with
        | .ok x => (data.length, x)
        | .error ret => ret
    (ret, x.parser, x.calls)

/-! ## The count -/

section Count

variable {x : Execution}

theorem Execution.parser_count : x.count.parser = x.parser := rfl

/-- In a header a byte counts. -/
theorem Execution.count_header (h : x.parser.state.parsing_header) :
    x.count = { x with nread := x.nread + 1 } := by
  unfold Execution.count state.count
  rw [if_pos h]

/-- In a body it does not. -/
theorem Execution.count_body (h : x.parser.state.parsing_header = false) : x.count = x := by
  unfold Execution.count state.count
  rw [h]
  rfl

end Count

/-! ## What a callback leaves -/

namespace Execution

variable (settings : http_parser_settings) (x : Execution)

/-- A data callback changes nothing of the parser but its error. -/
theorem callback_data_keeps (f : http_data) (stop ret : ℕ) :
    Loop.Ends (fun y => y.parser = x.parser ∧ y.nread = x.nread)
      (fun r => r.2.parser = { x.parser with http_errno := f.errno } ∧ r.2.nread = x.nread)
      (x.callback_data settings f stop ret) := by
  unfold callback_data
  split
  · exact ⟨rfl, rfl⟩
  · dsimp only
    split_ifs
    · exact ⟨rfl, rfl⟩
    · exact ⟨rfl, rfl⟩
    · exact ⟨rfl, rfl⟩

theorem callback_notify_keeps (n : http_notify) (ret : ℕ) :
    Loop.Ends (fun y => y.parser = x.parser ∧ y.nread = x.nread)
      (fun r => r.2.parser = { x.parser with http_errno := n.errno } ∧ r.2.nread = x.nread)
      (x.callback_notify settings n ret) := by
  unfold callback_notify
  dsimp only
  split_ifs
  · exact ⟨rfl, rfl⟩
  · exact ⟨rfl, rfl⟩
  · exact ⟨rfl, rfl⟩

theorem headers_complete_keeps (ret : ℕ) :
    Loop.Ends (fun r => r.2.parser = x.parser ∧ r.2.nread = x.nread)
      (fun r => r.2.parser = { x.parser with http_errno := .HPE_CB_headers_complete } ∧
        r.2.nread = x.nread)
      (x.headers_complete settings ret) := by
  unfold headers_complete
  dsimp only
  split_ifs
  · exact ⟨rfl, rfl⟩
  · exact ⟨rfl, rfl⟩
  · exact ⟨rfl, rfl⟩
  · exact ⟨rfl, rfl⟩

/-- Nor do the callbacks behind the loop. -/
theorem leftover_keeps (data : Bytes) :
    Loop.Ends (fun y => y.parser = x.parser ∧ y.nread = x.nread) (fun _ => True)
      (http_parser_execute.leftover settings data x) := by
  have hstep : ∀ (y : Execution) (f : http_data) (k : Execution → Exec Execution),
      (∀ z, z.parser = y.parser ∧ z.nread = y.nread →
        Loop.Ends (fun w => w.parser = y.parser ∧ w.nread = y.nread) (fun _ => True) (k z)) →
      Loop.Ends (fun w => w.parser = y.parser ∧ w.nread = y.nread) (fun _ => True)
        (y.callback_data settings f data.length data.length >>= k) := fun y f k hk =>
    ((y.callback_data_keeps settings f _ _).mono (fun _ h => h) fun _ _ => trivial).bind hk
  refine hstep x .header_field _ fun x₁ h₁ => ?_
  rw [← h₁.1, ← h₁.2]
  refine hstep x₁ .header_value _ fun x₂ h₂ => ?_
  rw [← h₂.1, ← h₂.2]
  refine hstep x₂ .url _ fun x₃ h₃ => ?_
  rw [← h₃.1, ← h₃.2]
  refine hstep x₃ .body _ fun x₄ h₄ => ?_
  rw [← h₄.1, ← h₄.2]
  exact (x₄.callback_data_keeps settings .status _ _).mono (fun _ h => h) fun _ _ => trivial

end Execution

/-! ## What holds of every parser a script stores -/

namespace Script

/-- Every parser that the script stores meets `P`. -/
def All (P : parser_core → Prop) : Script → Prop
  | .next parser => P parser
  | .error parser _ => P parser
  | .leave parser => P parser
  | .mark _ k => k.All P
  | .reset_nread k => k.All P
  | .callback_data _ _ _ parser k => P parser ∧ k.All P
  | .callback_notify _ _ parser k => P parser ∧ k.All P
  | .headers_complete parser k => P parser ∧ ∀ skip, (k skip).All P

/-- What every script keeps that does not look at `http_errno`, its run keeps. -/
theorem run_all {P : parser_core → Prop}
    (herrno : ∀ c e, P c → P { c with http_errno := e }) {settings : http_parser_settings}
    {p : ℕ} {k : Script} (hk : k.All P) (x : Execution) :
    Loop.Ends (fun x => P x.parser) (fun ret => P ret.2.parser) (k.run settings p x) := by
  induction k generalizing x with
  | next c => exact hk
  | error c e => exact herrno c e hk
  | leave c => exact hk
  | mark f k ih => exact ih hk _
  | reset_nread k ih => exact ih hk _
  | callback_data f len er c k ih =>
    apply Loop.Ends.bind (I := fun _ => True)
    · refine ((x.set c).callback_data_keeps settings f _ _).mono (fun _ _ => trivial) ?_
      rintro ret ⟨hret, -⟩
      rw [hret]
      exact herrno c _ hk.1
    · exact fun x _ => ih hk.2 x
  | callback_notify n er c k ih =>
    apply Loop.Ends.bind (I := fun _ => True)
    · refine ((x.set c).callback_notify_keeps settings n _).mono (fun _ _ => trivial) ?_
      rintro ret ⟨hret, -⟩
      rw [hret]
      exact herrno c _ hk.1
    · exact fun x _ => ih hk.2 x
  | headers_complete c k ih =>
    apply Loop.Ends.bind (I := fun _ => True)
    · refine ((x.set c).headers_complete_keeps settings _).mono (fun _ _ => trivial) ?_
      rintro ret ⟨hret, -⟩
      rw [hret]
      exact herrno c _ hk.1
    · exact fun r _ => ih r.1 (hk.2 r.1) r.2

end Script

end MyWarehouse

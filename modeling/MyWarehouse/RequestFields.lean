/-
The header fields of a request under the parser.

`read_header` is for the fields that do not frame the body, any number of them; a
`Connection` field may be among them, since it changes what comes behind the message only.
`read_content_length` and `read_transfer_encoding` are for the two that do, in every way in
which the parser lets them be written: the name in any case, white space in front of the
value, spaces behind it, a number with zeros in front.
-/
import MyWarehouse.RequestHead

set_option autoImplicit false

namespace MyWarehouse

open http_parser_execute

/-! ## Numbers -/

/-- The number that digits make in base `base`, most significant digit first; `read` reads one
of them. -/
def digits_value (base : ℕ) (read : UInt8 → Option ℕ) (ds : Bytes) : Option ℕ :=
  ds.foldlM (fun n ch => (read ch).map fun v => n * base + v) 0

/-- The digits of a number. Zeros in front of them do not matter. -/
structure Numeral (base : ℕ) (read : UInt8 → Option ℕ) (ds : Bytes) (n : ℕ) : Prop where
  ne : ds ≠ []
  value : digits_value base read ds = some n

instance (base : ℕ) (read : UInt8 → Option ℕ) (ds : Bytes) (n : ℕ) :
    Decidable (Numeral base read ds n) :=
  decidable_of_iff (ds ≠ [] ∧ digits_value base read ds = some n)
    ⟨fun h => ⟨h.1, h.2⟩, fun h => ⟨h.ne, h.value⟩⟩

/-- A decimal digit, as the parser reads it. -/
def decimal_digit (ch : UInt8) : Option ℕ := if IS_NUM ch then some (ch.toNat - 48) else none

/-- A hexadecimal digit in either case. `unhex` takes more than these: it reads every byte from
128 on as 0. -/
def hexadecimal_digit (ch : UInt8) : Option ℕ := if IS_HEX ch then unhex ch else none

section Numerals

variable {base : ℕ} {read : UInt8 → Option ℕ}

/-- One digit more multiplies what there is by the base. -/
theorem digits_value_append (ds : Bytes) (ch : UInt8) :
    digits_value base read (ds ++ [ch]) =
      (digits_value base read ds).bind fun n => (read ch).map fun v => n * base + v := by
  unfold digits_value
  rw [List.foldlM_append]
  rcases ds.foldlM (fun n ch => (read ch).map fun v => n * base + v) 0 with _ | n
  · rfl
  · show ((read ch).map fun v => n * base + v).bind some = (read ch).map fun v => n * base + v
    rw [Option.bind_fun_some]

/-- **Numbers from the last digit.** The parser multiplies what it has by the base and adds the
next digit, so that the digits in front of the last are a number of their own. -/
theorem Numeral.induction {P : Bytes → ℕ → Prop} (single : ∀ ch v, read ch = some v → P [ch] v)
    (append : ∀ ds n ch v, read ch = some v → P ds n → P (ds ++ [ch]) (n * base + v))
    {ds : Bytes} {n : ℕ} (h : Numeral base read ds n) : P ds n := by
  induction ds using List.reverseRecOn generalizing n with
  | nil => exact absurd rfl h.ne
  | append_singleton ds ch ih =>
    have hvalue := h.value
    rw [digits_value_append, Option.bind_eq_some_iff] at hvalue
    obtain ⟨m, hm, hlast⟩ := hvalue
    rw [Option.map_eq_some_iff] at hlast
    obtain ⟨v, hv, rfl⟩ := hlast
    by_cases hds : ds = []
    · subst hds
      obtain rfl := Option.some.inj hm
      rw [Nat.zero_mul, Nat.zero_add]
      exact single ch v hv
    · exact append ds m ch v hv (ih ⟨hds, hm⟩)

end Numerals

/-- What the parser makes of a decimal digit. -/
theorem of_decimal_digit {ch : UInt8} {v : ℕ} (h : decimal_digit ch = some v) :
    IS_NUM ch ∧ ch.toNat - 48 = v ∧ v < 10 ∧ ch ≠ byte ' ' ∧ ch ≠ byte '\t' ∧ ch ≠ byte '\r' ∧
      ch ≠ byte '\n' := by
  unfold decimal_digit at h
  split_ifs at h with hnum
  obtain rfl := Option.some.inj h
  have hall : ∀ n < 256, IS_NUM (UInt8.ofNat n) →
      (UInt8.ofNat n).toNat - 48 < 10 ∧ UInt8.ofNat n ≠ byte ' ' ∧ UInt8.ofNat n ≠ byte '\t' ∧
        UInt8.ofNat n ≠ byte '\r' ∧ UInt8.ofNat n ≠ byte '\n' := by
    decide +kernel
  have hch := hall ch.toNat ch.toNat_lt
  rw [UInt8.ofNat_toNat] at hch
  exact ⟨hnum, rfl, hch hnum⟩

/-! ## A field that does not frame the body -/

/-- A header field. -/
structure HeaderField where
  name : Bytes
  value : Bytes

/-- The field on the wire. -/
def HeaderField.wire (f : HeaderField) : Bytes := f.name ++ bytes ":" ++ f.value ++ bytes "\r\n"

/-- The fields that frame the body, or ask for another protocol. -/
def framing_names : List Bytes :=
  [bytes "content-length", bytes "transfer-encoding", bytes "upgrade"]

/-- A well formed field that is none of these. -/
structure HeaderField.Ordinary (f : HeaderField) : Prop where
  ne : f.name ≠ []
  token : ∀ ch ∈ f.name, TOKEN ch ≠ 0
  other : f.name.map TOKEN ∉ framing_names
  value : ∀ ch ∈ f.value, ¬ line_end ch

instance (f : HeaderField) : Decidable f.Ordinary :=
  decidable_of_iff (f.name ≠ [] ∧ (∀ ch ∈ f.name, TOKEN ch ≠ 0) ∧
      f.name.map TOKEN ∉ framing_names ∧ ∀ ch ∈ f.value, ¬ line_end ch)
    ⟨fun h => ⟨h.1, h.2.1, h.2.2.1, h.2.2.2⟩, fun h => ⟨h.ne, h.token, h.other, h.value⟩⟩

theorem first_header_state_of_field (ch : UInt8) : (first_header_state ch).of_field := by
  unfold first_header_state
  split_ifs <;> rfl

/-- Behind a name the parser is in one of the header states of a name. -/
theorem read_name_of_field (c : parser_core) {name : Bytes} (hne : name ≠ []) :
    (read_name c name).header_state.of_field := by
  have hfold : ∀ (rest : Bytes) (d : parser_core), d.header_state.of_field →
      (rest.foldl field_char d).header_state.of_field := by
    intro rest
    induction rest with
    | nil => exact fun d hd => hd
    | cons ch rest ih => exact fun d hd => ih _ (field_char_of_field ch hd)
  obtain ⟨first, rest, rfl⟩ := List.exists_cons_of_ne_nil hne
  exact hfold rest _ (first_header_state_of_field _)

/-- The name of such a field is not taken for one that frames the body. -/
theorem HeaderField.Ordinary.harmless {f : HeaderField} (h : f.Ordinary) (c : parser_core) :
    (read_name c f.name).header_state.harmless := by
  have hcompared := compared_read_name c h.ne h.token
  have hfield := read_name_of_field c h.ne
  have hother := h.other
  unfold Compared at hcompared
  rcases hstate : (read_name c f.name).header_state
  all_goals
    rw [hstate] at hcompared hfield
    first
      | rfl
      | exact absurd hfield Bool.false_ne_true
      | exact absurd (by rw [hcompared]; simp [framing_names]) hother

/-- A name and the colon. -/
theorem read_name_colon {c : parser_core} (h : c.state.at_line) {name : Bytes} (hne : name ≠ [])
    (htoken : ∀ ch ∈ name, TOKEN ch ≠ 0) :
    ∃ d, quiets c (name ++ bytes ":") = some d ∧ d.state = .s_header_value_discard_ws ∧
      d.frame = (next_line c).frame ∧
      d.header_state =
        (read_name { next_line c with state := .s_header_field } name).header_state := by
  have hname := quiets_name (next_line_state c) hne htoken
  obtain ⟨hstate, hframe⟩ := read_name_keeps { next_line c with state := .s_header_field } name
  refine ⟨{ read_name { next_line c with state := .s_header_field } name with
    state := .s_header_value_discard_ws }, ?_, rfl, hframe, rfl⟩
  obtain ⟨first, rest, rfl⟩ := List.exists_cons_of_ne_nil hne
  have hfirst : ¬ (first = byte ' ' ∨ first = byte '\t') := by
    rintro (rfl | rfl)
    · exact htoken _ List.mem_cons_self (by decide)
    · exact htoken _ List.mem_cons_self (by decide)
  rw [quiets_trans ((quiets_next_line h hfirst rest).trans hname)]
  exact quiets_singleton (quiet_colon hstate)

/-- The flag a harmless field sets does not frame the body. -/
theorem finish_header_frame {c : parser_core} (h : c.header_state ≠ .h_transfer_encoding_chunked) :
    (finish_header c).frame = c.frame := by
  unfold finish_header
  rcases hstate : c.header_state
  case h_transfer_encoding_chunked => exact absurd hstate h
  all_goals rfl

/-- **A field that does not frame the body** leads to the next line. -/
theorem read_header {c : parser_core} (h : c.state.at_line) {f : HeaderField} (hf : f.Ordinary) :
    ∃ c', quiets c f.wire = some c' ∧ c'.state.at_line ∧
      (next_line c').frame = (next_line c).frame := by
  obtain ⟨d, hname, hstate, hframe, hheader⟩ := read_name_colon h hf.ne hf.token
  have hvalue : InValue d := ⟨Or.inl hstate, by rw [hheader]; exact hf.harmless _⟩
  obtain ⟨d', hquiets, hin, hframe'⟩ := quiets_value f.value hf.value d hvalue
  obtain ⟨c', hend, hline, hnext⟩ := quiets_line_end hin.state
  have hfinish : d'.header_state ≠ .h_transfer_encoding_chunked := by
    intro hchunked
    have hharmless := hin.harmless
    rw [hchunked] at hharmless
    exact absurd hharmless Bool.false_ne_true
  refine ⟨c', ?_, hline, ?_⟩
  · rw [HeaderField.wire, List.append_assoc, quiets_trans hname, quiets_trans hquiets]
    exact hend
  · rw [hnext]
    exact (finish_header_frame hfinish).trans (hframe'.trans hframe)

/-- Any number of them. -/
theorem read_headers {fs : List HeaderField} (hfs : ∀ f ∈ fs, f.Ordinary) :
    ∀ c : parser_core, c.state.at_line →
      ∃ c', quiets c (fs.flatMap HeaderField.wire) = some c' ∧ c'.state.at_line ∧
        (next_line c').frame = (next_line c).frame := by
  induction fs with
  | nil => exact fun c h => ⟨c, rfl, h, rfl⟩
  | cons f fs ih =>
    intro c h
    obtain ⟨c₁, hf, h₁, hframe₁⟩ := read_header h (hfs f List.mem_cons_self)
    obtain ⟨c₂, hrest, h₂, hframe₂⟩ := ih (fun g hg => hfs g (List.mem_cons_of_mem _ hg)) c₁ h₁
    refine ⟨c₂, ?_, h₂, hframe₂.trans hframe₁⟩
    rw [List.flatMap_cons, quiets_trans hf]
    exact hrest

/-- One field among them that changes the frame: what the others do does not depend on it, so
it may stand anywhere. -/
theorem read_among {before after : List HeaderField} (hbefore : ∀ f ∈ before, f.Ordinary)
    (hafter : ∀ f ∈ after, f.Ordinary) {f : HeaderField} {g : Frame → Frame}
    (hf : ∀ c : parser_core, c.state.at_line →
      ∃ c', quiets c f.wire = some c' ∧ c'.state.at_line ∧
        (next_line c').frame = g (next_line c).frame)
    (c : parser_core) (h : c.state.at_line) :
    ∃ c', quiets c ((before ++ f :: after).flatMap HeaderField.wire) = some c' ∧
      c'.state.at_line ∧ (next_line c').frame = g (next_line c).frame := by
  obtain ⟨c₁, hquiets₁, h₁, hframe₁⟩ := read_headers hbefore c h
  obtain ⟨c₂, hquiets₂, h₂, hframe₂⟩ := hf c₁ h₁
  obtain ⟨c₃, hquiets₃, h₃, hframe₃⟩ := read_headers hafter c₂ h₂
  refine ⟨c₃, ?_, h₃, hframe₃.trans (hframe₂.trans (congrArg g hframe₁))⟩
  rw [List.flatMap_append, List.flatMap_cons, quiets_trans hquiets₁, quiets_trans hquiets₂]
  exact hquiets₃

/-! ## The fields that frame the body -/

/-- White space in front of a value. -/
def Blank (bs : Bytes) : Prop := ∀ ch ∈ bs, ch = byte ' ' ∨ ch = byte '\t'

/-- Spaces behind a value. -/
def Spaces (bs : Bytes) : Prop := ∀ ch ∈ bs, ch = byte ' '

instance : DecidablePred Blank := fun bs =>
  inferInstanceAs (Decidable (∀ ch ∈ bs, ch = byte ' ' ∨ ch = byte '\t'))

instance : DecidablePred Spaces := fun bs =>
  inferInstanceAs (Decidable (∀ ch ∈ bs, ch = byte ' '))

/-- A `Content-Length` field for a body of `n` bytes. The name may be written in any case, and
the number with white space in front and spaces behind. -/
structure HeaderField.Length (f : HeaderField) (n : ℕ) : Prop where
  name : f.name.map TOKEN = bytes "content-length"
  value : ∃ ws ds sp, Blank ws ∧ Numeral 10 decimal_digit ds n ∧ Spaces sp ∧
    f.value = ws ++ ds ++ sp

/-- A `Transfer-Encoding` field that says that the body is chunked, and nothing else. -/
structure HeaderField.Chunked (f : HeaderField) : Prop where
  name : f.name.map TOKEN = bytes "transfer-encoding"
  value : ∃ ws v sp, Blank ws ∧ v.map LOWER = bytes "chunked" ∧ Spaces sp ∧
    f.value = ws ++ v ++ sp

/-- Bytes that do not change the parser. -/
theorem quiets_of_stays {c : parser_core} {bs : Bytes} (h : ∀ ch ∈ bs, quiet c ch = some c) :
    quiets c bs = some c := by
  induction bs with
  | nil => rfl
  | cons ch bs ih =>
    rw [quiets_step (h ch List.mem_cons_self)]
    exact ih fun d hd => h d (List.mem_cons_of_mem _ hd)

/-- White space in front of a value changes nothing. -/
theorem quiets_blank {d : parser_core} (hs : d.state = .s_header_value_discard_ws) {ws : Bytes}
    (hws : Blank ws) : quiets d ws = some d := by
  apply quiets_of_stays
  intro ch hch
  refine quiet_of_next ?_
  simp only [one_byte, single, hs]
  rw [s_header_value_discard_ws, if_pos (hws ch hch)]

/-- Spaces behind a length or behind `chunked` change nothing. -/
theorem quiets_spaces {d : parser_core} (hs : d.state = .s_header_value)
    (hh : d.header_state = .h_content_length ∨ d.header_state = .h_transfer_encoding_chunked)
    {sp : Bytes} (hsp : Spaces sp) : quiets d sp = some d := by
  apply quiets_of_stays
  intro ch hch
  obtain rfl := hsp ch hch
  have hvalue : value_char d (byte ' ') = some d := by
    unfold value_char
    rcases hh with hh | hh
    · rw [hh]
      rfl
    · rw [hh]
      rfl
  refine quiet_of_next ?_
  simp only [one_byte, hs]
  rw [value_byte, if_neg (by decide), if_neg (by decide), hvalue]

/-- A name the parser interprets, in any case, and the colon behind it. -/
theorem read_known_name {c : parser_core} (h : c.state.at_line) {name lower : Bytes}
    (hname : name.map TOKEN = lower) (hne : lower ≠ []) (hlower : ∀ ch ∈ lower, ch ≠ 0) :
    ∃ d, quiets c (name ++ bytes ":") = some d ∧ d.state = .s_header_value_discard_ws ∧
      d.frame = (next_line c).frame ∧ d.header_state =
        (read_name (http_parser_init .HTTP_REQUEST).toparser_core lower).header_state := by
  have htoken : ∀ ch ∈ name, TOKEN ch ≠ 0 := by
    intro ch hch
    apply hlower
    rw [← hname]
    exact List.mem_map_of_mem hch
  have hname_ne : name ≠ [] := by
    rintro rfl
    exact hne hname.symm
  obtain ⟨d, hquiets, hstate, hframe, hheader⟩ := read_name_colon h hname_ne htoken
  exact ⟨d, hquiets, hstate, hframe, hheader.trans (header_state_of_lower _ hne htoken hname)⟩

/-- The digits of a `Content-Length`. -/
theorem quiets_decimal {d : parser_core} (hs : d.state = .s_header_value_discard_ws)
    (hh : d.header_state = .h_content_length) {ds : Bytes} {n : ℕ}
    (h : Numeral 10 decimal_digit ds n) : n < 2 ^ 63 →
    ∃ d', quiets d ds = some d' ∧ d'.state = .s_header_value ∧
      d'.header_state = .h_content_length ∧ d'.frame = { d.frame with content_length := n } := by
  refine Numeral.induction (P := fun ds n => n < 2 ^ 63 → ∃ d', quiets d ds = some d' ∧
    d'.state = .s_header_value ∧ d'.header_state = .h_content_length ∧
    d'.frame = { d.frame with content_length := n }) ?_ ?_ h
  · -- the first digit sets the length
    intro ch v hv _
    obtain ⟨hnum, hval, -, hsp, htab, hcr, hlf⟩ := of_decimal_digit hv
    refine ⟨{ d with
      state := .s_header_value
      index := 0
      content_length := v }, ?_, rfl, hh, rfl⟩
    have hspace : ¬ (ch = byte ' ' ∨ ch = byte '\t') := by
      rintro (h | h)
      · exact hsp h
      · exact htab h
    have hdigit : quiet d ch = some { d with
        state := .s_header_value
        index := 0
        content_length := v } := by
      refine quiet_of_mark (f := .header_value) (by decide) ?_
      simp only [one_byte, single, hs]
      rw [s_header_value_discard_ws, if_neg hspace, if_neg hcr, if_neg hlf, s_header_value_start]
      simp only [value_start, hh]
      rw [if_neg (not_not_intro hnum), hval]
    exact quiets_singleton hdigit
  · -- each digit behind it is appended
    intro ds n ch v hv ih hn
    obtain ⟨hnum, hval, hlt, hsp, -, hcr, hlf⟩ := of_decimal_digit hv
    obtain ⟨d', hquiets, hs', hh', hframe⟩ := ih (by omega)
    have hlength : d'.content_length = n := congrArg Frame.content_length hframe
    refine ⟨{ d' with content_length := n * 10 + v }, ?_, hs', hh', ?_⟩
    · have hroom : ¬ (ULLONG_MAX - 10) / 10 < d'.content_length := by
        rw [hlength, ULLONG_MAX]
        omega
      have hsum : append_digit d'.content_length ch % 2 ^ 64 = n * 10 + v := by
        rw [append_digit, hval, hlength]
        omega
      have hvalue : one_byte d' ch = value_byte d' ch := by
        unfold one_byte
        rw [hs']
      have hdigit : quiet d' ch = some { d' with content_length := n * 10 + v } := by
        refine quiet_of_next ?_
        rw [hvalue, value_byte, if_neg hcr, if_neg hlf]
        unfold value_char
        rw [hh']
        dsimp only
        rw [if_neg hsp, if_neg (not_not_intro hnum), if_neg hroom, hsum]
      rw [quiets_trans hquiets]
      exact quiets_singleton hdigit
    · show { d'.frame with content_length := n * 10 + v } = _
      rw [hframe]

/-- A value that is known, with white space in front and spaces behind, and its line end. -/
theorem read_framing_value {c d d' : parser_core} {f : HeaderField} {ws v sp : Bytes}
    (hname : quiets c (f.name ++ bytes ":") = some d)
    (hstate : d.state = .s_header_value_discard_ws) (hvalue : f.value = ws ++ v ++ sp)
    (hws : Blank ws) (hv : quiets d v = some d') (hstate' : d'.state = .s_header_value)
    (hheader' : d'.header_state = .h_content_length ∨
      d'.header_state = .h_transfer_encoding_chunked) (hsp : Spaces sp) :
    ∃ c', quiets c f.wire = some c' ∧ c'.state.at_line ∧
      next_line c' = { finish_header d' with state := .s_header_field_start } := by
  obtain ⟨c', hend, hline, hnext⟩ := quiets_line_end (Or.inr hstate')
  refine ⟨c', ?_, hline, hnext⟩
  rw [HeaderField.wire, hvalue, List.append_assoc, quiets_trans hname, List.append_assoc,
    List.append_assoc, quiets_trans (quiets_blank hstate hws), quiets_trans hv,
    quiets_trans (quiets_spaces hstate' hheader' hsp)]
  exact hend

/-- **`Content-Length`** with a number leads to the next line. -/
theorem read_content_length {c : parser_core} (h : c.state.at_line) {f : HeaderField} {n : ℕ}
    (hf : f.Length n) (hn : n < 2 ^ 63) :
    ∃ c', quiets c f.wire = some c' ∧ c'.state.at_line ∧
      (next_line c').frame = { (next_line c).frame with content_length := n } := by
  obtain ⟨d, hname, hstate, hframe, hheader⟩ := read_known_name h hf.name (by decide)
    (by decide +kernel)
  obtain ⟨ws, ds, sp, hws, hds, hsp, hvalue⟩ := hf.value
  have hheader : d.header_state = .h_content_length := hheader.trans (by decide +kernel)
  obtain ⟨d', hdigits, hstate', hheader', hframe'⟩ := quiets_decimal hstate hheader hds hn
  obtain ⟨c', hquiets, hline, hnext⟩ := read_framing_value hname hstate hvalue hws hdigits hstate'
    (Or.inl hheader') hsp
  refine ⟨c', hquiets, hline, ?_⟩
  rw [hnext]
  refine (finish_header_frame (by rw [hheader']; decide)).trans (hframe'.trans ?_)
  rw [hframe]

/-- The parser that has compared a value with `chunked` up to `index`. -/
def in_chunked (d : parser_core) (index : UInt8) (header_state : header_states) : parser_core :=
  { d with
    state := .s_header_value
    header_state := header_state
    index := index }

/-- A letter of `chunked` more. -/
theorem quiet_chunked {d : parser_core} {index index' : UInt8} {header_state : header_states}
    {ch letter : UInt8} (hch : LOWER ch = letter) (hcr : letter ≠ LOWER (byte '\r'))
    (hlf : letter ≠ LOWER (byte '\n'))
    (hnext : match_name (in_chunked d index .h_matching_transfer_encoding_chunked)
      (bytes "chunked") letter .h_matching_transfer_encoding_chunked .h_transfer_encoding_chunked
      .h_general = in_chunked d index' header_state) :
    quiet (in_chunked d index .h_matching_transfer_encoding_chunked) ch =
      some (in_chunked d index' header_state) := by
  have hcr' : ch ≠ byte '\r' := by
    rintro rfl
    exact hcr hch.symm
  have hlf' : ch ≠ byte '\n' := by
    rintro rfl
    exact hlf hch.symm
  have hvalue : value_char (in_chunked d index .h_matching_transfer_encoding_chunked) ch =
      some (in_chunked d index' header_state) := by
    show some (match_name (in_chunked d index .h_matching_transfer_encoding_chunked)
      (bytes "chunked") (LOWER ch) .h_matching_transfer_encoding_chunked
      .h_transfer_encoding_chunked .h_general) = _
    rw [hch, hnext]
  refine quiet_of_next ?_
  show value_byte (in_chunked d index .h_matching_transfer_encoding_chunked) ch = _
  rw [value_byte, if_neg hcr', if_neg hlf', hvalue]

/-- The word, in any case. -/
theorem quiets_chunked {d : parser_core} (hs : d.state = .s_header_value_discard_ws)
    (hh : d.header_state = .h_transfer_encoding) {v : Bytes} (hv : v.map LOWER = bytes "chunked") :
    quiets d v = some (in_chunked d 6 .h_transfer_encoding_chunked) := by
  have hword : bytes "chunked" =
      [byte 'c', byte 'h', byte 'u', byte 'n', byte 'k', byte 'e', byte 'd'] := rfl
  rw [hword] at hv
  obtain ⟨c, v, rfl, hc, hv⟩ := List.map_eq_cons_iff.mp hv
  obtain ⟨h, v, rfl, hh', hv⟩ := List.map_eq_cons_iff.mp hv
  obtain ⟨u, v, rfl, hu, hv⟩ := List.map_eq_cons_iff.mp hv
  obtain ⟨n, v, rfl, hn, hv⟩ := List.map_eq_cons_iff.mp hv
  obtain ⟨k, v, rfl, hk, hv⟩ := List.map_eq_cons_iff.mp hv
  obtain ⟨e, v, rfl, he, hv⟩ := List.map_eq_cons_iff.mp hv
  obtain ⟨x, v, rfl, hx, hv⟩ := List.map_eq_cons_iff.mp hv
  obtain rfl := List.map_eq_nil_iff.mp hv
  -- the first letter begins the comparison, and each letter behind it goes on with it
  have hfirst : quiet d c = some (in_chunked d 0 .h_matching_transfer_encoding_chunked) := by
    have hne : ∀ b, LOWER b ≠ byte 'c' → c ≠ b := by
      rintro b hb rfl
      exact hb hc
    have hspace : ¬ (c = byte ' ' ∨ c = byte '\t') := by
      rintro (hspace | htab)
      · exact hne _ (by decide) hspace
      · exact hne _ (by decide) htab
    refine quiet_of_mark (f := .header_value) (by decide) ?_
    simp only [one_byte, single, hs]
    rw [s_header_value_discard_ws, if_neg hspace, if_neg (hne _ (by decide)),
      if_neg (hne _ (by decide)), s_header_value_start]
    simp only [value_start, hh]
    rw [if_pos hc]
    rfl
  have h1 : quiet (in_chunked d 0 .h_matching_transfer_encoding_chunked) h =
      some (in_chunked d 1 .h_matching_transfer_encoding_chunked) :=
    quiet_chunked hh' (by decide) (by decide) rfl
  have h2 : quiet (in_chunked d 1 .h_matching_transfer_encoding_chunked) u =
      some (in_chunked d 2 .h_matching_transfer_encoding_chunked) :=
    quiet_chunked hu (by decide) (by decide) rfl
  have h3 : quiet (in_chunked d 2 .h_matching_transfer_encoding_chunked) n =
      some (in_chunked d 3 .h_matching_transfer_encoding_chunked) :=
    quiet_chunked hn (by decide) (by decide) rfl
  have h4 : quiet (in_chunked d 3 .h_matching_transfer_encoding_chunked) k =
      some (in_chunked d 4 .h_matching_transfer_encoding_chunked) :=
    quiet_chunked hk (by decide) (by decide) rfl
  have h5 : quiet (in_chunked d 4 .h_matching_transfer_encoding_chunked) e =
      some (in_chunked d 5 .h_matching_transfer_encoding_chunked) :=
    quiet_chunked he (by decide) (by decide) rfl
  have h6 : quiet (in_chunked d 5 .h_matching_transfer_encoding_chunked) x =
      some (in_chunked d 6 .h_transfer_encoding_chunked) :=
    quiet_chunked hx (by decide) (by decide) rfl
  rw [quiets_step hfirst, quiets_step h1, quiets_step h2, quiets_step h3, quiets_step h4,
    quiets_step h5, quiets_step h6]
  rfl

/-- **`Transfer-Encoding: chunked`** leads to the next line. -/
theorem read_transfer_encoding {c : parser_core} (h : c.state.at_line) {f : HeaderField}
    (hf : f.Chunked) :
    ∃ c', quiets c f.wire = some c' ∧ c'.state.at_line ∧
      (next_line c').frame = { (next_line c).frame with chunked := true } := by
  obtain ⟨d, hname, hstate, hframe, hheader⟩ := read_known_name h hf.name (by decide)
    (by decide +kernel)
  obtain ⟨ws, v, sp, hws, hv, hsp, hvalue⟩ := hf.value
  have hheader : d.header_state = .h_transfer_encoding := hheader.trans (by decide +kernel)
  obtain ⟨c', hquiets, hline, hnext⟩ := read_framing_value hname hstate hvalue hws
    (quiets_chunked hstate hheader hv) rfl (Or.inr rfl) hsp
  refine ⟨c', hquiets, hline, ?_⟩
  rw [hnext, ← hframe]
  rfl

end MyWarehouse

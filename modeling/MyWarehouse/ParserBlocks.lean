/-
The cases of `http_parser_execute` that move over several bytes, against the plain reading.

One round of the loop may pass many bytes: the rest of a field name, of a value, of a body.
`round_bytes` says that it does what `one_byte` does for each of them in turn, with the same
callbacks for the same bytes, and `loop_bytewise` that so does the whole loop, unless the
plain reading comes to count `HTTP_MAX_HEADER_SIZE` bytes of one header; only then can the
loop stop with `HPE_HEADER_OVERFLOW`.

A call that ends inside a name or a value counts one byte too many: `--p` makes the loop see
the last byte again, but its count stays. So a name that arrives byte by byte is counted
twice.
-/
import MyWarehouse.ParserAsserts

set_option autoImplicit false

namespace MyWarehouse

open Loop

/-! ## Executions that differ in what they have counted -/

/-- Two executions that differ in `nread` only; the first counts no more than the second, and
at most `B`. -/
structure Fits (B : ℕ) (x y : Execution) : Prop where
  same : ∃ n, y = { x with nread := n } ∧ x.nread ≤ n
  nread : x.nread ≤ B

/-- The states of a name and of a value. -/
def state.in_line : state → Bool
  | .s_header_field | .s_header_value => true
  | _ => false

/-- The header bytes that may be counted from `p` on. -/
def room (len p : ℕ) : ℕ := if p < len then len - p + 1 else 0

/-- Two executions in front of the round at `p`. At the end of the data, inside a name or a
value, the first may have counted one byte more. -/
structure FitsAt (len B p : ℕ) (x y : Execution) : Prop where
  same : ∃ n, y = { x with nread := n } ∧
    (x.nread ≤ n ∨ x.nread ≤ n + 1 ∧ p = len ∧ x.parser.state.in_line)
  nread : x.nread + room len p ≤ B

/-- Both have returned the same. -/
def Returned (r r' : ℕ × Execution) : Prop :=
  r.1 = r'.1 ∧ ∃ n, r'.2 = { r.2 with nread := n }

/-- The headers were too long, which `C` says. -/
def Overflow (C : Prop) (r : ℕ × Execution) : Prop :=
  C ∧ r.2.parser.http_errno = .HPE_HEADER_OVERFLOW

section Rules

variable {settings : http_parser_settings} {B p : ℕ} {x y : Execution}

theorem Fits.set (h : Fits B x y) (c : parser_core) : Fits B (x.set c) (y.set c) := by
  obtain ⟨⟨n, rfl, hn⟩, hB⟩ := h
  exact ⟨⟨n, rfl, hn⟩, hB⟩

theorem Fits.set_mark (h : Fits B x y) (f : http_data) (q : ℕ) :
    Fits B (x.set_mark f q) (y.set_mark f q) := by
  obtain ⟨⟨n, rfl, hn⟩, hB⟩ := h
  unfold Execution.set_mark
  dsimp only
  split_ifs
  · exact ⟨⟨n, rfl, hn⟩, hB⟩
  · exact ⟨⟨n, rfl, hn⟩, hB⟩

theorem Fits.parser (h : Fits B x y) : y.parser = x.parser := by
  obtain ⟨⟨n, rfl, -⟩, -⟩ := h
  rfl

/-- A data callback does not look at `nread`, and leaves it. -/
theorem callback_data_nread (x : Execution) (n : ℕ) (f : http_data) (stop ret : ℕ) :
    EndTogether (fun x' y' => y' = { x' with nread := n } ∧ x'.parser = x.parser ∧
        x'.nread = x.nread) Returned (x.callback_data settings f stop ret)
      ({ x with nread := n }.callback_data settings f stop ret) := by
  unfold Execution.callback_data
  dsimp only
  rcases x.marks f with _ | m
  · exact ⟨rfl, rfl, rfl⟩
  · dsimp only
    split_ifs
    · exact ⟨rfl, n, rfl⟩
    · exact ⟨rfl, rfl, rfl⟩
    · exact ⟨rfl, rfl, rfl⟩

theorem Fits.callback_data (h : Fits B x y) (f : http_data) (stop ret : ℕ) :
    EndTogether (Fits B) Returned (x.callback_data settings f stop ret)
      (y.callback_data settings f stop ret) := by
  obtain ⟨⟨n, rfl, hn⟩, hB⟩ := h
  refine (callback_data_nread x n f stop ret).mono ?_ fun _ _ h => h
  rintro x' y' ⟨hsame, -, hnread⟩
  rw [← hnread] at hn hB
  exact ⟨⟨n, hsame, hn⟩, hB⟩

theorem Fits.callback_notify (h : Fits B x y) (m : http_notify) (ret : ℕ) :
    EndTogether (Fits B) Returned (x.callback_notify settings m ret)
      (y.callback_notify settings m ret) := by
  obtain ⟨⟨n, rfl, hn⟩, hB⟩ := h
  unfold Execution.callback_notify
  dsimp only
  split_ifs
  · exact ⟨rfl, n, rfl⟩
  · exact ⟨⟨n, rfl, hn⟩, hB⟩
  · exact ⟨⟨n, rfl, hn⟩, hB⟩

theorem Fits.headers_complete (h : Fits B x y) (ret : ℕ) :
    EndTogether (fun r r' => r.1 = r'.1 ∧ Fits B r.2 r'.2) Returned
      (x.headers_complete settings ret) (y.headers_complete settings ret) := by
  obtain ⟨⟨n, rfl, hn⟩, hB⟩ := h
  unfold Execution.headers_complete
  dsimp only
  split_ifs
  · exact ⟨rfl, ⟨n, rfl, hn⟩, hB⟩
  · exact ⟨rfl, ⟨n, rfl, hn⟩, hB⟩
  · exact ⟨rfl, n, rfl⟩
  · exact ⟨rfl, ⟨n, rfl, hn⟩, hB⟩

/-- A script does not look at `nread`; it resets both. -/
theorem Fits.run (h : Fits B x y) (k : Script) (q : ℕ) :
    EndTogether (Fits B) Returned (k.run settings q x) (k.run settings q y) := by
  induction k generalizing x y with
  | next c => exact h.set c
  | error c e =>
    obtain ⟨⟨n, rfl, -⟩, -⟩ := h
    exact ⟨rfl, n, rfl⟩
  | leave c =>
    obtain ⟨⟨n, rfl, -⟩, -⟩ := h
    exact ⟨rfl, n, rfl⟩
  | mark f k ih => exact ih (h.set_mark f q)
  | reset_nread k ih =>
    apply ih
    obtain ⟨⟨n, rfl, -⟩, -⟩ := h
    exact ⟨⟨0, rfl, le_refl 0⟩, Nat.zero_le B⟩
  | callback_data f l er c k ih => exact ((h.set c).callback_data f _ _).bind fun _ _ => ih
  | callback_notify n er c k ih => exact ((h.set c).callback_notify n _).bind fun _ _ => ih
  | headers_complete c k ih =>
    refine ((h.set c).headers_complete _).bind ?_
    rintro ⟨skip, x⟩ ⟨skip', y⟩ ⟨rfl, hxy⟩
    exact ih skip hxy

/-- In front of the next round. -/
theorem Fits.at {b len : ℕ} (h : Fits b x y) (hb : b + room len p ≤ B) : FitsAt len B p x y := by
  obtain ⟨⟨n, rfl, hn⟩, hx⟩ := h
  exact ⟨⟨n, rfl, Or.inl hn⟩, by omega⟩

theorem FitsAt.parser {len : ℕ} (h : FitsAt len B p x y) : y.parser = x.parser := by
  obtain ⟨⟨n, rfl, -⟩, -⟩ := h
  rfl

theorem FitsAt.callback_data {len : ℕ} (h : FitsAt len B p x y) (f : http_data) (stop ret : ℕ) :
    EndTogether (FitsAt len B p) Returned (x.callback_data settings f stop ret)
      (y.callback_data settings f stop ret) := by
  obtain ⟨⟨n, rfl, hn⟩, hB⟩ := h
  refine (callback_data_nread x n f stop ret).mono ?_ fun _ _ h => h
  rintro x' y' ⟨hsame, hparser, hnread⟩
  rw [← hnread, ← hparser] at hn
  rw [← hnread] at hB
  exact ⟨⟨n, hsame, hn⟩, hB⟩

/-- `COUNT_HEADER_SIZE` counts, or the headers are too long. -/
theorem count_unless {β γ : Type} {C : Prop} {R : β → γ → Prop} (hB : B < 2 ^ 32) {v ret : ℕ}
    (hv : x.nread + v ≤ B) (hC : HTTP_MAX_HEADER_SIZE < x.nread + v → C)
    {f : Execution → Exec β} {z : Exec γ}
    (hf : EndTogetherUnless (Overflow C) R Returned (f { x with nread := x.nread + v }) z) :
    EndTogetherUnless (Overflow C) R Returned (x.count_header_size v ret >>= f) z := by
  have hmod : (x.nread + v) % 2 ^ 32 = x.nread + v := Nat.mod_eq_of_lt (by omega)
  unfold Execution.count_header_size
  rw [hmod]
  dsimp only
  split_ifs with hover
  · exact Or.inl ⟨_, rfl, hC hover, rfl⟩
  · exact hf

end Rules

/-! ## The plain reading of several bytes -/

section Runs

variable {settings : http_parser_settings} {x : Execution}

/-- The characters of a name. -/
theorem each_name (name : Bytes) (hname : ∀ ch ∈ name, TOKEN ch ≠ 0) (p : ℕ) :
    ∀ x : Execution, x.parser.state = .s_header_field →
      each (bytewise.body settings) p name x =
        .ok { x.set (name.foldl field_char x.parser) with nread := x.nread + name.length } := by
  induction name generalizing p with
  | nil => exact fun x _ => rfl
  | cons ch name ih =>
    intro x hx
    have hch : TOKEN ch ≠ 0 := hname ch List.mem_cons_self
    have hbody : bytewise.body settings p ch x =
        .ok { x.set (field_char x.parser ch) with nread := x.nread + 1 } := by
      unfold bytewise.body one_byte
      rw [hx, Execution.count_header (by rw [hx]; rfl)]
      dsimp only [field_byte]
      rw [if_pos hch]
      rfl
    have hlen : x.nread + (ch :: name).length = x.nread + 1 + name.length := by
      rw [List.length_cons]
      omega
    rw [each, hbody, hlen]
    exact ih (fun c hc => hname c (List.mem_cons_of_mem _ hc)) (p + 1) _
      ((field_char_state ch).trans hx)

theorem foldl_field_char_state (name : Bytes) (c : parser_core) :
    (name.foldl field_char c).state = c.state := by
  induction name generalizing c with
  | nil => rfl
  | cons ch name ih => exact (ih _).trans (field_char_state ch)

/-- A line end. -/
def line_end (ch : UInt8) : Prop := ch = byte '\r' ∨ ch = byte '\n'

instance : DecidablePred line_end := fun ch =>
  inferInstanceAs (Decidable (ch = byte '\r' ∨ ch = byte '\n'))

/-- What a value passes until it ends or `memchr` gives up. -/
structure ValueLoop (settings : http_parser_settings) (c : parser_core) (rest : Bytes)
    (r : ℕ × ValueEnd × parser_core) : Prop where
  le : r.1 ≤ rest.length
  each : ∀ p x, x.parser = c → each (bytewise.body settings) p (rest.take r.1) x =
    .ok { x.set r.2.2 with nread := x.nread + r.1 }
  state : r.2.2.state = .s_header_value
  cr : r.2.1 = .cr → rest[r.1]? = some (byte '\r')
  lf : r.2.1 = .lf → rest[r.1]? = some (byte '\n')
  end_of_data : r.2.1 = .end_of_data → r.1 = rest.length
  invalid : r.2.1 = .invalid → ∃ ch, rest[r.1]? = some ch ∧ ¬ line_end ch ∧
    value_char r.2.2 ch = none

/-- A value that is too long: `memchr` has given up, and all the rest is passed. -/
structure LongValue (settings : http_parser_settings) (c : parser_core) (rest : Bytes)
    (r : ℕ × ValueEnd × parser_core) : Prop where
  all : r.1 = rest.length
  end_of_data : r.2.1 = .end_of_data
  long : HTTP_MAX_HEADER_SIZE < rest.length
  each : ∃ k c', HTTP_MAX_HEADER_SIZE ≤ k ∧ ∀ p x, x.parser = c →
    each (bytewise.body settings) p (rest.take k) x =
      .ok { x.set c' with nread := x.nread + k }

/-- `memchr` finds the line end, or nothing and all the rest is passed. -/
theorem skip_general_cases (rest : Bytes) :
    ((∃ ch, rest[skip_general rest]? = some ch ∧ line_end ch) ∧
        ∀ ch ∈ rest.take (skip_general rest), ¬ line_end ch) ∨
      skip_general rest = rest.length ∧
        ∀ ch ∈ rest.take HTTP_MAX_HEADER_SIZE, ¬ line_end ch := by
  unfold skip_general
  rcases hfind : (rest.take HTTP_MAX_HEADER_SIZE).findIdx?
      fun ch => ch = byte '\r' ∨ ch = byte '\n' with _ | n
  · refine Or.inr ⟨rfl, fun ch hch hend => ?_⟩
    rw [List.findIdx?_eq_none_iff] at hfind
    have hnone := hfind ch hch
    rw [decide_eq_false_iff_not] at hnone
    exact hnone hend
  · obtain ⟨hn, hend, hbefore⟩ := List.findIdx?_eq_some_iff_getElem.mp hfind
    have hlen : n < rest.length := by
      rw [List.length_take] at hn
      omega
    refine Or.inl ⟨⟨rest[n], List.getElem?_eq_getElem hlen, ?_⟩, fun ch hch hc => ?_⟩
    · rw [List.getElem_take, decide_eq_true_eq] at hend
      exact hend
    · dsimp only at hch
      obtain ⟨j, hj, rfl⟩ := List.getElem_of_mem hch
      rw [List.length_take] at hj
      have hnot := hbefore j (by omega)
      rw [List.getElem_take, decide_eq_true_eq] at hnot
      rw [List.getElem_take] at hc
      exact hnot hc

/-- The bytes of a general value change nothing. -/
theorem each_general (bs : Bytes) (hbs : ∀ ch ∈ bs, ¬ line_end ch) (p : ℕ) :
    ∀ x : Execution, x.parser.state = .s_header_value → x.parser.header_state = .h_general →
      each (bytewise.body settings) p bs x = .ok { x with nread := x.nread + bs.length } := by
  induction bs generalizing p with
  | nil => exact fun x _ _ => rfl
  | cons ch bs ih =>
    intro x hs hg
    have hch : ¬ line_end ch := hbs ch List.mem_cons_self
    have hbody : bytewise.body settings p ch x = .ok { x with nread := x.nread + 1 } := by
      unfold bytewise.body one_byte
      rw [hs, Execution.count_header (by rw [hs]; rfl)]
      dsimp only [value_byte]
      rw [if_neg fun h => hch (Or.inl h), if_neg fun h => hch (Or.inr h)]
      unfold value_char
      rw [hg]
      rfl
    have hlen : x.nread + (ch :: bs).length = x.nread + 1 + bs.length := by
      rw [List.length_cons]
      omega
    rw [each, hbody, hlen]
    exact ih (fun c hc => hbs c (List.mem_cons_of_mem _ hc)) (p + 1) _ hs hg

/-- The first `n` bytes of a general value. -/
theorem each_general_take {c : parser_core} (hs : c.state = .s_header_value)
    (hg : c.header_state = .h_general) {rest : Bytes} {n : ℕ} (hn : n ≤ rest.length)
    (hrest : ∀ ch ∈ rest.take n, ¬ line_end ch) (p : ℕ) (x : Execution) (hx : x.parser = c) :
    each (bytewise.body settings) p (rest.take n) x =
      .ok { x.set c with nread := x.nread + n } := by
  subst hx
  have heach := @each_general settings _ hrest p x hs hg
  rwa [List.length_take_of_le hn] at heach

/-- A general value. -/
theorem value_loop_general {c : parser_core} (hs : c.state = .s_header_value)
    (hg : c.header_state = .h_general) (rest : Bytes) :
    ValueLoop settings c rest (skip_general rest, general_end rest (skip_general rest), c) ∨
      LongValue settings c rest (skip_general rest, general_end rest (skip_general rest), c) := by
  obtain ⟨⟨ch, hch, hend⟩, hbefore⟩ | ⟨hall, hnone⟩ := skip_general_cases rest
  · have hlt : skip_general rest < rest.length := by
      by_contra hge
      rw [List.getElem?_eq_none (by omega)] at hch
      cases hch
    refine Or.inl ⟨hlt.le, each_general_take hs hg hlt.le hbefore, hs, ?_, ?_, ?_, ?_⟩
    all_goals
      dsimp only [general_end]
      rw [hch]
      dsimp only
      split_ifs with hcr
    · exact fun _ => by rw [hcr]
    · intro h
      cases h
    · intro h
      cases h
    · exact fun _ => by rw [hend.resolve_left hcr]
    all_goals
      intro h
      cases h
  · have hdata : general_end rest (skip_general rest) = .end_of_data := by
      unfold general_end
      rw [hall, List.getElem?_eq_none (le_refl _)]
    by_cases hlen : rest.length ≤ HTTP_MAX_HEADER_SIZE
    · rw [List.take_of_length_le hlen] at hnone
      refine Or.inl ⟨hall.le, ?_, hs, ?_, ?_, fun _ => hall, ?_⟩
      · refine each_general_take hs hg hall.le ?_
        rw [hall, List.take_length]
        exact hnone
      all_goals
        dsimp only
        rw [hdata]
        intro h
        cases h
    · exact Or.inr ⟨hall, hdata, by omega, HTTP_MAX_HEADER_SIZE, c, le_refl _,
        each_general_take hs hg (by omega) hnone⟩

/-- The loop of `s_header_value`. -/
theorem value_loop_bytewise {c : parser_core} (hs : c.state = .s_header_value)
    (hv : c.header_state.of_value) (hb : c.content_length ≤ ULLONG_MAX) (rest : Bytes) :
    ValueLoop settings c rest (value_loop c rest) ∨
      LongValue settings c rest (value_loop c rest) := by
  induction rest generalizing c with
  | nil =>
    refine Or.inl ⟨le_refl _, ?_, hs, ?_, ?_, fun _ => rfl, ?_⟩
    · rintro p x rfl
      rfl
    all_goals
      intro h
      cases h
  | cons ch rest ih =>
    rw [value_loop]
    split_ifs with hcr hlf hg
    · refine Or.inl ⟨Nat.zero_le _, ?_, hs, fun _ => by rw [hcr]; rfl, ?_, ?_, ?_⟩
      · rintro p x rfl
        rfl
      all_goals
        intro h
        cases h
    · refine Or.inl ⟨Nat.zero_le _, ?_, hs, ?_, fun _ => by rw [hlf]; rfl, ?_, ?_⟩
      · rintro p x rfl
        rfl
      all_goals
        intro h
        cases h
    · exact value_loop_general hs hg (ch :: rest)
    · have hend : ¬ line_end ch := by
        rintro (h | h)
        · exact hcr h
        · exact hlf h
      rcases hchar : value_char c ch with _ | c'
      · refine Or.inl ⟨Nat.zero_le _, ?_, hs, ?_, ?_, ?_, fun _ => ⟨ch, rfl, hend, hchar⟩⟩
        · rintro p x rfl
          rfl
        all_goals
          intro h
          cases h
      · obtain ⟨hs', hv', hb'⟩ := value_char_spec hchar hs hv hb
        -- this byte, and then those the loop passes behind it
        have hmore : ∀ {n c''}, (∀ p x, x.parser = c' →
            each (bytewise.body settings) p (rest.take n) x =
              .ok { x.set c'' with nread := x.nread + n }) →
            ∀ p x, x.parser = c →
              each (bytewise.body settings) p ((ch :: rest).take (n + 1)) x =
                .ok { x.set c'' with nread := x.nread + (n + 1) } := by
          rintro n c'' hrest p x rfl
          have hbody : bytewise.body settings p ch x =
              .ok { x.set c' with nread := x.nread + 1 } := by
            unfold bytewise.body one_byte
            rw [hs, Execution.count_header (by rw [hs]; rfl)]
            dsimp only [value_byte]
            rw [if_neg hcr, if_neg hlf, hchar]
            rfl
          have hlen : x.nread + (n + 1) = x.nread + 1 + n := by omega
          rw [List.take_succ_cons, Loop.each, hbody, hlen]
          exact hrest (p + 1) _ rfl
        dsimp only
        obtain hloop | ⟨hall, hdata, hlong, k, c'', hk, heach⟩ := ih hs' hv' hb'
        · exact Or.inl ⟨Nat.succ_le_succ hloop.le, hmore hloop.each, hloop.state, hloop.cr,
            hloop.lf, fun h => congrArg (· + 1) (hloop.end_of_data h), hloop.invalid⟩
        · refine Or.inr ⟨congrArg (· + 1) hall, hdata, ?_, k + 1, c'', by omega, hmore heach⟩
          rw [List.length_cons]
          omega

/-- A mark that is set stays. -/
theorem Execution.set_mark_of_some {f : http_data} (h : (x.marks f).isSome) (q : ℕ) :
    x.set_mark f q = x := by
  unfold Execution.set_mark
  rw [if_neg (by rw [Option.isNone_iff_eq_none]; rintro h'; rw [h'] at h; cases h)]

theorem Execution.isSome_set_mark (f : http_data) (q : ℕ) :
    ((x.set_mark f q).marks f).isSome := by
  unfold Execution.set_mark
  split_ifs with h
  · simp only [Function.update_self, Option.isSome_some]
  · rw [Option.isNone_iff_eq_none] at h
    exact Option.isSome_iff_ne_none.mpr h

@[simp] theorem Execution.parser_set_mark (f : http_data) (q : ℕ) :
    (x.set_mark f q).parser = x.parser := by
  unfold Execution.set_mark
  split_ifs <;> rfl

@[simp] theorem Execution.nread_set_mark (f : http_data) (q : ℕ) :
    (x.set_mark f q).nread = x.nread := by
  unfold Execution.set_mark
  split_ifs <;> rfl

/-- The states whose bytes are body. -/
def state.in_body : state → Bool
  | .s_body_identity | .s_chunk_data | .s_body_identity_eof => true
  | _ => false

/-- A byte of the body sets the mark first. -/
theorem body_set_mark (hs : x.parser.state.in_body) (p : ℕ) (ch : UInt8) :
    bytewise.body settings p ch (x.set_mark .body p) = bytewise.body settings p ch x := by
  have hmark := Execution.set_mark_of_some (x.isSome_set_mark .body p) p
  have hbody : x.parser.state.parsing_header = false := by
    rcases hstate : x.parser.state <;> rw [hstate] at hs <;>
      first
        | exact absurd hs Bool.false_ne_true
        | rfl
  unfold bytewise.body one_byte
  rw [Execution.parser_set_mark, Execution.count_body hbody,
    Execution.count_body (by rw [Execution.parser_set_mark]; exact hbody)]
  rcases hstate : x.parser.state
  all_goals
    rw [hstate] at hs
    try cases hs
  all_goals
    dsimp only [body_byte, chunk_byte, Script.run]
    rw [hmark]

/-- The bytes of a body before its last one. -/
theorem each_body (bs : Bytes) (p : ℕ) :
    ∀ x : Execution, x.parser.state = .s_body_identity ∨ x.parser.state = .s_chunk_data →
      (x.marks .body).isSome → bs.length < x.parser.content_length →
      each (bytewise.body settings) p bs x = .ok (x.set
        { x.parser with content_length := x.parser.content_length - bs.length }) := by
  induction bs generalizing p with
  | nil => exact fun x _ _ _ => rfl
  | cons ch bs ih =>
    intro x hs hm hlen
    rw [List.length_cons] at hlen
    have hne : x.parser.content_length - 1 ≠ 0 := by omega
    have hbody : bytewise.body settings p ch x = .ok (x.set
        { x.parser with content_length := x.parser.content_length - 1 }) := by
      unfold bytewise.body one_byte
      rcases hs with hs | hs
      all_goals
        rw [hs, Execution.count_body (by rw [hs]; rfl)]
        dsimp only [body_byte, chunk_byte]
        rw [if_neg hne, Script.run, Execution.set_mark_of_some hm]
        rfl
    have hlast : x.parser.content_length - (ch :: bs).length =
        x.parser.content_length - 1 - bs.length := by
      rw [List.length_cons]
      omega
    rw [each, hbody, hlast]
    exact ih (p + 1) (x.set _) hs hm (by dsimp only [Execution.set]; omega)

/-- The bytes of a body without a length. -/
theorem each_body_eof (bs : Bytes) (p : ℕ) (hs : x.parser.state = .s_body_identity_eof)
    (hm : (x.marks .body).isSome) : each (bytewise.body settings) p bs x = .ok x := by
  induction bs generalizing p with
  | nil => rfl
  | cons ch bs ih =>
    have hbody : bytewise.body settings p ch x = .ok x := by
      unfold bytewise.body one_byte
      rw [hs, Execution.count_body (by rw [hs]; rfl)]
      dsimp only
      rw [Script.run, Execution.set_mark_of_some hm]
      rfl
    rw [each, hbody]
    exact ih (p + 1)

end Runs

/-! ## One round -/

/-- The plain reading from `p` on comes to count as many bytes of a header as there may
be. -/
def TooLong (settings : http_parser_settings) (data : Bytes) (p : ℕ) (y : Execution) : Prop :=
  ∃ k y', each (bytewise.body settings) p ((data.drop p).take k) y = .ok y' ∧
    HTTP_MAX_HEADER_SIZE ≤ y'.nread

/-- The round that takes `z` does what the plain reading does with some bytes from `p` on. -/
def Round (settings : http_parser_settings) (data : Bytes) (B p : ℕ)
    (z : Exec (ℕ × Execution)) (y : Execution) : Prop :=
  ∃ k, 0 < k ∧ p + k ≤ data.length ∧
    EndTogetherUnless (Overflow (TooLong settings data p y))
      (fun r y => r.1 + 1 = p + k ∧ FitsAt data.length B (p + k) r.2 y) Returned z
      (each (bytewise.body settings) p ((data.drop p).take k) y)

section Rounds

variable {settings : http_parser_settings} {data : Bytes} {B b p : ℕ} {x y : Execution}

/-- In a header the first execution has counted this byte, the second has not. -/
theorem Fits.header (h : Fits b x y.count) (hs : x.parser.state.parsing_header) :
    ∃ n, y = { x with nread := n } ∧ x.nread ≤ n + 1 := by
  have hparser : y.parser = x.parser := by
    rw [← h.parser, Execution.parser_count]
  obtain ⟨n, hy, hn⟩ := h.same
  rw [Execution.count_header (by rw [hparser]; exact hs)] at hy
  obtain rfl : y.nread + 1 = n := congrArg Execution.nread hy
  refine ⟨y.nread, ?_, hn⟩
  have hsame : y = { ({ y with nread := y.nread + 1 } : Execution) with nread := y.nread } := rfl
  rw [hy] at hsame
  exact hsame

/-- In a body neither has. -/
theorem Fits.body (h : Fits b x y.count) (hs : x.parser.state.parsing_header = false) :
    Fits b x y := by
  have hparser : y.parser = x.parser := by
    rw [← h.parser, Execution.parser_count]
  rwa [Execution.count_body (by rw [hparser]; exact hs)] at h

/-- A data callback with the parser it is run with. -/
theorem callback_data_next (x : Execution) (n : ℕ) (c : parser_core) (f : http_data)
    (stop ret : ℕ) :
    EndTogether (fun x' y' => y' = { x' with nread := n } ∧ x'.parser = c ∧ x'.nread = x.nread)
      Returned ((x.set c).callback_data settings f stop ret)
      ((({ x with nread := n } : Execution).set c).callback_data settings f stop ret >>=
        fun y => .ok (y.set c)) := by
  have hboth := @callback_data_nread settings (x.set c) n f stop ret
  have hset : (({ x with nread := n } : Execution).set c) = { x.set c with nread := n } := rfl
  rw [hset]
  revert hboth
  generalize (x.set c).callback_data settings f stop ret = z
  generalize ({ x.set c with nread := n } : Execution).callback_data settings f stop ret = z'
  intro hboth
  rcases z with e | x'
  · rcases z' with e' | y'
    · exact hboth
    · exact hboth
  · rcases z' with e' | y'
    · exact hboth
    · obtain ⟨rfl, hparser, hnread⟩ := hboth
      refine ⟨?_, hparser, hnread⟩
      have hc : x'.parser = c := hparser
      rw [← hc]
      rfl

theorem drop_eq_cons {ch : UInt8} (hch : data[p]? = some ch) :
    p < data.length ∧ data.drop p = ch :: data.drop (p + 1) := by
  obtain ⟨hp, rfl⟩ := List.getElem?_eq_some_iff.mp hch
  exact ⟨hp, List.drop_eq_getElem_cons hp⟩

/-- What may be counted behind `k` bytes. -/
theorem room_le {k n : ℕ} (hk : 0 < k) (hle : p + k ≤ n) :
    room n (p + k) + k ≤ n - p + 1 ∧ (p + k = n → room n (p + k) = 0) := by
  unfold room
  split_ifs <;> omega

/-- A case that looks at one byte. -/
theorem single_round {ch : UInt8} (h : Fits b x y.count) (hb : b + (data.length - p) ≤ B)
    (hch : data[p]? = some ch) (hone : one_byte x.parser ch = single x.parser ch) :
    Round settings data B p
      ((single x.parser ch).run settings p x >>= fun x => .ok (p, x)) y := by
  obtain ⟨hp, hdrop⟩ := drop_eq_cons hch
  have hparser : y.parser = x.parser := by
    rw [← h.parser, Execution.parser_count]
  have hroom := room_le Nat.one_pos hp
  refine ⟨1, Nat.one_pos, hp, Or.inr ?_⟩
  rw [hdrop, List.take_succ_cons, List.take_zero, each_singleton, bytewise.body, hparser, hone]
  exact (h.run (single x.parser ch) p).bind_ok fun x y hxy => ⟨rfl, hxy.at (by omega)⟩

/-- One byte more. -/
theorem each_succ {n : ℕ} {ch : UInt8} {y' : Execution}
    (heach : each (bytewise.body settings) p ((data.drop p).take n) y = .ok y')
    (hch : (data.drop p)[n]? = some ch) :
    each (bytewise.body settings) p ((data.drop p).take (n + 1)) y =
      (one_byte y'.parser ch).run settings (p + n) y'.count := by
  obtain ⟨hn, -⟩ := List.getElem?_eq_some_iff.mp hch
  have hlen : ((data.drop p).take n).length = n := List.length_take_of_le hn.le
  rw [List.take_add_one, hch, each_append, heach, hlen]
  exact each_singleton _ _ _ _

/-- The first byte that is no token. -/
theorem takeWhile_cases (bs : Bytes) (P : UInt8 → Bool) :
    bs.takeWhile P = bs ∨ ∃ ch rest, bs = bs.takeWhile P ++ ch :: rest ∧ P ch = false := by
  have hsplit := List.takeWhile_append_dropWhile (p := P) (l := bs)
  have hhead := List.head?_dropWhile_not P bs
  rcases hrest : bs.dropWhile P with _ | ⟨ch, rest⟩
  · rw [hrest, List.append_nil] at hsplit
    exact Or.inl hsplit
  · rw [hrest] at hsplit hhead
    exact Or.inr ⟨ch, rest, hsplit.symm, by simpa using hhead⟩

/-- `s_header_field`. The name ends at a byte that is no token, or with the data. -/
theorem s_header_field_round (h : Fits b x y.count) (hb : b + (data.length - p) ≤ B)
    (hB : B < 2 ^ 32) (hp : p < data.length) (hs : x.parser.state = .s_header_field) :
    Round settings data B p (s_header_field settings data p x) y := by
  have hbound := h.nread
  obtain ⟨n, rfl, hn⟩ := h.header (by rw [hs]; rfl)
  unfold s_header_field
  dsimp only
  generalize hname : (data.drop p).takeWhile (fun ch => decide (TOKEN ch ≠ 0)) = name
  have htoken : ∀ ch ∈ name, TOKEN ch ≠ 0 := fun ch hch => by
    rw [← hname] at hch
    simpa using List.mem_takeWhile_imp hch
  have heach : each (bytewise.body settings) p ((data.drop p).take name.length)
        { x with nread := n } =
      .ok { x.set (name.foldl field_char x.parser) with nread := n + name.length } := by
    rw [← List.prefix_iff_eq_take.mp (hname ▸ List.takeWhile_prefix _)]
    exact each_name name htoken p _ hs
  have hstate : (name.foldl field_char x.parser).state = .s_header_field :=
    (foldl_field_char_state name x.parser).trans hs
  have hsplit := takeWhile_cases (data.drop p) fun ch => decide (TOKEN ch ≠ 0)
  rw [hname] at hsplit
  have hsub : p + name.length - p = name.length := by omega
  rw [hsub]
  have hlong : HTTP_MAX_HEADER_SIZE < x.nread + name.length →
      TooLong settings data p { x with nread := n } := fun hlong =>
    ⟨name.length, _, heach, by dsimp only; omega⟩
  obtain hall | ⟨ch, rest, hdrop, hno⟩ := hsplit
  · -- all the bytes that are left belong to the name
    have hlen := congrArg List.length hall
    rw [List.length_drop] at hlen
    have hroom := room_le (p := p) (k := name.length) (n := data.length) (by omega) (by omega)
    refine ⟨name.length, by omega, by omega, ?_⟩
    rw [heach]
    refine count_unless hB ?_ ?_ ?_
    · dsimp only [Execution.set]
      omega
    · exact hlong
    rw [List.getElem?_eq_none (by omega)]
    refine Or.inr ⟨by dsimp only; omega, ⟨n + name.length, rfl, Or.inr ⟨?_, by omega, ?_⟩⟩, ?_⟩
    · dsimp only [Execution.set]
      omega
    · dsimp only [Execution.set]
      rw [hstate]
      rfl
    · dsimp only [Execution.set]
      omega
  · have hlen := congrArg List.length hdrop
    rw [List.length_drop, List.length_append, List.length_cons] at hlen
    have hget : data[p + name.length]? = some ch := by
      rw [← List.getElem?_drop, hdrop, List.getElem?_append_right (le_refl _), Nat.sub_self]
      rfl
    have htake : (data.drop p)[name.length]? = some ch := by
      rw [List.getElem?_drop, hget]
    have htok : TOKEN ch = 0 := by simpa using hno
    have hroom := room_le (p := p) (k := name.length + 1) (n := data.length) (by omega)
      (by omega)
    refine ⟨name.length + 1, by omega, by omega, ?_⟩
    rw [each_succ heach htake,
      Execution.count_header (by dsimp only [Execution.set]; rw [hstate]; rfl)]
    refine count_unless hB ?_ ?_ ?_
    · dsimp only [Execution.set]
      omega
    · exact hlong
    rw [hget, one_byte]
    dsimp only [Execution.set]
    rw [hstate]
    dsimp only [field_byte]
    rw [if_neg (show ¬ TOKEN ch ≠ 0 by rw [htok]; simp)]
    split_ifs with hcolon
    · refine ((callback_data_next { x with nread := x.nread + name.length }
        (n + name.length + 1) _ .header_field _ _).bind_ok fun x' y' h' => ?_).orElse
      obtain ⟨hy', -, hnread⟩ := h'
      dsimp only at hnread
      exact ⟨rfl, ⟨_, hy', Or.inl (by dsimp only; omega)⟩, by dsimp only; omega⟩
    · exact Or.inr ⟨rfl, _, rfl⟩

/-- The headers are too long. -/
theorem count_too_long {C : Prop} {v ret : ℕ} (hB : B < 2 ^ 32) (hv : x.nread + v ≤ B)
    (hlong : HTTP_MAX_HEADER_SIZE < x.nread + v) (hC : C)
    {f : Execution → Exec (ℕ × Execution)} :
    ∃ e, x.count_header_size v ret >>= f = .error e ∧ Overflow C e := by
  have hmod : (x.nread + v) % 2 ^ 32 = x.nread + v := Nat.mod_eq_of_lt (by omega)
  unfold Execution.count_header_size
  rw [hmod]
  dsimp only
  rw [if_pos hlong]
  exact ⟨_, rfl, hC, rfl⟩

/-- `s_header_value`. The value ends at a line end, at a byte a `Content-Length` may not have,
or with the data. -/
theorem s_header_value_round (h : Fits b x y.count) (hb : b + (data.length - p) ≤ B)
    (hB : B < 2 ^ 32) (hp : p < data.length) (hc : Asserts x.parser)
    (hs : x.parser.state = .s_header_value) :
    Round settings data B p (s_header_value settings data p x) y := by
  have hbound := h.nread
  obtain ⟨m, rfl, hm⟩ := h.header (by rw [hs]; rfl)
  have hv : x.parser.header_state.of_value := by
    have hhere := hc.here
    rwa [Asserted, hs] at hhere
  have hloop := @value_loop_bytewise settings _ hs hv hc.bounded (data.drop p)
  unfold s_header_value
  generalize value_loop x.parser (data.drop p) = r at hloop ⊢
  obtain ⟨n, ended, c⟩ := r
  dsimp only at hloop ⊢
  have hsub : p + n - p = n := by omega
  rw [hsub]
  obtain hloop | ⟨rfl, rfl, hlong, k, c', hk, heach⟩ := hloop
  · have hle : n ≤ data.length - p := by
      have hle := hloop.le
      rwa [List.length_drop] at hle
    have heach := hloop.each p { x with nread := m } rfl
    have hstate : c.state = .s_header_value := hloop.state
    have hlong : HTTP_MAX_HEADER_SIZE < x.nread + n →
        TooLong settings data p { x with nread := m } := fun hlong =>
      ⟨n, _, heach, by dsimp only; omega⟩
    -- the line end or the wrong byte is one more
    have hmore : ∀ {ch}, (data.drop p)[n]? = some ch →
        n < data.length - p ∧ each (bytewise.body settings) p ((data.drop p).take (n + 1))
            { x with nread := m } =
          (value_byte c ch).run settings (p + n) { x.set c with nread := m + n + 1 } := by
      intro ch hch
      obtain ⟨hlt, -⟩ := List.getElem?_eq_some_iff.mp hch
      rw [List.length_drop] at hlt
      refine ⟨hlt, ?_⟩
      rw [each_succ heach hch,
        Execution.count_header (by dsimp only [Execution.set]; rw [hstate]; rfl), one_byte]
      dsimp only [Execution.set]
      rw [hstate]
    have hroom := fun hlt : n < data.length - p =>
      room_le (p := p) (k := n + 1) (n := data.length) (by omega) (by omega)
    rcases ended
    · -- CR
      obtain ⟨hlt, hrun⟩ := hmore (hloop.cr rfl)
      have hroom := hroom hlt
      refine ⟨n + 1, by omega, by omega, ?_⟩
      rw [hrun, value_byte, if_pos rfl]
      refine (callback_data_next x _ _ .header_value _ _).orElse.bind_left fun x' y' h' => ?_
      obtain ⟨hy', -, hnread⟩ := h'
      rw [← hnread] at hm hbound hlong
      exact count_unless hB (by omega) hlong
        (Or.inr ⟨rfl, ⟨_, hy', Or.inl (by dsimp only; omega)⟩, by dsimp only; omega⟩)
    · -- LF
      obtain ⟨hlt, hrun⟩ := hmore (hloop.lf rfl)
      have hroom := hroom hlt
      refine ⟨n + 1, by omega, by omega, ?_⟩
      rw [hrun, value_byte, if_neg (by decide), if_pos rfl]
      refine count_unless hB ?_ ?_ ?_
      · dsimp only [Execution.set]
        omega
      · exact hlong
      have hfits : Fits (x.nread + n)
          { x.set { c with state := .s_header_almost_done } with nread := x.nread + n }
          { x.set { c with state := .s_header_almost_done } with nread := m + n + 1 } :=
        ⟨⟨_, rfl, by dsimp only; omega⟩, le_refl _⟩
      refine ((hfits.callback_data .header_value _ _).bind fun x' y' h' => ?_).orElse
      exact (h'.run _ (p + n)).bind_ok fun x' y' h' => ⟨rfl, h'.at (by omega)⟩
    · -- the end of the data
      have hend := hloop.end_of_data rfl
      rw [List.length_drop] at hend
      have hroom := room_le (p := p) (k := n) (n := data.length) (by omega) (by omega)
      refine ⟨n, by omega, by omega, ?_⟩
      rw [heach]
      refine count_unless hB ?_ ?_ ?_
      · dsimp only [Execution.set]
        omega
      · exact hlong
      refine Or.inr ⟨by dsimp only; omega, ⟨m + n, rfl, Or.inr ⟨?_, by omega, ?_⟩⟩, ?_⟩
      · dsimp only [Execution.set]
        omega
      · dsimp only [Execution.set]
        rw [hstate]
        rfl
      · dsimp only [Execution.set]
        omega
    · -- not a digit of a `Content-Length`
      obtain ⟨ch, hch, hline, hnone⟩ := hloop.invalid rfl
      obtain ⟨hlt, hrun⟩ := hmore hch
      refine ⟨n + 1, by omega, by omega, ?_⟩
      rw [hrun, value_byte, if_neg fun h => hline (Or.inl h), if_neg fun h => hline (Or.inr h),
        hnone]
      exact Or.inr ⟨rfl, _, rfl⟩
  · -- so many bytes are too many
    rw [List.length_drop] at hlong
    refine ⟨1, Nat.one_pos, hp, Or.inl (count_too_long hB ?_ ?_ ⟨k, _, heach p _ rfl, ?_⟩)⟩
    · dsimp only [Execution.set]
      rw [List.length_drop]
      omega
    · dsimp only [Execution.set]
      rw [List.length_drop]
      omega
    · dsimp only
      omega

/-- What the three cases of a body have in common: the mark, and `n` bytes from `p` on. -/
structure Body (data : Bytes) (B b p n : ℕ) (x y : Execution) : Prop where
  pos : 0 < n
  le : p + n ≤ data.length
  marked : ((y.set_mark .body p).marks .body).isSome
  fits : Fits b (x.set_mark .body p) (y.set_mark .body p)
  room : b + room data.length (p + n) ≤ B

theorem body_of_fits {n : ℕ} (h : Fits b x y) (hb : b + (data.length - p) ≤ B) (hn : 0 < n)
    (hle : p + n ≤ data.length) : Body data B b p n x y := by
  have hroom := room_le (p := p) hn hle
  exact ⟨hn, hle, y.isSome_set_mark .body p, h.set_mark .body p, by omega⟩

theorem Body.parser {n : ℕ} (hb : Body data B b p n x y) :
    (y.set_mark .body p).parser = x.parser := by
  rw [hb.fits.parser, Execution.parser_set_mark]

theorem Body.marked_set {n : ℕ} (hb : Body data B b p n x y) (c : parser_core) :
    ((((y.set_mark .body p).set c).marks .body)).isSome :=
  hb.marked

/-- The plain reading may as well begin with the mark. -/
theorem Body.each_set_mark {n : ℕ} (hb : Body data B b p n x y) (hs : x.parser.state.in_body) :
    each (bytewise.body settings) p ((data.drop p).take n) (y.set_mark .body p) =
      each (bytewise.body settings) p ((data.drop p).take n) y := by
  have hys : y.parser.state.in_body := by
    rw [← Execution.parser_set_mark .body p, hb.parser]
    exact hs
  have hne : (data.drop p).take n ≠ [] := by
    have hpos := hb.pos
    have hle := hb.le
    rw [Ne, List.take_eq_nil_iff, List.drop_eq_nil_iff]
    omega
  obtain ⟨ch, bs, hbs⟩ := List.exists_cons_of_ne_nil hne
  rw [hbs, each, each, body_set_mark hys]

theorem in_body_of_or (hs : x.parser.state = .s_body_identity ∨ x.parser.state = .s_chunk_data) :
    x.parser.state.in_body := by
  rcases hs with hs | hs
  · rw [hs]
    rfl
  · rw [hs]
    rfl

/-- The bytes of a body that are not its last. -/
theorem each_body_part {n : ℕ} (hb : Body data B b p n x y)
    (hs : x.parser.state = .s_body_identity ∨ x.parser.state = .s_chunk_data)
    (hlt : n < x.parser.content_length) :
    each (bytewise.body settings) p ((data.drop p).take n) y =
      .ok ((y.set_mark .body p).set
        { x.parser with content_length := x.parser.content_length - n }) := by
  have hlen : ((data.drop p).take n).length = n := by
    rw [List.length_take, List.length_drop]
    have hle := hb.le
    omega
  rw [← hb.each_set_mark (in_body_of_or hs), each_body _ p _ (by rw [hb.parser]; exact hs)
    hb.marked (by rw [hb.parser, hlen]; exact hlt), hlen, hb.parser]

/-- The last bytes of a body, the very last of which is read when the mark is set and one
byte is left. -/
theorem each_body_all {n : ℕ} (hb : Body data B b p n x y)
    (hs : x.parser.state = .s_body_identity ∨ x.parser.state = .s_chunk_data)
    (hlen : n = x.parser.content_length) :
    ∃ ch, each (bytewise.body settings) p ((data.drop p).take n) y =
      (one_byte { x.parser with content_length := 1 } ch).run settings (p + n - 1)
        ((y.set_mark .body p).set { x.parser with content_length := 1 }) := by
  obtain ⟨m, rfl⟩ : ∃ m, n = m + 1 := ⟨n - 1, by have hpos := hb.pos; omega⟩
  have hle := hb.le
  have hlast : x.parser.content_length - m = 1 := by omega
  have hget : (data.drop p)[m]? = some data[p + m] := by
    rw [List.getElem?_drop]
    exact List.getElem?_eq_getElem _
  have hbefore : each (bytewise.body settings) p ((data.drop p).take m) (y.set_mark .body p) =
      .ok ((y.set_mark .body p).set { x.parser with content_length := 1 }) := by
    have hm : ((data.drop p).take m).length = m := by
      rw [List.length_take, List.length_drop]
      omega
    rw [each_body _ p _ (by rw [hb.parser]; exact hs) hb.marked (by rw [hb.parser, hm]; omega),
      hm, hb.parser, hlast]
  refine ⟨data[p + m], ?_⟩
  rw [← hb.each_set_mark (in_body_of_or hs), each_succ hbefore hget, Execution.count_body ?_]
  · rfl
  · rcases hs with hs | hs
    · exact congrArg state.parsing_header hs
    · exact congrArg state.parsing_header hs

/-- `s_body_identity`. -/
theorem s_body_identity_round (h : Fits b x y) (hb : b + (data.length - p) ≤ B)
    (hp : p < data.length) (hc : Asserts x.parser) (hs : x.parser.state = .s_body_identity) :
    Round settings data B p (s_body_identity settings data p x) y := by
  have hlen : x.parser.content_length ≠ 0 := by
    have hhere := hc.here
    rw [Asserted, hs] at hhere
    exact hhere.1
  unfold s_body_identity
  simp only [Execution.parser_set_mark]
  generalize hn : to_read data p x = n
  have hread : 0 < n ∧ p + n ≤ data.length ∧ n ≤ x.parser.content_length := by
    unfold to_read at hn
    omega
  obtain ⟨hpos, hle, hcl⟩ := hread
  have hbody : Body data B b p n x y := body_of_fits h hb hpos hle
  refine ⟨n, hpos, hle, Or.inr ?_⟩
  split_ifs with hzero
  · obtain ⟨ch, hlast⟩ := @each_body_all settings _ _ _ _ _ _ _ hbody (Or.inl hs) (by omega)
    rw [hlast, one_byte]
    dsimp only
    rw [hs]
    dsimp only [body_byte]
    rw [Script.run, Execution.set_mark_of_some (hbody.marked_set _), if_pos rfl, hzero]
    refine ((hbody.fits.set _).callback_data .body _ _).bind fun x y hxy => ?_
    exact (hxy.run _ _).bind_ok fun x y hxy =>
      ⟨by dsimp only; omega, hxy.at hbody.room⟩
  · rw [each_body_part hbody (Or.inl hs) (by omega)]
    exact ⟨by dsimp only; omega, (hbody.fits.set _).at hbody.room⟩

/-- `s_chunk_data`. -/
theorem s_chunk_data_round (h : Fits b x y) (hb : b + (data.length - p) ≤ B)
    (hp : p < data.length) (hc : Asserts x.parser) (hs : x.parser.state = .s_chunk_data) :
    Round settings data B p (s_chunk_data data p x) y := by
  have hlen : x.parser.content_length ≠ 0 := by
    have hhere := hc.here
    rw [Asserted, hs] at hhere
    exact hhere.2.1
  unfold s_chunk_data
  simp only [Execution.parser_set_mark]
  generalize hn : to_read data p x = n
  have hread : 0 < n ∧ p + n ≤ data.length ∧ n ≤ x.parser.content_length := by
    unfold to_read at hn
    omega
  obtain ⟨hpos, hle, hcl⟩ := hread
  have hbody : Body data B b p n x y := body_of_fits h hb hpos hle
  refine ⟨n, hpos, hle, Or.inr ?_⟩
  split_ifs with hzero
  · obtain ⟨ch, hlast⟩ := @each_body_all settings _ _ _ _ _ _ _ hbody (Or.inr hs) (by omega)
    rw [hlast, one_byte]
    dsimp only
    rw [hs]
    dsimp only [chunk_byte]
    rw [Script.run, Execution.set_mark_of_some (hbody.marked_set _), if_pos rfl, hzero]
    exact ⟨by dsimp only; omega, (hbody.fits.set _).at hbody.room⟩
  · rw [each_body_part hbody (Or.inr hs) (by omega)]
    exact ⟨by dsimp only; omega, (hbody.fits.set _).at hbody.room⟩

/-- `s_body_identity_eof`. -/
theorem s_body_identity_eof_round (h : Fits b x y) (hb : b + (data.length - p) ≤ B)
    (hp : p < data.length) (hs : x.parser.state = .s_body_identity_eof) :
    Round settings data B p (s_body_identity_eof data p x) y := by
  have hbody : Body data B b p (data.length - p) x y := body_of_fits h hb (by omega) (by omega)
  refine ⟨data.length - p, hbody.pos, hbody.le, Or.inr ?_⟩
  rw [← hbody.each_set_mark (by rw [hs]; rfl),
    each_body_eof _ p (by rw [hbody.parser]; exact hs) hbody.marked]
  exact ⟨by dsimp only; omega, hbody.fits.at hbody.room⟩

/-! ## The loop -/

open http_parser_execute in
/-- **One round of the loop.** The cases are those of the switch. -/
theorem round_bytes {ch : UInt8} (h : FitsAt data.length B p x y) (hB : B < 2 ^ 32)
    (hc : Asserts x.parser) (hch : data[p]? = some ch) :
    Round settings data B p
      ((if x.parser.state.parsing_header then x.count_header_size 1 p else .ok x) >>=
        switch settings data p ch) y := by
  obtain ⟨hp, -⟩ := drop_eq_cons hch
  have hroom : room data.length p = data.length - p + 1 := if_pos hp
  have hbound := h.nread
  obtain ⟨n, rfl, hn⟩ := h.same
  have hn : x.nread ≤ n := by omega
  -- the round behind the count
  have hswitch : ∀ x y, Fits x.nread x y.count → x.nread + (data.length - p) ≤ B →
      Asserts x.parser → Round settings data B p (switch settings data p ch x) y := by
    intro x y h hb hc
    unfold switch
    rcases hs : x.parser.state
    case s_header_field => exact s_header_field_round h hb hB hp hs
    case s_header_value => exact s_header_value_round h hb hB hp hc hs
    case s_body_identity =>
      exact s_body_identity_round (h.body (by rw [hs]; rfl)) hb hp hc hs
    case s_chunk_data => exact s_chunk_data_round (h.body (by rw [hs]; rfl)) hb hp hc hs
    case s_body_identity_eof =>
      exact s_body_identity_eof_round (h.body (by rw [hs]; rfl)) hb hp hs
    all_goals exact single_round h hb hch (by rw [one_byte, hs])
  split_ifs with hheader
  · obtain ⟨k, hk, hle, hbytes⟩ := hswitch { x with nread := x.nread + 1 } { x with nread := n } (by
      rw [Execution.count_header (x := { x with nread := n }) hheader]
      exact ⟨⟨n + 1, rfl, by dsimp only; omega⟩, le_refl _⟩) (by dsimp only; omega) hc
    exact ⟨k, hk, hle, count_unless hB (by omega)
      (fun hlong => ⟨0, _, rfl, by dsimp only; omega⟩) hbytes⟩
  · have hbody : x.parser.state.parsing_header = false := by simpa using hheader
    refine hswitch x _ ?_ (by omega) hc
    rw [Execution.count_body (x := { x with nread := n }) hbody]
    exact ⟨⟨n, rfl, hn⟩, le_refl _⟩

/-- What the plain reading keeps. -/
theorem each_asserts (hc : Asserts y.parser) (bs : Bytes) (i : ℕ) :
    Loop.Ends (fun y => Asserts y.parser) (fun r => Asserts r.2.parser)
      (each (bytewise.body settings) i bs y) := by
  refine each_ends (K := fun _ (y : Execution) => Asserts y.parser) (n := i + bs.length) ?_
    (le_refl _) hc
  exact fun p ch y _ hc => Script.run_all asserts_errno (one_byte_asserts hc ch) y.count

/-- The bytes of a round belong to the reading from `p` on. -/
theorem TooLong.behind {k : ℕ} {y' : Execution}
    (heach : each (bytewise.body settings) p ((data.drop p).take k) y = .ok y')
    (hle : p + k ≤ data.length) (h : TooLong settings data (p + k) y') :
    TooLong settings data p y := by
  obtain ⟨k', y'', heach', hlong⟩ := h
  refine ⟨k + k', y'', ?_, hlong⟩
  have hlen : ((data.drop p).take k).length = k := by
    rw [List.length_take, List.length_drop]
    omega
  rw [List.take_add, each_append, heach, hlen, List.drop_drop]
  exact heach'

open http_parser_execute in
/-- **The loop reads byte by byte**, or the headers are too long. The induction is on the
rounds that are left. -/
theorem loop_bytewise (fuel : ℕ) (hB : B < 2 ^ 32) :
    ∀ p x y, FitsAt data.length B p x y → Asserts x.parser → p ≤ data.length →
      data.length ≤ p + fuel →
      EndTogetherUnless (Overflow (TooLong settings data p y))
        (fun x y => FitsAt data.length B data.length x y ∧ Asserts y.parser)
        (fun r r' => Returned r r' ∧ Asserts r'.2.parser)
        (loop settings data fuel p x) (each (bytewise.body settings) p (data.drop p) y) := by
  induction fuel with
  | zero =>
    intro p x y h hc hle hp
    obtain rfl : p = data.length := by omega
    rw [List.drop_eq_nil_of_le (le_refl _)]
    refine Or.inr ⟨h, ?_⟩
    rw [h.parser]
    exact hc
  | succ fuel ih =>
    intro p x y h hc hle hp
    rw [loop]
    rcases hch : data[p]? with _ | ch
    · rw [List.getElem?_eq_none_iff] at hch
      obtain rfl : p = data.length := by omega
      rw [List.drop_eq_nil_of_le hch]
      refine Or.inr ⟨h, ?_⟩
      rw [h.parser]
      exact hc
    · obtain ⟨k, hk, hle', hround⟩ := @round_bytes settings _ _ _ _ _ _ h hB hc hch
      have hyc : Asserts y.parser := by
        rw [h.parser]
        exact hc
      have hsplit : data.drop p = (data.drop p).take k ++ data.drop (p + k) := by
        rw [← List.drop_drop, List.take_append_drop]
      have hlen : ((data.drop p).take k).length = k := by
        rw [List.length_take, List.length_drop]
        omega
      rw [hsplit, each_append, hlen]
      dsimp only
      rw [← bind_assoc]
      refine (((hround.and_ends (each_asserts hyc _ p)).and_ends ends_self).mono
        (fun _ _ h => h) fun _ _ h => h.1).bind ?_
      rintro ⟨q, x'⟩ y' ⟨⟨⟨hq, hfits⟩, hasserts⟩, heach⟩
      dsimp only at hq hfits ⊢
      rw [hq]
      rw [hfits.parser] at hasserts
      refine (ih (p + k) x' y' hfits hasserts hle' (by omega)).unless_mono fun r hr => ?_
      exact ⟨hr.1.behind heach hle', hr.2⟩

end Rounds

/-! ## The function -/

section Function

variable {settings : http_parser_settings} {data : Bytes}

open http_parser_execute in
theorem leftover_fits {len B p : ℕ} {x y : Execution} (h : FitsAt len B p x y) :
    EndTogether (FitsAt len B p) Returned (leftover settings data x)
      (leftover settings data y) := by
  refine (h.callback_data .header_field _ _).bind fun x y h => ?_
  refine (h.callback_data .header_value _ _).bind fun x y h => ?_
  refine (h.callback_data .url _ _).bind fun x y h => ?_
  refine (h.callback_data .body _ _).bind fun x y h => ?_
  exact h.callback_data .status _ _

open http_parser_execute in
/-- In front of the loop. -/
theorem fits_start (parser : http_parser_struct) (data : Bytes) :
    FitsAt data.length (parser.nread + data.length + 1) 0 (start parser) (start parser) := by
  refine ⟨⟨parser.nread, rfl, Or.inl (le_refl _)⟩, ?_⟩
  unfold room start
  dsimp only
  split_ifs <;> omega

open http_parser_execute in
/-- A call with data, as far as the end of the function. -/
theorem start_bytewise {parser : http_parser_struct} (hp : Asserts parser.toparser_core)
    (hlen : parser.nread + data.length + 1 < 2 ^ 32) :
    EndTogetherUnless (Overflow (TooLong settings data 0 (start parser)))
      (FitsAt data.length (parser.nread + data.length + 1) data.length) Returned
      (loop settings data data.length 0 (start parser) >>= leftover settings data)
      (bytewise.loop settings 0 data (start parser) >>= leftover settings data) := by
  have hloop := @loop_bytewise settings _ _ data.length hlen 0 _ _ (fits_start parser data) hp
    (Nat.zero_le _) (by omega)
  rw [List.drop_zero] at hloop
  exact (hloop.mono (fun _ _ h => h.1) fun _ _ h => h.1).bind fun _ _ h =>
    (leftover_fits h).orElse

/-- **`http_parser_execute` reads byte by byte**: the cases that look ahead for the end of a
name, of a value or of a body make no difference, to the result, to the parser or to a
callback, unless the headers are too long. -/
theorem http_parser_execute_bytewise (settings : http_parser_settings)
    (parser : http_parser_struct) (data : Bytes) (hp : Asserts parser.toparser_core)
    (hlen : parser.nread + data.length + 1 < 2 ^ 32) :
    (TooLong settings data 0 (http_parser_execute.start parser) ∧
        (http_parser_execute settings parser data).2.1.http_errno = .HPE_HEADER_OVERFLOW) ∨
      bytewise settings parser data =
        ((http_parser_execute settings parser data).1,
          (http_parser_execute settings parser data).2.1.toparser_core,
          (http_parser_execute settings parser data).2.2) := by
  unfold http_parser_execute bytewise
  dsimp only
  split_ifs with herrno hnil
  · exact Or.inr rfl
  · exact Or.inr rfl
  · obtain ⟨e, he, hover⟩ | hboth := @start_bytewise settings _ _ hp hlen
    · rw [he]
      exact Or.inl hover
    · refine Or.inr ?_
      rcases hx : http_parser_execute.loop settings data data.length 0
          (http_parser_execute.start parser) >>= http_parser_execute.leftover settings data
        with e | x
      all_goals
        rcases hy : bytewise.loop settings 0 data (http_parser_execute.start parser) >>=
            http_parser_execute.leftover settings data with e' | y
        all_goals
          rw [hx, hy] at hboth
          try exact hboth.elim
      · obtain ⟨hret, n, hsame⟩ := hboth
        dsimp only
        rw [← hret, hsame]
        rfl
      · obtain ⟨⟨n, rfl, -⟩, -⟩ := hboth
        rfl

end Function

end MyWarehouse

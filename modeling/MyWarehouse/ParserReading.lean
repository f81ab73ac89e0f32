/-
`http_parser_execute` reports the events of its bytes, however they arrive.

`Follows` relates the variables of `http_parser_execute` in front of a byte to what
`read_byte` has reported of the bytes before it: the callbacks so far, with the piece that
begins at the mark, are these events. A script keeps that (`run_read`), and the callbacks
behind the loop close the last piece (`Follows.leftover`).

So a stream may be cut anywhere: the calls for its pieces come to what one call for the
whole of it comes to (`execute_all_split`).
-/
import MyWarehouse.ParserEvents

set_option autoImplicit false

namespace MyWarehouse

open Loop http_parser_execute

/-! ## Callbacks and events -/

/-- The bytes of the field `m` that are still to be reported in front of `i`. -/
def pending (off i : ℕ) (x : Execution) : Option http_data → List ParserEvent
  | none => []
  | some f =>
    let k := (x.marks f).getD i
    (List.range' (off + k) (i - k)).map (.data f)

/-- In front of the byte at `i` of a call whose data begins at `off` in the stream, `m` is
the field the mark of which is set, and `es` is what there is to be reported. -/
structure Follows (settings : http_parser_settings) (off i : ℕ) (m : Option http_data)
    (x : Execution) (es : List ParserEvent) : Prop where
  marks : ∀ f, (x.marks f).isSome ↔ m = some f
  le : ∀ f k, x.marks f = some k → k ≤ i
  events : x.calls.flatMap (ParserCall.events off) ++ (pending off i x m).filter settings.hears =
    es.filter settings.hears

section Follows

variable {settings : http_parser_settings} {off i : ℕ} {m : Option http_data} {x : Execution}
  {es : List ParserEvent}

theorem filter_hears_data (f : http_data) (l : List ℕ) :
    (l.map (ParserEvent.data f)).filter settings.hears =
      if settings.on_data f then l.map (ParserEvent.data f) else [] := by
  split_ifs with hf
  · refine List.filter_eq_self.mpr fun e he => ?_
    obtain ⟨n, -, rfl⟩ := List.mem_map.mp he
    exact hf
  · refine List.filter_eq_nil_iff.mpr fun e he => ?_
    obtain ⟨n, -, rfl⟩ := List.mem_map.mp he
    exact hf

theorem Follows.set (h : Follows settings off i m x es) (c : parser_core) :
    Follows settings off i m (x.set c) es :=
  ⟨h.marks, h.le, h.events⟩

/-- The mark of the field that is open. -/
theorem Follows.exists_mark {f : http_data} (h : Follows settings off i (some f) x es) :
    ∃ k, x.marks f = some k ∧ k ≤ i := by
  obtain ⟨k, hk⟩ := Option.isSome_iff_exists.mp ((h.marks f).mpr rfl)
  exact ⟨k, hk, h.le f k hk⟩

/-- Outside a field no mark is set. -/
theorem Follows.no_mark (h : Follows settings off i none x es) (f : http_data) :
    x.marks f = none := by
  rcases hf : x.marks f with _ | k
  · rfl
  · have hsome := (h.marks f).mp (by rw [hf]; rfl)
    cases hsome

theorem Follows.mark {f : http_data} (h : Follows settings off i m x es)
    (hm : m = none ∨ m = some f) : Follows settings off i (some f) (x.set_mark f i) es := by
  rcases hm with rfl | rfl
  · have hnone := h.no_mark
    have hset : x.set_mark f i = { x with marks := Function.update x.marks f (some i) } := by
      unfold Execution.set_mark
      rw [hnone f]
      rfl
    rw [hset]
    refine ⟨fun g => ?_, fun g k hk => ?_, ?_⟩
    · by_cases hg : g = f
      · subst hg
        simp
      · simp [Function.update_of_ne hg, hnone g, Ne.symm hg]
    · by_cases hg : g = f
      · subst hg
        simp only [Function.update_self, Option.some.injEq] at hk
        omega
      · simp only [Function.update_of_ne hg, hnone g] at hk
        cases hk
    · have hevents := h.events
      simpa [pending] using hevents
  · rw [Execution.set_mark_of_some ((h.marks f).mpr rfl)]
    exact h

/-- One byte further. -/
theorem Follows.next (h : Follows settings off i m x es) :
    Follows settings off (i + 1) m x (es ++ byte_event m (off + i)) := by
  refine ⟨h.marks, fun f k hk => (h.le f k hk).trans (Nat.le_succ i), ?_⟩
  have hevents := h.events
  rw [List.filter_append, ← hevents, List.append_assoc, ← List.filter_append]
  congr 2
  rcases m with _ | f
  · rfl
  · obtain ⟨k, hk, hle⟩ := h.exists_mark
    have hlen : i + 1 - k = i - k + 1 := by omega
    have hlast : off + k + (i - k) = off + i := by omega
    simp only [pending, byte_event, hk, Option.getD_some, Option.toList_some, List.map_cons,
      List.map_nil]
    rw [hlen, List.range'_concat, List.map_append, List.map_cons, List.map_nil, Nat.one_mul, hlast]

/-- A data callback for the field that is open reports what was waiting, and clears the
mark. -/
theorem Follows.report {f : http_data} {ret : ℕ} (hresult : ∀ calls, settings.result calls = 0)
    (h : Follows settings off i (some f) x es) (j : ℕ) :
    ∃ x', x.callback_data settings f i ret = .ok x' ∧ Follows settings off j none x' es := by
  obtain ⟨k, hk, hle⟩ := h.exists_mark
  have hothers : ∀ g, g ≠ f → x.marks g = none := fun g hg => by
    by_contra hsome
    have hfg := (h.marks g).mp (Option.isSome_iff_ne_none.mpr hsome)
    exact hg (Option.some.inj hfg).symm
  have hcleared : ∀ g, Function.update x.marks f none g = none := fun g => by
    by_cases hg : g = f
    · rw [hg, Function.update_self]
    · rw [Function.update_of_ne hg, hothers g hg]
  -- the variables when the mark is cleared
  have hafter : ∀ calls, calls.flatMap (ParserCall.events off) = es.filter settings.hears →
      Follows settings off j none
        { x with marks := Function.update x.marks f none, calls := calls } es := by
    refine fun calls hcalls => ⟨fun g => ?_, fun g n hn => ?_, ?_⟩
    · simp [hcleared g]
    · simp [hcleared g] at hn
    · simpa [pending] using hcalls
  have hevents := h.events
  simp only [pending, hk, Option.getD_some, filter_hears_data] at hevents
  unfold Execution.callback_data
  rw [hk]
  dsimp only
  split_ifs at hevents ⊢ with hon hzero
  · exact absurd (hresult _) hzero
  · refine ⟨_, rfl, hafter _ ?_⟩
    rw [List.flatMap_append, List.flatMap_singleton]
    exact hevents
  · refine ⟨_, rfl, hafter _ ?_⟩
    rw [← hevents, List.append_nil]

/-- A data callback in a script; with this byte when `len` is 1. -/
theorem Follows.callback_data {f : http_data} {len ret : ℕ}
    (hresult : ∀ calls, settings.result calls = 0) (h : Follows settings off i m x es)
    (hm : m = none ∨ m = some f) (hlen : len ≤ 1) :
    ∃ x', x.callback_data settings f (i + len) ret = .ok x' ∧
      Follows settings off i none x'
        (es ++ if len = 0 then [] else byte_event m (off + i)) := by
  rcases hm with rfl | rfl
  · refine ⟨x, ?_, ?_⟩
    · unfold Execution.callback_data
      rw [h.no_mark f]
    · have hnil : (if len = 0 then [] else byte_event none (off + i)) = [] := by
        split_ifs <;> rfl
      rw [hnil, List.append_nil]
      exact h
  · obtain rfl | rfl : len = 0 ∨ len = 1 := by omega
    · rw [if_pos rfl, List.append_nil]
      exact h.report hresult i
    · exact h.next.report hresult i

/-- A callback without data, when no field is open. -/
theorem Follows.notify {n : http_notify} {ret : ℕ} (hresult : ∀ calls, settings.result calls = 0)
    (h : Follows settings off i none x es) :
    ∃ x', x.callback_notify settings n ret = .ok x' ∧
      Follows settings off i none x' (es ++ [.notify n]) := by
  have hevents := h.events
  simp only [pending, List.filter_nil, List.append_nil] at hevents
  unfold Execution.callback_notify
  dsimp only
  split_ifs with hon hzero
  · exact absurd (hresult _) hzero
  · refine ⟨_, rfl, h.marks, h.le, ?_⟩
    simp [pending, hevents, ParserCall.events, http_parser_settings.hears, hon]
  · refine ⟨_, rfl, h.marks, h.le, ?_⟩
    simp [pending, hevents, http_parser_settings.hears, hon]

theorem Follows.headers_complete {ret : ℕ} (hresult : ∀ calls, settings.result calls = 0)
    (h : Follows settings off i none x es) :
    ∃ x', x.headers_complete settings ret = .ok (false, x') ∧
      Follows settings off i none x' (es ++ [.headers_complete]) := by
  have hevents := h.events
  simp only [pending, List.filter_nil, List.append_nil] at hevents
  unfold Execution.headers_complete
  dsimp only
  split_ifs with hon hzero hone
  · refine ⟨_, rfl, h.marks, h.le, ?_⟩
    simp [pending, hevents, ParserCall.events, http_parser_settings.hears, hon]
  · exact absurd (hresult _) hzero
  · exact absurd (hresult _) hzero
  · refine ⟨_, rfl, h.marks, h.le, ?_⟩
    simp [pending, hevents, http_parser_settings.hears, hon]

end Follows

/-! ## A script and the loop -/

/-- The variables in front of the byte at `i` and the reading of the bytes before it. -/
structure After (settings : http_parser_settings) (off i : ℕ) (x : Execution) (r : ParserReport) :
    Prop where
  parser : x.parser = r.parser
  errno : r.parser.http_errno = .HPE_OK
  follows : ∃ m, Marked m r.parser.state ∧ Follows settings off i m x r.events
  nread : x.nread ≤ 2 * r.nread
  line : 0 < i → r.parser.state.in_line → x.nread + 1 ≤ 2 * r.nread

/-- What has returned early and how the reading stops. An error loses the piece of the field
it occurs in. -/
def Stopped (settings : http_parser_settings) (off : ℕ) (ret : ℕ × Execution) : Stop → Prop
  | .failed pos r => off + ret.1 = pos ∧ ret.2.parser = r.parser ∧
    r.parser.http_errno ≠ .HPE_OK ∧
    ret.2.calls.flatMap (ParserCall.events off) <+: r.events.filter settings.hears
  | .left pos r => off + ret.1 = pos ∧ ret.2.parser = r.parser ∧
    r.parser.http_errno = .HPE_OK ∧ r.parser.upgrade ∧
    ret.2.calls.flatMap (ParserCall.events off) = r.events.filter settings.hears

section Reads

variable {settings : http_parser_settings} {off i : ℕ} {m : Option http_data} {x : Execution}
  {es : List ParserEvent}

/-- A script that keeps the marks in order reports the events of its byte. The induction is
on the script. -/
theorem run_read (hresult : ∀ calls, settings.result calls = 0) {k : Script} {ph : BodyPhase}
    {b : Bool} {n : ℕ} (hk : k.Sound m ph) (hcounts : k.Counts b)
    (h : Follows settings off i m x es) (hn : x.nread ≤ 2 * n)
    (hb : b → x.nread + 1 ≤ 2 * n) :
    EndTogether (After settings off (i + 1)) (Stopped settings off) (k.run settings i x)
      (k.read (off + i) m n es) := by
  induction k generalizing m ph b n x es with
  | next c =>
    exact ⟨rfl, hk.1, ⟨m, hk.2.1, h.next.set c⟩, hn, fun _ hline => hb (hcounts hline)⟩
  | error c e => exact ⟨rfl, rfl, hk, _, h.events⟩
  | leave c =>
    obtain ⟨herrno, rfl, hup⟩ := hk
    have hevents := h.events
    rw [pending, List.filter_nil, List.append_nil] at hevents
    exact ⟨(Nat.add_assoc off i 1).symm, rfl, herrno, hup, hevents⟩
  | mark f k ih =>
    refine ih hk.2.2 hcounts (h.mark hk.1) ?_ ?_
    · rw [Execution.nread_set_mark]
      exact hn
    · rw [Execution.nread_set_mark]
      exact hb
  | reset_nread k ih => exact ih hk hcounts ⟨h.marks, h.le, h.events⟩ (Nat.zero_le _) nofun
  | callback_data f len er c k ih =>
    obtain ⟨hm, hlen, -, hk⟩ := hk
    obtain ⟨x', hx', h'⟩ := (h.set c).callback_data hresult hm hlen
    have hkeeps := (x.set c).callback_data_keeps settings f (i + len) (i + er)
    rw [Script.run, hx']
    rw [hx'] at hkeeps
    refine ih hk hcounts h' ?_ ?_
    · rw [hkeeps.2]
      exact hn
    · rw [hkeeps.2]
      exact hb
  | callback_notify a er c k ih =>
    obtain ⟨rfl, hk⟩ := hk
    obtain ⟨x', hx', h'⟩ := (h.set c).notify hresult
    have hkeeps := (x.set c).callback_notify_keeps settings a (i + er)
    rw [Script.run, hx']
    rw [hx'] at hkeeps
    refine ih hk hcounts h' ?_ ?_
    · rw [hkeeps.2]
      exact hn
    · rw [hkeeps.2]
      exact hb
  | headers_complete c k ih =>
    obtain ⟨rfl, hk⟩ := hk
    obtain ⟨x', hx', h'⟩ := (h.set c).headers_complete hresult
    have hkeeps := (x.set c).headers_complete_keeps settings i
    rw [Script.run, hx']
    rw [hx'] at hkeeps
    refine ih false (hk false) (hcounts false) h' ?_ ?_
    · rw [hkeeps.2]
      exact hn
    · rw [hkeeps.2]
      exact hb

/-- In the states of a body a byte is read alike whether the mark is set or not. -/
theorem read_of_holds_body {c : parser_core} (hs : c.state.holds_body) (ch : UInt8) (pos n : ℕ) :
    (one_byte c ch).read pos (some .body) n es =
      (one_byte c ch).read pos (open_field c.state) n es := by
  rcases hstate : c.state
  all_goals
    rw [hstate] at hs
    try exact absurd hs Bool.false_ne_true
  all_goals simp only [one_byte, single, hstate]
  case s_chunk_data_almost_done =>
    unfold s_chunk_data_almost_done Script.strict_check
    split_ifs
    · rfl
    · rfl
  all_goals rfl

/-- Whether the mark of a body is set does not matter to what its bytes are read as. -/
theorem read_of_marked {c : parser_core} (hm : Marked m c.state) (ch : UInt8) (pos n : ℕ) :
    (one_byte c ch).read pos m n es = (one_byte c ch).read pos (open_field c.state) n es := by
  rcases hm with rfl | ⟨rfl, hs⟩
  · rfl
  · exact read_of_holds_body hs ch pos n

/-- A byte is counted once on either side. -/
theorem count_twice {s : state} {n k : ℕ} (h : n ≤ 2 * k) :
    s.count n ≤ 2 * s.count k ∧ (s.parsing_header → s.count n + 1 ≤ 2 * s.count k) := by
  unfold state.count
  split_ifs with hs
  · exact ⟨by omega, fun _ => by omega⟩
  · exact ⟨h, fun hs' => absurd hs' hs⟩

/-- One byte of the plain reading is one byte of the stream. -/
theorem body_read (hresult : ∀ calls, settings.result calls = 0) (ch : UInt8) {r : ParserReport}
    (h : After settings off i x r) :
    EndTogether (After settings off (i + 1)) (Stopped settings off)
      (bytewise.body settings i ch x) (read_byte (off + i) ch r) := by
  obtain ⟨hparser, herrno, ⟨m, hm, hfollows⟩, hnread, -⟩ := h
  obtain ⟨hn, hb⟩ := count_twice (s := x.parser.state) hnread
  rw [bytewise.body, read_byte, ← hparser]
  rw [← hparser] at hm herrno
  rw [← read_of_marked hm]
  exact run_read (x := x.count) hresult (one_byte_sound herrno hm ch)
    (one_byte_counts x.parser ch) ⟨hfollows.marks, hfollows.le, hfollows.events⟩ hn hb

/-- **The plain reading follows the events**, over any number of bytes. -/
theorem each_read (hresult : ∀ calls, settings.result calls = 0) (data : Bytes) {r : ParserReport}
    (h : After settings off 0 x r) :
    EndTogether (After settings off data.length) (Stopped settings off)
      (bytewise.loop settings 0 data x) (read_bytes off data r) := by
  have hstep : ∀ k ch s t, After settings off k s t →
      EndTogether (After settings off (k + 1)) (Stopped settings off)
        (bytewise.body settings (0 + k) ch s) (read_byte (off + k) ch t) := by
    intro k ch s t hst
    rw [Nat.zero_add]
    exact body_read hresult ch hst
  have hloop : EndTogether (After settings off (0 + data.length)) (Stopped settings off)
      (bytewise.loop settings (0 + 0) data x) (read_bytes (off + 0) data r) :=
    each_endTogether_from hstep h
  rwa [Nat.zero_add] at hloop

/-- What the callbacks behind the loop do with the mark of one field. -/
theorem Follows.flush (hresult : ∀ calls, settings.result calls = 0)
    (h : Follows settings off i m x es) (f : http_data) :
    ∃ x', x.callback_data settings f i i = .ok x' ∧
      Follows settings off i (if m = some f then none else m) x' es := by
  split_ifs with hm
  · subst hm
    exact h.report hresult i
  · have hnone : x.marks f = none := by
      by_contra hsome
      exact hm ((h.marks f).mp (Option.isSome_iff_ne_none.mpr hsome))
    refine ⟨x, ?_, h⟩
    unfold Execution.callback_data
    rw [hnone]

/-- The callbacks behind the loop report what is left. -/
theorem Follows.leftover {data : Bytes} (hresult : ∀ calls, settings.result calls = 0)
    (h : Follows settings off data.length m x es) :
    ∃ x', leftover settings data x = .ok x' ∧ x'.parser = x.parser ∧ x'.nread = x.nread ∧
      x'.calls.flatMap (ParserCall.events off) = es.filter settings.hears := by
  obtain ⟨x₁, h₁, hf₁⟩ := h.flush hresult .header_field
  obtain ⟨x₂, h₂, hf₂⟩ := hf₁.flush hresult .header_value
  obtain ⟨x₃, h₃, hf₃⟩ := hf₂.flush hresult .url
  obtain ⟨x₄, h₄, hf₄⟩ := hf₃.flush hresult .body
  obtain ⟨x₅, h₅, hf₅⟩ := hf₄.flush hresult .status
  have hleft : http_parser_execute.leftover settings data x = .ok x₅ := by
    unfold http_parser_execute.leftover
    rw [h₁]
    show (x₁.callback_data settings .header_value data.length data.length >>= _) = _
    rw [h₂]
    show (x₂.callback_data settings .url data.length data.length >>= _) = _
    rw [h₃]
    show (x₃.callback_data settings .body data.length data.length >>= _) = _
    rw [h₄]
    exact h₅
  have hkeeps := x.leftover_keeps settings data
  rw [hleft] at hkeeps
  refine ⟨x₅, hleft, hkeeps.1, hkeeps.2, ?_⟩
  -- every field has been closed
  have hevents := hf₅.events
  rcases m with _ | f
  · simpa [pending] using hevents
  · rcases f <;> simpa [pending] using hevents

/-- Where a call begins, nothing is waiting to be reported. -/
theorem start_after (settings : http_parser_settings) (off : ℕ) {parser : http_parser_struct}
    {n : ℕ} (herrno : parser.http_errno = .HPE_OK) (hn : parser.nread ≤ 2 * n) :
    After settings off 0 (start parser) ⟨parser.toparser_core, n, []⟩ := by
  refine ⟨rfl, herrno, ⟨open_field parser.state, Or.inl rfl, fun f => ?_, fun f k hk => ?_, ?_⟩,
    hn, nofun⟩
  · unfold start
    dsimp only
    split_ifs with hf
    · simp [hf]
    · simp [hf]
  · unfold start at hk
    dsimp only at hk
    split_ifs at hk
    · exact (Option.some.inj hk).symm.le
  · unfold start pending
    rcases open_field parser.state <;> simp

end Reads

/-! ## Headers that are short enough -/

/-- At no point of the reading has half the number of bytes been counted that there may be in a
header. A name or a value that arrives byte by byte is counted twice. -/
def Short (off : ℕ) (r : ParserReport) (data : Bytes) : Prop :=
  ∀ k r', read_bytes off (data.take k) r = .ok r' → 2 * r'.nread < HTTP_MAX_HEADER_SIZE

section Short

variable {settings : http_parser_settings} {off n : ℕ} {r q : ParserReport} {data data' : Bytes}

/-- It is enough to look at the bytes there are. -/
theorem Short.of_take
    (h : ∀ k ≤ data.length, ((read_bytes off (data.take k) r).toOption.all
      fun r' => 2 * r'.nread < HTTP_MAX_HEADER_SIZE) = true) : Short off r data := by
  intro k r' hread
  by_cases hk : k ≤ data.length
  · have hshort := h k hk
    rw [hread] at hshort
    exact of_decide_eq_true hshort
  · have hshort := h data.length (le_refl _)
    rw [List.take_length, ← List.take_of_length_le (not_le.mp hk).le, hread] at hshort
    exact of_decide_eq_true hshort

theorem Short.nread (h : Short off r data) : 2 * r.nread < HTTP_MAX_HEADER_SIZE :=
  h 0 r rfl

/-- The first part of a stream. -/
theorem Short.left (h : Short off r (data ++ data')) : Short off r data := by
  intro k r' hread
  by_cases hk : k ≤ data.length
  · refine h k r' ?_
    rwa [List.take_append_of_le_length hk]
  · refine h data.length r' ?_
    rw [List.take_of_length_le (by omega)] at hread
    rwa [List.take_left]

/-- The part behind it. -/
theorem Short.right (h : Short off r (data ++ data')) (hread : read_bytes off data r = .ok q) :
    Short (off + data.length) q data' := by
  intro k r' hrest
  refine h (data.length + k) r' ?_
  rw [List.take_length_add_append, read_bytes, each_append]
  rw [read_bytes] at hread
  rw [hread]
  exact hrest

/-- The plain reading does not come to the limit. -/
theorem Short.not_tooLong (hresult : ∀ calls, settings.result calls = 0)
    {parser : http_parser_struct} (herrno : parser.http_errno = .HPE_OK)
    (hn : parser.nread ≤ 2 * n) (h : Short off ⟨parser.toparser_core, n, []⟩ data) :
    ¬ TooLong settings data 0 (start parser) := by
  rintro ⟨k, y', heach, hlong⟩
  rw [List.drop_zero] at heach
  have hread := each_read hresult (data.take k) (start_after settings off herrno hn)
  rw [bytewise.loop, heach] at hread
  rcases hr : read_bytes off (data.take k) ⟨parser.toparser_core, n, []⟩ with s | r'
  · rw [hr] at hread
    exact hread
  · rw [hr] at hread
    have hshort := h k r' hr
    have hnread := hread.nread
    omega

end Short

/-! ## The function -/

/-- What has come of a call whose data begins at `off` in the stream, `len` bytes long, and
of the reading of these bytes. -/
def Executed (settings : http_parser_settings) (off len : ℕ)
    (r : ℕ × http_parser_struct × List ParserCall) : Except Stop ParserReport → Prop
  | .ok q => r.1 = len ∧ r.2.1.toparser_core = q.parser ∧ q.parser.http_errno = .HPE_OK ∧
    r.2.2.flatMap (ParserCall.events off) = q.events.filter settings.hears ∧
    r.2.1.nread ≤ 2 * q.nread
  | .error (.left pos q) => off + r.1 = pos ∧ r.2.1.toparser_core = q.parser ∧
    q.parser.http_errno = .HPE_OK ∧ q.parser.upgrade ∧
    r.2.2.flatMap (ParserCall.events off) = q.events.filter settings.hears
  | .error (.failed pos q) => off + r.1 = pos ∧ r.2.1.toparser_core = q.parser ∧
    q.parser.http_errno ≠ .HPE_OK ∧
    r.2.2.flatMap (ParserCall.events off) <+: q.events.filter settings.hears

section Function

variable {settings : http_parser_settings} {n : ℕ}

/-- The plain reading, with the callbacks behind the loop. -/
theorem bytewise_read (hresult : ∀ calls, settings.result calls = 0) (off : ℕ)
    {parser : http_parser_struct} {data : Bytes} (herrno : parser.http_errno = .HPE_OK)
    (hn : parser.nread ≤ 2 * n) (hdata : data ≠ []) :
    EndTogether (fun x r => x.parser = r.parser ∧ r.parser.http_errno = .HPE_OK ∧
        x.calls.flatMap (ParserCall.events off) = r.events.filter settings.hears ∧
        x.nread ≤ 2 * r.nread ∧ (x.parser.state.in_line → x.nread + 1 ≤ 2 * r.nread))
      (Stopped settings off)
      (bytewise.loop settings 0 data (start parser) >>= leftover settings data)
      (read_bytes off data ⟨parser.toparser_core, n, []⟩) := by
  refine (each_read hresult data (start_after settings off herrno hn)).bind_left ?_
  rintro x r ⟨hparser, herrno, ⟨m, -, hfollows⟩, hnread, hline⟩
  obtain ⟨x', hx', hparser', hnread', hevents⟩ := hfollows.leftover hresult
  rw [hx']
  refine ⟨hparser'.trans hparser, herrno, hevents, ?_, fun hs => ?_⟩
  · rw [hnread']
    exact hnread
  · rw [hparser', hparser] at hs
    rw [hnread']
    exact hline (List.length_pos_iff.mpr hdata) hs

/-- **A call reports the events of its bytes**, for callbacks that return 0 and headers that
are not too long. It has counted at most twice as many bytes of a header as there are. -/
theorem execute_read (hresult : ∀ calls, settings.result calls = 0) (off : ℕ)
    {parser : http_parser_struct} {data : Bytes} (hp : Asserts parser.toparser_core)
    (herrno : parser.http_errno = .HPE_OK) (hdata : data ≠ []) (hlen : data.length < 2 ^ 31)
    (hn : parser.nread ≤ 2 * n) (hshort : Short off ⟨parser.toparser_core, n, []⟩ data) :
    Executed settings off data.length (http_parser_execute settings parser data)
      (read_bytes off data ⟨parser.toparser_core, n, []⟩) := by
  have hmax : HTTP_MAX_HEADER_SIZE < 2 ^ 30 := by decide
  have hnread := hshort.nread
  dsimp only at hnread
  have hblocks := @start_bytewise settings data parser hp (by omega)
  have hbytes := bytewise_read hresult off herrno hn hdata
  unfold http_parser_execute
  rw [if_neg (not_not_intro herrno)]
  dsimp only
  rw [if_neg hdata]
  obtain ⟨e, -, hover, -⟩ | hblocks := hblocks
  · exact absurd hover (hshort.not_tooLong hresult herrno hn)
  · revert hbytes hblocks
    generalize loop settings data data.length 0 (start parser) >>= leftover settings data = a
    generalize bytewise.loop settings 0 data (start parser) >>= leftover settings data = b
    generalize read_bytes off data ⟨parser.toparser_core, n, []⟩ = q
    intro hbytes hblocks
    rcases a with ⟨ret, x⟩ | x
    · rcases b with ⟨ret', y⟩ | y
      · obtain ⟨rfl, m, rfl⟩ := hblocks
        rcases q with (⟨pos, q⟩ | ⟨pos, q⟩) | q
        · exact hbytes
        · exact hbytes
        · exact hbytes.elim
      · exact hblocks.elim
    · rcases b with ⟨ret', y⟩ | y
      · exact hblocks.elim
      · obtain ⟨⟨m, rfl, hm⟩, -⟩ := hblocks
        rcases q with s | q
        · exact hbytes.elim
        · obtain ⟨hparser, hok, hevents, hcount, hline⟩ := hbytes
          refine ⟨rfl, hparser, hok, hevents, ?_⟩
          dsimp only at hcount hline
          rcases hm with hm | ⟨hm, -, hs⟩
          · exact hm.trans hcount
          · exact hm.trans (hline hs)

end Function

/-! ## A stream in pieces -/

/-- Events reported before. -/
def ParserReport.behind (es : List ParserEvent) (r : ParserReport) : ParserReport :=
  { r with events := es ++ r.events }

def Stop.behind (es : List ParserEvent) : Stop → Stop
  | .failed pos r => .failed pos (r.behind es)
  | .left pos r => .left pos (r.behind es)

/-- What came of a reading, with events reported before it. -/
def behind (es : List ParserEvent) : Except Stop ParserReport → Except Stop ParserReport
  | .ok r => .ok (r.behind es)
  | .error s => .error (s.behind es)

/-- What has been reported is not looked at. -/
theorem Script.read_behind (k : Script) (pos : ℕ) (m : Option http_data)
    (n : ℕ) (es es' : List ParserEvent) :
    k.read pos m n (es ++ es') = behind es (k.read pos m n es') := by
  induction k generalizing m n es' with
  | next c =>
    rw [Script.read, Script.read, List.append_assoc]
    rfl
  | error c e => rfl
  | leave c => rfl
  | mark f k ih => exact ih _ _ _
  | reset_nread k ih => exact ih _ _ _
  | callback_data f len er c k ih =>
    rw [Script.read, Script.read, List.append_assoc]
    exact ih _ _ _
  | callback_notify a er c k ih =>
    rw [Script.read, Script.read, List.append_assoc]
    exact ih _ _ _
  | headers_complete c k ih =>
    rw [Script.read, Script.read, List.append_assoc]
    exact ih _ _ _ _

/-- What has been reported so far is only put in front. -/
theorem read_bytes_behind (es : List ParserEvent) (data : Bytes) (pos : ℕ) (r : ParserReport) :
    read_bytes pos data (r.behind es) = behind es (read_bytes pos data r) := by
  unfold read_bytes
  induction data generalizing pos r with
  | nil => rfl
  | cons ch data ih =>
    have hbyte : read_byte pos ch (r.behind es) = behind es (read_byte pos ch r) :=
      Script.read_behind _ _ _ _ _ _
    rw [each, each, hbyte]
    rcases read_byte pos ch r with s | r'
    · rfl
    · exact ih (pos + 1) r'

/-- A stream is read piece by piece. -/
theorem read_bytes_append (pos : ℕ) (data data' : Bytes) (r : ParserReport) :
    read_bytes pos (data ++ data') r =
      read_bytes pos data r >>= read_bytes (pos + data.length) data' :=
  each_append _ _ _ _ _

/-- What every script keeps, the reading keeps. -/
theorem Script.read_ends {P : parser_core → Prop} {k : Script} (hk : k.All P) (pos : ℕ)
    (m : Option http_data) (n : ℕ) (es : List ParserEvent) :
    Loop.Ends (fun r => P r.parser) (fun _ => True) (k.read pos m n es) := by
  induction k generalizing m n es with
  | next c => exact hk
  | error c e => trivial
  | leave c => trivial
  | mark f k ih => exact ih hk _ _ _
  | reset_nread k ih => exact ih hk _ _ _
  | callback_data f len er c k ih => exact ih hk.2 _ _ _
  | callback_notify a er c k ih => exact ih hk.2 _ _ _
  | headers_complete c k ih => exact ih false (hk.2 false) _ _ _

/-- The reading keeps the assertions. -/
theorem read_bytes_asserts {pos : ℕ} {data : Bytes} {r r' : ParserReport} (hr : Asserts r.parser)
    (h : read_bytes pos data r = .ok r') : Asserts r'.parser := by
  have hends : Loop.Ends (fun r : ParserReport => Asserts r.parser) (fun _ => True)
      (each read_byte pos data r) := by
    refine each_ends (K := fun _ (r : ParserReport) => Asserts r.parser) (n := pos + data.length) ?_
      (le_refl _) hr
    exact fun i ch r _ hr => Script.read_ends (one_byte_asserts hr ch) _ _ _ _
  rw [read_bytes] at h
  rwa [h] at hends

/-- Calls for the pieces of a stream, one after the other, until one returns less than the
length of its piece or fails: where it stops, the parser, and the events. -/
def execute_all (settings : http_parser_settings) :
    ℕ → http_parser_struct → List Bytes → ℕ × http_parser_struct × List ParserEvent
  | off, parser, [] => (off, parser, [])
  | off, parser, data :: datas =>
    let (n, parser, calls) := http_parser_execute settings parser data
    let es := calls.flatMap (ParserCall.events off)
    if n ≠ data.length ∨ parser.http_errno ≠ .HPE_OK then (off + n, parser, es)
    else
      let (stop, parser, es') := execute_all settings (off + n) parser datas
      (stop, parser, es ++ es')

/-- What has come of the calls for the pieces of a stream, and of its reading. -/
def ExecutedAll (settings : http_parser_settings) (stop : ℕ)
    (r : ℕ × http_parser_struct × List ParserEvent) : Except Stop ParserReport → Prop
  | .ok q => r.1 = stop ∧ r.2.1.toparser_core = q.parser ∧ q.parser.http_errno = .HPE_OK ∧
    r.2.2 = q.events.filter settings.hears
  | .error (.left _ _) => True
  | .error (.failed pos q) => r.1 = pos ∧ r.2.1.toparser_core = q.parser ∧
    q.parser.http_errno ≠ .HPE_OK ∧ r.2.2 <+: q.events.filter settings.hears

section Pieces

variable {settings : http_parser_settings}

/-- A report is what there is behind its events. -/
theorem ParserReport.behind_events (q : ParserReport) :
    q = ParserReport.behind q.events ⟨q.parser, q.nread, []⟩ := by
  simp only [ParserReport.behind, List.append_nil]

theorem Short.of_behind {off : ℕ} {es : List ParserEvent} {r : ParserReport} {data : Bytes}
    (h : Short off (r.behind es) data) : Short off r data := by
  intro k r' hread
  refine h k (r'.behind es) ?_
  rw [read_bytes_behind, hread]
  rfl

/-- The induction is on the pieces; behind each, the parser has counted at most twice as many
bytes of a header as there are. -/
theorem execute_all_read (hresult : ∀ calls, settings.result calls = 0) (datas : List Bytes)
    (hdatas : ∀ data ∈ datas, data ≠ []) (hlen : ∀ data ∈ datas, data.length < 2 ^ 31) :
    ∀ (off n : ℕ) (parser : http_parser_struct), Asserts parser.toparser_core →
      parser.http_errno = .HPE_OK → parser.nread ≤ 2 * n →
      Short off ⟨parser.toparser_core, n, []⟩ datas.flatten →
      ExecutedAll settings (off + datas.flatten.length) (execute_all settings off parser datas)
        (read_bytes off datas.flatten ⟨parser.toparser_core, n, []⟩) := by
  induction datas with
  | nil => exact fun off n parser _ herrno _ _ => ⟨rfl, rfl, herrno, rfl⟩
  | cons data datas ih =>
    intro off n parser hp herrno hn hshort
    rw [List.flatten_cons] at hshort
    rw [List.flatten_cons, List.length_append, read_bytes_append]
    have hcall := execute_read hresult off hp herrno (hdatas data List.mem_cons_self)
      (hlen data List.mem_cons_self) hn hshort.left
    rcases hread : read_bytes off data ⟨parser.toparser_core, n, []⟩ with
      (⟨pos, q⟩ | ⟨pos, q⟩) | q
    · -- the error ends the calls
      rw [hread] at hcall
      obtain ⟨hstop, hparser, hfailed, hevents⟩ := hcall
      have herr : (http_parser_execute settings parser data).2.1.http_errno ≠ .HPE_OK := by
        rw [← hparser] at hfailed
        exact hfailed
      have hall : execute_all settings off parser (data :: datas) =
          (off + (http_parser_execute settings parser data).1,
            (http_parser_execute settings parser data).2.1,
            (http_parser_execute settings parser data).2.2.flatMap (ParserCall.events off)) := by
        rw [execute_all]
        dsimp only
        rw [if_pos (Or.inr herr)]
      rw [hall]
      exact ⟨hstop, hparser, hfailed, hevents⟩
    · trivial
    · rw [hread] at hcall
      obtain ⟨hdone, hparser, hok, hevents, hnread⟩ := hcall
      have hgo : (http_parser_execute settings parser data).2.1.http_errno = .HPE_OK := by
        rw [← hparser] at hok
        exact hok
      have hasserts : Asserts (http_parser_execute settings parser data).2.1.toparser_core := by
        rw [hparser]
        exact read_bytes_asserts hp hread
      have hrest := ih (fun d hd => hdatas d (List.mem_cons_of_mem _ hd))
        (fun d hd => hlen d (List.mem_cons_of_mem _ hd)) (off + data.length) q.nread
        (http_parser_execute settings parser data).2.1 hasserts hgo hnread (by
          rw [hparser]
          have hright := hshort.right hread
          rw [q.behind_events] at hright
          exact hright.of_behind)
      have hall : execute_all settings off parser (data :: datas) =
          ((execute_all settings (off + data.length)
              (http_parser_execute settings parser data).2.1 datas).1,
            (execute_all settings (off + data.length)
              (http_parser_execute settings parser data).2.1 datas).2.1,
            q.events.filter settings.hears ++ (execute_all settings (off + data.length)
              (http_parser_execute settings parser data).2.1 datas).2.2) := by
        rw [execute_all]
        dsimp only
        rw [if_neg (by rw [hdone]; simp [hgo]), hdone, hevents]
      have hbehind : read_bytes (off + data.length) datas.flatten q =
          behind q.events (read_bytes (off + data.length) datas.flatten
            ⟨(http_parser_execute settings parser data).2.1.toparser_core, q.nread, []⟩) := by
        rw [← read_bytes_behind, hparser, ← q.behind_events]
      rw [hall]
      show ExecutedAll _ _ _ (read_bytes (off + data.length) datas.flatten q)
      rw [hbehind, ← Nat.add_assoc]
      revert hrest
      generalize read_bytes (off + data.length) datas.flatten
        ⟨(http_parser_execute settings parser data).2.1.toparser_core, q.nread, []⟩ = q'
      intro hrest
      rcases q' with (⟨pos, q'⟩ | ⟨pos, q'⟩) | q'
      · obtain ⟨hstop, hparser', hfailed, hevents'⟩ := hrest
        refine ⟨hstop, hparser', hfailed, ?_⟩
        dsimp only [ParserReport.behind]
        rw [List.filter_append]
        exact (List.prefix_append_right_inj _).mpr hevents'
      · trivial
      · obtain ⟨hstop, hparser', hok', hevents'⟩ := hrest
        refine ⟨hstop, hparser', hok', ?_⟩
        dsimp only [ParserReport.behind]
        rw [List.filter_append, ← hevents']

/-- **A stream may be cut anywhere.** The calls for its pieces stop where one call for the
whole stream does, leave the same parser, and unless there is an error they report the same
bytes and the same notifications in the same order. -/
theorem execute_all_split (settings : http_parser_settings)
    (hresult : ∀ calls, settings.result calls = 0) (parser : http_parser_struct)
    (datas : List Bytes) (hp : Asserts parser.toparser_core) (herrno : parser.http_errno = .HPE_OK)
    (hne : datas ≠ []) (hdatas : ∀ data ∈ datas, data ≠ [])
    (hlen : datas.flatten.length < 2 ^ 31)
    (hshort : Short 0 ⟨parser.toparser_core, parser.nread, []⟩ datas.flatten)
    (hup : (http_parser_execute settings parser datas.flatten).2.1.upgrade = false) :
    (execute_all settings 0 parser datas).1 =
        (http_parser_execute settings parser datas.flatten).1 ∧
      (execute_all settings 0 parser datas).2.1.toparser_core =
        (http_parser_execute settings parser datas.flatten).2.1.toparser_core ∧
      ((http_parser_execute settings parser datas.flatten).2.1.http_errno = .HPE_OK →
        (execute_all settings 0 parser datas).2.2 =
          (http_parser_execute settings parser datas.flatten).2.2.flatMap
            (ParserCall.events 0)) := by
  have hn : parser.nread ≤ 2 * parser.nread := by omega
  have hpieces : ∀ data ∈ datas, data.length < 2 ^ 31 := fun data hdata => by
    have hsub := (List.sublist_flatten_of_mem hdata).length_le
    omega
  have hall := execute_all_read hresult datas hdatas hpieces 0 parser.nread parser hp herrno hn
    hshort
  have hflatten : datas.flatten ≠ [] := by
    obtain ⟨data, datas, rfl⟩ := List.exists_cons_of_ne_nil hne
    rw [List.flatten_cons]
    exact fun h => hdatas data List.mem_cons_self (List.append_eq_nil_iff.mp h).1
  have hone := execute_read hresult 0 hp herrno hflatten hlen hn hshort
  rcases hread : read_bytes 0 datas.flatten ⟨parser.toparser_core, parser.nread, []⟩
    with (⟨pos, q⟩ | ⟨pos, q⟩) | q
  · rw [hread] at hall hone
    obtain ⟨hstop, hparser, hfailed, -⟩ := hall
    obtain ⟨hstop', hparser', -, -⟩ := hone
    refine ⟨by omega, hparser.trans hparser'.symm, fun hok => absurd hok ?_⟩
    rw [← hparser'] at hfailed
    exact hfailed
  · -- another protocol
    rw [hread] at hone
    obtain ⟨-, hparser', -, hupgrade, -⟩ := hone
    rw [← hparser'] at hupgrade
    exact absurd (hup.symm.trans hupgrade) Bool.false_ne_true
  · rw [hread] at hall hone
    obtain ⟨hstop, hparser, -, hevents⟩ := hall
    obtain ⟨hdone, hparser', -, hevents', -⟩ := hone
    exact ⟨by omega, hparser.trans hparser'.symm, fun _ => hevents.trans hevents'.symm⟩

/-- A request with a body of three bytes, cut inside the name of its header field and inside the
body. -/
def post_pieces : List Bytes :=
  [bytes "POST / HTTP/1.1\r\nConte", bytes "nt-Length: 3\r\n\r\n[", bytes "1]"]

/-- Every callback is installed, and returns 0. -/
def every_callback : http_parser_settings := ⟨fun _ => true, fun _ => true, true, fun _ => 0⟩

/-- The three calls and the one call for such a request. What the parser makes of its bytes is
evaluated in the plain reading. -/
theorem execute_all_split_post :
    (execute_all every_callback 0 (http_parser_init .HTTP_REQUEST) post_pieces).1 =
      (http_parser_execute every_callback (http_parser_init .HTTP_REQUEST) post_pieces.flatten).1 ∧
    (execute_all every_callback 0 (http_parser_init .HTTP_REQUEST)
        post_pieces).2.1.toparser_core =
      (http_parser_execute every_callback (http_parser_init .HTTP_REQUEST)
        post_pieces.flatten).2.1.toparser_core ∧
    (execute_all every_callback 0 (http_parser_init .HTTP_REQUEST) post_pieces).2.2 =
      (http_parser_execute every_callback (http_parser_init .HTTP_REQUEST)
        post_pieces.flatten).2.2.flatMap (ParserCall.events 0) := by
  have hasserts : Asserts (http_parser_init .HTTP_REQUEST).toparser_core := ⟨by decide, trivial⟩
  have hshort : Short 0 ⟨(http_parser_init .HTTP_REQUEST).toparser_core, 0, []⟩
      post_pieces.flatten := Short.of_take (by decide +kernel)
  have hread : ((read_bytes 0 post_pieces.flatten
      ⟨(http_parser_init .HTTP_REQUEST).toparser_core, 0, []⟩).toOption.map
        fun q => (q.parser.upgrade, q.parser.http_errno)) = some (false, .HPE_OK) := by
    decide +kernel
  have hone := @execute_read every_callback 0 (fun _ => rfl) 0 _ _ hasserts rfl
    (by decide +kernel) (by decide +kernel) (le_refl 0) hshort
  rcases hq : read_bytes 0 post_pieces.flatten
    ⟨(http_parser_init .HTTP_REQUEST).toparser_core, 0, []⟩ with stop | q
  · rw [hq] at hread
    cases hread
  · rw [hq] at hread hone
    obtain ⟨-, hparser, -⟩ := hone
    obtain ⟨hup, hok⟩ := Prod.mk.inj (Option.some.inj hread)
    have hsplit := execute_all_split every_callback (fun _ => rfl)
      (http_parser_init .HTTP_REQUEST) post_pieces hasserts rfl (by decide) (by decide +kernel)
      (by decide +kernel) hshort ((congrArg parser_core.upgrade hparser).trans hup)
    exact ⟨hsplit.1, hsplit.2.1, hsplit.2.2 ((congrArg parser_core.http_errno hparser).trans hok)⟩

end Pieces

end MyWarehouse

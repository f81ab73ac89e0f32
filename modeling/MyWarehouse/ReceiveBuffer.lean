/-
What a session does with the bytes it receives.

Every read fills the buffer from `pos_` on and asks for all the room that is left, so
the buffer holds the stream up to `pos_` and the parser has been given exactly that
(`Received`). The session reads on until a message has completed or the buffer is full.
`process_` is looked at before `pos_`, so a message that completes with the last byte
that fits is answered; a buffer that is full without one is the end of the session
(`ClosesWhenFull`).
-/
import MyWarehouse.OneResponse

set_option autoImplicit false

namespace MyWarehouse

open http_session

variable {P : HttpParser} {W : Type}

/-! ## The stream and the parser -/

/-- The bytes an event delivers to the buffer. -/
def ConnectionEvent.bytes : ConnectionEvent W → Bytes
  | .session (.read _ bytes) => bytes
  | _ => []

/-- The bytes of all reads of a run. -/
def stream (es : List (ConnectionEvent W)) : Bytes := es.flatMap ConnectionEvent.bytes

/-- The parser after it was given the chunks one after the other, and how many messages
it has completed. -/
def HttpParser.fed (P : HttpParser) (chunks : List Bytes) : P.State × ℕ :=
  chunks.foldl (fun p bytes =>
    ((P.http_parser_execute p.1 bytes).1, p.2 + completed P p.1 bytes)) (P.http_parser_init, 0)

theorem stream_concat (es : List (ConnectionEvent W)) (e : ConnectionEvent W) :
    stream (es ++ [e]) = stream es ++ e.bytes := by
  rw [stream, List.flatMap_append, List.flatMap_singleton]
  rfl

theorem HttpParser.fed_concat (P : HttpParser) (chunks : List Bytes) (bytes : Bytes) :
    P.fed (chunks ++ [bytes]) = ((P.http_parser_execute (P.fed chunks).1 bytes).1,
      (P.fed chunks).2 + completed P (P.fed chunks).1 bytes) := by
  rw [HttpParser.fed, List.foldl_concat]
  rfl

/-! ## The invariant -/

/-- What a session has made of the reads of `es`.

* `pos_`, `reads`: at most one read is pending. It fills the buffer from `pos_` on, where
  the stream goes on, and there is room for a byte at least.
* `data_`: the buffer holds the stream up to `pos_`.
* `parser`: unless the handler threw, the parser was given the stream up to `pos_`, and
  `process_` says whether it has completed a message.
* `done`: a session that has completed a message reads no more. -/
structure Received (es : List (ConnectionEvent W)) (s : http_session P) : Prop where
  pos_ : s.pos_ ≤ max_length
  reads : s.reads = [] ∨ s.pos_ < max_length ∧ s.pos_ = (stream es).length ∧
    s.reads = [(s.pos_, max_length - s.pos_)]
  data_ : s.pos_ ≤ (stream es).length ∧ s.data_.take s.pos_ = (stream es).take s.pos_
  parser : s.threw = false → ∃ chunks, chunks.flatten = (stream es).take s.pos_ ∧
    s.parser_ = (P.fed chunks).1 ∧ (s.process_ = true ↔ 0 < (P.fed chunks).2)
  done : s.process_ = true → s.reads = []

/-- When the event is a successful read of a session that is still owned: an open
session is closed exactly when the buffer is full and no message has completed, and a
message that completes is handed to the handler. -/
def ClosesWhenFull (h : Handler W) (c : Connection P W) (e : ConnectionEvent W) : Prop :=
  ∀ bytes c', e = .session (.read 0 bytes) → c.session.owned = true →
    (connection h).step c e = some c' →
    (c.session.open_ = true →
      (c'.session.open_ = false ↔ c'.session.pos_ = max_length ∧ c'.session.process_ = false)) ∧
    (0 < completed P c.session.parser_ bytes →
      c.session.invoked.length < c'.session.invoked.length ∧
        c'.session.open_ = c.session.open_)

section Steps

variable {h : Handler W} {s s' : http_session P} {es : List (ConnectionEvent W)}

/-- What is known of a prefix of the stream is not changed by more bytes. -/
theorem take_stream {n : ℕ} (hn : n ≤ (stream es).length) (e : ConnectionEvent W) :
    (stream (es ++ [e])).take n = (stream es).take n := by
  rw [stream_concat]
  exact List.take_append_of_le_length hn

/-- While a read is pending no message has completed. -/
theorem Received.reading (hr : Received es s) {read : ℕ × ℕ} (hreads : s.reads = [read]) :
    s.process_ = false := by
  by_contra hprocess
  rw [hr.done (Bool.eq_true_of_not_eq_false hprocess)] at hreads
  cases hreads

/-- A step that leaves the parser and the position alone keeps what was received. -/
theorem Received.quiet (hr : Received es s) (hq : Quiet s s') {e : ConnectionEvent W}
    (he : e.bytes = [] ∨ s'.reads = []) : Received (es ++ [e]) s' := by
  obtain ⟨hlen, hdata⟩ := hr.data_
  refine ⟨?_, ?_, ⟨?_, ?_⟩, ?_, ?_⟩
  · rw [hq.pos_]
    exact hr.pos_
  · rcases he with he | he
    · rcases hq.reads with hreads | hreads
      · rw [hreads, hq.pos_, stream_concat, he, List.append_nil]
        exact hr.reads
      · exact Or.inl hreads
    · exact Or.inl he
  · rw [hq.pos_, stream_concat, List.length_append]
    omega
  · rw [hq.pos_, take_stream hlen, hq.data_, hdata]
  · intro hthrew
    rw [hq.threw] at hthrew
    rw [hq.parser_, hq.pos_, hq.process_, take_stream hlen]
    exact hr.parser hthrew
  · intro hprocess
    rw [hq.process_] at hprocess
    rcases hq.reads with hreads | hreads
    · exact hreads.trans (hr.done hprocess)
    · exact hreads

/-- The buffer after a read, up to the new position. -/
theorem take_read (hr : Received es s) (hb : s.Buffered) (hnow : s.pos_ = (stream es).length)
    (bytes : Bytes) :
    (store s.data_ s.pos_ bytes).take (s.pos_ + bytes.length) = stream es ++ bytes := by
  have hfits : s.pos_ ≤ s.data_.length := by
    have hpos := hb.pos
    rw [hb.length]
    exact hpos
  have hprefix : s.data_.take s.pos_ = stream es := by
    rw [hr.data_.2, hnow, List.take_length]
  have hlength : (stream es ++ bytes).length = s.pos_ + bytes.length := by
    rw [List.length_append, hnow]
  rw [store, hprefix, ← hlength, List.take_left]

/-- A step that is no successful read of an owned session delivers nothing, or leaves no
read pending. -/
theorem bytes_of_quiet {now : ℕ} {w w' : W} {e : SessionEvent} (hb : s.Buffered)
    (hstep : s.step h now w e = some (w', s'))
    (howned : ∀ bytes, e = .read 0 bytes → s.owned = false) :
    (ConnectionEvent.session e : ConnectionEvent W).bytes = [] ∨ s'.reads = [] := by
  cases (http_session.handled_of_step hstep).2 with
  | read ec bytes off size reads hreads hread hlock =>
    rcases hread with ⟨rfl, -, -⟩ | ⟨-, rfl⟩
    · rw [howned bytes rfl] at hlock
      cases hlock
    · exact Or.inl rfl
  | read_lost ec bytes off size reads hreads =>
    -- the read that is dropped was the only one
    right
    rcases hb.reads with hnone | hone
    · rw [hnone] at hreads
      cases hreads
    · rw [hone] at hreads
      cases hreads
      rfl
  | write_done | write_lost | timer | timer_aborted | timer_lost | release => exact Or.inl rfl

/-- The parser has been given the bytes of the read after all that came before, and
`process_` is set when a message has completed in them. -/
theorem Received.fed (hr : Received es s) (hthrew : s.threw = false)
    (hnow : s.pos_ = (stream es).length) (hreading : s.process_ = false) {bytes : Bytes}
    {written : List Bytes} (hwritten : written.length = completed P s.parser_ bytes) :
    ∃ chunks, chunks.flatten = stream es ++ bytes ∧
      (P.http_parser_execute s.parser_ bytes).1 = (P.fed chunks).1 ∧
      ((s.process_ || decide (0 < written.length)) = true ↔ 0 < (P.fed chunks).2) := by
  obtain ⟨chunks, hchunks, hstate, hended⟩ := hr.parser hthrew
  refine ⟨chunks ++ [bytes], ?_, ?_, ?_⟩
  · rw [List.flatten_append, hchunks, hnow, List.take_length, List.flatten_singleton]
  · rw [HttpParser.fed_concat, ← hstate]
  · rw [HttpParser.fed_concat, ← hstate, hreading, Bool.false_or, decide_eq_true_eq, hwritten]
    rw [hreading] at hended
    have hnone : (P.fed chunks).2 = 0 := by
      by_contra hsome
      exact Bool.false_ne_true (hended.mpr (Nat.pos_of_ne_zero hsome))
    omega

/-- **A successful read** of a session that is still owned. -/
theorem received_read {now : ℕ} {w w' : W} {bytes : Bytes} (hr : Received es s)
    (hb : s.Buffered) (hthrew : s.threw = false) (howned : s.owned = true)
    (hreads : s.reads = [(s.pos_, max_length - s.pos_)]) (hpos : 1 ≤ bytes.length)
    (hlen : bytes.length ≤ max_length - s.pos_)
    (hstep : s.step h now w (.read 0 bytes) = some (w', s')) :
    Received (es ++ [.session (.read 0 bytes)]) s' := by
  have hnow : s.pos_ = (stream es).length := by
    rcases hr.reads with hnone | ⟨-, hnow, -⟩
    · rw [hnone] at hreads
      cases hreads
    · exact hnow
  have hreading := hr.reading hreads
  have hstream : stream (es ++ [.session (.read 0 bytes)]) = stream es ++ bytes :=
    stream_concat es _
  have hstored := take_read hr hb hnow bytes
  obtain ⟨rq, r, inv, wr, threw, rfl, hn⟩ :=
    read_leaves hb hthrew howned hreads hpos hlen hstep
  rcases hn with ⟨rfl, hinv, hwr⟩ | ⟨rfl, -, -⟩
  · -- the position moves over the bytes of the read
    have hparser := hr.fed hthrew hnow hreading (hwr.trans hinv)
    have hlen' : s.pos_ + bytes.length ≤ max_length := by omega
    have hall : s.pos_ + bytes.length = (stream es ++ bytes).length := by
      rw [List.length_append, hnow]
    have htake : (stream es ++ bytes).take (s.pos_ + bytes.length) = stream es ++ bytes := by
      rw [hall, List.take_length]
    have hdata := hstored.trans htake.symm
    rw [← htake] at hparser
    rw [← hstream] at hall hdata hparser
    rcases advance_cases ((s.receive bytes).served rq r inv wr false) bytes.length with
      ⟨hprocess, heq⟩ | ⟨hprocess, -, heq⟩ | ⟨hprocess, hroom, heq⟩
    all_goals
      simp only [Bool.false_eq_true, if_false, heq]
    · exact ⟨hlen', Or.inl rfl, ⟨hall.le, hdata⟩, fun _ => hparser, fun _ => rfl⟩
    · exact ⟨hlen', Or.inl rfl, ⟨hall.le, hdata⟩, fun _ => hparser, fun _ => rfl⟩
    · -- only here is the next read issued
      refine ⟨hlen', Or.inr ⟨hroom, hall, rfl⟩, ⟨hall.le, hdata⟩, fun _ => hparser, ?_⟩
      intro hdone
      exact absurd (hdone.symm.trans hprocess) (by decide)
  · -- the handler threw: the position stays
    rw [if_pos rfl]
    have hfits : s.pos_ ≤ s.data_.length := by
      rw [hb.length]
      exact hb.pos
    refine ⟨hr.pos_, Or.inl rfl, ⟨?_, ?_⟩, fun hfalse => ?_, fun _ => rfl⟩
    · show s.pos_ ≤ _
      rw [hstream, List.length_append]
      omega
    · show (store s.data_ s.pos_ bytes).take s.pos_ = _
      rw [take_store bytes hfits (le_refl _), hr.data_.2]
      exact (take_stream hr.data_.1 _).symm
    · cases hfalse

theorem received_step {c c' : Connection P W} {e : ConnectionEvent W}
    (hr : Received es c.session) (hb : c.session.Buffered)
    (hstep : (connection h).step c e = some c') : Received (es ++ [e]) c'.session := by
  obtain ⟨helse, hsame⟩ | ⟨e, w', s', rfl, hsession, rfl⟩ := connection_cases hstep
  · have hbytes : e.bytes = [] := by
      rcases helse with ⟨d, rfl⟩ | ⟨w, rfl⟩
      · rfl
      · rfl
    have hstream : stream (es ++ [e]) = stream es := by
      rw [stream_concat, hbytes, List.append_nil]
    rw [hsame]
    refine ⟨hr.pos_, ?_, ?_, ?_, hr.done⟩
    all_goals rw [hstream]
    · exact hr.reads
    · exact hr.data_
    · exact hr.parser
  obtain ⟨hthrew, ⟨bytes, rfl, howned, hreads, hpos, hlen⟩ | ⟨-, hq, hlost⟩⟩ :=
    step_cases hb hsession
  · exact received_read hr hb hthrew howned hreads hpos hlen hsession
  · exact hr.quiet hq (bytes_of_quiet hb hsession hlost)

/-- Every successful read closes the session when it must, and only then. -/
theorem closesWhenFull {c : Connection P W} {e : ConnectionEvent W} (hb : c.session.Buffered)
    (hr : Received es c.session) : ClosesWhenFull h c e := by
  rintro bytes c' rfl howned hstep
  obtain ⟨hthrew, hreads, hpos, hlen, w', hsession⟩ := read_of_connection hb howned hstep
  have hreading := hr.reading hreads
  obtain ⟨rq, r, inv, wr, threw, hs', hn⟩ :=
    read_leaves hb hthrew howned hreads hpos hlen hsession
  rw [hs']
  have hroom : c.session.pos_ < max_length := by omega
  rcases hn with ⟨rfl, hinv, hwr⟩ | ⟨rfl, -, hinv⟩
  · -- `process_` is set exactly when a message has completed in this read
    have hended : ((c.session.receive bytes).served rq r inv wr false).process_ = true
        ↔ 0 < completed P c.session.parser_ bytes := by
      have hcompleted : wr.length = completed P c.session.parser_ bytes := hwr.trans hinv
      show (c.session.process_ || decide (0 < wr.length)) = true ↔ _
      rw [hreading, Bool.false_or, decide_eq_true_eq, hcompleted]
    rcases advance_cases ((c.session.receive bytes).served rq r inv wr false) bytes.length with
      ⟨hprocess, heq⟩ | ⟨hprocess, hfull, heq⟩ | ⟨hprocess, hmore, heq⟩
    all_goals
      simp only [Bool.false_eq_true, if_false, heq]
    · refine ⟨fun hopen => ⟨fun hclosed => ?_, fun hfull => ?_⟩, fun hcompleted => ⟨?_, rfl⟩⟩
      · exact absurd (hopen.symm.trans hclosed) (by decide)
      · exact absurd (hprocess.symm.trans hfull.2) (by decide)
      · show c.session.invoked.length < (c.session.invoked ++ inv).length
        rw [List.length_append, hinv]
        exact Nat.lt_add_of_pos_right hcompleted
    · have hfull : max_length ≤ c.session.pos_ + bytes.length := hfull
      refine ⟨fun _ => ⟨fun _ => ⟨?_, hprocess⟩, fun _ => rfl⟩, fun hcompleted => ?_⟩
      · show c.session.pos_ + bytes.length = max_length
        omega
      · exact absurd ((hended.mpr hcompleted).symm.trans hprocess) (by decide)
    · have hmore : c.session.pos_ + bytes.length < max_length := hmore
      refine ⟨fun hopen => ⟨fun hclosed => ?_, fun hfull => ?_⟩, fun hcompleted => ?_⟩
      · exact absurd (hopen.symm.trans hclosed) (by decide)
      · have hfull : c.session.pos_ + bytes.length = max_length := hfull.1
        omega
      · exact absurd ((hended.mpr hcompleted).symm.trans hprocess) (by decide)
  · -- the handler threw: the session is neither closed nor read on
    rw [if_pos rfl]
    refine ⟨fun hopen => ⟨fun hclosed => ?_, fun hfull => ?_⟩, fun _ => ⟨?_, rfl⟩⟩
    · exact absurd (hopen.symm.trans hclosed) (by decide)
    · have hfull : c.session.pos_ = max_length := hfull.1
      omega
    · show c.session.invoked.length < (c.session.invoked ++ inv).length
      rw [List.length_append]
      omega

end Steps

/-- **The receive buffer.** In every run of a connection from `start` on, for any
parser, handler and surroundings and any reads: the buffer and the parser hold the
stream as `Received` says, and every successful read closes the session exactly when
the buffer is full and no message has completed. -/
theorem receives_in_order (h : Handler W) (t₀ now : ℕ) (data_ : Bytes)
    (hdata : data_.length = max_length) (w : W) (es : List (ConnectionEvent W))
    (c : Connection P W)
    (hrun : (connection h).run (Connection.start P t₀ now data_ w) es = some c) :
    Received es c.session ∧
      (connection h).Along (ClosesWhenFull h) (Connection.start P t₀ now data_ w) es := by
  have hstart : Received ([] : List (ConnectionEvent W))
      (Connection.start P t₀ now data_ w).session := by
    refine ⟨Nat.zero_le _, Or.inr ⟨(by decide : 0 < max_length), rfl, rfl⟩, ⟨le_refl 0, rfl⟩,
      fun _ => ⟨[], rfl, rfl, ?_⟩, fun hprocess => ?_⟩
    · exact ⟨fun hfalse => absurd hfalse Bool.false_ne_true,
        fun hlt => absurd hlt (Nat.lt_irrefl 0)⟩
    · exact absurd hprocess Bool.false_ne_true
  have hbuffered : (Connection.start P t₀ now data_ w).session.Buffered :=
    ⟨hdata, Nat.zero_le _, Or.inr rfl⟩
  refine ⟨?_, ?_⟩
  · have hall := Transition.invariant_history
      (P := fun es (c : Connection P W) => Received es c.session ∧ c.session.Buffered)
      (fun _ _ _ _ hc hstep => ⟨received_step hc.1 hc.2 hstep, buffered_step hc.2 hstep⟩)
      ⟨hstart, hbuffered⟩ hrun
    exact hall.1
  · -- what a read does depends on what was received, not on how it came
    apply Transition.along_of_invariant
      (P := fun c : Connection P W => ∃ es, Received es c.session ∧ c.session.Buffered)
    · rintro c e c' ⟨es, hr, hb⟩ hstep
      exact ⟨es ++ [e], received_step hr hb hstep, buffered_step hb hstep⟩
    · rintro c e c' ⟨es, hr, hb⟩ -
      exact closesWhenFull hb hr
    · exact ⟨[], hstart, hbuffered⟩

/-- A request in two reads, the second of which completes it. -/
theorem receives_in_two_reads :
    ∃ c, (connection still).run
        (Connection.start (.expecting two_gets) 0 0 (List.replicate 2048 0) ())
        [.session (.read 0 (bytes "GET / HT")), .session (.read 0 (bytes "TP/1.1\r\n\r\n"))]
          = some c ∧
      Received ([.session (.read 0 (bytes "GET / HT")),
        .session (.read 0 (bytes "TP/1.1\r\n\r\n"))] : List (ConnectionEvent Unit)) c.session ∧
      (connection still).Along (ClosesWhenFull still)
        (Connection.start (.expecting two_gets) 0 0 (List.replicate 2048 0) ())
        [.session (.read 0 (bytes "GET / HT")), .session (.read 0 (bytes "TP/1.1\r\n\r\n"))] :=
  ⟨_, rfl, receives_in_order still 0 0 (List.replicate 2048 0) List.length_replicate ()
    [.session (.read 0 (bytes "GET / HT")), .session (.read 0 (bytes "TP/1.1\r\n\r\n"))] _ rfl⟩

end MyWarehouse

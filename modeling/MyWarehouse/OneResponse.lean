/-
How many responses a connection carries.

`process_` is set by the callback that ends a message and read after
`http_parser_execute` has consumed the whole read. A read in which two messages end
calls the handler twice and starts a second `async_write` while the first is
pending; once a message has ended no further read is started. So a connection
carries one response exactly when no read completes two messages.
-/
import MyWarehouse.HttpMessage

set_option autoImplicit false

namespace MyWarehouse

open http_session

variable {P : HttpParser} {W : Type}

/-- The handler was called at most once, at most one response was written, and no
write is pending beside another. -/
structure OneResponse (s : http_session P) : Prop where
  invoked : s.invoked.length ≤ 1
  written : s.written.length ≤ 1
  writes : s.writes ≤ 1

instance (s : http_session P) : Decidable (OneResponse s) :=
  decidable_of_iff (s.invoked.length ≤ 1 ∧ s.written.length ≤ 1 ∧ s.writes ≤ 1)
    ⟨fun h => ⟨h.1, h.2.1, h.2.2⟩, fun h => ⟨h.1, h.2, h.3⟩⟩

/-- The number of messages the parser completes in the bytes of a read. -/
def completed (P : HttpParser) (parser_ : P.State) (bytes : Bytes) : ℕ :=
  (P.http_parser_execute parser_ bytes).2.count .on_message_complete

/-- When the event is a successful read of a session that is still owned, at most one
message ends in it. -/
def EndsOne (c : Connection P W) : ConnectionEvent W → Prop
  | .session (.read ec bytes) =>
    ec = 0 ∧ c.session.owned = true → completed P c.session.parser_ bytes ≤ 1
  | _ => True

instance (c : Connection P W) (e : ConnectionEvent W) : Decidable (EndsOne c e) := by
  unfold EndsOne
  split
  · infer_instance
  · exact isTrue trivial

/-- The invariant: before the first message has ended nothing was answered, and
afterwards no read is pending. A handler that threw leaves the first state behind. -/
structure Single (s : http_session P) : Prop where
  buffered : s.Buffered
  phase : s.process_ = false ∧ s.written = [] ∧ s.writes = 0 ∧ s.invoked.length ≤ 1 ∧
      (s.threw = false → s.invoked = []) ∨
    s.reads = [] ∧ s.invoked.length ≤ 1 ∧ s.written.length ≤ 1 ∧ s.writes ≤ 1

/-- Two calls of the handler, or an exception: what a read that ends two messages
leaves, for good. -/
def Overrun (s : http_session P) : Prop := s.threw = true ∨ 2 ≤ s.invoked.length

section Steps

variable {h : Handler W} {s : http_session P}

theorem oneResponse_of_single (hs : Single s) : OneResponse s := by
  rcases hs.phase with ⟨-, hwr, hw, hinv, -⟩ | ⟨-, hinv, hwr, hw⟩
  · exact ⟨hinv, by rw [hwr]; exact Nat.zero_le 1, by omega⟩
  · exact ⟨hinv, hwr, hw⟩

theorem Single.quiet {s' : http_session P} (hs : Single s) (hq : Quiet s s') : Single s' := by
  have hw := hq.writes
  refine ⟨hs.buffered.quiet hq, ?_⟩
  rw [hq.process_, hq.written, hq.invoked, hq.threw]
  rcases hs.phase with ⟨hp, hwr, hw0, hinv, hnone⟩ | ⟨hreads, hinv, hwr, hw1⟩
  · exact Or.inl ⟨hp, hwr, by omega, hinv, hnone⟩
  · refine Or.inr ⟨?_, hinv, hwr, by omega⟩
    rcases hq.reads with hr | hr
    · rw [hr, hreads]
    · exact hr

/-- What a successful read leaves: `inv` are the bodies the handler was called with
and `wr` the responses, one each, unless the last call threw. -/
structure Read (s s' : http_session P) (inv wr : List Bytes) : Prop where
  buffered : s'.Buffered
  invoked : s'.invoked = s.invoked ++ inv
  written : s'.written = s.written ++ wr
  writes : s'.writes = s.writes + wr.length
  process_ : s'.process_ = (s.process_ || decide (0 < wr.length))
  reads : s'.process_ = true ∨ s'.threw = true → s'.reads = []

theorem read_fields {now : ℕ} {w w' : W} {s' : http_session P} (hb : s.Buffered)
    {bytes : Bytes} (howned : s.owned = true) (hthrew : s.threw = false)
    (hreads : s.reads = [(s.pos_, max_length - s.pos_)]) (hpos : 1 ≤ bytes.length)
    (hlen : bytes.length ≤ max_length - s.pos_)
    (hstep : s.step h now w (.read 0 bytes) = some (w', s')) :
    ∃ inv wr, Read s s' inv wr ∧
      (s'.threw = false ∧ inv.length = completed P s.parser_ bytes ∧ wr.length = inv.length ∨
        s'.threw = true ∧ inv.length ≤ completed P s.parser_ bytes ∧
          inv.length = wr.length + 1) := by
  rw [read_step hb hthrew howned hreads hpos hlen] at hstep
  obtain ⟨w₁, rq, r, inv, wr, threw, heq, hn⟩ := callbacks_cases h s.pos_ w (s.receive bytes)
    hthrew (P.http_parser_execute s.parser_ bytes).2
  have hend := hb.pos
  have hstored : (store s.data_ s.pos_ bytes).length = max_length := by
    refine (length_store ?_).trans hb.length
    rw [hb.length]
    omega
  simp only [heq, Option.some.injEq] at hstep
  refine ⟨inv, wr, ?_⟩
  rcases hn with ⟨rfl, hn⟩ | ⟨rfl, hn⟩
  · -- every message was answered; the session reads on when there was none
    rw [if_neg (by simp [served])] at hstep
    obtain ⟨rfl, rfl⟩ := Prod.mk.inj hstep
    have hlen' : s.pos_ + bytes.length ≤ max_length := by omega
    rcases advance_cases ((s.receive bytes).served rq r inv wr false) bytes.length with
      ⟨-, heq⟩ | ⟨hp, -, heq⟩ | ⟨hp, -, heq⟩
    · rw [heq]
      exact ⟨⟨⟨hstored, hlen', Or.inl rfl⟩, rfl, rfl, rfl, rfl, fun _ => rfl⟩, Or.inl ⟨rfl, hn⟩⟩
    · rw [heq]
      exact ⟨⟨⟨hstored, hlen', Or.inl rfl⟩, rfl, rfl, rfl, rfl, fun _ => rfl⟩, Or.inl ⟨rfl, hn⟩⟩
    · rw [heq]
      refine ⟨⟨⟨hstored, hlen', Or.inr rfl⟩, rfl, rfl, rfl, rfl, ?_⟩, Or.inl ⟨rfl, hn⟩⟩
      rintro (hpt | hpt)
      · exact absurd (hpt.symm.trans hp) (by decide)
      · cases hpt
  · rw [if_pos (by simp [served])] at hstep
    obtain ⟨rfl, rfl⟩ := Prod.mk.inj hstep
    exact ⟨⟨⟨hstored, hend, Or.inl rfl⟩, rfl, rfl, rfl, rfl, fun _ => rfl⟩, Or.inr ⟨rfl, hn⟩⟩

/-- Every step leaves the buffer in order. -/
theorem buffered_step {c c' : Connection P W} {e : ConnectionEvent W}
    (hb : c.session.Buffered) (hstep : (connection h).step c e = some c') :
    c'.session.Buffered := by
  obtain ⟨-, hsame⟩ | ⟨e, w', s', rfl, hsession, rfl⟩ := connection_cases hstep
  · rw [hsame]
    exact hb
  obtain ⟨hthrew, ⟨bytes, rfl, howned, hreads, hpos, hlen⟩ | ⟨-, hq, -⟩⟩ :=
    step_cases hb hsession
  · obtain ⟨inv, wr, hread, -⟩ := read_fields hb howned hthrew hreads hpos hlen hsession
    exact hread.buffered
  · exact hb.quiet hq

/-- A read that ends at most one message keeps the invariant. One that ends none
leaves the session waiting for more; the first that ends one starts no further
read. -/
theorem single_step {c c' : Connection P W} {e : ConnectionEvent W} (hs : Single c.session)
    (he : EndsOne c e) (hstep : (connection h).step c e = some c') : Single c'.session := by
  obtain ⟨-, hsame⟩ | ⟨e, w', s', rfl, hsession, rfl⟩ := connection_cases hstep
  · rw [hsame]
    exact hs
  obtain ⟨hthrew, ⟨bytes, rfl, howned, hreads, hpos, hlen⟩ | ⟨-, hq, -⟩⟩ :=
    step_cases hs.buffered hsession
  swap
  · exact hs.quiet hq
  rcases hs.phase with ⟨hp, hwr, hw, -, hnone⟩ | ⟨hnil, -⟩
  swap
  · rw [hreads] at hnil
    cases hnil
  obtain ⟨inv, wr, hread, hn⟩ := read_fields hs.buffered howned hthrew hreads hpos hlen hsession
  have hone : completed P c.session.parser_ bytes ≤ 1 := he ⟨rfl, howned⟩
  have hinv : s'.invoked = inv := by rw [hread.invoked, hnone hthrew, List.nil_append]
  have hwr' : s'.written = wr := by rw [hread.written, hwr, List.nil_append]
  have hw' : s'.writes = wr.length := by rw [hread.writes, hw, Nat.zero_add]
  refine ⟨hread.buffered, ?_⟩
  rw [hinv, hwr', hw']
  rcases hn with ⟨hthrew', hn, hwn⟩ | ⟨hthrew', hn, hwn⟩
  · rcases Nat.eq_zero_or_pos wr.length with h0 | hwpos
    · left
      refine ⟨?_, List.eq_nil_of_length_eq_zero h0, h0, by omega, fun _ => ?_⟩
      · rw [hread.process_, hp, h0]
        rfl
      · exact List.eq_nil_of_length_eq_zero (by omega)
    · right
      have hp' : s'.process_ = true := by
        rw [hread.process_, decide_eq_true hwpos, Bool.or_true]
      exact ⟨hread.reads (Or.inl hp'), by omega, by omega, by omega⟩
  · exact Or.inr ⟨hread.reads (Or.inr hthrew'), by omega, by omega, by omega⟩

/-- A read that ends two messages overruns the connection, if the handler returned. -/
theorem overrun_of_not_endsOne {c c' : Connection P W} {e : ConnectionEvent W}
    (hs : Single c.session) (he : ¬ EndsOne c e)
    (hstep : (connection h).step c e = some c') : Overrun c'.session := by
  obtain ⟨⟨d, rfl⟩ | ⟨w, rfl⟩, -⟩ | ⟨e, w', s', rfl, hsession, rfl⟩ := connection_cases hstep
  · exact absurd trivial he
  · exact absurd trivial he
  obtain ⟨hthrew, ⟨bytes, rfl, howned, hreads, hpos, hlen⟩ | ⟨-, -, hnot⟩⟩ :=
    step_cases hs.buffered hsession
  · obtain ⟨inv, wr, hread, hn⟩ := read_fields hs.buffered howned hthrew hreads hpos hlen hsession
    simp only [EndsOne, true_and, not_forall, not_le] at he
    obtain ⟨-, htwo⟩ := he
    rcases hn with ⟨-, hn, -⟩ | ⟨hthrew', -⟩
    · right
      show 2 ≤ s'.invoked.length
      rw [hread.invoked, List.length_append]
      omega
    · exact Or.inl hthrew'
  · exfalso
    rcases e with ⟨ec, bytes⟩ | _ | _ | _
    · refine he fun hcond => ?_
      have hfalse := hnot bytes (by rw [hcond.1])
      rw [hcond.2] at hfalse
      cases hfalse
    · exact he trivial
    · exact he trivial
    · exact he trivial

/-- An overrun connection stays so: nothing takes back a call. -/
theorem overrun_step {c c' : Connection P W} {e : ConnectionEvent W}
    (hb : c.session.Buffered) (ho : Overrun c.session)
    (hstep : (connection h).step c e = some c') : Overrun c'.session := by
  obtain ⟨-, hsame⟩ | ⟨e, w', s', rfl, hsession, rfl⟩ := connection_cases hstep
  · rw [hsame]
    exact ho
  obtain ⟨hthrew, ⟨bytes, rfl, howned, hreads, hpos, hlen⟩ | ⟨-, hq, -⟩⟩ :=
    step_cases hb hsession
  · obtain ⟨inv, wr, hread, -⟩ := read_fields hb howned hthrew hreads hpos hlen hsession
    rcases ho with ho | ho
    · rw [hthrew] at ho
      cases ho
    · right
      show 2 ≤ s'.invoked.length
      rw [hread.invoked, List.length_append]
      omega
  · unfold Overrun
    rw [hq.threw, hq.invoked]
    exact ho

/-- A write is pending only after a message has completed, and then no read is. -/
structure Replying (s : http_session P) : Prop where
  buffered : s.Buffered
  writes : 0 < s.writes → s.process_ = true
  reads : s.process_ = true → s.reads = []

theorem replying_step {c c' : Connection P W} {e : ConnectionEvent W} (hs : Replying c.session)
    (hstep : (connection h).step c e = some c') : Replying c'.session := by
  obtain ⟨-, hsame⟩ | ⟨e, w', s', rfl, hsession, rfl⟩ := connection_cases hstep
  · rw [hsame]
    exact hs
  show Replying s'
  obtain ⟨hthrew, ⟨bytes, rfl, howned, hreads, hpos, hlen⟩ | ⟨-, hq, -⟩⟩ :=
    step_cases hs.buffered hsession
  · obtain ⟨inv, wr, hread, -⟩ :=
      read_fields hs.buffered howned hthrew hreads hpos hlen hsession
    refine ⟨hread.buffered, fun hwrites => ?_, fun hprocess => hread.reads (Or.inl hprocess)⟩
    rw [hread.process_, Bool.or_eq_true, decide_eq_true_eq]
    rw [hread.writes] at hwrites
    by_cases hwr : 0 < wr.length
    · exact Or.inr hwr
    · exact Or.inl (hs.writes (by omega))
  · have hle := hq.writes
    refine ⟨hs.buffered.quiet hq, fun hwrites => ?_, fun hprocess => ?_⟩
    · rw [hq.process_]
      exact hs.writes (by omega)
    · rw [hq.process_] at hprocess
      rcases hq.reads with hsame | hnone
      · rw [hsame]
        exact hs.reads hprocess
      · exact hnone

end Steps

/-- **One request, one response.** For any parser, handler and surroundings, in every
run of a connection from `start` on: when no read completes two messages, the
connection carries one response; and when the connection carries one response, no
read completed two messages, unless the handler threw and ended the process. -/
theorem one_response_iff (h : Handler W) (t₀ now : ℕ) (data_ : Bytes)
    (hdata : data_.length = max_length) (w : W) (es : List (ConnectionEvent W))
    (c : Connection P W)
    (hrun : (connection h).run (Connection.start P t₀ now data_ w) es = some c) :
    ((connection h).Along EndsOne (Connection.start P t₀ now data_ w) es →
      OneResponse c.session) ∧
    (c.session.threw = false → OneResponse c.session →
      (connection h).Along EndsOne (Connection.start P t₀ now data_ w) es) := by
  have hstart : Single (Connection.start P t₀ now data_ w).session :=
    ⟨⟨hdata, Nat.zero_le _, Or.inr rfl⟩, Or.inl ⟨rfl, rfl, rfl, Nat.zero_le 1, fun _ => rfl⟩⟩
  have hsingle : ∀ (es : List (ConnectionEvent W)) (c : Connection P W),
      (connection h).Along EndsOne (Connection.start P t₀ now data_ w) es →
      (connection h).run (Connection.start P t₀ now data_ w) es = some c → Single c.session := by
    intro es c halong hrun
    exact Transition.invariant_along (P := fun c => Single c.session)
      (fun _ _ _ hs he hstep => single_step hs he hstep) hstart halong hrun
  refine ⟨fun halong => oneResponse_of_single (hsingle es c halong hrun), fun hthrew hone => ?_⟩
  by_contra hnot
  obtain ⟨es₁, e, es₂, c₁, c₂, rfl, hes₁, hrun₁, hstep, hbad⟩ :=
    Transition.exists_broken_of_not_along hnot
  have hc₁ : Single c₁.session := hsingle es₁ c₁ hes₁ hrun₁
  obtain ⟨c₁', hc₁', hrun₂⟩ := Transition.run_append_iff.mp hrun
  obtain rfl : c₁' = c₁ := Option.some.inj (hc₁'.symm.trans hrun₁)
  rw [Transition.run_cons hstep] at hrun₂
  have hover : c.session.Buffered ∧ Overrun c.session :=
    Transition.invariant (P := fun c => c.session.Buffered ∧ Overrun c.session)
      (fun _ _ _ hs hstep => ⟨buffered_step hs.1 hstep, overrun_step hs.1 hs.2 hstep⟩)
      ⟨buffered_step hc₁.buffered hstep, overrun_of_not_endsOne hc₁ hbad hstep⟩ hrun₂
  rcases hover.2 with hthrew' | htwo
  · rw [hthrew] at hthrew'
    cases hthrew'
  · have hinv := hone.invoked
    omega

/-- Two requests without a body. -/
def two_gets : List Layout :=
  [framing (bytes "GET / HTTP/1.1\r\n\r\n"), framing (bytes "GET / HTTP/1.1\r\n\r\n")]

/-- The first of them, its response, and the end of the connection. -/
theorem one_response_of_one_message :
    ∃ c, (connection still).run
        (Connection.start (.expecting two_gets) 0 0 (List.replicate 2048 0) ())
        [.session (.read 0 (bytes "GET / HTTP/1.1\r\n\r\n")), .session (.write_done 0)]
          = some c ∧ OneResponse c.session :=
  ⟨_, rfl, (one_response_iff still 0 0 (List.replicate 2048 0) List.length_replicate ()
    [.session (.read 0 (bytes "GET / HTTP/1.1\r\n\r\n")), .session (.write_done 0)] _ rfl).1
    (by decide)⟩

/-- Both in one read: the handler is called twice and two writes are pending. -/
theorem not_one_response_of_two_messages :
    ∃ c, (connection still).run
        (Connection.start (.expecting two_gets) 0 0 (List.replicate 2048 0) ())
        [.session (.read 0 (bytes "GET / HTTP/1.1\r\n\r\nGET / HTTP/1.1\r\n\r\n"))]
          = some c ∧ c.session.invoked.length = 2 ∧ c.session.writes = 2 ∧
      ¬ OneResponse c.session :=
  ⟨_, rfl, by decide, by decide, fun hone => absurd hone.writes (by decide)⟩

end MyWarehouse

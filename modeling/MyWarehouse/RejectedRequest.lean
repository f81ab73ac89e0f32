/-
What becomes of a connection whose request the parser rejects.

`onRead` does not look at the result of `http_parser_execute`, nor at `http_errno`: it
decides by `process_` and `pos_`. So a request that the parser rejects is read on until
the client has sent `max_length` bytes, as one that is merely not complete yet; only
the buffer that is full closes the session. The handler is not called meanwhile, because
the parser keeps its error.
-/
import MyWarehouse.ReceiveBuffer

set_option autoImplicit false

namespace MyWarehouse

open http_session

variable {P : HttpParser} {W : Type}

/-- A successful read of `bytes` takes `c` to `c'` and leaves the parser with an error
before any message has completed. A read is pending only while none has. -/
structure Rejected (http_errno : P.State → ℕ) (c : Connection P W) (bytes : Bytes)
    (c' : Connection P W) : Prop where
  owned : c.session.owned = true
  none : completed P c.session.parser_ bytes = 0
  errno : http_errno c'.session.parser_ ≠ 0

/-- The session was closed, and in every state that can follow no read of it is pending
and its handler was never called. -/
structure EndsRejected (h : Handler W) (c : Connection P W) : Prop where
  closed : c.session.open_ = false ∧ c.session.in_set = false
  silent : ∀ es c', (connection h).run c es = some c' →
    c'.session.reads = [] ∧ c'.session.invoked = []

section Steps

variable {h : Handler W} {s : http_session P} {now : ℕ} {w w' : W} {bytes : Bytes}
  {s' : http_session P}

/-- A successful read that completes no message only moves the session on. -/
theorem read_moves_on (hb : s.Buffered) (hthrew : s.threw = false) (howned : s.owned = true)
    (hreads : s.reads = [(s.pos_, max_length - s.pos_)]) (hpos : 1 ≤ bytes.length)
    (hlen : bytes.length ≤ max_length - s.pos_) (hnone : completed P s.parser_ bytes = 0)
    (hstep : s.step h now w (.read 0 bytes) = some (w', s')) :
    ∃ rq r, s' = ((s.receive bytes).served rq r [] [] false).advance bytes.length := by
  obtain ⟨rq, r, inv, wr, threw, rfl, ⟨rfl, hinv, hwr⟩ | ⟨rfl, hinv, hone⟩⟩ :=
    read_leaves hb hthrew howned hreads hpos hlen hstep
  · have hinv0 : inv = [] := by
      apply List.eq_nil_of_length_eq_zero
      exact hinv.trans hnone
    have hwr0 : wr = [] := by
      apply List.eq_nil_of_length_eq_zero
      rw [hwr, hinv0]
      rfl
    subst hinv0
    subst hwr0
    exact ⟨rq, r, rfl⟩
  · -- only a message that completes can make the handler throw
    have hzero : inv.length ≤ completed P s.parser_ bytes := hinv
    omega

/-- It calls no handler. -/
theorem read_not_answered (hb : s.Buffered) (hthrew : s.threw = false) (howned : s.owned = true)
    (hreads : s.reads = [(s.pos_, max_length - s.pos_)]) (hpos : 1 ≤ bytes.length)
    (hlen : bytes.length ≤ max_length - s.pos_) (hnone : completed P s.parser_ bytes = 0)
    (hstep : s.step h now w (.read 0 bytes) = some (w', s')) :
    s'.parser_ = (P.http_parser_execute s.parser_ bytes).1 ∧ s'.invoked = s.invoked := by
  obtain ⟨rq, r, rfl⟩ := read_moves_on hb hthrew howned hreads hpos hlen hnone hstep
  have hinvoked : s.invoked ++ [] = s.invoked := List.append_nil _
  obtain ⟨-, heq⟩ | ⟨-, -, heq⟩ | ⟨-, -, heq⟩ :=
    advance_cases ((s.receive bytes).served rq r [] [] false) bytes.length
  all_goals
    rw [heq]
    exact ⟨rfl, hinvoked⟩

/-- It closes the session when the buffer is full, and reads on otherwise. -/
theorem read_without_message (hb : s.Buffered) (hthrew : s.threw = false)
    (howned : s.owned = true) (hprocess : s.process_ = false)
    (hreads : s.reads = [(s.pos_, max_length - s.pos_)]) (hpos : 1 ≤ bytes.length)
    (hlen : bytes.length ≤ max_length - s.pos_) (hnone : completed P s.parser_ bytes = 0)
    (hstep : s.step h now w (.read 0 bytes) = some (w', s')) :
    s.pos_ + bytes.length = max_length ∧ s'.reads = [] ∧ s'.open_ = false ∧ s'.in_set = false ∨
      s.pos_ + bytes.length < max_length ∧ s'.reads ≠ [] := by
  obtain ⟨rq, r, rfl⟩ := read_moves_on hb hthrew howned hreads hpos hlen hnone hstep
  have hreading : ((s.receive bytes).served rq r [] [] false).process_ = false := by
    show (s.process_ || false) = false
    rw [hprocess]
    rfl
  obtain ⟨hdone, -⟩ | ⟨-, hfull, heq⟩ | ⟨-, hroom, heq⟩ :=
    advance_cases ((s.receive bytes).served rq r [] [] false) bytes.length
  · rw [hreading] at hdone
    cases hdone
  · have hfull : max_length ≤ s.pos_ + bytes.length := hfull
    rw [heq]
    exact Or.inl ⟨by omega, rfl, rfl, rfl⟩
  · have hroom : s.pos_ + bytes.length < max_length := hroom
    rw [heq]
    exact Or.inr ⟨hroom, List.append_ne_nil_of_right_ne_nil _ (List.cons_ne_nil _ _)⟩

/-- A session without a pending read never calls the handler again. -/
theorem silent_of_reads {c c' : Connection P W} {es : List (ConnectionEvent W)}
    (hb : c.session.Buffered) (hreads : c.session.reads = [])
    (hrun : (connection h).run c es = some c') :
    c'.session.reads = [] ∧ c'.session.invoked = c.session.invoked := by
  have hinv : c'.session.Buffered ∧ c'.session.reads = [] ∧
      c'.session.invoked = c.session.invoked := by
    apply Transition.invariant (P := fun d : Connection P W => d.session.Buffered ∧
      d.session.reads = [] ∧ d.session.invoked = c.session.invoked) ?_ ⟨hb, hreads, rfl⟩ hrun
    rintro d e d' ⟨hb, hreads, hinvoked⟩ hstep
    refine ⟨buffered_step hb hstep, ?_⟩
    obtain ⟨-, hsame⟩ | ⟨e, w', s', rfl, hsession, rfl⟩ := connection_cases hstep
    · rw [hsame]
      exact ⟨hreads, hinvoked⟩
    obtain ⟨-, ⟨bytes, -, -, hpending, -⟩ | ⟨-, hq, -⟩⟩ := step_cases hb hsession
    · rw [hreads] at hpending
      cases hpending
    · refine ⟨?_, hq.invoked.trans hinvoked⟩
      rcases hq.reads with hsame | hnone
      · exact hsame.trans hreads
      · exact hnone
  exact hinv.2

/-- A session that has not completed a message has not called the handler, unless the
handler threw. -/
def Unanswered (s : http_session P) : Prop :=
  s.threw = false → s.process_ = false → s.invoked = []

theorem unanswered_step {c c' : Connection P W} {e : ConnectionEvent W}
    (hb : c.session.Buffered) (hu : Unanswered c.session)
    (hstep : (connection h).step c e = some c') : Unanswered c'.session := by
  intro hthrew' hprocess'
  obtain ⟨-, hsame⟩ | ⟨e, w', s', rfl, hsession, rfl⟩ := connection_cases hstep
  · rw [hsame] at hthrew' hprocess' ⊢
    exact hu hthrew' hprocess'
  have hthrew' : s'.threw = false := hthrew'
  have hprocess' : s'.process_ = false := hprocess'
  show s'.invoked = []
  obtain ⟨hthrew, ⟨bytes, rfl, howned, hreads, hpos, hlen⟩ | ⟨-, hq, -⟩⟩ :=
    step_cases hb hsession
  · obtain ⟨inv, wr, hread, ⟨-, -, hwr⟩ | ⟨hfalse, -⟩⟩ :=
      read_fields hb howned hthrew hreads hpos hlen hsession
    swap
    · rw [hthrew'] at hfalse
      cases hfalse
    rw [hread.process_, Bool.or_eq_false_iff, decide_eq_false_iff_not] at hprocess'
    have hnone : inv = [] := by
      apply List.eq_nil_of_length_eq_zero
      omega
    rw [hread.invoked, hnone, hu hthrew hprocess'.1]
    rfl
  · rw [hq.invoked]
    exact hu hthrew (hq.process_ ▸ hprocess')

end Steps

/-! ## From `start` on -/

section Runs

variable {http_errno : P.State → ℕ} {h : Handler W} {t₀ now : ℕ} {data_ : Bytes} {w : W}
  {es : List (ConnectionEvent W)} {c c' : Connection P W} {bytes : Bytes}

/-- What a read that the parser rejects leaves. -/
theorem rejected_read (hdata : data_.length = max_length)
    (hrun : (connection h).run (Connection.start P t₀ now data_ w) es = some c)
    (hstep : (connection h).step c (.session (.read 0 bytes)) = some c')
    (hrejected : Rejected http_errno c bytes c') :
    c'.session.Buffered ∧ c'.session.invoked = [] ∧
      (c.session.pos_ + bytes.length = max_length ∧ c'.session.reads = [] ∧
          c'.session.open_ = false ∧ c'.session.in_set = false ∨
        c.session.pos_ + bytes.length < max_length ∧ c'.session.reads ≠ []) := by
  have hr : Received es c.session := (receives_in_order h t₀ now data_ hdata w es c hrun).1
  have hinv : c.session.Buffered ∧ Unanswered c.session := by
    apply Transition.invariant (P := fun c : Connection P W =>
      c.session.Buffered ∧ Unanswered c.session) ?_ ?_ hrun
    · rintro c e c' ⟨hb, hu⟩ hstep
      exact ⟨buffered_step hb hstep, unanswered_step hb hu hstep⟩
    · exact ⟨⟨hdata, Nat.zero_le _, Or.inr rfl⟩, fun _ _ => rfl⟩
  obtain ⟨hb, hu⟩ := hinv
  have hb' := buffered_step hb hstep
  obtain ⟨hthrew, hreads, hpos, hlen, w', hsession⟩ := read_of_connection hb hrejected.owned hstep
  have hprocess := hr.reading hreads
  obtain ⟨-, hinvoked⟩ := read_not_answered hb hthrew hrejected.owned hreads hpos hlen
    hrejected.none hsession
  refine ⟨hb', hinvoked.trans (hu hthrew hprocess), ?_⟩
  exact read_without_message hb hthrew hrejected.owned hprocess hreads hpos hlen
    hrejected.none hsession

end Runs

/-- **A rejected request ends its connection when it fills the buffer, and only then.**
In every state that a connection can reach from `start` on, a successful read in which
the parser comes to an error before any message has completed ends the session if and
only if it delivers the byte number `max_length`. -/
theorem rejected_ends_iff (http_errno : P.State → ℕ) (h : Handler W) (t₀ now : ℕ)
    (data_ : Bytes) (hdata : data_.length = max_length) (w : W) (es : List (ConnectionEvent W))
    (c c' : Connection P W) (bytes : Bytes)
    (hrun : (connection h).run (Connection.start P t₀ now data_ w) es = some c)
    (hstep : (connection h).step c (.session (.read 0 bytes)) = some c')
    (hrejected : Rejected http_errno c bytes c') :
    EndsRejected h c' ↔ c.session.pos_ + bytes.length = max_length := by
  obtain ⟨hb, hinvoked, hends⟩ := rejected_read hdata hrun hstep hrejected
  obtain ⟨hfull, hreads, hclosed⟩ | ⟨hroom, hreads⟩ := hends
  · refine ⟨fun _ => hfull, fun _ => ⟨hclosed, fun es c'' hrun' => ?_⟩⟩
    obtain ⟨hreads', hinvoked'⟩ := silent_of_reads hb hreads hrun'
    exact ⟨hreads', hinvoked'.trans hinvoked⟩
  · -- the next read is already pending
    refine ⟨fun hended => ?_, fun hfull => ?_⟩
    · exact absurd (hended.silent [] c' rfl).1 hreads
    · omega

/-! ### The first byte of a request -/

/-- `http_parser` up to the first letter of the method. -/
inductive MethodState where
  | start_req
  | method
  | invalid_method
  deriving DecidableEq, Repr

/-- `http_errno`: `HPE_OK` or `HPE_INVALID_METHOD`. -/
def MethodState.http_errno : MethodState → ℕ
  | .invalid_method => 16
  | _ => 0

/-- Line ends before a request are skipped; a method starts with a letter. -/
def MethodState.execute : MethodState → Bytes → MethodState
  | .start_req, ch :: rest =>
    if ch = 13 ∨ ch = 10 then MethodState.execute .start_req rest
    else if 65 ≤ ch ∧ ch ≤ 90 ∨ 97 ≤ ch ∧ ch ≤ 122 then .method
    else .invalid_method
  | st, _ => st

/-- The parser as far as it looks at the method, on input that holds no whole message. -/
def HttpParser.method : HttpParser where
  State := MethodState
  http_parser_init := .start_req
  http_parser_execute st bytes := (st.execute bytes, [])

/-- It keeps its error. -/
theorem method_latched (parser_ : MethodState) (bytes : Bytes) (h : parser_.http_errno ≠ 0) :
    HttpParser.method.http_parser_execute parser_ bytes = (parser_, []) := by
  rcases parser_ with _ | _ | _
  · exact absurd rfl h
  · exact absurd rfl h
  · simp only [HttpParser.method, MethodState.execute]

/-- The connection the parser is run on. -/
def method_start : Connection .method Unit :=
  Connection.start .method 0 0 (List.replicate 2048 0) ()

/-- Digits up to the byte number `max_length`: the session is closed. -/
theorem rejected_ends_full :
    ∃ c', (connection still).step method_start (.session (.read 0 (List.replicate 2048 49)))
        = some c' ∧ EndsRejected still c' := by
  have hsteps : ((connection still).step method_start
      (.session (.read 0 (List.replicate 2048 49)))).isSome := by
    decide +kernel
  obtain ⟨c', hstep⟩ := Option.isSome_iff_exists.mp hsteps
  have herrno : ∀ d ∈ (connection still).step method_start
      (.session (.read 0 (List.replicate 2048 49))),
      MethodState.http_errno d.session.parser_ ≠ 0 := by
    decide +kernel
  refine ⟨c', hstep, ?_⟩
  apply (rejected_ends_iff MethodState.http_errno still 0 0 (List.replicate 2048 0)
    List.length_replicate () [] method_start c' (List.replicate 2048 49) rfl hstep
    ⟨rfl, rfl, herrno c' hstep⟩).mpr
  rw [List.length_replicate]
  rfl

/-- One digit: the parser has its error, and the session reads on. -/
theorem not_rejected_ends_short :
    ∃ c', (connection still).step method_start (.session (.read 0 (bytes "1"))) = some c' ∧
      Rejected MethodState.http_errno method_start (bytes "1") c' ∧
      c'.session.open_ = true ∧ c'.session.reads = [(1, 2047)] ∧ ¬ EndsRejected still c' := by
  refine ⟨_, rfl, ⟨rfl, rfl, by decide⟩, rfl, rfl, fun hended => ?_⟩
  have hclosed := hended.closed.1
  cases hclosed

/-- **A rejected request is never answered**, when the parser keeps its error: it is read
on, but nothing of it reaches the handler. -/
theorem rejected_never_answered (http_errno : P.State → ℕ) (h : Handler W) (t₀ now : ℕ)
    (hlatched : ∀ parser_ bytes, http_errno parser_ ≠ 0 →
      P.http_parser_execute parser_ bytes = (parser_, []))
    (data_ : Bytes) (hdata : data_.length = max_length) (w : W) (es : List (ConnectionEvent W))
    (c c' : Connection P W) (bytes : Bytes)
    (hrun : (connection h).run (Connection.start P t₀ now data_ w) es = some c)
    (hstep : (connection h).step c (.session (.read 0 bytes)) = some c')
    (hrejected : Rejected http_errno c bytes c') (es' : List (ConnectionEvent W))
    (c'' : Connection P W) (hrun' : (connection h).run c' es' = some c'') :
    c''.session.invoked = [] := by
  obtain ⟨hb, hinvoked, -⟩ := rejected_read hdata hrun hstep hrejected
  have hinv : c''.session.Buffered ∧ http_errno c''.session.parser_ ≠ 0 ∧
      c''.session.invoked = [] := by
    apply Transition.invariant (P := fun d : Connection P W => d.session.Buffered ∧
      http_errno d.session.parser_ ≠ 0 ∧ d.session.invoked = []) ?_
      ⟨hb, hrejected.errno, hinvoked⟩ hrun'
    rintro d e d' ⟨hb, herrno, hinvoked⟩ hstep
    refine ⟨buffered_step hb hstep, ?_⟩
    obtain ⟨-, hsame⟩ | ⟨e, w', s', rfl, hsession, rfl⟩ := connection_cases hstep
    · rw [hsame]
      exact ⟨herrno, hinvoked⟩
    show http_errno s'.parser_ ≠ 0 ∧ s'.invoked = []
    obtain ⟨hthrew, ⟨bytes, rfl, howned, hreads, hpos, hlen⟩ | ⟨-, hq, -⟩⟩ :=
      step_cases hb hsession
    · -- the parser consumes nothing and calls nothing back
      have hkept := hlatched d.session.parser_ bytes herrno
      have hnone : completed P d.session.parser_ bytes = 0 := by
        rw [completed, hkept]
        rfl
      obtain ⟨hparser, hinvoked'⟩ :=
        read_not_answered hb hthrew howned hreads hpos hlen hnone hsession
      rw [hparser, hkept, hinvoked']
      exact ⟨herrno, hinvoked⟩
    · rw [hq.parser_, hq.invoked]
      exact ⟨herrno, hinvoked⟩
  exact hinv.2.2

end MyWarehouse

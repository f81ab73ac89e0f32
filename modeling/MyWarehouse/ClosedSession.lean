/-
What a session does after it was closed.

`close` sets no flag. A handler of a closed session does nothing because nobody is left
that owns the session; but while `OnAccept` has not returned, `OnAccept` owns it. The
wait that `start` has begun can end in that time, and with a timer that has long expired
(it runs since the session was constructed) it ends at once: the session is closed under
`OnAccept`, and a read that was completed before then is still handled.

To say which reads succeed, the completions that are queued are part of the state here:
a socket that is closed gives no more bytes, but the bytes it gave before are not lost.
-/
import MyWarehouse.Serving
import MyWarehouse.SessionSet
import MyWarehouse.OneResponse

set_option autoImplicit false

namespace MyWarehouse

open http_session

/-! ## The queue of the completions -/

/-- The server, and the successful reads of its sessions that are completed but not yet
handled. -/
structure Queueing (P : HttpParser) (W : Type) where
  server : http_server P W
  queued : ℕ → Option Bytes

/-- The pending read of a session completes with these bytes, or something happens at
the server. -/
inductive QueueEvent (W : Type) where
  | arrive (i : ℕ) (bytes : Bytes)
  | server (e : ServerEvent W)

/-- A read is handled with the bytes that were queued, and fails only when none were. -/
def ServerEvent.Due {W : Type} (queued : ℕ → Option Bytes) : ServerEvent W → Prop
  | .session i (.read ec bytes) => if ec = 0 then queued i = some bytes else queued i = none
  | _ => True

instance {W : Type} (queued : ℕ → Option Bytes) (e : ServerEvent W) :
    Decidable (e.Due queued) := by
  unfold ServerEvent.Due
  split
  · infer_instance
  · exact isTrue trivial

/-- The queue after a read was handled. -/
def ServerEvent.unqueue {W : Type} (queued : ℕ → Option Bytes) : ServerEvent W → ℕ → Option Bytes
  | .session i (.read _ _) => Function.update queued i none
  | _ => queued

/-- The server with its queue. Bytes arrive on a socket that is open only. -/
def queueing {P : HttpParser} {W : Type} (h : Handler W) :
    Transition (Queueing P W) (QueueEvent W) where
  step s
    | .arrive i bytes => match s.server.slots[i]? with
      | none => none
      | some slot => match slot.session.reads with
        | [] => none
        | (_, size) :: _ =>
          if s.server.threw = false ∧ slot.session.open_ = true ∧ s.queued i = none ∧
              1 ≤ bytes.length ∧ bytes.length ≤ size then
            some { s with queued := Function.update s.queued i (some bytes) }
          else none
    | .server e =>
      if e.Due s.queued then
        match (server h).step s.server e with
        | none => none
        | some server => some ⟨server, e.unqueue s.queued⟩
      else none

/-- A server right after its constructor. -/
def Queueing.ctor (P : HttpParser) {W : Type} (now : ℕ) (w : W) (threadnum : ℕ)
    (data_ : Bytes) : Queueing P W := ⟨http_server.ctor P now w threadnum data_, fun _ => none⟩

section Steps

variable {P : HttpParser} {W : Type} {h : Handler W} {s s' : Queueing P W} {e : QueueEvent W}

/-- Bytes arrive and the server stays, or the server takes a step that the queue lets
happen. -/
theorem queueing_cases (hstep : (queueing h).step s e = some s') :
    (∃ i bytes slot off size reads, e = .arrive i bytes ∧ s.server.slots[i]? = some slot ∧
      slot.session.reads = (off, size) :: reads ∧ slot.session.open_ = true ∧
      1 ≤ bytes.length ∧ bytes.length ≤ size ∧
      s' = { s with queued := Function.update s.queued i (some bytes) }) ∨
    ∃ e' server', e = .server e' ∧ e'.Due s.queued ∧
      (server h).step s.server e' = some server' ∧ s' = ⟨server', e'.unqueue s.queued⟩ := by
  rcases e with ⟨i, bytes⟩ | e
  · left
    simp only [queueing] at hstep
    rcases hslot : s.server.slots[i]? with _ | slot
    · simp only [hslot] at hstep
      cases hstep
    simp only [hslot] at hstep
    rcases hreads : slot.session.reads with _ | ⟨⟨off, size⟩, reads⟩
    · simp only [hreads] at hstep
      cases hstep
    simp only [hreads] at hstep
    split_ifs at hstep with hcond
    obtain ⟨-, hopen, -, hpos, hlen⟩ := hcond
    exact ⟨i, bytes, slot, off, size, reads, rfl, hslot, hreads, hopen, hpos, hlen,
      (Option.some.inj hstep).symm⟩
  · right
    simp only [queueing] at hstep
    split_ifs at hstep with hdue
    rcases hserver : (server h).step s.server e with _ | server'
    · simp only [hserver] at hstep
      cases hstep
    · simp only [hserver] at hstep
      exact ⟨e, server', rfl, hdue, hserver, (Option.some.inj hstep).symm⟩

/-- An event of the server is a step of the server. -/
theorem server_of_step {e : ServerEvent W} (hstep : (queueing h).step s (.server e) = some s') :
    ∃ server', (server h).step s.server e = some server' ∧
      s' = ⟨server', e.unqueue s.queued⟩ := by
  obtain ⟨_, _, _, _, _, _, harrive, _⟩ | ⟨e', server', he, -, hserver, heq⟩ :=
    queueing_cases hstep
  · cases harrive
  · obtain rfl := QueueEvent.server.inj he
    exact ⟨server', hserver, heq⟩

/-- **The queue only rules runs out**: what it leaves are runs of the server. -/
theorem server_of_queueing {es : List (QueueEvent W)} {s₀ s : Queueing P W}
    (hrun : (queueing h).run s₀ es = some s) :
    ∃ es', (server h).run s₀.server es' = some s.server := by
  apply Transition.simulated (f := Queueing.server) ?_ hrun
  intro s e s' hstep
  obtain ⟨i, bytes, slot, off, size, reads, rfl, hslot, hreads, hopen, hpos, hlen, rfl⟩ |
    ⟨e', server', rfl, hdue, hserver, rfl⟩ := queueing_cases hstep
  · exact Or.inl rfl
  · exact Or.inr ⟨e', hserver⟩

end Steps

/-! ## The invariant -/

section Invariant

variable {P : HttpParser} {W : Type} {h : Handler W} {s s' : Queueing P W} {e : QueueEvent W}

/-- A completion that is no read leaves the pending reads and the parser alone. -/
theorem step_no_read {now : ℕ} {w w' : W} {e : SessionEvent} {session session' : http_session P}
    (he : ∀ ec bytes, e ≠ .read ec bytes) (hstep : session.step h now w e = some (w', session')) :
    session'.reads = session.reads ∧ session'.parser_ = session.parser_ := by
  cases (http_session.handled_of_step hstep).2 with
  | read ec bytes | read_lost ec bytes => exact absurd rfl (he ec bytes)
  | write_done | write_lost | timer | timer_aborted | timer_lost | release => exact ⟨rfl, rfl⟩

/-- A write that is over was pending. -/
theorem write_done_step {now : ℕ} {w w' : W} {ec : error_code} {session session' : http_session P}
    (hstep : session.step h now w (.write_done ec) = some (w', session')) : 0 < session.writes := by
  cases (http_session.handled_of_step hstep).2 with
  | write_done _ hwrites | write_lost _ hwrites => exact hwrites

/-- A session that was started replies as a connection does. -/
theorem Slot.Served.replying {now : ℕ} {w : W} {slot : Slot P} (hslot : slot.Served h now w)
    (hstarted : slot.stage.started = true) : Replying slot.session := by
  have hconnection : ∀ {t₀ : ℕ} {session : http_session P}, Serves h now w t₀ session →
      Replying session := by
    rintro t₀ session ⟨data_, now₀, w₀, es, hlen, hrun⟩
    exact Transition.invariant (P := fun c : Connection P W => Replying c.session)
      (fun _ _ _ hs hstep => replying_step hs hstep)
      ⟨⟨hlen, Nat.zero_le _, Or.inr rfl⟩, fun hpos => absurd hpos (Nat.lt_irrefl 0),
        fun hfalse => absurd hfalse Bool.false_ne_true⟩ hrun
  unfold Slot.Served at hslot
  rcases hstage : slot.stage with _ | ec | _ | _ | _ | _ | _ | _
  all_goals
    rw [hstage] at hstarted
    simp only [hstage] at hslot
  case reading =>
    obtain ⟨hreads, hwrites, hserves⟩ := hslot
    obtain ⟨⟨hlen, hpos, -⟩, -, -⟩ := hconnection hserves
    refine ⟨⟨hlen, hpos, Or.inl hreads⟩, fun hwrites' => ?_, fun _ => hreads⟩
    omega
  case returning => exact hconnection hslot
  case running => exact hconnection hslot
  all_goals cases hstarted

/-- Before `OnAccept` has issued the first read, none is pending. -/
theorem Slot.Served.reads {now : ℕ} {w : W} {slot : Slot P} (hslot : slot.Served h now w)
    (hstage : slot.stage = .reading) : slot.session.reads = [] := by
  unfold Slot.Served at hslot
  rw [hstage] at hslot
  exact hslot.1

/-- What is known of a session and the bytes queued for it: they are those of a pending
read, and while a closed session is still held they complete no message. -/
structure Slot.Quieted (slot : Slot P) (queued : Option Bytes) : Prop where
  pending : ∀ bytes, queued = some bytes → ∃ off size reads,
    slot.session.reads = (off, size) :: reads ∧ 1 ≤ bytes.length ∧ bytes.length ≤ size
  closed : ∀ bytes, queued = some bytes → slot.session.open_ = false →
    slot.session.held = true → completed P slot.session.parser_ bytes = 0

theorem quieted_none (slot : Slot P) : slot.Quieted none :=
  ⟨fun _ hnone => absurd hnone (by simp), fun _ hnone => absurd hnone (by simp)⟩

/-- Nothing is queued for a session without a pending read. -/
theorem Slot.Quieted.none_of_reads {slot : Slot P} {queued : Option Bytes}
    (hslot : slot.Quieted queued) (hreads : slot.session.reads = []) : queued = none := by
  rcases queued with _ | bytes
  · rfl
  · obtain ⟨off, size, reads, hsome, -⟩ := hslot.pending bytes rfl
    rw [hreads] at hsome
    cases hsome

/-- The invariant of the server with its queue. -/
structure Queueing.Quiet (h : Handler W) (s : Queueing P W) : Prop where
  served : ∀ slot ∈ s.server.slots, slot.Served h s.server.now s.server.world
  tracked : ∀ slot ∈ s.server.slots, slot.Tracked
  quieted : ∀ (i : ℕ) (slot : Slot P), s.server.slots[i]? = some slot →
    slot.Quieted (s.queued i)
  beyond : ∀ i, s.server.slots[i]? = none → s.queued i = none

/-- The timer closes no session that `OnAccept` still holds while bytes are queued for
it that complete a message. -/
def ClosesUnread (s : Queueing P W) (e : QueueEvent W) : Prop :=
  ∀ (i : ℕ) (ec : error_code) (slot : Slot P) (bytes : Bytes),
    e = .server (.session i (.timer ec)) → s.server.slots[i]? = some slot →
    slot.session.open_ = true → slot.session.held = true → s.queued i = some bytes →
    completed P slot.session.parser_ bytes = 0

/-- A session that was closed before the step does not call the handler in it, and
starts no write. -/
def Rests (h : Handler W) (s : Queueing P W) (e : QueueEvent W) : Prop :=
  ∀ (i : ℕ) (slot : Slot P) (s' : Queueing P W), s.server.slots[i]? = some slot →
    slot.session.open_ = false → (queueing h).step s e = some s' →
    ∃ slot', s'.server.slots[i]? = some slot' ∧
      slot'.session.invoked = slot.session.invoked ∧ slot'.session.written = slot.session.written

/-- A step of a session that is no read keeps its slot quiet. -/
theorem Slot.Quieted.session {now : ℕ} {w w' : W} {slot : Slot P} {queued : Option Bytes}
    {e : SessionEvent} {session : http_session P} (hslot : slot.Quieted queued)
    (hreplying : Replying slot.session) (hrelease : e ≠ .release)
    (he : ∀ ec bytes, e ≠ .read ec bytes)
    (hstep : slot.session.step h now w e = some (w', session))
    (hunread : ∀ ec bytes, e = .timer ec → slot.session.open_ = true →
      slot.session.held = true → queued = some bytes →
      completed P slot.session.parser_ bytes = 0) :
    ({ slot with session := session } : Slot P).Quieted queued := by
  obtain ⟨hreads, hparser⟩ := step_no_read he hstep
  have hheld := (step_timed hrelease hstep).held
  refine ⟨fun bytes hqueued => ?_, fun bytes hqueued _ hheld' => ?_⟩
  · show ∃ off size reads, session.reads = (off, size) :: reads ∧ _
    rw [hreads]
    exact hslot.pending bytes hqueued
  have hheld₀ : slot.session.held = true := hheld.symm.trans hheld'
  show completed P session.parser_ bytes = 0
  rw [hparser]
  by_cases hopen : slot.session.open_ = true
  swap
  · exact hslot.closed bytes hqueued (Bool.eq_false_iff.mpr hopen) hheld₀
  rcases e with ⟨ec, bytes'⟩ | ec | ec | _
  · exact absurd rfl (he ec bytes')
  · -- while a write is pending no read is
    have hnone := hreplying.reads (hreplying.writes (write_done_step hstep))
    rw [hslot.none_of_reads hnone] at hqueued
    cases hqueued
  · exact hunread ec bytes rfl hopen hheld₀ hqueued
  · exact absurd rfl hrelease

/-- **A step of a slot** that is no read of its session keeps it quiet. -/
theorem Slot.Step.quieted {now i : ℕ} {w w' : W} {e : ServerEvent W} {slot slot' : Slot P}
    {added : List (Slot P)} {queued : Option Bytes}
    (hmove : slot.Step h now w i e w' slot' added) (hserved : slot.Served h now w)
    (htracked : slot.Tracked) (hslot : slot.Quieted queued)
    (he : ∀ ec bytes, e ≠ .session i (.read ec bytes))
    (hunread : ∀ ec bytes, e = .session i (.timer ec) → slot.session.open_ = true →
      slot.session.held = true → queued = some bytes →
      completed P slot.session.parser_ bytes = 0) : slot'.Quieted queued := by
  have hnone : slot.session.reads = [] → slot'.Quieted queued := by
    intro hreads
    rw [hslot.none_of_reads hreads]
    exact quieted_none slot'
  have hbefore : slot.stage.started = false → slot'.Quieted queued :=
    fun hstarted => hnone (htracked.before hstarted).1
  rcases hmove with
    ⟨ec, hstage⟩ | ⟨data_, io, hstage, -⟩ | ⟨data_, ec, hstage, -⟩ | ⟨data_, hstage⟩ |
    ⟨data_, hstage⟩ | ⟨data_, hstage⟩ | ⟨data_, hstage⟩ | ⟨e, w', session, hrelease, hstep⟩
  case do_read => exact hnone (hserved.reads hstage)
  case returns =>
    refine ⟨hslot.pending, fun _ _ _ hheld => ?_⟩
    cases hheld
  case session =>
    apply hslot.session (hserved.replying (htracked.started hrelease hstep)) hrelease ?_ hstep
    · intro ec bytes heq
      exact hunread ec bytes (by rw [heq])
    · rintro ec bytes rfl
      exact he ec bytes rfl
  all_goals exact hbefore (by rw [hstage]; rfl)

/-- Handling a read takes its bytes out of the queue; nothing else does. -/
theorem unqueue_cases (e : ServerEvent W) (queued : ℕ → Option Bytes) (i : ℕ) :
    e.unqueue queued i = none ∨ e.unqueue queued i = queued i ∧
      ∀ ec bytes, e ≠ .session i (.read ec bytes) := by
  rcases e with d | ⟨w, work⟩ | ⟨j, ec⟩ | ⟨j, data_⟩ | ⟨j, ⟨ec, bytes⟩ | ec | ec | _⟩
  case session.read =>
    by_cases hij : i = j
    · subst hij
      left
      show Function.update queued i none i = none
      exact Function.update_self i none queued
    · right
      have hsame : Function.update queued j none i = queued i :=
        Function.update_of_ne hij none queued
      refine ⟨hsame, ?_⟩
      rintro ec' bytes' heq
      exact hij (ServerEvent.session.inj heq).1.symm
  all_goals exact Or.inr ⟨rfl, by rintro _ _ ⟨⟩⟩

theorem quiet_step (hs : s.Quiet h) (he : ClosesUnread s e)
    (hstep : (queueing h).step s e = some s') : s'.Quiet h := by
  obtain ⟨i, bytes, slot, off, size, reads, rfl, hslot, hreads, hopen, hpos, hlen, rfl⟩ |
    ⟨e, server', rfl, hdue, hserver, rfl⟩ := queueing_cases hstep
  · -- bytes arrive for an open session with a pending read
    refine ⟨hs.served, hs.tracked, fun j t ht => ?_, fun j hj => ?_⟩
    · by_cases hij : j = i
      · subst hij
        obtain rfl : slot = t := Option.some.inj (hslot.symm.trans ht)
        refine ⟨fun bytes' hbytes => ?_, fun _ _ hclosed => ?_⟩
        · have hqueued : some bytes = some bytes' := by
            rw [← hbytes]
            exact (Function.update_self j (some bytes) s.queued).symm
          obtain rfl := Option.some.inj hqueued
          exact ⟨off, size, reads, hreads, hpos, hlen⟩
        · exact absurd (hopen.symm.trans hclosed) (by decide)
      · show t.Quieted (Function.update s.queued i (some bytes) j)
        rw [Function.update_of_ne hij]
        exact hs.quieted j t ht
    · show Function.update s.queued i (some bytes) j = none
      have hij : j ≠ i := by
        rintro rfl
        rw [hslot] at hj
        cases hj
      rw [Function.update_of_ne hij]
      exact hs.beyond j hj
  · refine ⟨served_step hs.served hserver, tracked_step hs.tracked hserver,
      fun j slot' hslot' => ?_, fun j hj => ?_⟩
    all_goals rcases hold : s.server.slots[j]? with _ | slot
    · -- a session that was added
      show slot'.Quieted (e.unqueue s.queued j)
      rcases unqueue_cases e s.queued j with hnone | ⟨hsame, -⟩
      · rw [hnone]
        exact quieted_none slot'
      · rw [hsame, hs.beyond j hold]
        exact quieted_none slot'
    · obtain ⟨slot'', hslot'', hmove⟩ := slot_of_server hold hserver
      obtain rfl : slot' = slot'' := Option.some.inj (hslot'.symm.trans hslot'')
      show slot'.Quieted (e.unqueue s.queued j)
      rcases unqueue_cases e s.queued j with hnone | ⟨hsame, hread⟩
      · rw [hnone]
        exact quieted_none slot'
      rw [hsame]
      rcases hmove with rfl | ⟨added, hmove⟩
      · exact hs.quieted j slot' hold
      · have hmem := List.mem_of_getElem? hold
        apply hmove.quieted (hs.served slot hmem) (hs.tracked slot hmem) (hs.quieted j slot hold)
          hread
        rintro ec bytes rfl
        exact he j ec slot bytes rfl hold
    · rcases unqueue_cases e s.queued j with hnone | ⟨hsame, -⟩
      · exact hnone
      · exact hsame.trans (hs.beyond j hold)
    · obtain ⟨slot'', hslot'', -⟩ := slot_of_server hold hserver
      rw [hslot''] at hj
      cases hj

/-- In the invariant, a closed session rests. -/
theorem rests_of_quiet (hs : s.Quiet h) : Rests h s e := by
  intro i slot s' hslot hclosed hstep
  obtain ⟨-, -, -, -, -, -, -, -, -, -, -, -, rfl⟩ | ⟨e, server', rfl, hdue, hserver, rfl⟩ :=
    queueing_cases hstep
  · exact ⟨slot, hslot, rfl, rfl⟩
  obtain ⟨slot', hslot', rfl | ⟨added, hmove⟩⟩ := slot_of_server hslot hserver
  · exact ⟨slot', hslot', rfl, rfl⟩
  refine ⟨slot', hslot', ?_⟩
  have hmem := List.mem_of_getElem? hslot
  have htracked := hs.tracked slot hmem
  have hserved := hs.served slot hmem
  rcases hmove.frame with ⟨e, session, rfl, hrelease, hsession, rfl⟩ | ⟨-, hinvoked, hwritten⟩
  swap
  · exact ⟨hinvoked, hwritten⟩
  have hb := (hserved.replying (htracked.started hrelease hsession)).buffered
  obtain ⟨hthrew, ⟨bytes, rfl, howned, hreads, hpos, hlen⟩ | ⟨-, hq, -⟩⟩ :=
    step_cases hb hsession
  swap
  · exact ⟨hq.invoked, hq.written⟩
  -- only `OnAccept` can own a closed session
  have hheld : slot.session.held = true := by
    have hset : slot.session.in_set = false := by rw [htracked.set, hclosed, Bool.and_false]
    rw [http_session.owned, hset, Bool.false_or] at howned
    exact howned
  have hqueued : s.queued i = some bytes := hdue
  have hnone := (hs.quieted i slot hslot).closed bytes hqueued hclosed hheld
  obtain ⟨inv, wr, hread, ⟨-, hinv, hwr⟩ | ⟨-, hwr, hinv⟩⟩ :=
    read_fields hb howned hthrew hreads hpos hlen hsession
  · -- the bytes complete no message, so nothing is handled and nothing is written
    have hinv0 : inv = [] := List.eq_nil_of_length_eq_zero (hinv.trans hnone)
    have hwr0 : wr = [] := by
      apply List.eq_nil_of_length_eq_zero
      rw [hwr, hinv0]
      rfl
    refine ⟨?_, ?_⟩
    · show session.invoked = slot.session.invoked
      rw [hread.invoked, hinv0, List.append_nil]
    · show session.written = slot.session.written
      rw [hread.written, hwr0, List.append_nil]
  · omega

theorem ctor_quiet (h : Handler W) (now : ℕ) (w : W) (threadnum : ℕ) {data_ : Bytes}
    (hdata : data_.length = max_length) : (Queueing.ctor P now w threadnum data_).Quiet h := by
  have hrun : (server h).run (http_server.ctor P now w threadnum data_) []
      = some (http_server.ctor P now w threadnum data_) := rfl
  refine ⟨run_served hdata hrun, ctor_tracked P now w threadnum data_, ?_, fun _ _ => rfl⟩
  intro i slot hslot
  exact quieted_none slot

/-- The server with its queue is quiet along the runs that close no session unread. -/
theorem run_quiet {now : ℕ} {w : W} {threadnum : ℕ} {data_ : Bytes}
    (hdata : data_.length = max_length) {es : List (QueueEvent W)}
    (hes : (queueing h).Along ClosesUnread (Queueing.ctor P now w threadnum data_) es)
    (hrun : (queueing h).run (Queueing.ctor P now w threadnum data_) es = some s) : s.Quiet h :=
  Transition.invariant_along (P := fun s : Queueing P W => s.Quiet h)
    (fun _ _ _ hs he hstep => quiet_step hs he hstep) (ctor_quiet h now w threadnum hdata) hes hrun

end Invariant

/-! ## Closed sessions rest -/

/-- **A closed session does no more work.** In every run of the server in which the
timer closes no session that `OnAccept` still holds while a completed read of it is
waiting to complete a message, no closed session calls the handler or starts a write. -/
theorem closed_sessions_rest {P : HttpParser} {W : Type} (h : Handler W) (now : ℕ) (w : W)
    (threadnum : ℕ) (data_ : Bytes) (hdata : data_.length = max_length) (es : List (QueueEvent W))
    (hes : (queueing h).Along ClosesUnread (Queueing.ctor P now w threadnum data_) es) :
    (queueing h).Along (Rests h) (Queueing.ctor P now w threadnum data_) es :=
  Transition.along_mono (P := fun s : Queueing P W => s.Quiet h)
    (fun _ _ _ hs he hstep => quiet_step hs he hstep)
    (fun _ _ _ hs _ _ => rests_of_quiet hs) (ctor_quiet h now w threadnum hdata) hes

instance {P : HttpParser} {W : Type} (s : Queueing P W) (e : QueueEvent W) :
    Decidable (ClosesUnread s e) :=
  match e with
  | .server (.session i (.timer ec)) => decidable_of_iff
      (∀ slot ∈ s.server.slots[i]?, ∀ bytes ∈ s.queued i, slot.session.open_ = true →
        slot.session.held = true → completed P slot.session.parser_ bytes = 0)
      ⟨by rintro hall _ _ slot bytes ⟨⟩ hslot hopen hheld hqueued
          exact hall slot hslot bytes hqueued hopen hheld,
        fun hall slot hslot bytes hqueued hopen hheld =>
          hall i ec slot bytes rfl hslot hopen hheld hqueued⟩
  | .server (.session _ (.read _ _)) => isTrue (by rintro _ _ _ _ ⟨⟩)
  | .server (.session _ (.write_done _)) => isTrue (by rintro _ _ _ _ ⟨⟩)
  | .server (.session _ .release) => isTrue (by rintro _ _ _ _ ⟨⟩)
  | .server (.tick _) => isTrue (by rintro _ _ _ _ ⟨⟩)
  | .server (.elsewhere _ _) => isTrue (by rintro _ _ _ _ ⟨⟩)
  | .server (.accepted _ _) => isTrue (by rintro _ _ _ _ ⟨⟩)
  | .server (.OnAccept _ _) => isTrue (by rintro _ _ _ _ ⟨⟩)
  | .arrive _ _ => isTrue (by rintro _ _ _ _ ⟨⟩)

/-- A connection accepted 30 seconds after its session was constructed, up to the first
read, and then the end of the wait on its timer. `queued` is what happens between. -/
def accepted_late (queued : List (QueueEvent Unit)) : List (QueueEvent Unit) :=
  [.server (.tick (seconds 30)), .server (.accepted 0 0),
    .server (.OnAccept 0 (List.replicate 2048 0)), .server (.OnAccept 0 []),
    .server (.OnAccept 0 []), .server (.OnAccept 0 [])] ++ queued ++
    [.server (.session 0 (.timer 0))]

/-- A request without a body. -/
def get : Bytes := bytes "GET / HTTP/1.1\r\n\r\n"

/-- Half of a request is queued when the timer closes the session: nothing comes of
it. -/
theorem closed_sessions_rest_half :
    (queueing still).Along (Rests still)
      (Queueing.ctor (.expecting [framing get]) 0 () 2 (List.replicate 2048 0))
      (accepted_late [.arrive 0 (bytes "GET / HT")] ++
        [.server (.session 0 (.read 0 (bytes "GET / HT")))]) :=
  closed_sessions_rest still 0 () 2 (List.replicate 2048 0) List.length_replicate
    (accepted_late [.arrive 0 (bytes "GET / HT")] ++
      [.server (.session 0 (.read 0 (bytes "GET / HT")))]) (by decide +kernel)

/-- A whole request is queued: the handler is called for the session after the timer
has closed it. -/
theorem not_closed_sessions_rest_whole :
    ∃ s, (queueing still).run
        (Queueing.ctor (.expecting [framing get]) 0 () 2 (List.replicate 2048 0))
        (accepted_late [.arrive 0 get]) = some s ∧
      ¬ Rests still s (.server (.session 0 (.read 0 get))) := by
  have hruns : ((queueing still).run
      (Queueing.ctor (.expecting [framing get]) 0 () 2 (List.replicate 2048 0))
      (accepted_late [.arrive 0 get])).isSome := by
    decide +kernel
  obtain ⟨s, hrun⟩ := Option.isSome_iff_exists.mp hruns
  have hclosed : ∀ t ∈ (queueing still).run
      (Queueing.ctor (.expecting [framing get]) 0 () 2 (List.replicate 2048 0))
      (accepted_late [.arrive 0 get]), (t.server.slots[0]?).map (fun slot =>
        (slot.session.open_, slot.session.invoked)) = some (false, []) := by
    decide +kernel
  have hworks : ∀ t ∈ (queueing still).run
      (Queueing.ctor (.expecting [framing get]) 0 () 2 (List.replicate 2048 0))
      (accepted_late [.arrive 0 get]),
      ((queueing still).step t (.server (.session 0 (.read 0 get)))).map (fun t' =>
        (t'.server.slots[0]?).map fun slot => slot.session.invoked) = some (some [[]]) := by
    decide +kernel
  refine ⟨s, hrun, fun hrests => ?_⟩
  obtain ⟨slot, hslot, heq⟩ := Option.map_eq_some_iff.mp (hclosed s hrun)
  obtain ⟨hopen, hinvoked⟩ := Prod.mk.inj heq
  obtain ⟨s', hstep, hafter⟩ := Option.map_eq_some_iff.mp (hworks s hrun)
  obtain ⟨slot', hslot', hsame, -⟩ := hrests 0 slot s' hslot hopen hstep
  rw [hslot', Option.map_some, hsame, hinvoked] at hafter
  cases hafter

section Works

variable {P : HttpParser} {W : Type} {h : Handler W} {s s₁ : Queueing P W} {e : QueueEvent W}

/-- A closed session that is still owned, with bytes queued for its pending read that
complete a message. -/
structure ClosedUnread (s : Queueing P W) (i : ℕ) (slot : Slot P) (bytes : Bytes) : Prop where
  present : s.server.slots[i]? = some slot
  quiet : s.server.threw = false
  closed : slot.session.open_ = false
  owned : slot.session.owned = true
  buffered : slot.session.Buffered
  reads : slot.session.reads = [(slot.session.pos_, max_length - slot.session.pos_)]
  queued : s.queued i = some bytes
  pos : 1 ≤ bytes.length
  len : bytes.length ≤ max_length - slot.session.pos_
  completes : completed P slot.session.parser_ bytes ≠ 0

variable {i : ℕ} {slot : Slot P} {bytes : Bytes}

/-- No handler has thrown in a session of a server in which none has. -/
theorem session_quiet (hthrew : s.server.threw = false) (hslot : s.server.slots[i]? = some slot) :
    slot.session.threw = false := by
  apply Bool.eq_false_iff.mpr
  exact List.any_eq_false.mp hthrew slot (List.mem_of_getElem? hslot)

/-- Its handler can come next. -/
theorem ClosedUnread.handled (hs : ClosedUnread s i slot bytes) :
    ∃ s', (queueing h).step s (.server (.session i (.read 0 bytes))) = some s' := by
  have hsession : slot.session.step h s.server.now s.server.world (.read 0 bytes) = _ :=
    read_step hs.buffered (session_quiet hs.quiet hs.present) hs.owned hs.reads hs.pos hs.len
  have hdue : (ServerEvent.session i (.read 0 bytes) : ServerEvent W).Due s.queued := hs.queued
  simp only [queueing, if_pos hdue, server, hs.quiet, hs.present, hsession]
  exact ⟨_, rfl⟩

/-- It calls the handler of the closed session. -/
theorem ClosedUnread.works (hs : ClosedUnread s i slot bytes) :
    ¬ Rests h s (.server (.session i (.read 0 bytes))) := by
  intro hrests
  obtain ⟨s', hstep⟩ := hs.handled (h := h)
  obtain ⟨slot', hslot', hsame, -⟩ := hrests i slot s' hs.present hs.closed hstep
  obtain ⟨server', hserver, rfl⟩ := server_of_step hstep
  obtain ⟨w', session, hsession, hslots⟩ := session_of_server hs.present hserver
  obtain rfl : slot' = { slot with session := session } := by
    apply Option.some.inj
    rw [← hslot', hslots]
    exact List.getElem?_set_self (List.getElem?_eq_some_iff.mp hs.present).1
  obtain ⟨inv, wr, hread, hn⟩ := read_fields hs.buffered hs.owned
    (session_quiet hs.quiet hs.present) hs.reads hs.pos hs.len hsession
  have hinvoked : session.invoked = slot.session.invoked := hsame
  rw [hread.invoked, List.append_right_eq_self] at hinvoked
  rw [hinvoked, List.length_nil] at hn
  rcases hn with ⟨-, hn, -⟩ | ⟨-, -, hn⟩
  · exact hs.completes hn.symm
  · omega

/-- The timer's handler closes a session that `OnAccept` holds, and leaves its read
pending. -/
theorem unread_of_close (hs : s.Quiet h) (hbad : ¬ ClosesUnread s e)
    (hstep : (queueing h).step s e = some s₁) :
    ∃ i slot bytes, ClosedUnread s₁ i slot bytes := by
  simp only [ClosesUnread, not_forall] at hbad
  obtain ⟨i, ec, slot, bytes, rfl, hslot, hopen, hheld, hqueued, hsome⟩ := hbad
  obtain ⟨server', hserver, rfl⟩ := server_of_step hstep
  obtain ⟨w', session, hsession, hslots⟩ := session_of_server hslot hserver
  have hmem := List.mem_of_getElem? hslot
  have htracked := hs.tracked slot hmem
  have hstarted := htracked.started (by simp) hsession
  have hb := ((hs.served slot hmem).replying hstarted).buffered
  obtain ⟨off, size, reads, hpending, hpos, hlen⟩ := (hs.quieted i slot hslot).pending bytes hqueued
  -- the session is closed
  have hset : slot.session.in_set = true := by
    rw [htracked.set, Stage.inserted_of_started hstarted, hopen]
    rfl
  have hcancelled : slot.session.cancelled = false := by
    by_contra hcancelled
    have hclosed := htracked.cancelled (Bool.eq_true_of_not_eq_false hcancelled)
    exact absurd (hclosed.symm.trans hopen) (by decide)
  have hclosed' := (closed_of_timer hset hcancelled hsession).1
  have hheld' : session.held = true := (step_timed (by simp) hsession).held.trans hheld
  -- its read and its parser are as before
  obtain ⟨hreads', hparser'⟩ := step_no_read (by simp) hsession
  obtain ⟨hthrew, ⟨bytes', hread, -⟩ | ⟨-, hq, -⟩⟩ := step_cases hb hsession
  · cases hread
  have hb' : session.Buffered := hb.quiet hq
  have hreads : session.reads = [(session.pos_, max_length - session.pos_)] := by
    rcases hb'.reads with hnone | hone
    · rw [hnone, hpending] at hreads'
      cases hreads'
    · exact hone
  have hroom : bytes.length ≤ max_length - session.pos_ := by
    rw [hreads', hpending] at hreads
    obtain ⟨-, rfl⟩ := Prod.mk.inj (List.cons.inj hreads).1
    exact hlen
  refine ⟨i, { slot with session := session }, bytes, ?_, ?_, hclosed', ?_, hb', hreads, hqueued,
    hpos, hroom, ?_⟩
  · show server'.slots[i]? = some _
    rw [hslots]
    exact List.getElem?_set_self (List.getElem?_eq_some_iff.mp hslot).1
  · apply List.any_eq_false.mpr
    intro t ht
    rw [hslots] at ht
    rcases List.mem_or_eq_of_mem_set ht with ht | rfl
    · exact List.any_eq_false.mp (threw_of_server hserver) t ht
    · show ¬ session.threw = true
      rw [hq.threw, hthrew]
      exact Bool.false_ne_true
  · show session.owned = true
    rw [http_session.owned, hheld', Bool.or_true]
  · show completed P session.parser_ bytes ≠ 0
    rw [hparser']
    exact hsome

/-- **An unread close is followed by work.** When the timer closes a session that
`OnAccept` still holds while a completed read waits to complete a message, the handler
of that read, if it comes next, calls the handler of the closed session. -/
theorem works_after_unread_close {now : ℕ} {w : W} {threadnum : ℕ} {data_ : Bytes}
    (hdata : data_.length = max_length) {es : List (QueueEvent W)}
    (hes : (queueing h).Along ClosesUnread (Queueing.ctor P now w threadnum data_) es)
    (hrun : (queueing h).run (Queueing.ctor P now w threadnum data_) es = some s)
    (hbad : ¬ ClosesUnread s e) (hstep : (queueing h).step s e = some s₁) :
    ∃ i bytes, ¬ Rests h s₁ (.server (.session i (.read 0 bytes))) := by
  have hs := run_quiet hdata hes hrun
  obtain ⟨i, slot, bytes, hunread⟩ := unread_of_close hs hbad hstep
  exact ⟨i, bytes, hunread.works⟩

end Works

end MyWarehouse

/-
The 30 seconds of a connection.

The timer of a session is built with 30 seconds when the session is constructed, which
`do_accept` does to have a socket to accept on; `start` waits on the timer and leaves
its expiry alone. So the seconds run from the previous accept on, and what is left of
them when a client connects is what it gets: `closes_in_time` for servers whose
sessions start at once, and `closes_early` for every other.
-/
import MyWarehouse.Serving
import MyWarehouse.HttpMessage

set_option autoImplicit false

namespace MyWarehouse

open http_session

section Limit

variable {P : HttpParser} {W : Type} {h : Handler W} {s s' : http_server P W} {e : ServerEvent W}

/-- A wait that is over and closes its session does so 30 seconds after the session
was started, or later. -/
def ClosesInTime (s : http_server P W) (e : ServerEvent W) : Prop :=
  ∀ i ec slot, e = .session i (.timer ec) → s.slots[i]? = some slot →
    ec ≠ operation_aborted → slot.session.owned = true →
    slot.session.started + seconds 30 ≤ s.now

/-- A session is started in the instant in which it was constructed. -/
def StartsAtOnce (s : http_server P W) (e : ServerEvent W) : Prop :=
  ∀ i data_ slot, e = .OnAccept i data_ → s.slots[i]? = some slot → slot.stage = .starting →
    s.now = slot.constructed

instance (s : http_server P W) (e : ServerEvent W) : Decidable (ClosesInTime s e) :=
  match e with
  | .session i (.timer ec) => decidable_of_iff
      (∀ slot ∈ s.slots[i]?, ec ≠ operation_aborted → slot.session.owned = true →
        slot.session.started + seconds 30 ≤ s.now)
      ⟨by rintro hall _ _ slot ⟨⟩ hslot; exact hall slot hslot,
        fun hall slot hslot => hall i ec slot rfl hslot⟩
  | .session _ (.read _ _) => isTrue (by rintro _ _ _ ⟨⟩)
  | .session _ (.write_done _) => isTrue (by rintro _ _ _ ⟨⟩)
  | .session _ .release => isTrue (by rintro _ _ _ ⟨⟩)
  | .tick _ => isTrue (by rintro _ _ _ ⟨⟩)
  | .elsewhere _ _ => isTrue (by rintro _ _ _ ⟨⟩)
  | .accepted _ _ => isTrue (by rintro _ _ _ ⟨⟩)
  | .OnAccept _ _ => isTrue (by rintro _ _ _ ⟨⟩)

instance (s : http_server P W) (e : ServerEvent W) : Decidable (StartsAtOnce s e) :=
  match e with
  | .OnAccept i data_ => decidable_of_iff
      (∀ slot ∈ s.slots[i]?, slot.stage = .starting → s.now = slot.constructed)
      ⟨by rintro hall _ _ slot ⟨⟩ hslot; exact hall slot hslot,
        fun hall slot hslot => hall i data_ slot rfl hslot⟩
  | .session _ _ => isTrue (by rintro _ _ _ ⟨⟩)
  | .tick _ => isTrue (by rintro _ _ _ ⟨⟩)
  | .elsewhere _ _ => isTrue (by rintro _ _ _ ⟨⟩)
  | .accepted _ _ => isTrue (by rintro _ _ _ ⟨⟩)

/-- The timer has the expiry it was built with, and a wait on it was started 30 seconds
before it, or earlier. -/
structure Slot.InTime (slot : Slot P) : Prop where
  timer_ : slot.session.timer_ = slot.constructed + seconds 30
  started : 0 < slot.session.waits → slot.session.started + seconds 30 ≤ slot.session.timer_

/-- A step of a slot keeps this, when a session is started at once. -/
theorem Slot.Step.inTime {now i : ℕ} {w w' : W} {slot slot' : Slot P} {added : List (Slot P)}
    (hmove : slot.Step h now w i e w' slot' added)
    (hstart : ∀ data_, e = .OnAccept i data_ → slot.stage = .starting → now = slot.constructed)
    (hslot : slot.InTime) : slot'.InTime ∧ ∀ new ∈ added, new.InTime := by
  rcases hmove with
    ⟨ec, -⟩ | ⟨data_, io, -, -⟩ | ⟨data_, ec, -, -⟩ | ⟨data_, -⟩ | ⟨data_, hstage⟩ |
    ⟨data_, -⟩ | ⟨data_, -⟩ | ⟨e, w', session, he, hstep⟩
  case do_accept =>
    refine ⟨⟨hslot.timer_, hslot.started⟩, ?_⟩
    intro new hnew
    rw [List.mem_singleton.mp hnew]
    exact ⟨rfl, fun hwaits => absurd hwaits (Nat.lt_irrefl 0)⟩
  case start_wait =>
    refine ⟨⟨hslot.timer_, fun _ => ?_⟩, by simp⟩
    have hnow := hstart data_ rfl hstage
    show now + seconds 30 ≤ slot.session.timer_
    rw [hslot.timer_, hnow]
  case session =>
    obtain ⟨htimer, hstarted, hwaits, -⟩ := http_session.step_timed he hstep
    refine ⟨⟨htimer.trans hslot.timer_, fun hpos => ?_⟩, by simp⟩
    have hle := hslot.started (Nat.lt_of_lt_of_le hpos hwaits)
    show session.started + seconds 30 ≤ session.timer_
    rw [htimer, hstarted]
    exact hle
  all_goals exact ⟨⟨hslot.timer_, hslot.started⟩, by simp⟩

theorem inTime_step (hs : ∀ slot ∈ s.slots, slot.InTime) (he : StartsAtOnce s e)
    (hstep : (server h).step s e = some s') : ∀ slot ∈ s'.slots, slot.InTime := by
  apply slots_step (I := fun _ _ slot => slot.InTime) (fun _ _ _ _ _ _ hslot => hslot) ?_ hs hstep
  intro i slot slot' added hslot hmove _ hin
  exact hmove.inTime (fun data_ heq hstage => he i data_ slot heq hslot hstage) hin

/-- A wait that is over on a timer that is in time closes in time. -/
theorem closesInTime_of_inTime (hs : ∀ slot ∈ s.slots, slot.InTime)
    (hstep : (server h).step s e = some s') : ClosesInTime s e := by
  rintro i ec slot rfl hslot hec howned
  have hin := hs slot (List.mem_of_getElem? hslot)
  obtain ⟨w, session, hsession, -⟩ := session_of_server hslot hstep
  obtain ⟨hwaits, haborted | hexpired⟩ := http_session.timer_step hsession
  · exact absurd haborted hec
  · have hstarted := hin.started hwaits
    omega

end Limit

/-- **The limit counts from the connection when sessions start at once.** In every run
of the server in which every session is started in the instant in which it was
constructed, no wait closes a session earlier than 30 seconds after its start. -/
theorem closes_in_time {P : HttpParser} {W : Type} (h : Handler W) (now : ℕ) (w : W)
    (threadnum : ℕ) (data_ : Bytes) (es : List (ServerEvent W))
    (hes : (server h).Along StartsAtOnce (http_server.ctor P now w threadnum data_) es) :
    (server h).Along ClosesInTime (http_server.ctor P now w threadnum data_) es := by
  apply Transition.along_mono (P := fun s => ∀ slot ∈ s.slots, slot.InTime)
    (fun _ _ _ hs he hstep => inTime_step hs he hstep)
    (fun _ _ _ hs _ hstep => closesInTime_of_inTime hs hstep) ?_ hes
  intro slot hslot
  rw [show slot = ⟨.accepting, 0, now, .ctor P now data_⟩ from List.mem_singleton.mp hslot]
  exact ⟨rfl, fun hwaits => absurd hwaits (Nat.lt_irrefl 0)⟩

/-- A connection right after the constructor of the server, and the end of its 30
seconds. -/
theorem closes_in_time_at_once :
    (server still).Along ClosesInTime
      (http_server.ctor (.expecting []) 0 () 2 (List.replicate 2048 0))
      [.accepted 0 0, .OnAccept 0 (List.replicate 2048 0), .OnAccept 0 [], .OnAccept 0 [],
        .OnAccept 0 [], .OnAccept 0 [], .tick (seconds 30), .session 0 (.timer 0)] :=
  closes_in_time still 0 () 2 (List.replicate 2048 0)
    [.accepted 0 0, .OnAccept 0 (List.replicate 2048 0), .OnAccept 0 [], .OnAccept 0 [],
      .OnAccept 0 [], .OnAccept 0 [], .tick (seconds 30), .session 0 (.timer 0)]
    (by decide +kernel)

/-- The same after the server has been idle for 25 seconds: the session is closed 5
seconds after its start. -/
theorem not_closes_in_time_after_idle :
    ¬ (server still).Along ClosesInTime
      (http_server.ctor (.expecting []) 0 () 2 (List.replicate 2048 0))
      [.tick (seconds 25), .accepted 0 0, .OnAccept 0 (List.replicate 2048 0), .OnAccept 0 [],
        .OnAccept 0 [], .OnAccept 0 [], .OnAccept 0 [], .tick (seconds 5),
        .session 0 (.timer 0)] := by
  decide +kernel

/-! ## A session that starts later -/

/-- A step of a slot does not change when its session was constructed, and a session
that is added has just been constructed. -/
theorem Slot.Step.constructed {P : HttpParser} {W : Type} {h : Handler W} {now i : ℕ} {w w' : W}
    {e : ServerEvent W} {slot slot' : Slot P} {added : List (Slot P)}
    (hmove : slot.Step h now w i e w' slot' added) :
    slot'.constructed = slot.constructed ∧ ∀ new ∈ added, new.constructed = now := by
  rcases hmove with _ | _ | _ | _ | _ | _ | _ | _
  case do_accept => exact ⟨rfl, by simp⟩
  all_goals exact ⟨rfl, by simp⟩

section Late

variable {P : HttpParser} {W : Type} {h : Handler W} {s : http_server P W}

theorem run_constructed {now : ℕ} {w : W} {threadnum : ℕ} {data_ : Bytes}
    {es : List (ServerEvent W)}
    (hrun : (server h).run (http_server.ctor P now w threadnum data_) es = some s) :
    ∀ slot ∈ s.slots, slot.constructed ≤ s.now := by
  refine Transition.invariant (P := fun s : http_server P W =>
    ∀ slot ∈ s.slots, slot.constructed ≤ s.now) (fun s e s' hs hstep => ?_) ?_ hrun
  · apply slots_step (I := fun now _ slot => slot.constructed ≤ now) ?_ ?_ hs hstep
    · intro now now' w w' slot hnow hslot
      omega
    · intro i slot slot' added _ hmove _ hslot
      obtain ⟨hsame, hnew⟩ := hmove.constructed
      exact ⟨hsame.le.trans hslot, fun new hadded => (hnew new hadded).le⟩
  · intro slot hslot
    rw [show slot = ⟨.accepting, 0, now, .ctor P now data_⟩ from List.mem_singleton.mp hslot]
    exact le_refl now

/-- The wait of a session is started. -/
theorem wait_starts (hthrew : s.threw = false) {i : ℕ} {slot : Slot P}
    (hslot : s.slots[i]? = some slot) (hstage : slot.stage = .starting) :
    ∃ s₁, (server h).step s (.OnAccept i []) = some s₁ ∧ s₁.threw = false ∧ s₁.now = s.now ∧
      s₁.slots[i]? = some { slot with
        stage := .reading, session := slot.session.start_wait s.now } := by
  refine ⟨(s.put i { slot with
    stage := .reading, session := slot.session.start_wait s.now }).settle, ?_, ?_, rfl, ?_⟩
  · simp only [server, hthrew, hslot, http_server.OnAccept, hstage]
    rfl
  · apply List.any_eq_false.mpr
    intro t ht
    rcases List.mem_or_eq_of_mem_set ht with ht | rfl
    · exact List.any_eq_false.mp hthrew t ht
    · exact List.any_eq_false.mp hthrew slot (List.mem_of_getElem? hslot)
  · exact List.getElem?_set_self (List.getElem?_eq_some_iff.mp hslot).1

/-- **A session that starts later can be closed too early.** When a session is about to
be started after the instant in which it was constructed, its timer can expire less
than 30 seconds after the start, and the wait on it then closes the session. -/
theorem closes_early {now : ℕ} {w : W} {threadnum : ℕ} {data_ : Bytes}
    (hdata : data_.length = max_length) {es : List (ServerEvent W)}
    (hrun : (server h).run (http_server.ctor P now w threadnum data_) es = some s)
    (hthrew : s.threw = false) {i : ℕ} {slot : Slot P} (hslot : s.slots[i]? = some slot)
    (hstage : slot.stage = .starting) (hlate : s.now ≠ slot.constructed) :
    ∃ es', ¬ (server h).Along ClosesInTime s es' := by
  have hmem : slot ∈ s.slots := List.mem_of_getElem? hslot
  have hle := run_constructed hrun slot hmem
  have hserved := run_served hdata hrun slot hmem
  unfold Slot.Served at hserved
  rw [hstage] at hserved
  obtain ⟨data', -, hsession⟩ := hserved
  have htimer : slot.session.timer_ = slot.constructed + seconds 30 := by rw [hsession, ctor]
  have howned : slot.session.owned = true := by
    rw [hsession]
    rfl
  -- the timer expires after less than the 30 seconds
  obtain ⟨d, hd, hsoon⟩ : ∃ d, slot.constructed + seconds 30 ≤ s.now + d ∧ d < seconds 30 := by
    refine ⟨slot.constructed + seconds 30 - s.now, by omega, ?_⟩
    have hpos : 0 < seconds 30 := Nat.mul_pos (by omega) (by omega)
    omega
  obtain ⟨s₁, hstart, hthrew₁, hnow₁, hslot₁⟩ := wait_starts (h := h) hthrew hslot hstage
  have htick : (server h).step s₁ (.tick d) = some { s₁ with now := s₁.now + d } := by
    simp only [server, hthrew₁]
    rfl
  have hexpired : slot.session.timer_ ≤ s₁.now + d := by
    rw [htimer, hnow₁]
    exact hd
  obtain ⟨s₃, hclose⟩ := wait_over (h := h) (s := { s₁ with now := s₁.now + d }) hthrew₁ hslot₁
    (Nat.succ_pos _) hexpired
  refine ⟨[.OnAccept i [], .tick d, .session i (.timer 0)], ?_⟩
  rw [Transition.along_cons hstart, Transition.along_cons htick, Transition.along_cons hclose]
  rintro ⟨-, -, hintime, -⟩
  have hclosed : s.now + seconds 30 ≤ s₁.now + d :=
    hintime i 0 _ rfl hslot₁ (by decide) howned
  omega

end Late

end MyWarehouse

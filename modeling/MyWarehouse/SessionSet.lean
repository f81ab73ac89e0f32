/-
The set of sessions of the server.

`http_server::session_` is what keeps a session alive once `OnAccept` has returned:
every completion handler holds a `weak_ptr`. A session comes into the set in `OnAccept`
and leaves it in `close`, and nothing else touches the set.

What closes a session in the end is the wait on its timer. It is cancelled in one place,
the handler of a completed write, which closes the session in the same breath; so a
session that is still in the set has its wait pending, and not cancelled.
-/
import MyWarehouse.HttpServer
import MyWarehouse.HttpMessage

set_option autoImplicit false

namespace MyWarehouse

open http_session

/-! ## What a step does to the socket, the set and the wait -/

namespace http_session

variable {P : HttpParser} {W : Type} {h : Handler W} {s : http_session P} {w : W}

/-- The session was closed, or its socket, its place in the set and its timer are as
they were. -/
def Kept (s s' : http_session P) : Prop :=
  s'.open_ = false ∧ s'.in_set = false ∨
    s'.open_ = s.open_ ∧ s'.in_set = s.in_set ∧ s'.cancelled = s.cancelled ∧ s'.waits = s.waits

/-- Closing a session that is closed and out of the set changes nothing. -/
theorem close_closed (hopen : s.open_ = false) (hset : s.in_set = false) : s.close = s := by
  cases s
  cases hopen
  cases hset
  rfl

theorem advance_kept (s : http_session P) (length : ℕ) : Kept s (s.advance length) := by
  obtain ⟨-, heq⟩ | ⟨-, -, heq⟩ | ⟨-, -, heq⟩ := advance_cases s length
  · rw [heq]
    exact Or.inr ⟨rfl, rfl, rfl, rfl⟩
  · rw [heq]
    exact Or.inl ⟨rfl, rfl⟩
  · rw [heq]
    exact Or.inr ⟨rfl, rfl, rfl, rfl⟩

theorem onRead_kept (h : Handler W) (w : W) (s : http_session P) (hs : s.threw = false)
    (ec : error_code) (length : ℕ) : Kept s (s.onRead h w ec length).2 := by
  obtain heq | ⟨parser_, rq, r, inv, wr, threw, heq | heq⟩ := onRead_cases h w s hs ec length
  · rw [heq]
    exact Or.inl ⟨rfl, rfl⟩
  · rw [heq]
    exact Or.inr ⟨rfl, rfl, rfl, rfl⟩
  · rw [heq]
    exact advance_kept (served { s with parser_ := parser_ } rq r inv wr threw) length

/-- A step keeps the socket, the set and the timer, or closes the session, or takes a
wait away that was cancelled or whose session has no owner. -/
theorem step_kept {now : ℕ} {e : SessionEvent} {w' : W} {s' : http_session P}
    (he : e ≠ .release) (hstep : s.step h now w e = some (w', s')) :
    Kept s s' ∨ (s.cancelled = true ∨ s.owned = false) ∧
      s'.open_ = s.open_ ∧ s'.in_set = s.in_set ∧ s'.cancelled = s.cancelled := by
  obtain ⟨hs, hhandled⟩ := handled_of_step hstep
  cases hhandled with
  | read ec bytes off size reads =>
    left
    exact onRead_kept h w
      { s with reads := reads, data_ := store s.data_ off bytes } hs ec bytes.length
  | read_lost | write_lost => exact Or.inl (Or.inr ⟨rfl, rfl, rfl, rfl⟩)
  -- `onWrite` closes the session whatever its result
  | write_done => exact Or.inl (Or.inl ⟨rfl, rfl⟩)
  | timer => exact Or.inl (Or.inl ⟨rfl, rfl⟩)
  -- the handler of an aborted wait does nothing
  | timer_aborted _ _ _ hlost => exact Or.inr ⟨hlost, rfl, rfl, rfl⟩
  | timer_lost _ _ _ _ howned => exact Or.inr ⟨Or.inr howned, rfl, rfl, rfl⟩
  | release => exact absurd rfl he

end http_session

/-! ## The stages of a session -/

/-- `OnAccept` has put the session into the set. -/
def Stage.inserted : Stage → Bool
  | .starting | .reading | .returning | .running => true
  | _ => false

/-- `start` has begun: the wait on the timer was started. -/
def Stage.started : Stage → Bool
  | .reading | .returning | .running => true
  | _ => false

theorem Stage.inserted_of_started {stage : Stage} (hstage : stage.started = true) :
    stage.inserted = true := by
  rcases stage with _ | ec | _ | _ | _ | _ | _ | _
  case reading => rfl
  case returning => rfl
  case running => rfl
  all_goals cases hstage

/-- The invariant of a slot. A session that was not started has nothing to handle and is
open; one that was inserted is in the set as long as it is open; the wait on the timer
of an open session is pending, and not cancelled. -/
structure Slot.Tracked {P : HttpParser} (slot : Slot P) : Prop where
  before : slot.stage.started = false → slot.session.reads = [] ∧ slot.session.writes = 0 ∧
    slot.session.waits = 0 ∧ slot.session.open_ = true
  set : slot.session.in_set = (slot.stage.inserted && slot.session.open_)
  cancelled : slot.session.cancelled = true → slot.session.open_ = false
  waits : slot.stage.started = true → slot.session.open_ = true → 0 < slot.session.waits

section Steps

variable {P : HttpParser} {W : Type} {h : Handler W} {s s' : http_server P W} {e : ServerEvent W}

/-- Only a session that was started handles completions. -/
theorem Slot.Tracked.started {slot : Slot P} (hslot : slot.Tracked) {now : ℕ} {w w' : W}
    {e : SessionEvent} {session : http_session P} (he : e ≠ .release)
    (hstep : slot.session.step h now w e = some (w', session)) : slot.stage.started = true := by
  by_contra hstarted
  obtain ⟨hreads, hwrites, hwaits, -⟩ := hslot.before (Bool.eq_false_iff.mpr hstarted)
  have hnone : slot.session.step h now w e = none := step_none hreads hwrites hwaits he
  rw [hnone] at hstep
  cases hstep

/-- A session keeps the invariant of its slot. -/
theorem Slot.Tracked.session {slot : Slot P} (hslot : slot.Tracked) {now : ℕ} {w w' : W}
    {e : SessionEvent} {session : http_session P} (he : e ≠ .release)
    (hstep : slot.session.step h now w e = some (w', session)) :
    ({ slot with session := session } : Slot P).Tracked := by
  have hstarted := hslot.started he hstep
  have hinserted := Stage.inserted_of_started hstarted
  refine ⟨fun hbefore => absurd (hstarted.symm.trans hbefore) (by decide), ?_, ?_, ?_⟩
  all_goals
    obtain (⟨hopen, hset⟩ | ⟨hopen, hset, hcancelled, hwaits⟩) | ⟨hlost, hopen, hset, hcancelled⟩ :=
      step_kept he hstep
  · show session.in_set = (slot.stage.inserted && session.open_)
    rw [hset, hopen, Bool.and_false]
  · show session.in_set = (slot.stage.inserted && session.open_)
    rw [hset, hopen, hslot.set]
  · show session.in_set = (slot.stage.inserted && session.open_)
    rw [hset, hopen, hslot.set]
  · exact fun _ => hopen
  · intro hc
    exact hopen.trans (hslot.cancelled (hcancelled ▸ hc))
  · intro hc
    exact hopen.trans (hslot.cancelled (hcancelled ▸ hc))
  · intro _ hopen'
    exact absurd (hopen.symm.trans hopen') (by decide)
  · intro _ hopen'
    show 0 < session.waits
    rw [hwaits]
    exact hslot.waits hstarted (hopen.symm.trans hopen')
  · intro _ hopen'
    -- an open session is in the set, and its wait is not cancelled
    exfalso
    have hopen₀ : slot.session.open_ = true := hopen.symm.trans hopen'
    rcases hlost with hc | howned
    · exact absurd ((hslot.cancelled hc).symm.trans hopen₀) (by decide)
    · have hset₀ : slot.session.in_set = true := by
        rw [hslot.set, hinserted, hopen₀]
        rfl
      rw [http_session.owned, hset₀] at howned
      cases howned

/-- **A step of a slot** keeps the invariant, and a slot that is added has it. -/
theorem Slot.Step.tracked {now i : ℕ} {w w' : W} {slot slot' : Slot P} {added : List (Slot P)}
    (hmove : slot.Step h now w i e w' slot' added) (hslot : slot.Tracked) :
    slot'.Tracked ∧ ∀ new ∈ added, new.Tracked := by
  rcases hmove with
    ⟨ec, hstage⟩ | ⟨data_, io, hstage, -⟩ | ⟨data_, ec, hstage, -⟩ | ⟨data_, hstage⟩ |
    ⟨data_, hstage⟩ | ⟨data_, hstage⟩ | ⟨data_, hstage⟩ | ⟨e, w', session, he, hstep⟩
  case session => exact ⟨hslot.session he hstep, by simp⟩
  all_goals
    have hbefore := hslot.before
    have hset := hslot.set
    have hwaits := hslot.waits
    rw [hstage] at hbefore hset hwaits
  case accepted =>
    exact ⟨⟨fun _ => hbefore rfl, hset, hslot.cancelled, by rintro ⟨⟩⟩, by simp⟩
  case do_accept =>
    refine ⟨⟨fun _ => hbefore rfl, hset, hslot.cancelled, by rintro ⟨⟩⟩, ?_⟩
    intro new hnew
    rw [List.mem_singleton.mp hnew]
    exact ⟨fun _ => ⟨rfl, rfl, rfl, rfl⟩, rfl, by rintro ⟨⟩, by rintro ⟨⟩⟩
  case reject =>
    exact ⟨⟨fun _ => hbefore rfl, hset, hslot.cancelled, by rintro ⟨⟩⟩, by simp⟩
  case insert =>
    -- it is still open: nothing of it could be handled before
    obtain ⟨hreads, hwrites, hnowaits, hopen⟩ := hbefore rfl
    refine ⟨⟨fun _ => ⟨hreads, hwrites, hnowaits, hopen⟩, ?_, hslot.cancelled, by rintro ⟨⟩⟩,
      by simp⟩
    show true = (true && slot.session.open_)
    rw [hopen]
    rfl
  case start_wait =>
    exact ⟨⟨by rintro ⟨⟩, hset, hslot.cancelled, fun _ _ => Nat.succ_pos _⟩, by simp⟩
  case do_read => exact ⟨⟨by rintro ⟨⟩, hset, hslot.cancelled, hwaits⟩, by simp⟩
  case returns => exact ⟨⟨by rintro ⟨⟩, hset, hslot.cancelled, hwaits⟩, by simp⟩

theorem tracked_step (hs : ∀ slot ∈ s.slots, slot.Tracked)
    (hstep : (server h).step s e = some s') : ∀ slot ∈ s'.slots, slot.Tracked := by
  apply slots_step (I := fun _ _ slot => slot.Tracked) (fun _ _ _ _ _ _ hslot => hslot) ?_ hs hstep
  intro i slot slot' added _ hmove _ hslot
  exact hmove.tracked hslot

theorem ctor_tracked (P : HttpParser) {W : Type} (now : ℕ) (w : W) (threadnum : ℕ)
    (data_ : Bytes) : ∀ slot ∈ (http_server.ctor P now w threadnum data_).slots, slot.Tracked := by
  intro slot hslot
  rw [show slot = ⟨.accepting, 0, now, .ctor P now data_⟩ from List.mem_singleton.mp hslot]
  exact ⟨fun _ => ⟨rfl, rfl, rfl, rfl⟩, rfl, by rintro ⟨⟩, by rintro ⟨⟩⟩

end Steps

/-! ## No session leaks -/

section Leaks

variable {P : HttpParser} {W : Type} {h : Handler W} {s s' : http_server P W} {e : ServerEvent W}

/-- What keeps the session in slot `i` from leaking.

* `set`: it is in the set from `insert` on until it is closed.
* `insert`: it is not in the set when `OnAccept` inserts it.
* `again`: closing it again changes nothing.
* `cancelled`: once its timer is cancelled it is closed.
* `wait`: while a started session is in the set the wait on its timer is pending, and
  was not cancelled.
* `closes`: whatever the wait ends with, its handler closes the session.
* `ends`: unless a handler has thrown, the wait can end, after some time. -/
structure Slot.NoLeak (h : Handler W) (s : http_server P W) (i : ℕ) (slot : Slot P) : Prop where
  set : slot.session.in_set = true ↔ slot.stage.inserted = true ∧ slot.session.open_ = true
  insert : slot.stage = .inserting → slot.session.in_set = false
  again : slot.session.open_ = false → slot.session.close = slot.session
  cancelled : slot.session.cancelled = true → slot.session.open_ = false
  wait : slot.stage.started = true → slot.session.in_set = true →
    0 < slot.session.waits ∧ slot.session.cancelled = false
  closes : slot.stage.started = true → slot.session.in_set = true → ∀ ec s',
    (server h).step s (.session i (.timer ec)) = some s' →
    ∃ slot', s'.slots[i]? = some slot' ∧ slot'.session.open_ = false ∧ slot'.session.in_set = false
  ends : slot.stage.started = true → slot.session.in_set = true → s.threw = false →
    ∃ d s', (server h).run s [.tick d, .session i (.timer 0)] = some s'

/-- A session that is closed stays closed, and out of the set. -/
def StaysClosed (h : Handler W) (s : http_server P W) (e : ServerEvent W) : Prop :=
  ∀ (i : ℕ) (slot : Slot P) (s' : http_server P W), s.slots[i]? = some slot →
    slot.session.open_ = false → (server h).step s e = some s' →
    ∃ slot' : Slot P, s'.slots[i]? = some slot' ∧ slot'.session.open_ = false ∧
      slot'.session.in_set = false

/-- The handler of the wait closes a session whose timer was not cancelled. -/
theorem closed_of_timer {now : ℕ} {w w' : W} {ec : error_code} {session session' : http_session P}
    (hset : session.in_set = true) (hcancelled : session.cancelled = false)
    (hstep : session.step h now w (.timer ec) = some (w', session')) :
    session'.open_ = false ∧ session'.in_set = false := by
  have howned : session.owned = true := by
    rw [http_session.owned, hset]
    rfl
  cases (handled_of_step hstep).2 with
  | timer => exact ⟨rfl, rfl⟩
  | timer_aborted _ _ _ hlost =>
    exfalso
    rcases hlost with hlost | hlost
    · rw [hcancelled] at hlost
      cases hlost
    · rw [howned] at hlost
      cases hlost
  | timer_lost _ _ _ _ hlost =>
    rw [howned] at hlost
    cases hlost

/-- The invariant is all that is needed. -/
theorem Slot.Tracked.noLeak {i : ℕ} {slot : Slot P} (hslot : slot.Tracked)
    (hi : s.slots[i]? = some slot) : slot.NoLeak h s i := by
  have hwait : slot.stage.started = true → slot.session.in_set = true →
      0 < slot.session.waits ∧ slot.session.cancelled = false := by
    intro hstarted hset
    rw [hslot.set, Bool.and_eq_true] at hset
    refine ⟨hslot.waits hstarted hset.2, ?_⟩
    by_contra hcancelled
    have hclosed := hslot.cancelled (Bool.eq_true_of_not_eq_false hcancelled)
    exact absurd (hclosed.symm.trans hset.2) (by decide)
  refine ⟨?_, ?_, ?_, hslot.cancelled, hwait, ?_, ?_⟩
  · rw [hslot.set, Bool.and_eq_true]
  · intro hstage
    rw [hslot.set, hstage]
    rfl
  · intro hclosed
    have hset : slot.session.in_set = false := by rw [hslot.set, hclosed, Bool.and_false]
    exact close_closed hclosed hset
  · intro hstarted hset ec s' hstep
    obtain ⟨w, session, hsession, hslots⟩ := session_of_server hi hstep
    refine ⟨{ slot with session := session }, ?_,
      closed_of_timer hset (hwait hstarted hset).2 hsession⟩
    rw [hslots]
    exact List.getElem?_set_self (List.getElem?_eq_some_iff.mp hi).1
  · -- the timer expires in time, and the wait on it is not cancelled
    intro hstarted hset hthrew
    have htick : (server h).step s (.tick slot.session.timer_)
        = some { s with now := s.now + slot.session.timer_ } := by
      simp only [server, hthrew]
      rfl
    obtain ⟨s', hs'⟩ := wait_over (h := h) (s := { s with now := s.now + slot.session.timer_ })
      hthrew hi (hwait hstarted hset).1 (Nat.le_add_left _ _)
    refine ⟨slot.session.timer_, s', ?_⟩
    rw [Transition.run_cons htick, Transition.run_cons hs']
    rfl

/-- Nothing opens a socket again. -/
theorem staysClosed (hs : ∀ slot ∈ s.slots, slot.Tracked) : StaysClosed h s e := by
  intro i slot s' hi hclosed hstep
  have hslot := hs slot (List.mem_of_getElem? hi)
  obtain ⟨slot', hi', hmove⟩ := slot_of_server hi hstep
  have hslot' := tracked_step hs hstep slot' (List.mem_of_getElem? hi')
  have hopen' : slot'.session.open_ = false := by
    rcases hmove with rfl | ⟨added, hmove⟩
    · exact hclosed
    rcases hmove.frame with ⟨e, session, -, he, hsession, rfl⟩ | ⟨hopen, -⟩
    · rcases step_kept he hsession with (⟨hopen, -⟩ | ⟨hopen, -⟩) | ⟨-, hopen, -⟩
      · exact hopen
      · exact hopen.trans hclosed
      · exact hopen.trans hclosed
    · exact hopen.trans hclosed
  refine ⟨slot', hi', hopen', ?_⟩
  rw [hslot'.set, hopen', Bool.and_false]

end Leaks

/-- **No session leaks.** In every state that the server can reach from its constructor,
for any parser, handler and order of events, every session is kept from leaking; and in
every run a session that is closed stays closed. -/
theorem no_session_leaks {P : HttpParser} {W : Type} (h : Handler W) (now : ℕ) (w : W)
    (threadnum : ℕ) (data_ : Bytes) (es : List (ServerEvent W)) (s : http_server P W)
    (hrun : (server h).run (http_server.ctor P now w threadnum data_) es = some s) :
    (∀ (i : ℕ) (slot : Slot P), s.slots[i]? = some slot → slot.NoLeak h s i) ∧
      (server h).Along (StaysClosed h) (http_server.ctor P now w threadnum data_) es := by
  have htracked : ∀ slot ∈ s.slots, slot.Tracked :=
    Transition.invariant (P := fun s : http_server P W => ∀ slot ∈ s.slots, slot.Tracked)
      (fun _ _ _ hs hstep => tracked_step hs hstep) (ctor_tracked P now w threadnum data_) hrun
  refine ⟨fun i slot hi => (htracked slot (List.mem_of_getElem? hi)).noLeak hi, ?_⟩
  exact Transition.along_of_invariant
    (P := fun s : http_server P W => ∀ slot ∈ s.slots, slot.Tracked)
    (fun _ _ _ hs hstep => tracked_step hs hstep) (fun _ _ _ hs _ => staysClosed hs)
    (ctor_tracked P now w threadnum data_)

/-- A session that was started is kept in the set by its wait. -/
theorem no_session_leaks_started :
    ∃ s, (server still).run (http_server.ctor (.expecting []) 0 () 2 (List.replicate 2048 0))
      [.accepted 0 0, .OnAccept 0 (List.replicate 2048 0), .OnAccept 0 [], .OnAccept 0 [],
        .OnAccept 0 [], .OnAccept 0 []] = some s ∧
      ∀ (i : ℕ) (slot : Slot (.expecting [])), s.slots[i]? = some slot → slot.NoLeak still s i := by
  have hruns : ((server still).run
      (http_server.ctor (.expecting []) 0 () 2 (List.replicate 2048 0))
      [.accepted 0 0, .OnAccept 0 (List.replicate 2048 0), .OnAccept 0 [], .OnAccept 0 [],
        .OnAccept 0 [], .OnAccept 0 []]).isSome := by
    decide +kernel
  obtain ⟨s, hrun⟩ := Option.isSome_iff_exists.mp hruns
  exact ⟨s, hrun, (no_session_leaks still 0 () 2 (List.replicate 2048 0) _ s hrun).1⟩

end MyWarehouse

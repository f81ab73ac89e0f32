/-
Every session that the server has started is a connection.

`OnAccept` starts a session while its completions are already handled elsewhere: the
timer can expire before the first read is issued, and the session can close before
`OnAccept` has let go of it. For the session this is no different from a start in one
piece followed by these events, which is what a `Connection` is. So what holds of every
run of a connection holds of every session of the server.
-/
import MyWarehouse.HttpServer

set_option autoImplicit false

namespace MyWarehouse

open http_session

section Serving

variable {P : HttpParser} {W : Type} {h : Handler W}

/-- The session is that of a connection, now and with this world, that was constructed
at `t₀`. -/
def Serves (h : Handler W) (now : ℕ) (w : W) (t₀ : ℕ) (session : http_session P) : Prop :=
  ∃ data_ now₀ w₀ es, data_.length = max_length ∧
    (connection h).run (Connection.start P t₀ now₀ data_ w₀) es = some ⟨now, w, session⟩

/-- What a session of the server looks like at each stage. While it is `reading`, that
is before `OnAccept` has issued the first read, it is a connection but for this
read. -/
def Slot.Served (h : Handler W) (now : ℕ) (w : W) (slot : Slot P) : Prop :=
  match slot.stage with
  | .accepting | .completed _ | .inserting =>
    ∃ data_, data_.length = max_length ∧ slot.session = ctor P slot.constructed data_
  | .starting => ∃ data_, data_.length = max_length ∧
      slot.session = { ctor P slot.constructed data_ with in_set := true }
  | .reading => slot.session.reads = [] ∧ slot.session.writes = 0 ∧
      Serves h now w slot.constructed slot.session.do_read
  | .returning | .running => Serves h now w slot.constructed slot.session
  | .rejected => True

/-- A connection goes on while time passes and the world changes. -/
theorem Serves.frame {now now' t₀ : ℕ} {w w' : W} {session : http_session P}
    (hs : Serves h now w t₀ session) (hnow : now ≤ now') : Serves h now' w' t₀ session := by
  obtain ⟨data_, now₀, w₀, es, hlen, hrun⟩ := hs
  refine ⟨data_, now₀, w₀, es ++ [.tick (now' - now), .elsewhere w'], hlen, ?_⟩
  apply Transition.run_append_iff.mpr
  refine ⟨_, hrun, ?_⟩
  have hsum : now + (now' - now) = now' := by omega
  simp only [Transition.run, connection, hsum]

/-- A connection takes a step of its session. -/
theorem Serves.step {now t₀ : ℕ} {w w' : W} {session session' : http_session P}
    {e : SessionEvent} (hs : Serves h now w t₀ session)
    (hstep : session.step h now w e = some (w', session')) : Serves h now w' t₀ session' := by
  obtain ⟨data_, now₀, w₀, es, hlen, hrun⟩ := hs
  refine ⟨data_, now₀, w₀, es ++ [.session e], hlen, ?_⟩
  apply Transition.run_append_iff.mpr
  refine ⟨_, hrun, ?_⟩
  have hconnection : (connection h).step ⟨now, w, session⟩ (.session e)
      = some ⟨now, w', session'⟩ := connection_step hstep
  rw [Transition.run_cons hconnection]
  rfl

/-- The return of `OnAccept`. -/
theorem Serves.returns {now t₀ : ℕ} {w : W} {session : http_session P}
    (hs : Serves h now w t₀ session) (hthrew : session.threw = false) :
    Serves h now w t₀ { session with held := false } := by
  by_cases hheld : session.held = true
  · apply hs.step (e := .release)
    unfold http_session.step
    rw [if_neg (by rw [hthrew]; exact Bool.false_ne_true)]
    simp only [if_pos hheld]
  · have hsame : ({ session with held := false } : http_session P) = session := by
      rw [← Bool.eq_false_iff.mpr hheld]
    rw [hsame]
    exact hs

/-- Before the first read is issued only the wait can be over, and the read may as well
have been issued before. -/
theorem step_do_read {now : ℕ} {w w' : W} {session session' : http_session P}
    {e : SessionEvent} (hreads : session.reads = []) (hwrites : session.writes = 0)
    (he : e ≠ .release) (hstep : session.step h now w e = some (w', session')) :
    session'.reads = [] ∧ session'.writes = 0 ∧
      session.do_read.step h now w e = some (w', session'.do_read) := by
  have hread : session.do_read.threw = session.threw := rfl
  have howned : ∀ s : http_session P, s.do_read.owned = s.owned := fun _ => rfl
  unfold http_session.step at hstep ⊢
  rw [hread]
  by_cases hthrew : session.threw = true
  · rw [if_pos hthrew] at hstep
    cases hstep
  rw [if_neg hthrew] at hstep ⊢
  rcases e with ⟨ec, bytes⟩ | ec | ec | _
  · simp only [hreads] at hstep
    cases hstep
  · simp only [hwrites, Nat.lt_irrefl, if_false] at hstep
    cases hstep
  · simp only at hstep ⊢
    split_ifs at hstep with hover hcloses
    · obtain ⟨rfl, rfl⟩ := Prod.mk.inj (Option.some.inj hstep)
      rw [if_pos (by exact hover), if_pos (by exact hcloses)]
      exact ⟨hreads, hwrites, rfl⟩
    · obtain ⟨rfl, rfl⟩ := Prod.mk.inj (Option.some.inj hstep)
      rw [if_pos (by exact hover), if_neg (by exact hcloses)]
      exact ⟨hreads, hwrites, rfl⟩
  · exact absurd rfl he

/-- A session that has not been started handles nothing; afterwards it goes on as a
connection does. -/
theorem Slot.Served.session {now : ℕ} {w w' : W} {slot : Slot P} {e : SessionEvent}
    {session : http_session P} (hslot : slot.Served h now w) (he : e ≠ .release)
    (hstep : slot.session.step h now w e = some (w', session)) :
    ({ slot with session := session } : Slot P).Served h now w' := by
  unfold Slot.Served at hslot ⊢
  have hnever : slot.session.reads = [] → slot.session.writes = 0 → slot.session.waits = 0 →
      False := by
    intro hreads hwrites hwaits
    rw [step_none hreads hwrites hwaits he] at hstep
    cases hstep
  rcases hstage : slot.stage with _ | ec | _ | _ | _ | _ | _ | _
  all_goals simp only [hstage] at hslot ⊢
  case reading =>
    obtain ⟨hreads, hwrites, hserves⟩ := hslot
    obtain ⟨hreads', hwrites', hstep'⟩ := step_do_read hreads hwrites he hstep
    exact ⟨hreads', hwrites', hserves.step hstep'⟩
  case returning => exact hslot.step hstep
  case running => exact hslot.step hstep
  all_goals
    obtain ⟨data_, -, hsession⟩ := hslot
    rw [hsession] at hnever
    exact (hnever rfl rfl rfl).elim

/-- **A step of a slot** keeps what a session looks like at its stage. -/
theorem Slot.Step.served {now i : ℕ} {w w' : W} {e : ServerEvent W} {slot slot' : Slot P}
    {added : List (Slot P)} (hmove : slot.Step h now w i e w' slot' added)
    (hthrew : slot.session.threw = false) (hslot : slot.Served h now w) :
    slot'.Served h now w' ∧ ∀ new ∈ added, new.Served h now w' := by
  rcases hmove with
    ⟨ec, hstage⟩ | ⟨data_, io, hstage, hlen⟩ | ⟨data_, ec, hstage, -⟩ | ⟨data_, hstage⟩ |
    ⟨data_, hstage⟩ | ⟨data_, hstage⟩ | ⟨data_, hstage⟩ | ⟨e, w', session, he, hstep⟩
  case session => exact ⟨hslot.session he hstep, by simp⟩
  all_goals
    unfold Slot.Served at hslot
    simp only [hstage] at hslot
  case accepted => exact ⟨hslot, by simp⟩
  case do_accept =>
    refine ⟨hslot, ?_⟩
    intro new hnew
    rw [List.mem_singleton.mp hnew]
    exact ⟨data_, hlen, rfl⟩
  case reject => exact ⟨trivial, by simp⟩
  case insert =>
    obtain ⟨data_, hlen, hsession⟩ := hslot
    refine ⟨⟨data_, hlen, ?_⟩, by simp⟩
    show ({ slot.session with in_set := true } : http_session P) = _
    rw [hsession]
  case start_wait =>
    obtain ⟨data_, hlen, hsession⟩ := hslot
    refine ⟨⟨?_, ?_, data_, now, w, [], hlen, ?_⟩, by simp⟩
    · show slot.session.reads = []
      rw [hsession]
      rfl
    · show slot.session.writes = 0
      rw [hsession]
      rfl
    · show some (Connection.start P slot.constructed now data_ w)
        = some ⟨now, w, (slot.session.start_wait now).do_read⟩
      rw [hsession]
      rfl
  case do_read => exact ⟨hslot.2.2, by simp⟩
  case returns => exact ⟨hslot.returns hthrew, by simp⟩

theorem served_step {s s' : http_server P W} {e : ServerEvent W}
    (hs : ∀ slot ∈ s.slots, slot.Served h s.now s.world)
    (hstep : (server h).step s e = some s') : ∀ slot ∈ s'.slots, slot.Served h s'.now s'.world := by
  apply slots_step (I := fun now w slot => slot.Served h now w) ?_ ?_ hs hstep
  · -- time passes and the world changes
    intro now now' w w' slot hnow hslot
    unfold Slot.Served at hslot ⊢
    rcases hstage : slot.stage with _ | ec | _ | _ | _ | _ | _ | _
    all_goals simp only [hstage] at hslot ⊢
    case reading => exact ⟨hslot.1, hslot.2.1, hslot.2.2.frame hnow⟩
    case returning => exact hslot.frame hnow
    case running => exact hslot.frame hnow
    all_goals exact hslot
  · intro i slot slot' added _ hmove hthrew hslot
    exact hmove.served hthrew hslot

/-- Every session looks as its stage says, in every run of the server. -/
theorem run_served {now : ℕ} {w : W} {threadnum : ℕ} {data_ : Bytes}
    (hdata : data_.length = max_length) {es : List (ServerEvent W)} {s : http_server P W}
    (hrun : (server h).run (http_server.ctor P now w threadnum data_) es = some s) :
    ∀ slot ∈ s.slots, slot.Served h s.now s.world := by
  apply Transition.invariant (P := fun s : http_server P W =>
    ∀ slot ∈ s.slots, slot.Served h s.now s.world) (fun _ _ _ hs hstep => served_step hs hstep)
    ?_ hrun
  intro slot hslot
  rw [show slot = ⟨.accepting, 0, now, .ctor P now data_⟩ from List.mem_singleton.mp hslot]
  exact ⟨data_, hdata, rfl⟩

/-- **Sessions of the server are connections.** In every run of the server, a session
whose start is over is where some run of a connection has come to, at the same time and
with the same world. -/
theorem sessions_are_connections {now : ℕ} {w : W} {threadnum : ℕ} {data_ : Bytes}
    (hdata : data_.length = max_length) {es : List (ServerEvent W)} {s : http_server P W}
    (hrun : (server h).run (http_server.ctor P now w threadnum data_) es = some s) {slot : Slot P}
    (hslot : slot ∈ s.slots) (hstage : slot.stage = .returning ∨ slot.stage = .running) :
    Serves h s.now s.world slot.constructed slot.session := by
  have hserved := run_served hdata hrun slot hslot
  unfold Slot.Served at hserved
  rcases hstage with hstage | hstage
  · rw [hstage] at hserved
    exact hserved
  · rw [hstage] at hserved
    exact hserved

end Serving

end MyWarehouse

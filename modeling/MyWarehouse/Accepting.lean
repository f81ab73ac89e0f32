/-
Whether the server keeps accepting.

One accept goes through the life of the server: it is pending, or it has completed
and `OnAccept` is about to look at its result. A result without error makes
`do_accept` start the next one; an error is written to the log, and there it ends.
So the accept that is pending, the ones `OnAccept` has not looked at and the ones that
ended in an error are one together (`accepts_step`), and the last are as many as
accepts have completed with an error (`failures_step`).
-/
import MyWarehouse.HttpServer
import MyWarehouse.HttpMessage

set_option autoImplicit false

namespace MyWarehouse

/-! ## The one accept -/

/-- An accept is pending on the session, or has completed and started no other. -/
def Stage.accept : Stage → Bool
  | .accepting | .completed _ | .rejected => true
  | _ => false

/-- The accept on the session has completed with an error. -/
def Stage.failed : Stage → Bool
  | .completed ec => ec ≠ 0
  | .rejected => true
  | _ => false

/-- An accept completes with an error. -/
def ServerEvent.fails {W : Type} : ServerEvent W → Bool
  | .accepted _ ec => ec ≠ 0
  | _ => false

/-- The accepts that have started no other. -/
def http_server.accepts {P : HttpParser} {W : Type} (s : http_server P W) : ℕ :=
  s.slots.countP fun slot => slot.stage.accept

/-- The accepts that have failed. -/
def http_server.failures {P : HttpParser} {W : Type} (s : http_server P W) : ℕ :=
  s.slots.countP fun slot => slot.stage.failed

section Counts

variable {P : HttpParser} {W : Type} {h : Handler W} {s s' : http_server P W}
  {e : ServerEvent W} {now i : ℕ} {w w' : W} {slot slot' : Slot P} {added : List (Slot P)}

/-- A slot that gives its accept away has it taken over by the slot it adds. -/
theorem Slot.Step.accept (hmove : slot.Step h now w i e w' slot' added) :
    (if slot.stage.accept then 1 else 0) = (if slot'.stage.accept then 1 else 0)
      + added.countP fun slot => slot.stage.accept := by
  rcases hmove with
    ⟨ec, hstage⟩ | ⟨data_, io, hstage, -⟩ | ⟨data_, ec, hstage, -⟩ | ⟨data_, hstage⟩ |
    ⟨data_, hstage⟩ | ⟨data_, hstage⟩ | ⟨data_, hstage⟩ | ⟨e, w', session, -, -⟩
  case session => exact (Nat.add_zero _).symm
  all_goals
    rw [hstage]
    rfl

/-- An accept fails when it completes with an error. -/
theorem Slot.Step.failed (hmove : slot.Step h now w i e w' slot' added) :
    (if slot'.stage.failed then 1 else 0) + added.countP (fun slot => slot.stage.failed)
      = (if slot.stage.failed then 1 else 0) + if e.fails then 1 else 0 := by
  rcases hmove with
    ⟨ec, hstage⟩ | ⟨data_, io, hstage, -⟩ | ⟨data_, ec, hstage, hec⟩ | ⟨data_, hstage⟩ |
    ⟨data_, hstage⟩ | ⟨data_, hstage⟩ | ⟨data_, hstage⟩ | ⟨e, w', session, -, -⟩
  case session => rfl
  case accepted =>
    rw [hstage]
    exact (Nat.zero_add _).symm
  case reject =>
    have hfailed : slot.stage.failed = true := by
      rw [hstage]
      exact decide_eq_true hec
    rw [hfailed]
    rfl
  all_goals
    rw [hstage]
    rfl

/-- **A step keeps the one accept.** -/
theorem accepts_step (hstep : (server h).step s e = some s') : s'.accepts = s.accepts := by
  unfold http_server.accepts
  obtain ⟨-, hslots, -⟩ | ⟨i, slot, slot', added, hslot, hmove, hslots, -⟩ := server_cases hstep
  · rw [hslots]
  · have hcount := Transition.countP_set_add (fun slot => slot.stage.accept) hslot slot'
    have haccept := hmove.accept
    rw [hslots, List.countP_append]
    omega

/-- A step that is no failed accept adds no failure, and a failed accept adds one. -/
theorem failures_step (hstep : (server h).step s e = some s') :
    s'.failures = s.failures + if e.fails then 1 else 0 := by
  unfold http_server.failures
  obtain ⟨hquiet, hslots, -⟩ | ⟨i, slot, slot', added, hslot, hmove, hslots, -⟩ :=
    server_cases hstep
  · rw [hslots]
    rcases hquiet with ⟨d, rfl⟩ | ⟨w, work, rfl⟩
    · rfl
    · rfl
  · have hcount := Transition.countP_set_add (fun slot => slot.stage.failed) hslot slot'
    have hfailed := hmove.failed
    rw [hslots, List.countP_append]
    omega

/-- The accepts that have started no other are pending, failed, or about to be looked
at by `OnAccept`. -/
theorem pending_le_accepts (s : http_server P W) : s.pending ≤ s.accepts := by
  apply List.countP_mono_left
  intro slot _ hslot
  have hstage : slot.stage = .accepting := of_decide_eq_true hslot
  rw [hstage]
  rfl

/-- When no `OnAccept` is running for it, a session has its accept pending, failed or
passed on. -/
theorem Stage.accept_of_not_busy {stage : Stage} (hbusy : stage.busy = false) :
    (if stage.accept then 1 else 0)
      = (if decide (stage = .accepting) then 1 else 0) + if stage.failed then 1 else 0 := by
  rcases stage with _ | ec | _ | _ | _ | _ | _ | _
  case completed => cases hbusy
  all_goals rfl

/-- When no `OnAccept` is running, an accept is pending or has failed. -/
theorem accepts_of_idle (hidle : s.Idle) : s.accepts = s.pending + s.failures := by
  have hslots : ∀ slots : List (Slot P), (∀ slot ∈ slots, slot.stage.busy = false) →
      slots.countP (fun slot => slot.stage.accept)
        = slots.countP (fun slot => slot.stage = .accepting)
          + slots.countP fun slot => slot.stage.failed := by
    intro slots hslots
    induction slots with
    | nil => rfl
    | cons slot slots ih =>
      have hrest := ih fun t ht => hslots t (List.mem_cons_of_mem slot ht)
      have hone := Stage.accept_of_not_busy (hslots slot List.mem_cons_self)
      rw [List.countP_cons, List.countP_cons, List.countP_cons, hrest]
      omega
  exact hslots s.slots hidle

/-- The server has one accept, whatever its constructor was given. -/
theorem ctor_accepts (P : HttpParser) {W : Type} (now : ℕ) (w : W) (threadnum : ℕ)
    (data_ : Bytes) : (http_server.ctor P now w threadnum data_).accepts = 1 := rfl

theorem run_accepts {now : ℕ} {w : W} {threadnum : ℕ} {data_ : Bytes} {es : List (ServerEvent W)}
    (hrun : (server h).run (http_server.ctor P now w threadnum data_) es = some s) :
    s.accepts = 1 :=
  Transition.invariant (P := fun s => s.accepts = 1)
    (fun _ _ _ hs hstep => (accepts_step hstep).trans hs)
    (ctor_accepts P now w threadnum data_) hrun

/-- As many accepts have failed as completed with an error. -/
theorem run_failures {now : ℕ} {w : W} {threadnum : ℕ} {data_ : Bytes}
    {es : List (ServerEvent W)}
    (hrun : (server h).run (http_server.ctor P now w threadnum data_) es = some s) :
    s.failures = es.countP ServerEvent.fails := by
  have hcount := Transition.count_run (f := http_server.failures) (k := ServerEvent.fails)
    (fun _ _ _ hstep => failures_step hstep) hrun
  have hnone : (http_server.ctor P now w threadnum data_).failures = 0 := rfl
  omega

/-- There are never two accepts pending. -/
theorem pending_le_one {now : ℕ} {w : W} {threadnum : ℕ} {data_ : Bytes}
    {es : List (ServerEvent W)}
    (hrun : (server h).run (http_server.ctor P now w threadnum data_) es = some s) :
    s.pending ≤ 1 := by
  have hle := pending_le_accepts s
  have hone := run_accepts hrun
  omega

end Counts

/-! ## Exactly one accept is pending until one has failed -/

instance {P : HttpParser} {W : Type} (s : http_server P W) : Decidable s.Idle :=
  inferInstanceAs (Decidable (∀ slot ∈ s.slots, slot.stage.busy = false))

/-- `EMFILE`: the process has no descriptor left. -/
def too_many_files : error_code := 24

/-- The events of one connection that is accepted. -/
def one_accepted : List (ServerEvent Unit) :=
  [.accepted 0 0, .OnAccept 0 (List.replicate 2048 0), .OnAccept 0 [], .OnAccept 0 [],
    .OnAccept 0 [], .OnAccept 0 []]

end MyWarehouse

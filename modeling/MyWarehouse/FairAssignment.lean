/-
The sessions of the server over the pool.

`do_accept` constructs the session with what `get_io_service` returns and then hands its
socket to the acceptor. From there on the next `OnAccept` can run, on another thread and
while the previous one has statements left. Here `do_accept` is taken apart: the accesses
of its call of `get_io_service` are steps of their own (`Call.access`), and the session
and its accept come last.

Nothing in the code keeps two calls of `get_io_service` apart. It is the one accept that
does: a call is made by the `OnAccept` that holds it, and the accept is passed on when the
call has returned (`Assigning.Turn`).
-/
import Mathlib.Data.Int.CardIntervalMod
import MyWarehouse.Accepting
import MyWarehouse.IoServicePool

set_option autoImplicit false

namespace MyWarehouse

/-! ## The server, access by access -/

/-- The rest of `http_server::do_accept` when `get_io_service` has returned: the session is
constructed and the accept on its socket started. The caller is the constructor, or the
`OnAccept` of a session, which goes on to `insert`. -/
def http_server.async_accept {P : HttpParser} {W : Type} (s : http_server P W)
    (caller : Option ℕ) (io_service : ℕ) (data_ : Bytes) : http_server P W :=
  let slots := match caller with
    | none => s.slots
    | some i => match s.slots[i]? with
      | none => s.slots
      | some slot => s.slots.set i { slot with stage := .inserting }
  { s with slots := slots ++ [⟨.accepting, io_service, s.now, .ctor P s.now data_⟩] }

/-- A server, and the executions of `do_accept` that have not started their accept yet:
who called it, and where its call of `get_io_service` stands. -/
structure Assigning (P : HttpParser) (W : Type) where
  server : http_server P W
  calls : List (Option ℕ × Call)

/-- What can happen: `OnAccept` of a session calls `do_accept`, a call of `get_io_service`
makes its next access, an execution of `do_accept` starts its accept, or something else
happens to the server. -/
inductive AssignEvent (W : Type) where
  | do_accept (i : ℕ)
  | access (k : ℕ)
  | async_accept (k : ℕ) (data_ : Bytes)
  | server (e : ServerEvent W)

/-- The event is `OnAccept` about to call `do_accept`. -/
def ServerEvent.calls {P : HttpParser} {W : Type} (s : http_server P W) : ServerEvent W → Bool
  | .OnAccept i _ => s.slots[i]?.any fun slot => slot.stage = .completed 0
  | _ => false

/-- The server with `do_accept` taken apart. Until the constructor has returned there is
nobody else. -/
def assigning {P : HttpParser} {W : Type} (h : Handler W) :
    Transition (Assigning P W) (AssignEvent W) where
  step s e :=
    if s.server.threw then none
    else match e with
    | .do_accept i => match s.server.slots[i]? with
      | none => none
      | some slot =>
        -- `OnAccept` is a sequence of statements, so it makes one call
        if slot.stage = .completed 0 ∧ ∀ c ∈ s.calls, c.1 ≠ some i then
          some { s with calls := s.calls ++ [(some i, .calling)] }
        else none
    | .access k => match s.calls[k]? with
      | none => none
      | some (caller, call) => match call.access s.server.pool_ with
        | none => none
        | some (pool_, call') =>
          some ⟨{ s.server with pool_ := pool_ }, s.calls.set k (caller, call')⟩
    | .async_accept k data_ => match s.calls[k]? with
      | some (caller, .returned v) =>
        if data_.length = max_length then
          some ⟨(s.server.async_accept caller v data_).settle, s.calls.eraseIdx k⟩
        else none
      | _ => none
    | .server e =>
      -- `io_service_` runs after the constructor, and `do_accept` has events of its own
      if s.server.slots = [] ∨ e.calls s.server then none
      else ((server h).step s.server e).map fun t => ⟨t, s.calls⟩

/-- `http_server::http_server` at its call of `do_accept`. -/
def Assigning.start (P : HttpParser) {W : Type} (now : ℕ) (w : W) (threadnum : ℕ) :
    Assigning P W :=
  ⟨⟨now, w, .ctor threadnum, [], 0, false⟩, [(none, .calling)]⟩

/-! ## What a step does -/

/-- The steps of the server with `do_accept` taken apart. -/
inductive Assigning.Step {P : HttpParser} {W : Type} (h : Handler W) (s : Assigning P W) :
    AssignEvent W → Assigning P W → Prop where
  | do_accept (i : ℕ) (slot : Slot P) : s.server.slots[i]? = some slot →
      slot.stage = .completed 0 → (∀ c ∈ s.calls, c.1 ≠ some i) →
      Step h s (.do_accept i) { s with calls := s.calls ++ [(some i, .calling)] }
  | access (k : ℕ) (caller : Option ℕ) (call call' : Call) (pool_ : io_service_pool) :
      s.calls[k]? = some (caller, call) → call.access s.server.pool_ = some (pool_, call') →
      Step h s (.access k)
        ⟨{ s.server with pool_ := pool_ }, s.calls.set k (caller, call')⟩
  | async_accept (k : ℕ) (data_ : Bytes) (caller : Option ℕ) (v : ℕ) :
      s.calls[k]? = some (caller, .returned v) → data_.length = max_length →
      Step h s (.async_accept k data_)
        ⟨(s.server.async_accept caller v data_).settle, s.calls.eraseIdx k⟩
  | server (e : ServerEvent W) (t : http_server P W) : s.server.slots ≠ [] →
      e.calls s.server = false → (MyWarehouse.server h).step s.server e = some t →
      Step h s (.server e) ⟨t, s.calls⟩

section Steps

variable {P : HttpParser} {W : Type} {h : Handler W}

theorem assigning_cases {s s' : Assigning P W} {e : AssignEvent W}
    (hstep : (assigning h).step s e = some s') : s.server.threw = false ∧ s.Step h e s' := by
  simp only [assigning] at hstep
  split_ifs at hstep with hthrew
  refine ⟨Bool.eq_false_iff.mpr hthrew, ?_⟩
  rcases e with i | k | ⟨k, data_⟩ | e
  · rcases hslot : s.server.slots[i]? with _ | slot
    · simp only [hslot] at hstep
      cases hstep
    · simp only [hslot] at hstep
      split_ifs at hstep with hcall
      obtain rfl := Option.some.inj hstep
      exact .do_accept i slot hslot hcall.1 hcall.2
  · rcases hk : s.calls[k]? with _ | ⟨caller, call⟩
    · simp only [hk] at hstep
      cases hstep
    · simp only [hk] at hstep
      rcases haccess : call.access s.server.pool_ with _ | ⟨pool_, call'⟩
      · simp only [haccess] at hstep
        cases hstep
      · simp only [haccess] at hstep
        obtain rfl := Option.some.inj hstep
        exact .access k caller call call' pool_ hk haccess
  · rcases hk : s.calls[k]? with _ | ⟨caller, call⟩
    · simp only [hk] at hstep
      cases hstep
    · simp only [hk] at hstep
      rcases call with _ | v | v | v | v
      case returned =>
        simp only at hstep
        split_ifs at hstep with hlen
        obtain rfl := Option.some.inj hstep
        exact .async_accept k data_ caller v hk hlen
      all_goals cases hstep
  · simp only at hstep
    split_ifs at hstep with hquiet
    obtain ⟨t, ht, rfl⟩ := Option.map_eq_some_iff.mp hstep
    rw [not_or, Bool.not_eq_true] at hquiet
    exact .server e t hquiet.1 hquiet.2 ht

/-- `OnAccept` that is not about to call `do_accept` does not look at the pool. -/
theorem OnAccept_with_pool {s s' : http_server P W} {i : ℕ} {slot : Slot P} {data_ : Bytes}
    (hstage : slot.stage ≠ .completed 0) (hstep : s.OnAccept i slot data_ = some s')
    (p : io_service_pool) : s'.pool_ = s.pool_ ∧
      http_server.OnAccept { s with pool_ := p } i slot data_ = some { s' with pool_ := p } := by
  unfold http_server.OnAccept at hstep ⊢
  rcases hslot : slot.stage with _ | ec | _ | _ | _ | _ | _ | _
  case completed =>
    have hec : ec ≠ 0 := by
      rintro rfl
      exact hstage hslot
    simp only [hslot, if_neg hec] at hstep ⊢
    obtain rfl := Option.some.inj hstep
    exact ⟨rfl, rfl⟩
  all_goals
    simp only [hslot] at hstep ⊢
    cases hstep
  all_goals exact ⟨rfl, rfl⟩

/-- When `OnAccept` of a session is not about to call `do_accept`, its accept has not just
completed without error. -/
theorem stage_of_not_calls {s : http_server P W} {i : ℕ} {data_ : Bytes} {slot : Slot P}
    (hcalls : (ServerEvent.OnAccept i data_ : ServerEvent W).calls s = false)
    (hslot : s.slots[i]? = some slot) : slot.stage ≠ .completed 0 := by
  intro hstage
  simp only [ServerEvent.calls, hslot, Option.any_some, decide_eq_false_iff_not] at hcalls
  exact hcalls hstage

/-- **Only `do_accept` looks at the pool.** Any other step is the same step with another
pool. -/
theorem server_with_pool {s s' : http_server P W} {e : ServerEvent W}
    (hcalls : e.calls s = false) (hstep : (server h).step s e = some s') (p : io_service_pool) :
    s'.pool_ = s.pool_ ∧
      (server h).step { s with pool_ := p } e = some { s' with pool_ := p } := by
  have hthrew := threw_of_server hstep
  have hthrew' : http_server.threw { s with pool_ := p } = false := hthrew
  simp only [server, hthrew, hthrew', Bool.false_eq_true, if_false] at hstep ⊢
  rcases e with d | ⟨w, work⟩ | ⟨i, ec⟩ | ⟨i, data_⟩ | ⟨i, e⟩
  case tick =>
    obtain rfl := Option.some.inj hstep
    exact ⟨rfl, rfl⟩
  case elsewhere =>
    simp only at hstep ⊢
    split_ifs at hstep ⊢
    obtain rfl := Option.some.inj hstep
    exact ⟨rfl, rfl⟩
  all_goals
    rcases hslot : s.slots[i]? with _ | slot
    · simp only [hslot] at hstep
      cases hstep
    simp only [hslot] at hstep ⊢
  case accepted =>
    split_ifs at hstep ⊢
    obtain rfl := Option.some.inj hstep
    exact ⟨rfl, rfl⟩
  case OnAccept =>
    obtain ⟨t, ht, rfl⟩ := Option.map_eq_some_iff.mp hstep
    obtain ⟨hpool, ht'⟩ := OnAccept_with_pool (stage_of_not_calls hcalls hslot) ht p
    rw [ht']
    exact ⟨hpool, rfl⟩
  case session =>
    split_ifs at hstep ⊢
    rcases hsession : slot.session.step h s.now s.world e with _ | ⟨w, session⟩
    · rw [hsession] at hstep
      cases hstep
    · rw [hsession] at hstep
      obtain rfl := Option.some.inj hstep
      exact ⟨rfl, rfl⟩

end Steps

/-! ## One call at a time -/

/-- How the counter of a pool of size `n` stands to a call, when `m` sessions have been
constructed. -/
def Call.Turn (n m next : ℕ) : Call → Prop
  | .calling => next = m % n
  | .chosen v => v = m % n ∧ next = m % n
  | .incremented v => v = m % n ∧ next = m % n + 1
  | .resetting v => v = m % n ∧ m % n + 1 = n
  | .returned v => v = m % n ∧ next = (m + 1) % n

/-- The caller has the one accept of the server: it is the constructor, which has not
started it, or the `OnAccept` of a session whose accept completed without error. -/
def http_server.Held {P : HttpParser} {W : Type} (s : http_server P W) : Option ℕ → Prop
  | none => s.slots = []
  | some i => s.accepts = 1 ∧ ∃ slot, s.slots[i]? = some slot ∧ slot.stage = .completed 0

/-- The invariant. The sessions so far are on the `io_service`s in turn, and either no call
is in progress and the counter is at the next one, or the only call is made by the caller
that has the accept. -/
structure Assigning.Turn {P : HttpParser} {W : Type} (n : ℕ) (s : Assigning P W) : Prop where
  size : s.server.pool_.size = n
  round_robin : s.server.slots.map Slot.io_service
    = (List.range s.server.slots.length).map fun k => k % n
  turn : s.calls = [] ∧ s.server.accepts = 1 ∧
      s.server.pool_.next_io_service_ = s.server.slots.length % n ∨
    ∃ caller call, s.calls = [(caller, call)] ∧ s.server.Held caller ∧
      call.Turn n s.server.slots.length s.server.pool_.next_io_service_

section Turn

variable {n : ℕ}

/-- The remainder of the next number: the increment and the comparison of
`get_io_service`. -/
theorem succ_mod_eq (hn : 0 < n) (m : ℕ) :
    (m + 1) % n = if m % n + 1 = n then 0 else m % n + 1 := by
  have hlt : m % n < n := Nat.mod_lt m hn
  rw [← Nat.mod_add_mod]
  by_cases hlast : m % n + 1 = n
  · rw [if_pos hlast, hlast, Nat.mod_self]
  · rw [if_neg hlast]
    apply Nat.mod_eq_of_lt
    omega

/-- A call of `get_io_service` when `m` sessions have been constructed. -/
theorem get_io_service_mod (hn : 0 < n) (m : ℕ) :
    io_service_pool.get_io_service ⟨n, m % n⟩ = (m % n, ⟨n, (m + 1) % n⟩) := by
  rw [succ_mod_eq hn]
  rfl

/-- An access keeps the turn. -/
theorem Call.Turn.access (hn : 0 < n) {m : ℕ} {p p' : io_service_pool} {call call' : Call}
    (hsize : p.size = n) (hturn : call.Turn n m p.next_io_service_)
    (haccess : call.access p = some (p', call')) :
    p'.size = n ∧ call'.Turn n m p'.next_io_service_ := by
  rcases call with _ | v | v | v | v
  case calling =>
    obtain ⟨rfl, rfl⟩ := Prod.mk.inj (Option.some.inj haccess)
    exact ⟨hsize, hturn, hturn⟩
  case chosen =>
    obtain ⟨rfl, rfl⟩ := Prod.mk.inj (Option.some.inj haccess)
    obtain ⟨hv, hnext⟩ := hturn
    exact ⟨hsize, hv, congrArg Nat.succ hnext⟩
  case incremented =>
    obtain ⟨rfl, rfl⟩ := Prod.mk.inj (Option.some.inj haccess)
    obtain ⟨hv, hnext⟩ := hturn
    refine ⟨hsize, ?_⟩
    -- the comparison is true exactly when the remainder wraps around
    by_cases hlast : p.next_io_service_ = p.size
    · rw [if_pos hlast]
      exact ⟨hv, by omega⟩
    · rw [if_neg hlast]
      refine ⟨hv, ?_⟩
      rw [succ_mod_eq hn, if_neg (by omega)]
      exact hnext
  case resetting =>
    obtain ⟨rfl, rfl⟩ := Prod.mk.inj (Option.some.inj haccess)
    obtain ⟨hv, hlast⟩ := hturn
    refine ⟨hsize, hv, ?_⟩
    rw [succ_mod_eq hn, if_pos hlast]
  case returned => cases haccess

/-- Every subscript is in range. -/
theorem Call.Turn.subscript_lt (hn : 0 < n) {m next : ℕ} {call : Call}
    (hturn : call.Turn n m next) {v : ℕ} (hv : call.subscript = some v) : v < n := by
  have hlt : m % n < n := Nat.mod_lt m hn
  rcases call with _ | u | u | u | u
  case calling => cases hv
  all_goals
    obtain rfl := Option.some.inj hv
    rw [hturn.1]
    exact hlt

end Turn

section Turn

variable {P : HttpParser} {W : Type} {h : Handler W} {n : ℕ}

/-- A slot stays on its `io_service`, and a slot is added by `do_accept` only. -/
theorem Slot.Step.io_service {now i : ℕ} {w w' : W} {e : ServerEvent W} {slot slot' : Slot P}
    {added : List (Slot P)} (hmove : slot.Step h now w i e w' slot' added) :
    slot'.io_service = slot.io_service ∧ (added = [] ∨ slot.stage = .completed 0 ∧
      ∃ data_, e = .OnAccept i data_) := by
  cases hmove with
  | do_accept data_ io_service hstage hlen => exact ⟨rfl, Or.inr ⟨hstage, data_, rfl⟩⟩
  | _ => exact ⟨rfl, Or.inl rfl⟩

/-- While `OnAccept` is about to call `do_accept` for it, a slot waits for that. -/
theorem Slot.Step.stays_completed {now i : ℕ} {w w' : W} {e : ServerEvent W} {slot slot' : Slot P}
    {added : List (Slot P)} (hmove : slot.Step h now w i e w' slot' added)
    (hstage : slot.stage = .completed 0) :
    slot'.stage = .completed 0 ∨ ∃ data_, e = .OnAccept i data_ := by
  rcases hmove with
    ⟨ec, haccepting⟩ | ⟨data_, io, -, -⟩ | ⟨data_, ec, -, -⟩ | ⟨data_, -⟩ |
    ⟨data_, -⟩ | ⟨data_, -⟩ | ⟨data_, -⟩ | ⟨e, w', session, -, -⟩
  case accepted =>
    rw [hstage] at haccepting
    cases haccepting
  case session => exact Or.inl hstage
  all_goals exact Or.inr ⟨data_, rfl⟩

/-- The slots after a step that is no `do_accept`. -/
theorem slots_of_server {s s' : http_server P W} {e : ServerEvent W}
    (hcalls : e.calls s = false) (hstep : (server h).step s e = some s') :
    s'.slots.length = s.slots.length ∧
      s'.slots.map Slot.io_service = s.slots.map Slot.io_service := by
  obtain ⟨-, hslots, -⟩ | ⟨i, slot, slot', added, hslot, hmove, hslots, -⟩ := server_cases hstep
  · rw [hslots]
    exact ⟨rfl, rfl⟩
  · obtain ⟨hio, rfl | ⟨hstage, data_, rfl⟩⟩ := hmove.io_service
    · rw [hslots, List.append_nil]
      exact ⟨List.length_set, Transition.map_set_of_eq Slot.io_service hslot hio⟩
    · exact absurd hstage (stage_of_not_calls hcalls hslot)

/-- The caller keeps the accept through a step that is no `do_accept`. -/
theorem held_of_server {s s' : http_server P W} {e : ServerEvent W} {caller : Option ℕ}
    (hslots : s.slots ≠ []) (hcalls : e.calls s = false)
    (hstep : (server h).step s e = some s') (hheld : s.Held caller) : s'.Held caller := by
  rcases caller with _ | i
  · exact absurd hheld hslots
  · obtain ⟨hone, slot, hslot, hstage⟩ := hheld
    refine ⟨(accepts_step hstep).trans hone, ?_⟩
    obtain ⟨slot', hslot', rfl | ⟨added, hmove⟩⟩ := slot_of_server hslot hstep
    · exact ⟨slot', hslot', hstage⟩
    · rcases hmove.stays_completed hstage with hstage' | ⟨data_, rfl⟩
      · exact ⟨slot', hslot', hstage'⟩
      · exact absurd hstage (stage_of_not_calls hcalls hslot)

/-- The slots after `do_accept` has started its accept: one more, in the turn of the
call. -/
theorem slots_of_async_accept {s : http_server P W} {caller : Option ℕ} (hheld : s.Held caller)
    (io_service : ℕ) (data_ : Bytes) :
    (s.async_accept caller io_service data_).slots.length = s.slots.length + 1 ∧
      (s.async_accept caller io_service data_).slots.map Slot.io_service
        = s.slots.map Slot.io_service ++ [io_service] ∧
      (s.async_accept caller io_service data_).accepts = 1 := by
  unfold http_server.async_accept http_server.accepts
  rcases caller with _ | i
  · have hslots : s.slots = [] := hheld
    simp only [hslots]
    exact ⟨rfl, rfl, rfl⟩
  · obtain ⟨hone, slot, hslot, hstage⟩ := hheld
    simp only [hslot]
    refine ⟨?_, ?_, ?_⟩
    · rw [List.length_append, List.length_set, List.length_singleton]
    · have hmap := Transition.map_set_of_eq Slot.io_service hslot
        (rfl : Slot.io_service { slot with stage := .inserting } = slot.io_service)
      rw [List.map_append, hmap]
      rfl
    · -- the session of the caller gives its accept to the new one
      have hcount := Transition.countP_set_add (fun slot => slot.stage.accept) hslot
        { slot with stage := .inserting }
      have hgiven : slot.stage.accept = true := by
        rw [hstage]
        rfl
      have htaken : Stage.inserting.accept = false := rfl
      simp only [hgiven, htaken, Bool.false_eq_true, if_true, if_false] at hcount
      have htotal : s.slots.countP (fun slot => slot.stage.accept) = 1 := hone
      rw [List.countP_append, List.countP_singleton]
      simp only [Stage.accept, if_true]
      simp only [Stage.accept] at hcount htotal
      omega

/-- There is one accept: who has it is the session whose accept has just completed. -/
theorem http_server.Held.caller_eq {s : http_server P W} {caller : Option ℕ}
    (hheld : s.Held caller) {i : ℕ} {slot : Slot P} (hslot : s.slots[i]? = some slot)
    (hstage : slot.stage = .completed 0) : caller = some i := by
  rcases caller with _ | j
  · -- the constructor has it only while there is no session
    have hempty : s.slots = [] := hheld
    rw [hempty] at hslot
    cases hslot
  · obtain ⟨hone, slot', hslot', hstage'⟩ := hheld
    apply congrArg some
    apply Transition.eq_of_countP_le_one hone.le hslot' hslot
    · rw [hstage']
      rfl
    · rw [hstage]
      rfl

/-- A call is the only one. -/
theorem Assigning.Turn.only {s : Assigning P W} (hs : s.Turn n) {k : ℕ} {caller : Option ℕ}
    {call : Call} (hk : s.calls[k]? = some (caller, call)) :
    k = 0 ∧ s.calls = [(caller, call)] ∧ s.server.Held caller ∧
      call.Turn n s.server.slots.length s.server.pool_.next_io_service_ := by
  rcases hs.turn with ⟨hnone, -, -⟩ | ⟨caller', call', hcalls, hheld, hturn⟩
  · rw [hnone] at hk
    cases hk
  · rw [hcalls, List.getElem?_singleton] at hk
    split_ifs at hk with hzero
    obtain ⟨rfl, rfl⟩ := Prod.mk.inj (Option.some.inj hk)
    exact ⟨hzero, hcalls, hheld, hturn⟩

/-! ### One lemma for each kind of step -/

section Turns

variable {s : Assigning P W}

/-- `OnAccept` calls `do_accept`: no call can be in progress, since its caller would have
the accept too. -/
theorem Assigning.Turn.do_accept (hs : s.Turn n) {i : ℕ} {slot : Slot P}
    (hslot : s.server.slots[i]? = some slot) (hstage : slot.stage = .completed 0)
    (hnew : ∀ c ∈ s.calls, c.1 ≠ some i) :
    Assigning.Turn n { s with calls := s.calls ++ [(some i, .calling)] } := by
  refine ⟨hs.size, hs.round_robin, Or.inr ?_⟩
  rcases hs.turn with ⟨hnone, hone, hnext⟩ | ⟨caller, call, hcalls, hheld, -⟩
  · refine ⟨some i, .calling, ?_, ⟨hone, slot, hslot, hstage⟩, hnext⟩
    rw [hnone]
    rfl
  · exfalso
    apply hnew (caller, call)
    · rw [hcalls]
      exact List.mem_singleton_self _
    · exact hheld.caller_eq hslot hstage

/-- The call makes an access. -/
theorem Assigning.Turn.access (hn : 0 < n) (hs : s.Turn n) {k : ℕ} {caller : Option ℕ}
    {call call' : Call} {pool_ : io_service_pool} (hk : s.calls[k]? = some (caller, call))
    (haccess : call.access s.server.pool_ = some (pool_, call')) :
    Assigning.Turn n
      ⟨{ s.server with pool_ := pool_ }, s.calls.set k (caller, call')⟩ := by
  obtain ⟨rfl, hcalls, hheld, hturn⟩ := hs.only hk
  obtain ⟨hsize, hturn'⟩ := hturn.access hn hs.size haccess
  refine ⟨hsize, hs.round_robin, Or.inr ⟨caller, call', ?_, hheld, hturn'⟩⟩
  rw [hcalls]
  rfl

/-- The call has returned, and its session takes the next turn. -/
theorem Assigning.Turn.async_accept (hs : s.Turn n) {k v : ℕ} {caller : Option ℕ}
    (hk : s.calls[k]? = some (caller, .returned v)) (data_ : Bytes) :
    Assigning.Turn n
      ⟨(s.server.async_accept caller v data_).settle, s.calls.eraseIdx k⟩ := by
  obtain ⟨rfl, hcalls, hheld, hv, hnext⟩ := hs.only hk
  obtain ⟨hlength, hio, hone⟩ := slots_of_async_accept hheld v data_
  -- the call has returned the remainder of the number of sessions there were
  have hround : (s.server.async_accept caller v data_).slots.map Slot.io_service
      = (List.range (s.server.async_accept caller v data_).slots.length).map fun k =>
        k % n := by
    rw [hio, hlength, hs.round_robin, hv, List.range_succ, List.map_append]
    rfl
  refine ⟨hs.size, hround, Or.inl ⟨?_, hone, ?_⟩⟩
  · rw [hcalls]
    rfl
  · exact hnext.trans (congrArg (fun m => m % n) hlength.symm)

/-- Something else happens to the server. -/
theorem Assigning.Turn.server (hs : s.Turn n) {e : ServerEvent W} {t : http_server P W}
    (hslots : s.server.slots ≠ []) (hcalls : e.calls s.server = false)
    (ht : (MyWarehouse.server h).step s.server e = some t) :
    Assigning.Turn n ⟨t, s.calls⟩ := by
  obtain ⟨hlength, hio⟩ := slots_of_server hcalls ht
  obtain ⟨hpool, -⟩ := server_with_pool hcalls ht t.pool_
  refine ⟨?_, ?_, ?_⟩
  · rw [hpool]
    exact hs.size
  · rw [hio, hlength]
    exact hs.round_robin
  · rw [hlength, hpool]
    rcases hs.turn with ⟨hnone, hone, hnext⟩ | ⟨caller, call, hcalls', hheld, hturn⟩
    -- the one accept may move on to another stage, but it stays the one
    · exact Or.inl ⟨hnone, (accepts_step ht).trans hone, hnext⟩
    · exact Or.inr ⟨caller, call, hcalls', held_of_server hslots hcalls ht hheld, hturn⟩

end Turns

/-- **A step keeps the turn.** -/
theorem turn_step (hn : 0 < n) {s s' : Assigning P W} {e : AssignEvent W} (hs : s.Turn n)
    (hstep : (assigning h).step s e = some s') : s'.Turn n := by
  obtain ⟨-, hmove⟩ := assigning_cases hstep
  cases hmove with
  | do_accept i slot hslot hstage hnew => exact hs.do_accept hslot hstage hnew
  | access k caller call call' pool_ hk haccess => exact hs.access hn hk haccess
  | async_accept k data_ caller v hk hlen => exact hs.async_accept hk data_
  | server e t hslots hcalls ht => exact hs.server hslots hcalls ht

theorem start_turn (P : HttpParser) {W : Type} (now : ℕ) (w : W) (n : ℕ) :
    (Assigning.start P now w n).Turn n :=
  ⟨rfl, rfl, Or.inr ⟨none, .calling, rfl, rfl, (Nat.zero_mod n).symm⟩⟩

theorem run_turn (hn : 0 < n) {now : ℕ} {w : W} {es : List (AssignEvent W)} {s : Assigning P W}
    (hrun : (assigning h).run (Assigning.start P now w n) es = some s) : s.Turn n :=
  Transition.invariant (P := Assigning.Turn n) (fun _ _ _ hs hstep => turn_step hn hs hstep)
    (start_turn P now w n) hrun

end Turn

/-! ## `do_accept` as one step -/

section OneStep

variable {P : HttpParser} {W : Type} {h : Handler W} {n : ℕ}

/-- The server with the counter where the sessions so far leave it. -/
def Assigning.between (n : ℕ) (s : Assigning P W) : http_server P W :=
  { s.server with pool_ := ⟨n, s.server.slots.length % n⟩ }

/-- Where the constructor has not started its accept nothing has happened but accesses;
from then on the server is where it gets when `do_accept` is one step. -/
structure Assigning.OneStep (h : Handler W) (now : ℕ) (w : W) (n : ℕ) (s : Assigning P W) :
    Prop where
  turn : s.Turn n
  start : s.server.slots = [] → s.between n = (Assigning.start P now w n).between n
  run : s.server.slots ≠ [] → ∃ data_ es,
    (MyWarehouse.server h).run (http_server.ctor P now w n data_) es = some (s.between n)

/-- The statement of `OnAccept` that calls `do_accept`, as one step. -/
theorem do_accept_step {s : http_server P W} {i : ℕ} {slot : Slot P} {data_ : Bytes}
    (hthrew : s.threw = false) (hslot : s.slots[i]? = some slot)
    (hstage : slot.stage = .completed 0) (hlen : data_.length = max_length) :
    (server h).step s (.OnAccept i data_)
      = some ((s.put i { slot with stage := .inserting }).do_accept data_).settle := by
  simp only [server, hthrew, hslot, http_server.OnAccept, hstage, hlen, Bool.false_eq_true,
    if_false, if_true, Option.map_some]

/-- A step of the server with `do_accept` taken apart starts the first accept, or leaves
the server as it is between two calls, or is a step of the server. -/
theorem between_step (hn : 0 < n) {s s' : Assigning P W} {e : AssignEvent W} (hs : s.Turn n)
    (hstep : (assigning h).step s e = some s') :
    (s.server.slots = [] ∧ ∃ data_, s'.between n = ((s.between n).do_accept data_).settle) ∨
      s'.between n = s.between n ∨
      s.server.slots ≠ [] ∧ ∃ e', (server h).step (s.between n) e' = some (s'.between n) := by
  obtain ⟨hthrew, hmove⟩ := assigning_cases hstep
  have hthrew' : (s.between n).threw = false := hthrew
  rcases hmove with
    ⟨i, slot, hslot, hstage, hnew⟩ | ⟨k, caller, call, call', pool_, hk, haccess⟩ |
    ⟨k, data_, caller, v, hk, hlen⟩ | ⟨e, t, hslots, hcalls, ht⟩
  case do_accept => exact Or.inr (Or.inl rfl)
  case access => exact Or.inr (Or.inl rfl)
  case async_accept =>
    obtain ⟨-, -, hheld, rfl, -⟩ := hs.only hk
    have hlength := (slots_of_async_accept hheld (s.server.slots.length % n) data_).1
    have hget := get_io_service_mod hn s.server.slots.length
    -- the counter after the call, by the number of sessions
    have hpool : Assigning.between n
        ⟨(s.server.async_accept caller (s.server.slots.length % n) data_).settle,
          s.calls.eraseIdx k⟩
        = { (s.server.async_accept caller (s.server.slots.length % n) data_).settle with
          pool_ := ⟨n, (s.server.slots.length + 1) % n⟩ } := by
      rw [← hlength]
      rfl
    rw [hpool]
    rcases caller with _ | i
    · refine Or.inl ⟨hheld, data_, ?_⟩
      simp only [http_server.do_accept, Assigning.between, hget]
      rfl
    · obtain ⟨-, slot, hslot, hstage⟩ := hheld
      refine Or.inr (Or.inr ⟨?_, .OnAccept i data_, ?_⟩)
      · intro hempty
        rw [hempty] at hslot
        cases hslot
      · rw [do_accept_step hthrew' (hslot : (s.between n).slots[i]? = some slot) hstage hlen]
        simp only [http_server.do_accept, http_server.put, Assigning.between, hget,
          http_server.async_accept, hslot]
        rfl
  case server =>
    obtain ⟨-, hbetween⟩ := server_with_pool hcalls ht ⟨n, s.server.slots.length % n⟩
    refine Or.inr (Or.inr ⟨hslots, e, ?_⟩)
    refine hbetween.trans ?_
    rw [← (slots_of_server hcalls ht).1]
    rfl

/-- No session is taken out of the slots. -/
theorem server_slots_length {s s' : http_server P W} {e : ServerEvent W}
    (hstep : (server h).step s e = some s') : s.slots.length ≤ s'.slots.length := by
  obtain ⟨-, hslots, -⟩ | ⟨i, slot, slot', added, -, -, hslots, -⟩ := server_cases hstep
  · rw [hslots]
  · rw [hslots, List.length_append, List.length_set]
    exact Nat.le_add_right _ _

theorem oneStep_step (hn : 0 < n) {now : ℕ} {w : W} {s s' : Assigning P W} {e : AssignEvent W}
    (hs : s.OneStep h now w n) (hstep : (assigning h).step s e = some s') :
    s'.OneStep h now w n := by
  -- the run of the server is extended by the event that the step amounts to
  have hslots : s'.server.slots = (s'.between n).slots := rfl
  have hturn := turn_step hn hs.turn hstep
  obtain ⟨hempty, data_, hfirst⟩ | hsame | ⟨hne, e', he'⟩ := between_step hn hs.turn hstep
  · -- the constructor starts its accept
    rw [hs.start hempty] at hfirst
    refine ⟨hturn, fun hnone => ?_, fun _ => ⟨data_, [], ?_⟩⟩
    · rw [hslots, hfirst] at hnone
      cases hnone
    · rw [hfirst]
      simp only [Assigning.between, Assigning.start, List.length_nil, Nat.zero_mod]
      rfl
  · have hsame' : s'.server.slots = s.server.slots := by
      rw [hslots, hsame]
      rfl
    refine ⟨hturn, fun hnone => ?_, fun hne => ?_⟩
    · rw [hsame]
      exact hs.start (hsame'.symm.trans hnone)
    · rw [hsame]
      rw [hsame'] at hne
      exact hs.run hne
  · obtain ⟨data_, es, hrun⟩ := hs.run hne
    refine ⟨hturn, fun hnone => ?_, fun _ => ⟨data_, es ++ [e'], ?_⟩⟩
    · exfalso
      apply hne
      have hlength := server_slots_length he'
      rw [← hslots, hnone] at hlength
      exact List.eq_nil_of_length_eq_zero (Nat.le_zero.mp hlength)
    · rw [Transition.run_append_iff]
      exact ⟨_, hrun, by rw [Transition.run_cons_iff]; exact ⟨_, he', rfl⟩⟩

/-- **Between two calls the server is where it gets when `do_accept` is one step**: what is
proved of the server so holds of it there. -/
theorem run_between (hn : 0 < n) {now : ℕ} {w : W} {es : List (AssignEvent W)}
    {s : Assigning P W} (hrun : (assigning h).run (Assigning.start P now w n) es = some s)
    (hcalls : s.calls = []) : ∃ data_ es',
      (server h).run (http_server.ctor P now w n data_) es' = some s.server := by
  have hstart : (Assigning.start P now w n).OneStep h now w n :=
    ⟨start_turn P now w n, fun _ => rfl, fun hne => absurd rfl hne⟩
  have hs : s.OneStep h now w n := Transition.invariant
    (P := Assigning.OneStep h now w n) (fun _ _ _ hs hstep => oneStep_step hn hs hstep) hstart hrun
  obtain ⟨-, hone, hnext⟩ | ⟨caller, call, hcalls', -⟩ := hs.turn.turn
  · have hsome : s.server.slots ≠ [] := by
      intro hempty
      rw [http_server.accepts, hempty] at hone
      cases hone
    have hbetween : s.between n = s.server := by
      have hsize := hs.turn.size
      rcases s with ⟨⟨now, w, ⟨size, next⟩, slots, work, stopped⟩, calls⟩
      simp only at hsize hnext
      rw [hnext, hsize]
      rfl
    obtain ⟨data_, es', hes'⟩ := hs.run hsome
    rw [hbetween] at hes'
    exact ⟨data_, es', hes'⟩
  · rw [hcalls] at hcalls'
    cases hcalls'

end OneStep

/-! ## Fair assignment -/

/-- The sessions that have been constructed on an `io_service`. -/
def http_server.bound {P : HttpParser} {W : Type} (s : http_server P W) (io_service : ℕ) : ℕ :=
  s.slots.countP fun slot => slot.io_service = io_service

/-- The assignment is fair: calls of `get_io_service` do not overlap, their subscripts are
in range, the sessions go round the pool in the order of their construction, and no
`io_service` has two sessions more than another. -/
structure Assigning.Fair {P : HttpParser} {W : Type} (n : ℕ) (s : Assigning P W) : Prop where
  alone : s.calls.length ≤ 1
  subscripts : ∀ c ∈ s.calls, ∀ v, c.2.subscript = some v → v < n
  io_service : ∀ (k : ℕ) (slot : Slot P), s.server.slots[k]? = some slot → slot.io_service = k % n
  bound : ∀ a b, a < n → b < n → s.server.bound a ≤ s.server.bound b + 1

/-- How often a number comes up in the rounds. -/
theorem count_rounds (n m a : ℕ) :
    ((List.range m).map fun k => k % n).count a = m.count fun k => k % n = a := by
  induction m with
  | zero => rfl
  | succ m ih =>
    rw [List.range_succ, List.map_append, List.count_append, ih, Nat.count_succ]
    simp only [List.map_cons, List.map_nil, List.count_singleton, beq_iff_eq]

/-- No number comes up twice more than another. -/
theorem count_rounds_le {n a b : ℕ} (hn : 0 < n) (ha : a < n) (hb : b < n) (m : ℕ) :
    ((List.range m).map fun k => k % n).count a
      ≤ ((List.range m).map fun k => k % n).count b + 1 := by
  have hcount : ∀ c, c < n → ((List.range m).map fun k => k % n).count c
      = m / n + if c < m % n then 1 else 0 := by
    intro c hc
    have hcard := Nat.count_modEq_card m hn c
    simp only [Nat.ModEq, Nat.mod_eq_of_lt hc] at hcard
    rw [count_rounds, hcard]
  -- whole rounds, and one more for the numbers of the round that has begun
  rw [hcount a ha, hcount b hb]
  split_ifs
  all_goals omega

/-- **Fair assignment.** In every run of the server from its constructor, whatever its
threads and its sessions do and in whatever order, calls of `get_io_service` never overlap
and stay in range, and the `k`-th session is on the `io_service` `k % n`. -/
theorem fair_assignment {P : HttpParser} {W : Type} (h : Handler W) (now : ℕ) (w : W) (n : ℕ)
    (hn : 0 < n) (es : List (AssignEvent W)) (s : Assigning P W)
    (hrun : (assigning h).run (Assigning.start P now w n) es = some s) : s.Fair n := by
  have hs : s.Turn n := run_turn hn hrun
  refine ⟨?_, ?_, ?_, ?_⟩
  · rcases hs.turn with ⟨hnone, -⟩ | ⟨caller, call, hcalls, -⟩
    · rw [hnone]
      exact Nat.zero_le 1
    · rw [hcalls]
      exact le_refl 1
  · rcases hs.turn with ⟨hnone, -⟩ | ⟨caller, call, hcalls, -, hturn⟩
    · rw [hnone]
      intro c hc
      cases hc
    · rw [hcalls]
      intro c hc v hv
      rw [List.mem_singleton.mp hc] at hv
      exact hturn.subscript_lt hn hv
  · intro k slot hslot
    have hk : k < s.server.slots.length := (List.getElem?_eq_some_iff.mp hslot).1
    have hround := congrArg (fun l => l[k]?) hs.round_robin
    simp only [List.getElem?_map, hslot, List.getElem?_range hk, Option.map_some] at hround
    exact Option.some.inj hround
  · intro a b ha hb
    have hbound : ∀ c, s.server.bound c
        = ((List.range s.server.slots.length).map fun k => k % n).count c := by
      intro c
      rw [← hs.round_robin, List.count_eq_countP, List.countP_map]
      rfl
    rw [hbound, hbound]
    exact count_rounds_le hn ha hb s.server.slots.length

/-- The constructor starts the first accept, and a connection is accepted. -/
def first_accept : List (AssignEvent Unit) :=
  [.access 0, .access 0, .access 0, .async_accept 0 (List.replicate 2048 0),
    .server (.accepted 0 0), .do_accept 0, .access 0, .access 0, .access 0, .access 0,
    .async_accept 0 (List.replicate 2048 0)]

/-- On a pool of two, the second connection is accepted while the first `OnAccept` has
statements left, and the two `OnAccept` take turns; the call that the second makes is
between its increment and its comparison. -/
def overlapping_accepts : List (AssignEvent Unit) :=
  first_accept ++ [.server (.accepted 1 0), .do_accept 1, .server (.OnAccept 0 []), .access 0,
    .server (.OnAccept 0 []), .access 0]

theorem fair_assignment_overlapping :
    ∃ s, (assigning still).run (Assigning.start (.expecting []) 0 () 2) overlapping_accepts
      = some s ∧ s.calls = [(some 1, .incremented 0)] ∧ s.Fair 2 := by
  have hruns : ((assigning still).run (Assigning.start (.expecting []) 0 () 2)
      overlapping_accepts).any fun s => s.calls = [(some 1, .incremented 0)] := by
    decide +kernel
  obtain ⟨s, hrun, hcalls⟩ := (Option.any_eq_true _ _).mp hruns
  exact ⟨s, hrun, of_decide_eq_true hcalls,
    fair_assignment still 0 () 2 (by decide) overlapping_accepts s hrun⟩

end MyWarehouse

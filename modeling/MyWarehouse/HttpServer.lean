/-
`http_server.h`, `http_server.cpp` and the pool of `io_service_pool.cpp`: the server
that accepts connections and starts a session for each.

`http_server::do_accept` constructs the session first and then waits for a connection
to put on its socket, so a session exists from the previous accept on. `OnAccept` runs
on one of the threads of `io_service_` while the handlers of the sessions run on the
threads of the pool: each of its statements is a step of its own, and between two of
them anything else can happen, a further `OnAccept` included.

The `io_service_` runs out of work, and stops for good, when no accept is pending, no
`OnAccept` is running and nothing else is outstanding on it. What `func_` has
outstanding there (it is given the `io_service_`; the clients keep their timers on
it) is `work`.
-/
import MyWarehouse.HttpSession

set_option autoImplicit false

namespace MyWarehouse

/-! ## The pool -/

/-- `io_service_pool`: how many `io_service` it has and which is the next. -/
structure io_service_pool where
  size : ℕ
  next_io_service_ : ℕ
  deriving DecidableEq, Repr

namespace io_service_pool

/-- `io_service_pool::io_service_pool`. -/
def ctor (pool_size : ℕ) : io_service_pool := ⟨pool_size, 0⟩

/-- `io_service_pool::get_io_service`, called by one thread at a time. -/
def get_io_service (p : io_service_pool) : ℕ × io_service_pool :=
  let next := p.next_io_service_ + 1
  (p.next_io_service_, { p with next_io_service_ := if next = p.size then 0 else next })

end io_service_pool

/-! ## The server -/

/-- Where the server stands with a session: `accepting` while the accept on its socket
is pending, `completed` when `OnAccept` has been called, then what `OnAccept` does
next; `running` and `rejected` when it has returned. -/
inductive Stage where
  | accepting
  | completed (ec : error_code)
  | inserting
  | starting
  | reading
  | returning
  | running
  | rejected
  deriving DecidableEq, Repr

/-- `OnAccept` is running for the session. -/
def Stage.busy : Stage → Bool
  | .completed _ | .inserting | .starting | .reading | .returning => true
  | _ => false

/-- A session of the server. `constructed` is not kept by the program: it is when the
session was constructed. -/
structure Slot (P : HttpParser) where
  stage : Stage
  io_service : ℕ
  constructed : ℕ
  session : http_session P

/-- `http_server`, with every session it has constructed, oldest first. -/
structure http_server (P : HttpParser) (W : Type) where
  now : ℕ
  world : W
  pool_ : io_service_pool
  slots : List (Slot P)
  work : ℕ
  stopped : Bool

namespace http_server

variable {P : HttpParser} {W : Type}

/-- `http_server::do_accept`; `data_` is what the new session finds in its buffer. -/
def do_accept (s : http_server P W) (data_ : Bytes) : http_server P W :=
  let (io_service, pool_) := s.pool_.get_io_service
  { s with
    pool_ := pool_
    slots := s.slots ++ [⟨.accepting, io_service, s.now, .ctor P s.now data_⟩] }

/-- `http_server::http_server`. -/
def ctor (P : HttpParser) (now : ℕ) (w : W) (threadnum : ℕ) (data_ : Bytes) :
    http_server P W :=
  do_accept ⟨now, w, .ctor threadnum, [], 0, false⟩ data_

/-- The slot of one session. -/
def put (s : http_server P W) (i : ℕ) (slot : Slot P) : http_server P W :=
  { s with slots := s.slots.set i slot }

/-- The next statement of `http_server::OnAccept` for the session in slot `i`. -/
def OnAccept (s : http_server P W) (i : ℕ) (slot : Slot P) (data_ : Bytes) :
    Option (http_server P W) :=
  match slot.stage with
  | .completed ec =>
    if ec = 0 then
      if data_.length = max_length then
        some ((s.put i { slot with stage := .inserting }).do_accept data_)
      else none
    else
      -- `new_session.reset()`; the acceptor is left as it is
      some (s.put i { slot with
        stage := .rejected, session := { slot.session with held := false } })
  | .inserting => some (s.put i { slot with
      stage := .starting, session := { slot.session with in_set := true } })
  | .starting => some (s.put i { slot with
      stage := .reading, session := slot.session.start_wait s.now })
  | .reading => some (s.put i { slot with
      stage := .returning, session := slot.session.do_read })
  | .returning => some (s.put i { slot with
      stage := .running, session := { slot.session with held := false } })
  | _ => none

/-- The accepts pending on the acceptor. -/
def pending (s : http_server P W) : ℕ := s.slots.countP fun slot => slot.stage = .accepting

/-- No `OnAccept` is running. -/
def Idle (s : http_server P W) : Prop := ∀ slot ∈ s.slots, slot.stage.busy = false

/-- Whether something is outstanding on `io_service_`. -/
def outstanding (s : http_server P W) : Bool :=
  0 < s.work || s.slots.any fun slot => slot.stage = .accepting || slot.stage.busy

/-- A handler has thrown, which ends the process. -/
def threw (s : http_server P W) : Bool := s.slots.any fun slot => slot.session.threw

/-- The `io_service_` stops when it runs out of work. -/
def settle (s : http_server P W) : http_server P W :=
  { s with stopped := s.stopped || !s.outstanding }

end http_server

/-- What can happen: time passes, another handler of the `io_service_` runs and leaves
the world and the work as given, the accept on the socket of a session completes,
`OnAccept` goes on, or a session handles a completion. -/
inductive ServerEvent (W : Type) where
  | tick (d : ℕ)
  | elsewhere (w : W) (work : ℕ)
  | accepted (i : ℕ) (ec : error_code)
  | OnAccept (i : ℕ) (data_ : Bytes)
  | session (i : ℕ) (e : SessionEvent)

/-- The server and its sessions. A session lets go of `OnAccept` by the return of
`OnAccept` only. -/
def server {P : HttpParser} {W : Type} (h : Handler W) :
    Transition (http_server P W) (ServerEvent W) where
  step s e :=
    if s.threw then none
    else match e with
    | .tick d => some { s with now := s.now + d }
    | .elsewhere w work =>
      if s.stopped then none else some { s with world := w, work := work }.settle
    | .accepted i ec => match s.slots[i]? with
      | none => none
      | some slot =>
        if s.stopped = false ∧ slot.stage = .accepting then
          some (s.put i { slot with stage := .completed ec }).settle
        else none
    | .OnAccept i data_ => match s.slots[i]? with
      | none => none
      | some slot => (s.OnAccept i slot data_).map http_server.settle
    | .session i e => match s.slots[i]? with
      | none => none
      | some slot =>
        if e = .release then none
        else match slot.session.step h s.now s.world e with
          | none => none
          | some (w, session) => some { s.put i { slot with session := session } with world := w }

/-! ## What a step does -/

/-- What an event does to the slot `i` it is about, the world after it and the slot it
adds: only the `OnAccept` of an accept that completed without error adds one. -/
inductive Slot.Step {P : HttpParser} {W : Type} (h : Handler W) (now : ℕ) (w : W) (i : ℕ)
    (slot : Slot P) : ServerEvent W → W → Slot P → List (Slot P) → Prop where
  | accepted (ec : error_code) : slot.stage = .accepting →
      Step h now w i slot (.accepted i ec) w { slot with stage := .completed ec } []
  | do_accept (data_ : Bytes) (io_service : ℕ) : slot.stage = .completed 0 →
      data_.length = max_length →
      Step h now w i slot (.OnAccept i data_) w { slot with stage := .inserting }
        [⟨.accepting, io_service, now, .ctor P now data_⟩]
  | reject (data_ : Bytes) (ec : error_code) : slot.stage = .completed ec → ec ≠ 0 →
      Step h now w i slot (.OnAccept i data_) w { slot with
        stage := .rejected, session := { slot.session with held := false } } []
  | insert (data_ : Bytes) : slot.stage = .inserting →
      Step h now w i slot (.OnAccept i data_) w { slot with
        stage := .starting, session := { slot.session with in_set := true } } []
  | start_wait (data_ : Bytes) : slot.stage = .starting →
      Step h now w i slot (.OnAccept i data_) w { slot with
        stage := .reading, session := slot.session.start_wait now } []
  | do_read (data_ : Bytes) : slot.stage = .reading →
      Step h now w i slot (.OnAccept i data_) w { slot with
        stage := .returning, session := slot.session.do_read } []
  | returns (data_ : Bytes) : slot.stage = .returning →
      Step h now w i slot (.OnAccept i data_) w { slot with
        stage := .running, session := { slot.session with held := false } } []
  | session (e : SessionEvent) (w' : W) (session : http_session P) : e ≠ .release →
      slot.session.step h now w e = some (w', session) →
      Step h now w i slot (.session i e) w' { slot with session := session } []

section Steps

variable {P : HttpParser} {W : Type} {h : Handler W} {s s' : http_server P W} {e : ServerEvent W}

/-- What `OnAccept` does is a step of its slot. -/
theorem OnAccept_cases {i : ℕ} {slot : Slot P} {data_ : Bytes}
    (hstep : s.OnAccept i slot data_ = some s') :
    ∃ slot' added, slot.Step h s.now s.world i (.OnAccept i data_) s.world slot' added ∧
      s'.slots = s.slots.set i slot' ++ added ∧ s'.now = s.now ∧ s'.world = s.world := by
  unfold http_server.OnAccept at hstep
  rcases hstage : slot.stage with _ | ec | _ | _ | _ | _ | _ | _
  all_goals simp only [hstage] at hstep
  · cases hstep
  · split_ifs at hstep with hec hlen
    · obtain rfl := Option.some.inj hstep
      rw [hec] at hstage
      exact ⟨_, _, .do_accept data_ _ hstage hlen, rfl, rfl, rfl⟩
    · obtain rfl := Option.some.inj hstep
      exact ⟨_, _, .reject data_ ec hstage hec, (List.append_nil _).symm, rfl, rfl⟩
  · obtain rfl := Option.some.inj hstep
    exact ⟨_, _, .insert data_ hstage, (List.append_nil _).symm, rfl, rfl⟩
  · obtain rfl := Option.some.inj hstep
    exact ⟨_, _, .start_wait data_ hstage, (List.append_nil _).symm, rfl, rfl⟩
  · obtain rfl := Option.some.inj hstep
    exact ⟨_, _, .do_read data_ hstage, (List.append_nil _).symm, rfl, rfl⟩
  · obtain rfl := Option.some.inj hstep
    exact ⟨_, _, .returns data_ hstage, (List.append_nil _).symm, rfl, rfl⟩
  · cases hstep
  · cases hstep

/-- A slot moves because its session handles a completion, or in a way that leaves the
socket and what the session has done alone. -/
theorem Slot.Step.frame {now i : ℕ} {w w' : W} {e : ServerEvent W} {slot slot' : Slot P}
    {added : List (Slot P)} (hmove : slot.Step h now w i e w' slot' added) :
    (∃ e' session, e = .session i e' ∧ e' ≠ .release ∧
        slot.session.step h now w e' = some (w', session) ∧
        slot' = { slot with session := session }) ∨
      slot'.session.open_ = slot.session.open_ ∧ slot'.session.invoked = slot.session.invoked ∧
        slot'.session.written = slot.session.written := by
  cases hmove with
  | session e' w' session he hsession => exact Or.inl ⟨e', session, rfl, he, hsession, rfl⟩
  | _ => exact Or.inr ⟨rfl, rfl, rfl⟩

/-- Nothing happens after an exception. -/
theorem threw_of_server (hstep : (server h).step s e = some s') : s.threw = false := by
  by_contra hthrew
  rw [Bool.not_eq_false] at hthrew
  simp only [server, if_pos hthrew] at hstep
  cases hstep

/-- **What a step of the server does**: time passes or the world changes, and the slots
stay; or one slot takes a step. -/
theorem server_cases (hstep : (server h).step s e = some s') :
    ((∃ d, e = .tick d) ∨ ∃ w work, e = .elsewhere w work) ∧ s'.slots = s.slots ∧
      s.now ≤ s'.now ∨
    ∃ i slot slot' added, s.slots[i]? = some slot ∧
      slot.Step h s.now s.world i e s'.world slot' added ∧
      s'.slots = s.slots.set i slot' ++ added ∧ s'.now = s.now := by
  have hthrew := threw_of_server hstep
  simp only [server, hthrew, Bool.false_eq_true, if_false] at hstep
  rcases e with d | ⟨w, work⟩ | ⟨i, ec⟩ | ⟨i, data_⟩ | ⟨i, e⟩
  · obtain rfl := Option.some.inj hstep
    exact Or.inl ⟨Or.inl ⟨d, rfl⟩, rfl, Nat.le_add_right _ _⟩
  · simp only at hstep
    split_ifs at hstep
    obtain rfl := Option.some.inj hstep
    exact Or.inl ⟨Or.inr ⟨w, work, rfl⟩, rfl, le_refl _⟩
  all_goals
    rcases hslot : s.slots[i]? with _ | slot
    all_goals simp only [hslot] at hstep
  · cases hstep
  · split_ifs at hstep with haccept
    obtain rfl := Option.some.inj hstep
    exact Or.inr ⟨i, slot, _, _, hslot, .accepted ec haccept.2, (List.append_nil _).symm, rfl⟩
  · cases hstep
  · obtain ⟨s₁, hOnAccept, rfl⟩ := Option.map_eq_some_iff.mp hstep
    obtain ⟨slot', added, hslot', hslots, hnow, hworld⟩ := OnAccept_cases (h := h) hOnAccept
    have hsettled : s₁.settle.world = s.world := hworld
    refine Or.inr ⟨i, slot, slot', added, hslot, ?_, hslots, hnow⟩
    rw [hsettled]
    exact hslot'
  · cases hstep
  · split_ifs at hstep with he
    rcases hsession : slot.session.step h s.now s.world e with _ | ⟨w, session⟩
    · rw [hsession] at hstep
      cases hstep
    · rw [hsession] at hstep
      obtain rfl := Option.some.inj hstep
      exact Or.inr ⟨i, slot, _, _, hslot, .session e w session he hsession,
        (List.append_nil _).symm, rfl⟩

/-- A session that handles a completion takes a step. -/
theorem session_of_server {i : ℕ} {e : SessionEvent} {slot : Slot P}
    (hslot : s.slots[i]? = some slot) (hstep : (server h).step s (.session i e) = some s') :
    ∃ w session, slot.session.step h s.now s.world e = some (w, session) ∧
      s'.slots = s.slots.set i { slot with session := session } := by
  obtain ⟨⟨d, hd⟩ | ⟨w, work, hw⟩, -⟩ | ⟨i', slot₁, slot', added, hslot₁, hmove, hslots, -⟩ :=
    server_cases hstep
  · cases hd
  · cases hw
  · generalize s'.world = w' at hmove
    rcases hmove with _ | _ | _ | _ | _ | _ | _ | ⟨e, w', session, -, hsession⟩
    obtain rfl : slot = slot₁ := Option.some.inj (hslot.symm.trans hslot₁)
    rw [List.append_nil] at hslots
    exact ⟨w', session, hsession, hslots⟩

/-- A session is still there after a step, as it was or after a step of its own. -/
theorem slot_of_server {j : ℕ} {slot : Slot P} (hslot : s.slots[j]? = some slot)
    (hstep : (server h).step s e = some s') :
    ∃ slot', s'.slots[j]? = some slot' ∧
      (slot' = slot ∨ ∃ added, slot.Step h s.now s.world j e s'.world slot' added) := by
  obtain ⟨-, hslots, -⟩ | ⟨i, slot₁, slot', added, hslot₁, hmove, hslots, -⟩ := server_cases hstep
  · exact ⟨slot, by rw [hslots, hslot], Or.inl rfl⟩
  · have hlen : j < (s.slots.set i slot').length := by
      rw [List.length_set]
      exact (List.getElem?_eq_some_iff.mp hslot).1
    by_cases hij : i = j
    · subst hij
      obtain rfl : slot = slot₁ := Option.some.inj (hslot.symm.trans hslot₁)
      refine ⟨slot', ?_, Or.inr ⟨added, hmove⟩⟩
      rw [hslots, List.getElem?_append_left hlen]
      exact List.getElem?_set_self (List.getElem?_eq_some_iff.mp hslot).1
    · refine ⟨slot, ?_, Or.inl rfl⟩
      rw [hslots, List.getElem?_append_left hlen, List.getElem?_set_ne hij, hslot]

/-- The wait on an expired timer can be over. -/
theorem wait_over (hthrew : s.threw = false) {i : ℕ} {slot : Slot P}
    (hslot : s.slots[i]? = some slot) (hwaits : 0 < slot.session.waits)
    (hexpired : slot.session.timer_ ≤ s.now) :
    ∃ s', (server h).step s (.session i (.timer 0)) = some s' := by
  have hquiet : slot.session.threw = false := by
    apply Bool.eq_false_iff.mpr
    exact List.any_eq_false.mp hthrew slot (List.mem_of_getElem? hslot)
  have hsession : ∃ r, slot.session.step h s.now s.world (.timer 0) = some r := by
    unfold http_session.step
    rw [if_neg (by rw [hquiet]; exact Bool.false_ne_true)]
    exact ⟨_, if_pos ⟨hwaits, Or.inr ⟨rfl, hexpired⟩⟩⟩
  obtain ⟨⟨w', session⟩, hsession⟩ := hsession
  simp only [server, hthrew, hslot, hsession]
  exact ⟨_, rfl⟩

/-- **The rule for slots.** What holds of every slot holds of every slot after a step
when time and the world may change under it, a slot keeps it through a step of its
own, and a slot that is added has it. -/
theorem slots_step {I : ℕ → W → Slot P → Prop}
    (hframe : ∀ now now' w w' slot, now ≤ now' → I now w slot → I now' w' slot)
    (hown : ∀ i slot slot' added, s.slots[i]? = some slot →
      slot.Step h s.now s.world i e s'.world slot' added → slot.session.threw = false →
      I s.now s.world slot → I s.now s'.world slot' ∧ ∀ new ∈ added, I s.now s'.world new)
    (hs : ∀ slot ∈ s.slots, I s.now s.world slot) (hstep : (server h).step s e = some s') :
    ∀ slot ∈ s'.slots, I s'.now s'.world slot := by
  obtain ⟨-, hslots, hnow⟩ | ⟨i, slot, slot', added, hslot, hmove, hslots, hnow⟩ :=
    server_cases hstep
  · intro t ht
    rw [hslots] at ht
    exact hframe _ _ _ _ _ hnow (hs t ht)
  · have hslot_mem : slot ∈ s.slots := List.mem_of_getElem? hslot
    have hthrew : slot.session.threw = false := by
      apply Bool.eq_false_iff.mpr
      exact List.any_eq_false.mp (threw_of_server hstep) slot hslot_mem
    obtain ⟨hslot', hadded⟩ := hown i slot slot' added hslot hmove hthrew (hs slot hslot_mem)
    intro t ht
    rw [hslots, List.mem_append] at ht
    rw [hnow]
    rcases ht with ht | ht
    · rcases List.mem_or_eq_of_mem_set ht with ht | rfl
      · exact hframe _ _ _ _ _ (le_refl _) (hs t ht)
      · exact hslot'
    · exact hadded t ht

end Steps

end MyWarehouse

/-
`io_service_pool::get_io_service`, access by access.

The counter `next_io_service_` is a `std::atomic`, but a call of `get_io_service` accesses
it three or four times: it loads the subscript, increments, loads again to compare with the
size, and stores 0 when they are equal. Each access is one step here, and any number of
calls run at once.

The counter is at the size between the increment that brings it there and the store that
takes it back. A call that loads its subscript in that time reads past the end of
`io_services_`, and one that increments takes the counter beyond the size, where no
comparison finds it again. Nothing else goes wrong (`subscripts_in_range`).
-/
import MyWarehouse.HttpServer

set_option autoImplicit false

namespace MyWarehouse

/-! ## The calls -/

/-- Where a call of `get_io_service` stands: it is `calling` before its first access, has
`chosen` its `io_service` by the subscript, has `incremented` the counter, is `resetting`
it when the comparison came out equal, and has `returned`. -/
inductive Call where
  | calling
  | chosen (subscript : ℕ)
  | incremented (subscript : ℕ)
  | resetting (subscript : ℕ)
  | returned (subscript : ℕ)
  deriving DecidableEq, Repr

namespace Call

/-- The subscript a call has used. -/
def subscript : Call → Option ℕ
  | .calling => none
  | .chosen v | .incremented v | .resetting v | .returned v => some v

/-- The call has not returned. -/
def inProgress : Call → Bool
  | .returned _ => false
  | _ => true

/-- The next access of the call is the load of its subscript, or its increment. -/
def advances : Call → Bool
  | .calling | .chosen _ => true
  | _ => false

/-- The call is between its increment and its return. -/
def wraps : Call → Bool
  | .incremented _ | .resetting _ => true
  | _ => false

/-- The next access of a call. -/
def access (p : io_service_pool) : Call → Option (io_service_pool × Call)
  | .calling => some (p, .chosen p.next_io_service_)
  | .chosen v => some ({ p with next_io_service_ := p.next_io_service_ + 1 }, .incremented v)
  | .incremented v =>
    some (p, if p.next_io_service_ = p.size then .resetting v else .returned v)
  | .resetting v => some ({ p with next_io_service_ := 0 }, .returned v)
  | .returned _ => none

end Call

/-- A pool and the calls that were made on it. -/
structure Callers where
  pool : io_service_pool
  calls : List Call
  deriving DecidableEq, Repr

/-- Some thread calls `get_io_service`, or a call makes its next access. -/
inductive CallEvent where
  | enter
  | access (i : ℕ)
  deriving DecidableEq, Repr

/-- The calls of `get_io_service`, interleaved. -/
def calling : Transition Callers CallEvent where
  step s
    | .enter => some { s with calls := s.calls ++ [.calling] }
    | .access i => match s.calls[i]? with
      | none => none
      | some call => match call.access s.pool with
        | none => none
        | some (pool, call') => some ⟨pool, s.calls.set i call'⟩

/-- A pool right after its constructor, on which nobody has called. -/
def Callers.start (pool_size : ℕ) : Callers := ⟨.ctor pool_size, []⟩

section Steps

variable {s s' : Callers} {e : CallEvent}

/-- A call begins, or one of them makes an access. -/
theorem calling_cases (hstep : calling.step s e = some s') :
    e = .enter ∧ s' = { s with calls := s.calls ++ [.calling] } ∨
    ∃ i call pool call', e = .access i ∧ s.calls[i]? = some call ∧
      call.access s.pool = some (pool, call') ∧ s' = ⟨pool, s.calls.set i call'⟩ := by
  rcases e with _ | i
  · left
    exact ⟨rfl, (Option.some.inj hstep).symm⟩
  · right
    simp only [calling] at hstep
    rcases hi : s.calls[i]? with _ | call
    · simp only [hi] at hstep
      cases hstep
    simp only [hi] at hstep
    rcases haccess : call.access s.pool with _ | ⟨pool, call'⟩
    · simp only [haccess] at hstep
      cases hstep
    · simp only [haccess] at hstep
      exact ⟨i, call, pool, call', rfl, hi, haccess, (Option.some.inj hstep).symm⟩

/-- A call that can make an access makes it. -/
theorem access_step {i : ℕ} {call call' : Call} {pool : io_service_pool}
    (hi : s.calls[i]? = some call) (haccess : call.access s.pool = some (pool, call')) :
    calling.step s (.access i) = some ⟨pool, s.calls.set i call'⟩ := by
  simp only [calling, hi, haccess]

end Steps

/-- **A call that runs alone** does what `get_io_service` says. -/
theorem get_io_service_of_accesses (p : io_service_pool) :
    ∃ es : List CallEvent, (∀ e ∈ es, e = .access 0) ∧
      calling.run ⟨p, [.calling]⟩ es
        = some ⟨p.get_io_service.2, [.returned p.get_io_service.1]⟩ := by
  by_cases hlast : p.next_io_service_ + 1 = p.size
  · refine ⟨List.replicate 4 (.access 0), fun e he => List.eq_of_mem_replicate he, ?_⟩
    simp only [io_service_pool.get_io_service, if_pos hlast, List.replicate, Transition.run,
      calling, Call.access, List.getElem?_cons_zero, List.set_cons_zero]
  · refine ⟨List.replicate 3 (.access 0), fun e he => List.eq_of_mem_replicate he, ?_⟩
    simp only [io_service_pool.get_io_service, if_neg hlast, List.replicate, Transition.run,
      calling, Call.access, List.getElem?_cons_zero, List.set_cons_zero]

/-! ## The counter stays in range -/

/-- A call loads its subscript, or increments, only while the counter is not at the
size. -/
def AwayFromSize (s : Callers) (e : CallEvent) : Prop :=
  ∀ i call, e = .access i → s.calls[i]? = some call → call.advances = true →
    s.pool.next_io_service_ ≠ s.pool.size

/-- The invariant. The counter is at the size only while some call is about to take it
back. -/
structure Callers.InRange (n : ℕ) (s : Callers) : Prop where
  size : s.pool.size = n
  le : s.pool.next_io_service_ ≤ n
  wraps : s.pool.next_io_service_ = n → ∃ call ∈ s.calls, call.wraps = true
  subscripts : ∀ call ∈ s.calls, ∀ v, call.subscript = some v → v < n

section Range

variable {n : ℕ} {s s' : Callers} {e : CallEvent}

/-- While the counter is away from the size it is below it. -/
theorem Callers.InRange.lt (hs : s.InRange n) (haway : s.pool.next_io_service_ ≠ s.pool.size) :
    s.pool.next_io_service_ < n := by
  have hle := hs.le
  have hsize := hs.size
  omega

/-- The subscripts of the calls after one of them has made an access. -/
theorem Callers.InRange.set (hs : s.InRange n) {call' : Call}
    (hcall' : ∀ v, call'.subscript = some v → v < n) (i : ℕ) :
    ∀ call ∈ s.calls.set i call', ∀ v, call.subscript = some v → v < n := by
  intro call hcall
  rcases List.mem_or_eq_of_mem_set hcall with hcall | rfl
  · exact hs.subscripts call hcall
  · exact hcall'

theorem inRange_step (hs : s.InRange n) (he : AwayFromSize s e)
    (hstep : calling.step s e = some s') : s'.InRange n := by
  obtain ⟨rfl, rfl⟩ | ⟨i, call, pool, call', rfl, hi, haccess, rfl⟩ := calling_cases hstep
  · refine ⟨hs.size, hs.le, fun hlast => ?_, fun call hcall => ?_⟩
    · obtain ⟨call, hcall, hwraps⟩ := hs.wraps hlast
      exact ⟨call, List.mem_append_left _ hcall, hwraps⟩
    · rcases List.mem_append.mp hcall with hcall | hcall
      · exact hs.subscripts call hcall
      · rw [List.mem_singleton.mp hcall]
        rintro v ⟨⟩
  have hmem := List.mem_of_getElem? hi
  have hlen := (List.getElem?_eq_some_iff.mp hi).1
  rcases call with _ | v | v | v | v
  case calling =>
    -- the load of the subscript
    obtain ⟨rfl, rfl⟩ := Prod.mk.inj (Option.some.inj haccess)
    have hlt := hs.lt (he i .calling rfl hi rfl)
    refine ⟨hs.size, hs.le, fun hlast => ?_, hs.set ?_ i⟩
    · exact absurd hlast hlt.ne
    · rintro v ⟨⟩
      exact hlt
  case chosen =>
    -- the increment; it may bring the counter to the size, and this call takes it back
    obtain ⟨rfl, rfl⟩ := Prod.mk.inj (Option.some.inj haccess)
    have hlt := hs.lt (he i (.chosen v) rfl hi rfl)
    refine ⟨hs.size, hlt, fun _ => ⟨_, List.mem_set hlen _, rfl⟩, hs.set ?_ i⟩
    exact hs.subscripts (.chosen v) hmem
  case incremented =>
    -- the comparison
    obtain ⟨rfl, rfl⟩ := Prod.mk.inj (Option.some.inj haccess)
    refine ⟨hs.size, hs.le, fun hlast => ?_, hs.set ?_ i⟩
    · refine ⟨_, List.mem_set hlen _, ?_⟩
      rw [if_pos (hlast.trans hs.size.symm)]
      rfl
    · intro u hu
      apply hs.subscripts (.incremented v) hmem
      split_ifs at hu
      · exact hu
      · exact hu
  case resetting =>
    -- the store of 0
    obtain ⟨rfl, rfl⟩ := Prod.mk.inj (Option.some.inj haccess)
    refine ⟨hs.size, Nat.zero_le n, fun hlast => ?_, hs.set ?_ i⟩
    · have hlt := hs.subscripts (.resetting v) hmem v rfl
      have hzero : 0 = n := hlast
      omega
    · exact hs.subscripts (.resetting v) hmem
  case returned => cases haccess

theorem start_inRange (hn : 0 < n) : (Callers.start n).InRange n :=
  ⟨rfl, Nat.zero_le n, fun hzero => absurd hzero hn.ne,
    fun _ hcall => absurd hcall List.not_mem_nil⟩

end Range

/-- **Subscripts are in range** as long as no call loads or increments the counter while it
is at the size. In every run of any number of calls that all keep to this, every subscript
used is below the size, and so is the counter whenever no call is in progress. -/
theorem subscripts_in_range (n : ℕ) (hn : 0 < n) (es : List CallEvent)
    (hes : calling.Along AwayFromSize (Callers.start n) es) (s : Callers)
    (hrun : calling.run (Callers.start n) es = some s) :
    (∀ call ∈ s.calls, ∀ v, call.subscript = some v → v < n) ∧
      ((∀ call ∈ s.calls, call.inProgress = false) → s.pool.next_io_service_ < n) := by
  have hs : s.InRange n := Transition.invariant_along (P := Callers.InRange n)
    (fun _ _ _ hs he hstep => inRange_step hs he hstep) (start_inRange hn) hes hrun
  refine ⟨hs.subscripts, fun hquiet => ?_⟩
  apply Nat.lt_of_le_of_ne hs.le
  intro hlast
  obtain ⟨call, hcall, hwraps⟩ := hs.wraps hlast
  have hreturned := hquiet call hcall
  rcases call with _ | v | v | v | v
  case incremented => cases hreturned
  case resetting => cases hreturned
  all_goals cases hwraps

instance (s : Callers) (e : CallEvent) : Decidable (AwayFromSize s e) :=
  match e with
  | .enter => isTrue (by rintro _ _ ⟨⟩)
  | .access i => decidable_of_iff (∀ call ∈ s.calls[i]?, call.advances = true →
      s.pool.next_io_service_ ≠ s.pool.size)
    ⟨by rintro hall _ call ⟨⟩ hi; exact hall call hi, fun hall call hi => hall i call rfl hi⟩

/-- Two calls on a pool of two, each of which increments after the other has loaded its
subscript; the second brings the counter to the size and takes it back. -/
theorem subscripts_in_range_two :
    ∃ s, calling.run (Callers.start 2) [.enter, .enter, .access 0, .access 1, .access 0,
        .access 0, .access 1, .access 1, .access 1] = some s ∧
      (∀ call ∈ s.calls, ∀ v, call.subscript = some v → v < 2) ∧
      ((∀ call ∈ s.calls, call.inProgress = false) → s.pool.next_io_service_ < 2) :=
  ⟨_, rfl, subscripts_in_range 2 (by decide) [.enter, .enter, .access 0, .access 1, .access 0,
    .access 0, .access 1, .access 1, .access 1] (by decide) _ rfl⟩

/-- Two calls on a pool of one: the second loads its subscript before the first has
compared, and reads past the end. On a pool of two, the counter is at 1, both calls
increment before either has compared, and it stays at 3. -/
theorem not_subscripts_in_range_overlap :
    (∃ s, calling.run (Callers.start 1) [.enter, .access 0, .access 0, .enter, .access 1]
        = some s ∧ ∃ call ∈ s.calls, call.subscript = some 1) ∧
    ∃ s, calling.run (Callers.start 2) [.enter, .access 0, .access 0, .access 0, .enter, .enter,
        .access 1, .access 2, .access 1, .access 2, .access 1, .access 2] = some s ∧
      (∀ call ∈ s.calls, call.inProgress = false) ∧ s.pool.next_io_service_ = 3 :=
  ⟨⟨_, rfl, .chosen 1, by decide, rfl⟩, ⟨_, rfl, by decide, rfl⟩⟩

/-- **An access at the size overruns.** When a call loads or increments the counter while
it is at the size, a subscript past the end is used then, or by a call that comes next. -/
theorem overruns_after_access_at_size {n : ℕ} (hn : 0 < n) {es : List CallEvent}
    {s s' : Callers} {e : CallEvent}
    (hes : calling.Along AwayFromSize (Callers.start n) es)
    (hrun : calling.run (Callers.start n) es = some s) (hbad : ¬ AwayFromSize s e)
    (hstep : calling.step s e = some s') :
    ∃ es' t, calling.run s' es' = some t ∧
      ∃ call ∈ t.calls, ∃ v, call.subscript = some v ∧ n ≤ v := by
  have hs : s.InRange n := Transition.invariant_along (P := Callers.InRange n)
    (fun _ _ _ hs he hstep => inRange_step hs he hstep) (start_inRange hn) hes hrun
  simp only [AwayFromSize, not_forall, not_not] at hbad
  obtain ⟨i, call, rfl, hi, hadvances, hlast⟩ := hbad
  have hlen := (List.getElem?_eq_some_iff.mp hi).1
  have hsize := hs.size
  rcases call with _ | v | v | v | v
  case calling =>
    have hload := access_step hi (rfl : Call.access s.pool .calling = some _)
    obtain rfl := Option.some.inj (hload.symm.trans hstep)
    refine ⟨[], _, rfl, _, List.mem_set hlen _, _, rfl, ?_⟩
    omega
  case chosen =>
    have hincrement := access_step hi (rfl : Call.access s.pool (.chosen v) = some _)
    obtain rfl := Option.some.inj (hincrement.symm.trans hstep)
    -- the next call loads what the increment has left
    let pool : io_service_pool := { s.pool with next_io_service_ := s.pool.next_io_service_ + 1 }
    let calls := s.calls.set i (.incremented v)
    have hnew : (calls ++ [Call.calling])[calls.length]? = some Call.calling :=
      List.getElem?_concat_length
    have hload := access_step (s := ⟨pool, calls ++ [.calling]⟩) hnew
      (rfl : Call.access pool .calling = some _)
    have hmem : Call.chosen (s.pool.next_io_service_ + 1) ∈
        (calls ++ [Call.calling]).set calls.length (.chosen pool.next_io_service_) := by
      apply List.mem_set
      rw [List.length_append, List.length_singleton]
      exact Nat.lt_succ_self _
    refine ⟨[.enter, .access calls.length], ⟨pool, _⟩, ?_, _, hmem, _, rfl, ?_⟩
    · rw [Transition.run_cons_iff]
      exact ⟨_, rfl, by rw [Transition.run_cons_iff]; exact ⟨_, hload, rfl⟩⟩
    · omega
  all_goals cases hadvances

end MyWarehouse

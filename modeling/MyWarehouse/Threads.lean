/-
The registry under several threads: logins, messages of logged-in users and timer
handlers that interleave.

A thread is where it stands and what it holds. Each of its steps is one critical
section of `m_lock` (`find_client_use_id`, `insert`, `erase`), one lock of a weak
pointer, or a piece of code between two of these; the construction of a client
and its `init_user_info` touch only the object nobody else knows yet and are one
piece. The steps call the functions of `ClientManager`, so a thread that runs
alone does what `process_login` and `process_logic` do (`login_alone`,
`logic_alone`).

A thread keeps the object it works on alive through the `shared_ptr` it holds. A
timer handler can lock its weak pointer while the registry or any thread still
holds the object.
-/
import MyWarehouse.ClientRuns

set_option autoImplicit false

namespace MyWarehouse

open client_manager

/-- A thread in the middle of its work. `respons` is the response root it fills,
`root` the message it handles.

* `login_find` .. `login_data`: `process_login`; `login_find_again`, `login_new` and
  `login_insert` are inside `insert_client_use_id`.
* `logic_find` .. `logic_data`: `process_logic`.
* `timer_lock`, `timer_erase`: the handler of a completed wait of object `p`. -/
inductive Thread where
  | login_find (id : ℤ) (respons : Members)
  | login_find_again (id : ℤ) (respons : Members)
  | login_new (id : ℤ) (respons : Members)
  | login_insert (id : ℤ) (p : ℕ) (respons : Members)
  | login_data (p : ℕ) (respons : Members)
  | logic_find (id : ℤ) (root : Value) (respons : Members)
  | logic_do_some (p : ℕ) (root : Value) (respons : Members)
  | logic_data (p : ℕ) (ec : ERROR_CODE) (respons : Members)
  | timer_lock (p : ℕ)
  | timer_erase (p : ℕ)
  | answered (respons : Members)
  | finished

/-- The object the thread holds a `shared_ptr` to. -/
def Thread.holds : Thread → Option ℕ
  | .login_insert _ p _ => some p
  | .login_data p _ => some p
  | .logic_do_some p _ _ => some p
  | .logic_data p _ _ => some p
  | .timer_erase p => some p
  | _ => none

/-- The registry and the threads working on it. -/
structure Threads where
  cm : client_manager
  threads : List Thread

/-- Some owner of the object `p` is left. -/
def Threads.alive (s : Threads) (p : ℕ) : Prop :=
  s.cm.registered p ∨ ∃ t ∈ s.threads, t.holds = some p

instance (s : Threads) (p : ℕ) : Decidable (s.alive p) :=
  inferInstanceAs (Decidable (_ ∨ ∃ t ∈ _, _))

/-- The next step of a thread. -/
def Thread.step (env : ClientEnv) (s : Threads) : Thread → Option (client_manager × Thread)
  | .login_find id r => match s.cm.find_client_use_id id none with
    | (.SUCCEEDED, some p) => some (s.cm, .login_data p r)
    | _ => some (s.cm, .login_find_again id r)
  | .login_find_again id r => match s.cm.find_client_use_id id none with
    | (.SUCCEEDED, some p) =>
      some (s.cm, .login_data p (r.set "errorcode" ERROR_CODE.SUCCEEDED.toValue))
    | _ => some (s.cm, .login_new id r)
  | .login_new id r =>
    let (cm, p) := s.cm.new_client
    let (cm, ec) := cm.init_user_info env p id
    if ec ≠ .SUCCEEDED then some (cm, .answered (r.set "errorcode" ec.toValue))
    else some (cm, .login_insert id p r)
  | .login_insert id p r =>
    let (cm, ok) := s.cm.insert id p
    let ec : ERROR_CODE := if !ok then .UNKNOWN_ERROR else .SUCCEEDED
    some (cm, .login_data p (r.set "errorcode" ec.toValue))
  | .login_data p r => some (s.cm, .answered ((s.cm.objects p).get_session_data r))
  | .logic_find id root r => match s.cm.find_client_use_id id none with
    | (.SUCCEEDED, some p) => some (s.cm, .logic_do_some p root r)
    | (ec, _) => some (s.cm, .answered (r.set "errorcode" ec.toValue))
  | .logic_do_some p root r =>
    let (cm, ec) := s.cm.client_do_some env p root
    some (cm, .logic_data p ec r)
  | .logic_data p ec r =>
    some (s.cm, .answered (((s.cm.objects p).get_session_data r).set "errorcode" ec.toValue))
  | .timer_lock p => some (s.cm, if s.alive p then .timer_erase p else .finished)
  | .timer_erase p => some (s.cm.clear_client p, .finished)
  | .answered _ => none
  | .finished => none

/-- What can happen: a login or another message arrives, a wait of an expired timer
completes, a thread takes its next step, time passes. -/
inductive ThreadEvent where
  | login (id : ℤ)
  | logic (id : ℤ) (root : Value)
  | complete (p : ℕ)
  | run (i : ℕ)
  | tick (d : ℕ)

/-- The response root `do_some` hands to the two handlers. -/
def opened : Members := OrdMap.empty.set "errorcode" ERROR_CODE.SUCCEEDED.toValue

/-- The interleaved system. -/
def interleaved (env : ClientEnv) : Transition Threads ThreadEvent where
  step s
    | .login id => some { s with threads := s.threads ++ [.login_find id opened] }
    | .logic id root => some { s with threads := s.threads ++ [.logic_find id root opened] }
    | .complete p =>
      if p < s.cm.next ∧ 0 < (s.cm.objects p).waits ∧ (s.cm.objects p).timer_ ≤ s.cm.now then
        some ⟨s.cm.wait_done p, s.threads ++ [.timer_lock p]⟩
      else none
    | .run i => match s.threads[i]? with
      | none => none
      | some t => match t.step env s with
        | none => none
        | some (cm, t') => some ⟨cm, s.threads.set i t'⟩
    | .tick d => some { s with cm := { s.cm with now := s.cm.now + d } }

/-! ## The step of a thread, by case -/

section Step

variable {env : ClientEnv} {s : Threads} {id : ℤ} {p : ℕ} {root : Value} {r : Members}

theorem login_find_step_of_some (h : s.cm.m_client.lookup id = some p) :
    (Thread.login_find id r).step env s = some (s.cm, .login_data p r) := by
  simp only [Thread.step, find_client_use_id_of_some h]

theorem login_find_step_of_none (h : s.cm.m_client.lookup id = none) :
    (Thread.login_find id r).step env s = some (s.cm, .login_find_again id r) := by
  simp only [Thread.step, find_client_use_id_of_none h]

theorem login_find_again_step_of_some (h : s.cm.m_client.lookup id = some p) :
    (Thread.login_find_again id r).step env s
      = some (s.cm, .login_data p (r.set "errorcode" ERROR_CODE.SUCCEEDED.toValue)) := by
  simp only [Thread.step, find_client_use_id_of_some h]

theorem login_find_again_step_of_none (h : s.cm.m_client.lookup id = none) :
    (Thread.login_find_again id r).step env s = some (s.cm, .login_new id r) := by
  simp only [Thread.step, find_client_use_id_of_none h]

theorem login_new_step_of_fails (h : env.init_user_info s.cm.next id ≠ .SUCCEEDED) :
    (Thread.login_new id r).step env s = some (s.cm.created env id,
      .answered (r.set "errorcode" (env.init_user_info s.cm.next id).toValue)) :=
  if_pos h

theorem login_new_step_of_succeeds (h : env.init_user_info s.cm.next id = .SUCCEEDED) :
    (Thread.login_new id r).step env s
      = some (s.cm.created env id, .login_insert id s.cm.next r) :=
  if_neg (not_not.mpr h)

theorem login_insert_step_of_none (h : s.cm.m_client.lookup id = none) :
    (Thread.login_insert id p r).step env s
      = some ({ s.cm with m_client := s.cm.m_client.set id p },
          .login_data p (r.set "errorcode" ERROR_CODE.SUCCEEDED.toValue)) := by
  simp only [Thread.step, client_manager.insert, h]
  rfl

theorem login_insert_step_of_some {q : ℕ} (h : s.cm.m_client.lookup id = some q) :
    (Thread.login_insert id p r).step env s
      = some (s.cm, .login_data p (r.set "errorcode" ERROR_CODE.UNKNOWN_ERROR.toValue)) := by
  simp only [Thread.step, client_manager.insert, h]
  rfl

theorem logic_find_step_of_some (h : s.cm.m_client.lookup id = some p) :
    (Thread.logic_find id root r).step env s = some (s.cm, .logic_do_some p root r) := by
  simp only [Thread.step, find_client_use_id_of_some h]

theorem logic_find_step_of_none (h : s.cm.m_client.lookup id = none) :
    (Thread.logic_find id root r).step env s
      = some (s.cm, .answered (r.set "errorcode" ERROR_CODE.USER_NOT_LOGIN.toValue)) := by
  simp only [Thread.step, find_client_use_id_of_none h]

theorem logic_do_some_step : (Thread.logic_do_some p root r).step env s
    = some ((s.cm.client_do_some env p root).1, .logic_data p (env.do_some p root) r) :=
  rfl

/-- The steps of a thread, with what the registry must hold for each. A look-up, an
insertion, the construction of a client and the lock of a weak pointer can each go
two ways; every other step goes one way. -/
inductive Thread.Steps (env : ClientEnv) (s : Threads) :
    Thread → client_manager → Thread → Prop
  | login_found {id : ℤ} {p : ℕ} {r : Members} (h : s.cm.m_client.lookup id = some p) :
      Steps env s (.login_find id r) s.cm (.login_data p r)
  | login_missed {id : ℤ} {r : Members} (h : s.cm.m_client.lookup id = none) :
      Steps env s (.login_find id r) s.cm (.login_find_again id r)
  | again_found {id : ℤ} {p : ℕ} {r : Members} (h : s.cm.m_client.lookup id = some p) :
      Steps env s (.login_find_again id r) s.cm
        (.login_data p (r.set "errorcode" ERROR_CODE.SUCCEEDED.toValue))
  | again_missed {id : ℤ} {r : Members} (h : s.cm.m_client.lookup id = none) :
      Steps env s (.login_find_again id r) s.cm (.login_new id r)
  | created {id : ℤ} {r : Members} (h : env.init_user_info s.cm.next id = .SUCCEEDED) :
      Steps env s (.login_new id r) (s.cm.created env id) (.login_insert id s.cm.next r)
  | failed {id : ℤ} {r : Members} (h : env.init_user_info s.cm.next id ≠ .SUCCEEDED) :
      Steps env s (.login_new id r) (s.cm.created env id)
        (.answered (r.set "errorcode" (env.init_user_info s.cm.next id).toValue))
  | inserted {id : ℤ} {p : ℕ} {r : Members} (h : s.cm.m_client.lookup id = none) :
      Steps env s (.login_insert id p r) { s.cm with m_client := s.cm.m_client.set id p }
        (.login_data p (r.set "errorcode" ERROR_CODE.SUCCEEDED.toValue))
  | taken {id : ℤ} {p q : ℕ} {r : Members} (h : s.cm.m_client.lookup id = some q) :
      Steps env s (.login_insert id p r) s.cm
        (.login_data p (r.set "errorcode" ERROR_CODE.UNKNOWN_ERROR.toValue))
  | login_data {p : ℕ} {r : Members} :
      Steps env s (.login_data p r) s.cm (.answered ((s.cm.objects p).get_session_data r))
  | logic_found {id : ℤ} {p : ℕ} {root : Value} {r : Members}
      (h : s.cm.m_client.lookup id = some p) :
      Steps env s (.logic_find id root r) s.cm (.logic_do_some p root r)
  | logic_missed {id : ℤ} {root : Value} {r : Members} (h : s.cm.m_client.lookup id = none) :
      Steps env s (.logic_find id root r) s.cm
        (.answered (r.set "errorcode" ERROR_CODE.USER_NOT_LOGIN.toValue))
  | logic_do_some {p : ℕ} {root : Value} {r : Members} :
      Steps env s (.logic_do_some p root r) (s.cm.client_do_some env p root).1
        (.logic_data p (env.do_some p root) r)
  | logic_data {p : ℕ} {ec : ERROR_CODE} {r : Members} :
      Steps env s (.logic_data p ec r) s.cm
        (.answered (((s.cm.objects p).get_session_data r).set "errorcode" ec.toValue))
  | locked {p : ℕ} (h : s.alive p) : Steps env s (.timer_lock p) s.cm (.timer_erase p)
  | expired {p : ℕ} (h : ¬ s.alive p) : Steps env s (.timer_lock p) s.cm .finished
  | timer_erase {p : ℕ} : Steps env s (.timer_erase p) (s.cm.clear_client p) .finished

/-- Every step of a thread is one of these. -/
theorem Thread.steps_of_step {t t' : Thread} {cm : client_manager}
    (h : t.step env s = some (cm, t')) : Thread.Steps env s t cm t' := by
  rcases t with ⟨id, r⟩ | ⟨id, r⟩ | ⟨id, r⟩ | ⟨id, q, r⟩ | ⟨q, r⟩ | ⟨id, root, r⟩ |
    ⟨q, root, r⟩ | ⟨q, ec, r⟩ | q | q | r | _
  case login_find =>
    rcases hl : s.cm.m_client.lookup id with _ | q
    · rw [login_find_step_of_none hl] at h
      cases h
      exact .login_missed hl
    · rw [login_find_step_of_some hl] at h
      cases h
      exact .login_found hl
  case login_find_again =>
    rcases hl : s.cm.m_client.lookup id with _ | q
    · rw [login_find_again_step_of_none hl] at h
      cases h
      exact .again_missed hl
    · rw [login_find_again_step_of_some hl] at h
      cases h
      exact .again_found hl
  case login_new =>
    by_cases hec : env.init_user_info s.cm.next id = .SUCCEEDED
    · rw [login_new_step_of_succeeds hec] at h
      cases h
      exact .created hec
    · rw [login_new_step_of_fails hec] at h
      cases h
      exact .failed hec
  case login_insert =>
    rcases hl : s.cm.m_client.lookup id with _ | q'
    · rw [login_insert_step_of_none hl] at h
      cases h
      exact .inserted hl
    · rw [login_insert_step_of_some hl] at h
      cases h
      exact .taken hl
  case login_data =>
    cases h
    exact .login_data
  case logic_find =>
    rcases hl : s.cm.m_client.lookup id with _ | q
    · rw [logic_find_step_of_none hl] at h
      cases h
      exact .logic_missed hl
    · rw [logic_find_step_of_some hl] at h
      cases h
      exact .logic_found hl
  case logic_do_some =>
    cases h
    exact .logic_do_some
  case logic_data =>
    cases h
    exact .logic_data
  case timer_lock =>
    cases h
    split_ifs with halive
    · exact .locked halive
    · exact .expired halive
  case timer_erase =>
    cases h
    exact .timer_erase
  case answered => cases h
  case finished => cases h

/-- What a step of a thread can do to the registry and the objects: nothing, make an
object, register one, dispatch a message to one, or erase an entry. -/
theorem step_writes {t t' : Thread} {cm : client_manager} (h : t.step env s = some (cm, t')) :
    cm = s.cm ∨
    (∃ id r, t = .login_new id r ∧ cm = s.cm.created env id ∧
      (env.init_user_info s.cm.next id = .SUCCEEDED ∧ t' = .login_insert id s.cm.next r ∨
        env.init_user_info s.cm.next id ≠ .SUCCEEDED ∧ ∃ r', t' = .answered r')) ∨
    (∃ id q r, t = .login_insert id q r ∧ s.cm.m_client.lookup id = none ∧
      cm = { s.cm with m_client := s.cm.m_client.set id q } ∧ ∃ r', t' = .login_data q r') ∨
    (∃ q root r, t = .logic_do_some q root r ∧ cm = (s.cm.client_do_some env q root).1) ∨
    (∃ q, t = .timer_erase q ∧ cm = s.cm.clear_client q) := by
  cases Thread.steps_of_step h with
  | created hec => exact Or.inr (Or.inl ⟨_, _, rfl, rfl, Or.inl ⟨hec, rfl⟩⟩)
  | failed hec => exact Or.inr (Or.inl ⟨_, _, rfl, rfl, Or.inr ⟨hec, _, rfl⟩⟩)
  | inserted hl => exact Or.inr (Or.inr (Or.inl ⟨_, _, _, rfl, hl, rfl, _, rfl⟩))
  | logic_do_some => exact Or.inr (Or.inr (Or.inr (Or.inl ⟨_, _, _, rfl, rfl⟩)))
  | timer_erase => exact Or.inr (Or.inr (Or.inr (Or.inr ⟨_, rfl, rfl⟩)))
  | _ => exact Or.inl rfl

/-- A thread goes on to make a client only after its second look has missed. -/
theorem login_new_of_step {t : Thread} {cm : client_manager}
    (h : t.step env s = some (cm, .login_new id r)) :
    t = .login_find_again id r ∧ s.cm.m_client.lookup id = none ∧ cm = s.cm := by
  cases Thread.steps_of_step h with
  | again_missed hl => exact ⟨rfl, hl, rfl⟩

/-- A step of the thread numbered `i`. -/
theorem run_step {i : ℕ} {t t' : Thread} {cm : client_manager} (ht : s.threads[i]? = some t)
    (hstep : t.step env s = some (cm, t')) :
    (interleaved env).step s (.run i) = some ⟨cm, s.threads.set i t'⟩ := by
  simp only [interleaved, ht, hstep]

/-- Every event is the arrival of a message, the completion of a wait, a tick, or a
step of one thread, which is replaced by what it becomes. -/
theorem interleaved_cases {e : ThreadEvent} {s' : Threads}
    (h : (interleaved env).step s e = some s') :
    (∃ id, e = .login id ∧ s' = { s with threads := s.threads ++ [.login_find id opened] }) ∨
    (∃ id root, e = .logic id root ∧
      s' = { s with threads := s.threads ++ [.logic_find id root opened] }) ∨
    (∃ p, e = .complete p ∧ p < s.cm.next ∧ 0 < (s.cm.objects p).waits ∧
      s' = ⟨s.cm.wait_done p, s.threads ++ [.timer_lock p]⟩) ∨
    (∃ d, e = .tick d ∧ s' = { s with cm := { s.cm with now := s.cm.now + d } }) ∨
    (∃ i t cm t', e = .run i ∧ s.threads[i]? = some t ∧ t.step env s = some (cm, t') ∧
      s' = ⟨cm, s.threads.set i t'⟩) := by
  rcases e with id | ⟨id, root⟩ | p | i | d
  · exact Or.inl ⟨id, rfl, (Option.some.inj h).symm⟩
  · exact Or.inr (Or.inl ⟨id, root, rfl, (Option.some.inj h).symm⟩)
  · simp only [interleaved] at h
    split_ifs at h with hdue
    exact Or.inr (Or.inr (Or.inl ⟨p, rfl, hdue.1, hdue.2.1, (Option.some.inj h).symm⟩))
  · refine Or.inr (Or.inr (Or.inr (Or.inr ?_)))
    simp only [interleaved] at h
    rcases ht : s.threads[i]? with _ | t
    · simp only [ht] at h
      cases h
    · simp only [ht] at h
      rcases hstep : t.step env s with _ | ⟨cm, t'⟩
      · simp only [hstep] at h
        cases h
      · simp only [hstep] at h
        exact ⟨i, t, cm, t', rfl, ht, hstep, (Option.some.inj h).symm⟩
  · exact Or.inr (Or.inr (Or.inr (Or.inl ⟨d, rfl, (Option.some.inj h).symm⟩)))

end Step

/-! ## What every step keeps -/

/-- Every allocated object keeps the user and the data it has. -/
structure client_manager.Keeps (cm cm' : client_manager) : Prop where
  next : cm.next ≤ cm'.next
  id_ : ∀ q < cm.next, (cm'.objects q).id_ = (cm.objects q).id_
  m_session_data : ∀ q < cm.next,
    (cm'.objects q).m_session_data = (cm.objects q).m_session_data

namespace client_manager.Keeps

variable {cm cm' : client_manager}

theorem of_objects (hobjects : cm'.objects = cm.objects) (hnext : cm'.next = cm.next) :
    cm.Keeps cm' := by
  refine ⟨hnext.ge, ?_, ?_⟩
  · intro q _
    rw [hobjects]
  · intro q _
    rw [hobjects]

theorem created (env : ClientEnv) (cm : client_manager) (id : ℤ) :
    cm.Keeps (cm.created env id) := by
  refine ⟨Nat.le_succ _, ?_, ?_⟩
  · intro q hq
    rw [created_objects_of_ne env cm id hq.ne]
  · intro q hq
    rw [created_objects_of_ne env cm id hq.ne]

theorem client_do_some (env : ClientEnv) (cm : client_manager) (p : ℕ) (root : Value) :
    cm.Keeps (cm.client_do_some env p root).1 := by
  refine ⟨le_refl _, ?_, ?_⟩
  · intro q _
    obtain ⟨w, ts, hq⟩ := client_do_some_objects env cm p q root
    rw [hq]
  · intro q _
    obtain ⟨w, ts, hq⟩ := client_do_some_objects env cm p q root
    rw [hq]

theorem wait_done (cm : client_manager) (p : ℕ) : cm.Keeps (cm.wait_done p) := by
  refine ⟨le_refl _, ?_, ?_⟩
  · intro q _
    rw [wait_done_id_]
  · intro q _
    obtain ⟨w, hw⟩ := wait_done_objects cm p q
    rw [hw]

theorem erase (cm : client_manager) (id : ℤ) (p : ℕ) : cm.Keeps (cm.erase id p) :=
  of_objects (erase_objects id p) (erase_next id p)

end client_manager.Keeps

/-- The objects a thread refers to were allocated, and the one it is about to
register has what `init_user_info` stores for its user. -/
def Thread.Valid (cm : client_manager) : Thread → Prop
  | .login_insert id p _ => p < cm.next ∧ (cm.objects p).id_ = id ∧
      ∃ rand, (cm.objects p).m_session_data = client.session_data rand id
  | .login_data p _ => p < cm.next
  | .logic_do_some p _ _ => p < cm.next
  | .logic_data p _ _ => p < cm.next
  | .timer_lock p => p < cm.next
  | .timer_erase p => p < cm.next
  | _ => True

/-- The invariant of the interleaved system. -/
structure Threads.Valid (s : Threads) : Prop where
  cm : s.cm.Valid
  threads : ∀ t ∈ s.threads, t.Valid s.cm

/-- An object a valid thread holds was allocated. -/
theorem Thread.Valid.lt_next {t : Thread} {cm : client_manager} {p : ℕ} (h : t.Valid cm)
    (hp : t.holds = some p) : p < cm.next := by
  rcases t with _ | _ | _ | ⟨id, q, r⟩ | ⟨q, r⟩ | _ | ⟨q, root, r⟩ | ⟨q, ec, r⟩ | _ | q | _ | _
  all_goals cases hp
  · exact h.1
  · exact h
  · exact h
  · exact h
  · exact h

/-- A thread stays valid while the other threads work. -/
theorem Thread.Valid.keeps {t : Thread} {cm cm' : client_manager} (h : t.Valid cm)
    (hk : cm.Keeps cm') : t.Valid cm' := by
  have hnext := hk.next
  rcases t with _ | _ | _ | ⟨id, p, r⟩ | ⟨p, r⟩ | _ | ⟨p, root, r⟩ | ⟨p, ec, r⟩ | p | p | _ | _
  · trivial
  · trivial
  · trivial
  · obtain ⟨hp, hid, hdata⟩ := h
    refine ⟨by omega, ?_, ?_⟩
    · rw [hk.id_ p hp, hid]
    · rw [hk.m_session_data p hp]
      exact hdata
  · exact lt_of_lt_of_le h hnext
  · trivial
  · exact lt_of_lt_of_le h hnext
  · exact lt_of_lt_of_le h hnext
  · exact lt_of_lt_of_le h hnext
  · exact lt_of_lt_of_le h hnext
  · trivial
  · trivial

section Kept

variable {env : ClientEnv} {s s' : Threads} {t t' : Thread} {cm : client_manager}

/-- One step of a thread keeps every object, the registry invariant and the
thread's own. The cases are those of the thread; the registry changes in
`login_new`, `login_insert`, `logic_do_some` and `timer_erase`. -/
theorem step_keeps (hcm : s.cm.Valid) (ht : t.Valid s.cm) (h : t.step env s = some (cm, t')) :
    s.cm.Keeps cm ∧ cm.Valid ∧ t'.Valid cm := by
  have hsame : s.cm.Keeps s.cm := .of_objects rfl rfl
  cases Thread.steps_of_step h with
  | login_found hl => exact ⟨hsame, hcm, hcm.lt_next hl⟩
  | login_missed => exact ⟨hsame, hcm, trivial⟩
  | again_found hl => exact ⟨hsame, hcm, hcm.lt_next hl⟩
  | again_missed => exact ⟨hsame, hcm, trivial⟩
  | created =>
    refine ⟨.created env s.cm _, hcm.created env _, Nat.lt_succ_self _, ?_, ?_⟩
    · rw [created_objects_next]
      rfl
    · rw [created_objects_next]
      exact ⟨_, rfl⟩
  | failed => exact ⟨.created env s.cm _, hcm.created env _, trivial⟩
  | inserted =>
    obtain ⟨hp, hid, hdata⟩ := ht
    exact ⟨.of_objects rfl rfl, hcm.register hp hid hdata, hp⟩
  | taken => exact ⟨hsame, hcm, ht.1⟩
  | login_data => exact ⟨hsame, hcm, trivial⟩
  | logic_found hl => exact ⟨hsame, hcm, hcm.lt_next hl⟩
  | logic_missed => exact ⟨hsame, hcm, trivial⟩
  | logic_do_some => exact ⟨.client_do_some env s.cm _ _, hcm.client_do_some env _ _, ht⟩
  | logic_data => exact ⟨hsame, hcm, trivial⟩
  | locked => exact ⟨hsame, hcm, ht⟩
  | expired => exact ⟨hsame, hcm, trivial⟩
  | timer_erase => exact ⟨.erase s.cm _ _, hcm.erase _ _, trivial⟩

/-- Every event keeps the objects. -/
theorem interleaved_keeps (hs : s.Valid) {e : ThreadEvent}
    (h : (interleaved env).step s e = some s') : s.cm.Keeps s'.cm := by
  obtain ⟨_, -, rfl⟩ | ⟨_, _, -, rfl⟩ | ⟨p, -, -, -, rfl⟩ | ⟨_, -, rfl⟩ |
    ⟨i, t, cm, t', -, hi, hstep, rfl⟩ := interleaved_cases h
  · exact .of_objects rfl rfl
  · exact .of_objects rfl rfl
  · exact .wait_done s.cm p
  · exact .of_objects rfl rfl
  · exact (step_keeps hs.cm (hs.threads t (List.mem_of_getElem? hi)) hstep).1

/-- Every event keeps the invariant. -/
theorem interleaved_valid (hs : s.Valid) {e : ThreadEvent}
    (h : (interleaved env).step s e = some s') : s'.Valid := by
  have hkeeps := interleaved_keeps hs h
  obtain ⟨id, -, rfl⟩ | ⟨id, root, -, rfl⟩ | ⟨p, -, hp, -, rfl⟩ | ⟨d, -, rfl⟩ |
    ⟨i, t, cm, t', -, hi, hstep, rfl⟩ := interleaved_cases h
  · refine ⟨hs.cm, fun u hu => ?_⟩
    rcases List.mem_append.mp hu with hu | hu
    · exact hs.threads u hu
    · rw [List.mem_singleton.mp hu]
      trivial
  · refine ⟨hs.cm, fun u hu => ?_⟩
    rcases List.mem_append.mp hu with hu | hu
    · exact hs.threads u hu
    · rw [List.mem_singleton.mp hu]
      trivial
  · refine ⟨hs.cm.wait_done p, fun u hu => ?_⟩
    rcases List.mem_append.mp hu with hu | hu
    · exact (hs.threads u hu).keeps hkeeps
    · rw [List.mem_singleton.mp hu]
      exact hp
  · exact ⟨⟨hs.cm.stored, hs.cm.plain⟩, fun u hu => (hs.threads u hu).keeps hkeeps⟩
  · obtain ⟨-, hcm', ht'⟩ := step_keeps hs.cm (hs.threads t (List.mem_of_getElem? hi)) hstep
    refine ⟨hcm', fun u hu => ?_⟩
    rcases List.mem_or_eq_of_mem_set hu with hu | rfl
    · exact (hs.threads u hu).keeps hkeeps
    · exact ht'

end Kept

/-! ## A thread that runs alone -/

section Alone

variable (env : ClientEnv) (cm : client_manager) (id : ℤ)

/-- **A login alone is `process_login`.** Its steps, one after the other, lead to
the state and the response the sequential function computes. -/
theorem login_alone (r : Members) :
    ∃ n, (interleaved env).run ⟨cm, [.login_find id r]⟩ (List.replicate n (.run 0))
      = some ⟨(cm.process_login env id r).1, [.answered (cm.process_login env id r).2]⟩ := by
  have hrun : ∀ (cm cm' : client_manager) (t t' : Thread) (es : List ThreadEvent),
      t.step env ⟨cm, [t]⟩ = some (cm', t') →
      (interleaved env).run ⟨cm, [t]⟩ (.run 0 :: es) = (interleaved env).run ⟨cm', [t']⟩ es :=
    fun cm cm' t t' es hstep => Transition.run_cons (run_step rfl hstep)
  rcases hl : cm.m_client.lookup id with _ | p
  · by_cases hec : env.init_user_info cm.next id = .SUCCEEDED
    · refine ⟨5, ?_⟩
      have hnone : (cm.created env id).m_client.lookup id = none := hl
      rw [process_login_of_succeeds env hl hec]
      simp only [List.replicate]
      rw [hrun _ _ _ _ _ (login_find_step_of_none hl),
        hrun _ _ _ _ _ (login_find_again_step_of_none hl),
        hrun _ (cm.created env id) _ (.login_insert id cm.next r) _
          (login_new_step_of_succeeds hec),
        hrun (cm.created env id) _ _ _ _ (login_insert_step_of_none hnone)]
      rfl
    · refine ⟨3, ?_⟩
      rw [process_login_of_fails env hl hec]
      simp only [List.replicate]
      rw [hrun _ _ _ _ _ (login_find_step_of_none hl),
        hrun _ _ _ _ _ (login_find_again_step_of_none hl),
        hrun _ _ _ _ _ (login_new_step_of_fails hec)]
      rfl
  · refine ⟨2, ?_⟩
    rw [process_login_of_some env hl]
    simp only [List.replicate]
    rw [hrun _ _ _ _ _ (login_find_step_of_some hl)]
    rfl

/-- **A message alone is `process_logic`**, once the user id has been read. -/
theorem logic_alone {jc : JsonCpp} {root root' : Value} {vs : Values}
    (hv : get_values jc root = .ok (vs, root')) (r : Members) :
    ∃ n cm' r', cm.process_logic jc env root' r = .ok (cm', r') ∧
      (interleaved env).run ⟨cm, [.logic_find vs.iUsrID root' r]⟩ (List.replicate n (.run 0))
        = some ⟨cm', [.answered r']⟩ := by
  rcases hl : cm.m_client.lookup vs.iUsrID with _ | p
  · refine ⟨1, _, _, process_logic_of_none env hv hl r, ?_⟩
    exact Transition.run_cons (run_step rfl (logic_find_step_of_none hl))
  · refine ⟨3, _, _, process_logic_of_some env hv hl r, ?_⟩
    simp only [List.replicate]
    rw [Transition.run_cons (run_step rfl (logic_find_step_of_some hl))]
    simp only [List.set_cons_zero, Transition.run, interleaved, List.getElem?_cons_zero,
      Thread.step, client_do_some, Function.update_self]

end Alone

end MyWarehouse

/-
Several logins of one user at the same time.

`insert_client_use_id` looks the user up, builds and fills a client object, and
inserts it; the lock is held for the lookup and for the insertion, not between
them. A login whose insertion finds an entry answers `UNKNOWN_ERROR` and the
session data of its own object, which nobody registered.

The logins of a run agree exactly when no two of them are between a lookup that
missed and their insertion at the same time (`logins_agree_iff`).
-/
import MyWarehouse.Threads

set_option autoImplicit false

namespace MyWarehouse

open client_manager

/-- The response of a login that reports success and exactly the given data. -/
structure Agrees (session respons : Members) : Prop where
  errorcode : respons.lookup "errorcode" = some ERROR_CODE.SUCCEEDED.toValue
  others : ∀ k, k ≠ "errorcode" → respons.lookup k = session.lookup k

/-- One object is registered for the user, and every thread has answered with
success and the data of that object. -/
def LoginsAgree (id : ℤ) (s : Threads) : Prop :=
  ∃ p, s.cm.m_client.lookup id = some p ∧
    ∀ t ∈ s.threads, ∃ r, t = .answered r ∧ Agrees (s.cm.objects p).m_session_data r

/-- Logins of one user arrive, threads run, time passes. -/
def OfLogins (id : ℤ) : ThreadEvent → Prop
  | .login id' => id' = id
  | .run _ => True
  | .tick _ => True
  | _ => False

/-- The thread has found the user missing at its second look and has not tried to
insert yet. -/
def Thread.creating (id : ℤ) : Thread → Bool
  | .login_new id' _ => id' = id
  | .login_insert id' _ _ => id' = id
  | _ => false

/-- When the event is a second look that misses, no other thread is creating a
client for the user. -/
def NoOverlap (s : Threads) : ThreadEvent → Prop
  | .run i => match s.threads[i]? with
    | some (.login_find_again id _) =>
      s.cm.m_client.lookup id = none → ∀ t ∈ s.threads, t.creating id = false
    | _ => True
  | _ => True

instance (s : Threads) (e : ThreadEvent) : Decidable (NoOverlap s e) := by
  unfold NoOverlap
  split
  · split
    · infer_instance
    · exact isTrue trivial
  · exact isTrue trivial

/-! ## Without overlap -/

/-- Where the login can be while the user is not registered. -/
def Thread.before (id : ℤ) : Thread → Prop
  | .login_find id' r => id' = id ∧ r = opened
  | .login_find_again id' r => id' = id ∧ r = opened
  | .login_new id' r => id' = id ∧ r = opened
  | .login_insert id' _ r => id' = id ∧ r = opened
  | _ => False

/-- Where the login can be once the object `p`, with the given data, is registered
for the user. -/
def Thread.after (id : ℤ) (p : ℕ) (session : Members) : Thread → Prop
  | .login_find id' r => id' = id ∧ r = opened
  | .login_find_again id' r => id' = id ∧ r = opened
  | .login_data q r => q = p ∧ r = opened
  | .answered r => Agrees session r
  | _ => False

/-- The user is not registered, and at most one thread creates a client for it. -/
structure Unregistered (id : ℤ) (s : Threads) : Prop where
  lookup : s.cm.m_client.lookup id = none
  threads : ∀ t ∈ s.threads, t.before id
  one : s.threads.countP (Thread.creating id) ≤ 1

/-- The object `p` is registered for the user, and no thread creates another. -/
structure Registered (id : ℤ) (p : ℕ) (s : Threads) : Prop where
  lookup : s.cm.m_client.lookup id = some p
  threads : ∀ t ∈ s.threads, t.after id p (s.cm.objects p).m_session_data

/-- A login that is not creating a client stays where it may be when another thread
registers one. -/
theorem after_of_before {id : ℤ} {t : Thread} (h : t.before id) (hc : t.creating id = false)
    (p : ℕ) (session : Members) : t.after id p session := by
  rcases t with ⟨id', r⟩ | ⟨id', r⟩ | ⟨id', r⟩ | ⟨id', q, r⟩ | _ | _ | _ | _ | _ | _ | _ | _
  · exact h
  · exact h
  · simp only [Thread.creating, h.1, decide_true, Bool.true_eq_false] at hc
  · simp only [Thread.creating, h.1, decide_true, Bool.true_eq_false] at hc
  all_goals exact h.elim

theorem opened_set : opened.set "errorcode" ERROR_CODE.SUCCEEDED.toValue = opened := by
  refine OrdMap.ext_lookup fun k => ?_
  rw [OrdMap.lookup_set_eq]
  split_ifs with hk
  · rw [hk, opened, OrdMap.lookup_set_eq, if_pos rfl]
  · rfl

/-- A fresh response that receives the data of an object agrees with it. -/
theorem agrees_get_session_data {cm : client_manager} (hcm : cm.Valid) (p : ℕ) :
    Agrees (cm.objects p).m_session_data ((cm.objects p).get_session_data opened) := by
  constructor
  · rw [client.lookup_get_session_data, hcm.plain p _ (Or.inl rfl), opened,
      OrdMap.lookup_set_eq, if_pos rfl]
    rfl
  · intro k hk
    rw [client.lookup_get_session_data, opened, OrdMap.lookup_set_eq, if_neg hk,
      OrdMap.lookup_empty, Option.or_none]

section Steps

variable {env : ClientEnv} {id : ℤ} {p : ℕ} {s s' : Threads} {e : ThreadEvent}

/-- A thread that may run after the registration leaves the registry alone and stays one. -/
theorem after_step {t t' : Thread} {cm : client_manager} (hcm : s.cm.Valid)
    (hl : s.cm.m_client.lookup id = some p) (ht : t.after id p (s.cm.objects p).m_session_data)
    (hstep : t.step env s = some (cm, t')) :
    cm = s.cm ∧ t'.after id p (s.cm.objects p).m_session_data := by
  cases Thread.steps_of_step hstep with
  | login_found hfound =>
    obtain ⟨rfl, rfl⟩ := ht
    rw [hl] at hfound
    exact ⟨rfl, (Option.some.inj hfound).symm, rfl⟩
  | login_missed hmissed =>
    rw [ht.1, hl] at hmissed
    cases hmissed
  | again_found hfound =>
    obtain ⟨rfl, rfl⟩ := ht
    rw [hl] at hfound
    exact ⟨rfl, (Option.some.inj hfound).symm, opened_set⟩
  | again_missed hmissed =>
    rw [ht.1, hl] at hmissed
    cases hmissed
  | login_data =>
    obtain ⟨rfl, rfl⟩ := ht
    exact ⟨rfl, agrees_get_session_data hcm _⟩
  | _ => exact ht.elim

/-- Once the user is registered no step of a login changes the registry. -/
theorem registered_step (hs : s.Valid) (hr : Registered id p s) (he : OfLogins id e)
    (h : (interleaved env).step s e = some s') : Registered id p s' := by
  obtain ⟨id', rfl, rfl⟩ | ⟨_, _, rfl, -⟩ | ⟨_, rfl, -⟩ | ⟨d, rfl, rfl⟩ |
    ⟨i, t, cm, t', rfl, hi, hstep, rfl⟩ := interleaved_cases h
  · refine ⟨hr.lookup, fun u hu => ?_⟩
    rcases List.mem_append.mp hu with hu | hu
    · exact hr.threads u hu
    · rw [List.mem_singleton.mp hu]
      exact ⟨he, rfl⟩
  · exact he.elim
  · exact he.elim
  · exact ⟨hr.lookup, hr.threads⟩
  · obtain ⟨rfl, ht'⟩ := after_step hs.cm hr.lookup (hr.threads t (List.mem_of_getElem? hi)) hstep
    refine ⟨hr.lookup, fun u hu => ?_⟩
    rcases List.mem_or_eq_of_mem_set hu with hu | rfl
    · exact hr.threads u hu
    · exact ht'

/-- While the user is not registered, a step of a login moves a thread forward, and
the insertion of the only thread that creates a client registers its object. -/
theorem unregistered_step (hinit : ∀ p, env.init_user_info p id = .SUCCEEDED)
    (hu : Unregistered id s) (he : OfLogins id e) (hno : NoOverlap s e)
    (h : (interleaved env).step s e = some s') :
    Unregistered id s' ∨ ∃ p, Registered id p s' := by
  obtain ⟨id', rfl, rfl⟩ | ⟨_, _, rfl, -⟩ | ⟨_, rfl, -⟩ | ⟨d, rfl, rfl⟩ |
    ⟨i, t, cm, t', rfl, hi, hstep, rfl⟩ := interleaved_cases h
  · refine Or.inl ⟨hu.lookup, fun u hu' => ?_, ?_⟩
    · rcases List.mem_append.mp hu' with hu' | hu'
      · exact hu.threads u hu'
      · rw [List.mem_singleton.mp hu']
        exact ⟨he, rfl⟩
    · have hone := hu.one
      simp only [List.countP_append, List.countP_singleton, Thread.creating]
      exact hone
  · exact he.elim
  · exact he.elim
  · exact Or.inl ⟨hu.lookup, hu.threads, hu.one⟩
  · have hone := hu.one
    have ht := hu.threads t (List.mem_of_getElem? hi)
    have hcount := Transition.countP_set_add (Thread.creating id) hi t'
    -- the thread that moved is `before`; the others are where they were
    have hstays : cm.m_client.lookup id = none → t'.before id →
        (s.threads.set i t').countP (Thread.creating id) ≤ 1 →
        Unregistered id ⟨cm, s.threads.set i t'⟩ := by
      intro hl ht' hc
      refine ⟨hl, fun u hu' => ?_, hc⟩
      rcases List.mem_or_eq_of_mem_set hu' with hu' | rfl
      · exact hu.threads u hu'
      · exact ht'
    cases Thread.steps_of_step hstep with
    | login_found hfound =>
      rw [ht.1, hu.lookup] at hfound
      cases hfound
    | login_missed =>
      obtain ⟨rfl, rfl⟩ := ht
      simp only [Thread.creating, Bool.false_eq_true, if_false] at hcount
      exact Or.inl (hstays hu.lookup ⟨rfl, rfl⟩ (by omega))
    | again_found hfound =>
      rw [ht.1, hu.lookup] at hfound
      cases hfound
    | @again_missed id' =>
      obtain ⟨rfl, rfl⟩ := ht
      -- this is the step the condition speaks about
      simp only [NoOverlap, hi] at hno
      have hnone : s.threads.countP (Thread.creating id') = 0 :=
        List.countP_eq_zero.mpr fun u hu' => by simp [hno hu.lookup u hu']
      simp only [Thread.creating, Bool.false_eq_true, if_false, decide_true, if_true] at hcount
      exact Or.inl (hstays hu.lookup ⟨rfl, rfl⟩ (by omega))
    | created =>
      obtain ⟨rfl, rfl⟩ := ht
      simp only [Thread.creating, decide_true, if_true] at hcount
      exact Or.inl (hstays hu.lookup ⟨rfl, rfl⟩ (by omega))
    | failed hec =>
      obtain ⟨rfl, rfl⟩ := ht
      exact absurd (hinit _) hec
    | @inserted id' p =>
      obtain ⟨rfl, rfl⟩ := ht
      -- nobody else was creating, so every other thread may look up the new entry
      simp only [Thread.creating, decide_true, if_true, Bool.false_eq_true, if_false] at hcount
      have hnone : (s.threads.set i (.login_data p
          (opened.set "errorcode" ERROR_CODE.SUCCEEDED.toValue))).countP
          (Thread.creating id') = 0 := by omega
      refine Or.inr ⟨p, ?_, fun u hu' => ?_⟩
      · rw [OrdMap.lookup_set_eq, if_pos rfl]
      · have hc := List.countP_eq_zero.mp hnone u hu'
        rcases List.mem_or_eq_of_mem_set hu' with hu' | rfl
        · exact after_of_before (hu.threads u hu') (by simpa using hc) p _
        · exact ⟨rfl, opened_set⟩
    | taken htaken =>
      rw [ht.1, hu.lookup] at htaken
      cases htaken
    | _ => exact ht.elim

/-- What holds of every state of a run without overlap. -/
theorem no_overlap_step (hinit : ∀ p, env.init_user_info p id = .SUCCEEDED)
    (hs : s.Valid ∧ (Unregistered id s ∨ ∃ p, Registered id p s))
    (he : NoOverlap s e ∧ OfLogins id e) (h : (interleaved env).step s e = some s') :
    s'.Valid ∧ (Unregistered id s' ∨ ∃ p, Registered id p s') := by
  refine ⟨interleaved_valid hs.1 h, ?_⟩
  rcases hs.2 with hu | ⟨p, hr⟩
  · exact unregistered_step hinit hu he.2 he.1 h
  · exact Or.inr ⟨p, registered_step hs.1 hr he.2 h⟩


/-! ## With overlap -/

/-- The states a login passes through. -/
def Thread.of_login (id : ℤ) : Thread → Prop
  | .login_find id' _ => id' = id
  | .login_find_again id' _ => id' = id
  | .login_new id' _ => id' = id
  | .login_insert id' _ _ => id' = id
  | .login_data _ _ => True
  | .answered _ => True
  | _ => False

/-- The login lost the race: it answers, or has answered, `UNKNOWN_ERROR`. -/
def Thread.refused : Thread → Prop
  | .login_data _ r => r.lookup "errorcode" = some ERROR_CODE.UNKNOWN_ERROR.toValue
  | .answered r => r.lookup "errorcode" = some ERROR_CODE.UNKNOWN_ERROR.toValue
  | _ => False

/-- Some login has lost or will lose: two threads create a client, or one does
although the user is registered, or one has been refused. -/
inductive Doomed (id : ℤ) (s : Threads) : Prop where
  | two (h : 2 ≤ s.threads.countP (Thread.creating id))
  | late {q : ℕ} (hreg : s.cm.m_client.lookup id = some q)
      (h : 1 ≤ s.threads.countP (Thread.creating id))
  | refused {t : Thread} (ht : t ∈ s.threads) (h : t.refused)

/-- A state is doomed when it keeps the entry of the user, the threads that create
a client and the refused ones. -/
theorem Doomed.keep (hd : Doomed id s)
    (hreg : ∀ q, s.cm.m_client.lookup id = some q → s'.cm.m_client.lookup id = some q)
    (hcount : s.threads.countP (Thread.creating id) ≤ s'.threads.countP (Thread.creating id))
    (href : ∀ t ∈ s.threads, t.refused → ∃ u ∈ s'.threads, u.refused) : Doomed id s' := by
  rcases hd with h | ⟨hq, h⟩ | ⟨ht, h⟩
  · exact .two (by omega)
  · exact .late (hreg _ hq) (by omega)
  · obtain ⟨u, hu, hu'⟩ := href _ ht h
    exact .refused hu hu'

/-- A doomed state stays doomed. The two places where a race is lost are the
insertion of one of two threads, which leaves the other one late, and the insertion
of a late thread, which is refused. -/
theorem doomed_step (hs : s.Valid) (hlog : ∀ t ∈ s.threads, t.of_login id)
    (hinit : ∀ p, env.init_user_info p id = .SUCCEEDED) (hd : Doomed id s)
    (he : OfLogins id e) (h : (interleaved env).step s e = some s') : Doomed id s' := by
  obtain ⟨id', rfl, rfl⟩ | ⟨_, _, rfl, -⟩ | ⟨_, rfl, -⟩ | ⟨d, rfl, rfl⟩ |
    ⟨i, t, cm, t', rfl, hi, hstep, rfl⟩ := interleaved_cases h
  · refine hd.keep (fun q hq => hq) ?_ fun u hu hu' => ⟨u, List.mem_append_left _ hu, hu'⟩
    simp only [List.countP_append]
    omega
  · exact he.elim
  · exact he.elim
  · exact hd.keep (fun q hq => hq) (le_refl _) fun u hu hu' => ⟨u, hu, hu'⟩
  · have hmem := List.mem_of_getElem? hi
    have ht := hlog t hmem
    have hcount := Transition.countP_set_add (Thread.creating id) hi t'
    have hmem' : t' ∈ s.threads.set i t' :=
      List.mem_set (List.getElem?_eq_some_iff.mp hi).1 t'
    -- a thread that is or stays refused leaves a refused thread behind
    have href : (t.refused → t'.refused) →
        ∀ u ∈ s.threads, u.refused → ∃ v ∈ s.threads.set i t', v.refused := by
      intro htt u hu hu'
      by_cases hut : u = t
      · exact ⟨t', hmem', htt (hut ▸ hu')⟩
      · exact ⟨u, Transition.mem_set_of_ne hi hu hut t', hu'⟩
    -- a step that leaves the entry, creates as much and is not refused changes nothing here
    have hquiet : (Thread.creating id t = true → Thread.creating id t' = true) →
        cm.m_client = s.cm.m_client → (t.refused → t'.refused) →
        Doomed id ⟨cm, s.threads.set i t'⟩ := by
      intro hcreating hcm htt
      refine hd.keep (fun q hq => ?_) (Transition.countP_le_set _ hi hcreating) (href htt)
      simp only [hcm]
      exact hq
    cases Thread.steps_of_step hstep with
    | login_found => exact hquiet (by simp [Thread.creating]) rfl False.elim
    | login_missed => exact hquiet (by simp [Thread.creating]) rfl False.elim
    | again_found => exact hquiet (by simp [Thread.creating]) rfl False.elim
    | again_missed => exact hquiet (by simp [Thread.creating]) rfl False.elim
    | created => exact hquiet (fun hc => hc) rfl False.elim
    | failed hec =>
      obtain rfl : _ = id := ht
      exact absurd (hinit _) hec
    | @inserted id' p r hl =>
      obtain rfl : id' = id := ht
      simp only [Thread.creating, decide_true, if_true, Bool.false_eq_true, if_false] at hcount
      have hreg : (s.cm.m_client.set id' p).lookup id' = some p := by
        rw [OrdMap.lookup_set_eq, if_pos rfl]
      rcases hd with h2 | ⟨hq, h1⟩ | ⟨hu, hu'⟩
      · exact .late hreg (by simp only; omega)
      · rw [hl] at hq
        cases hq
      · obtain ⟨v, hv, hv'⟩ := href False.elim _ hu hu'
        exact .refused hv hv'
    | taken =>
      refine .refused hmem' ?_
      simp only [Thread.refused, OrdMap.lookup_set_eq, if_true]
    | login_data =>
      refine hquiet (by simp [Thread.creating]) rfl fun hr => ?_
      simp only [Thread.refused] at hr ⊢
      rw [client.lookup_get_session_data, hs.cm.plain _ _ (Or.inl rfl), hr]
      rfl
    | _ => exact ht.elim

/-- A login goes on as a login. -/
theorem Thread.of_login.step {t t' : Thread} {cm : client_manager} (ht : t.of_login id)
    (hstep : t.step env s = some (cm, t')) : t'.of_login id := by
  cases Thread.steps_of_step hstep with
  | login_missed => exact ht
  | again_missed => exact ht
  | created => exact ht
  | login_found | again_found | failed | inserted | taken | login_data => trivial
  | _ => exact ht.elim

/-- Logins stay logins. -/
theorem of_login_step (hlog : ∀ t ∈ s.threads, t.of_login id) (he : OfLogins id e)
    (h : (interleaved env).step s e = some s') : ∀ t ∈ s'.threads, t.of_login id := by
  obtain ⟨id', rfl, rfl⟩ | ⟨_, _, rfl, -⟩ | ⟨_, rfl, -⟩ | ⟨d, rfl, rfl⟩ |
    ⟨i, t, cm, t', rfl, hi, hstep, rfl⟩ := interleaved_cases h
  · intro u hu
    rcases List.mem_append.mp hu with hu | hu
    · exact hlog u hu
    · rw [List.mem_singleton.mp hu]
      exact he
  · exact he.elim
  · exact he.elim
  · exact hlog
  · have ht := hlog t (List.mem_of_getElem? hi)
    have ht' := ht.step hstep
    intro u hu
    rcases List.mem_or_eq_of_mem_set hu with hu | rfl
    · exact hlog u hu
    · exact ht'

/-- A step that breaks the condition leads to a doomed state. -/
theorem doomed_of_overlap (h : (interleaved env).step s e = some s')
    (hlog : ∀ t ∈ s.threads, t.of_login id) (hno : ¬ NoOverlap s e) : Doomed id s' := by
  rcases e with _ | _ | _ | i | _
  · exact absurd trivial hno
  · exact absurd trivial hno
  · exact absurd trivial hno
  · unfold NoOverlap at hno
    dsimp only at hno
    split at hno
    swap
    · exact absurd trivial hno
    rename_i id' r hi
    simp only [not_forall] at hno
    obtain ⟨hl, u, hu, hc⟩ := hno
    obtain rfl : id' = id := hlog _ (List.mem_of_getElem? hi)
    rw [run_step hi (login_find_again_step_of_none hl)] at h
    cases h
    have hcount := Transition.countP_set_add (Thread.creating id') hi (.login_new id' r)
    have hpos : 0 < s.threads.countP (Thread.creating id') :=
      List.countP_pos_iff.mpr ⟨u, hu, by simpa using hc⟩
    simp only [Thread.creating, Bool.false_eq_true, if_false, decide_true, if_true] at hcount
    exact .two (by simp only; omega)
  · exact absurd trivial hno

end Steps

/-! ## The runs that agree -/

/-- In a state in which every thread has answered, nobody agrees when one was
refused. -/
theorem not_agree_of_doomed {id : ℤ} {s : Threads} (hd : Doomed id s)
    (hdone : ∀ t ∈ s.threads, ∃ r, t = .answered r) : ¬ LoginsAgree id s := by
  have hnone : s.threads.countP (Thread.creating id) = 0 := by
    refine List.countP_eq_zero.mpr fun t ht => ?_
    obtain ⟨r, rfl⟩ := hdone t ht
    simp [Thread.creating]
  rintro ⟨p, -, hall⟩
  rcases hd with h | ⟨-, h⟩ | ⟨ht, href⟩
  · omega
  · omega
  · obtain ⟨r, rfl, hr⟩ := hall _ ht
    have hcode := hr.errorcode.symm.trans href
    cases hcode

/-- **Concurrent logins of one user.** Any number of logins of a user arrive at any
times and run in any interleaving, on any registry, without expiries and with an
`init_user_info` that succeeds. Once all have answered, one object is registered
for the user and every answer is its login's success and its session data, if and
only if at no time a login that has twice found the user missing was joined by
another before it inserted. -/
theorem logins_agree_iff (env : ClientEnv) (cm : client_manager) (hcm : cm.Valid) (id : ℤ)
    (hinit : ∀ p, env.init_user_info p id = .SUCCEEDED) (es : List ThreadEvent)
    (hes : ∀ e ∈ es, OfLogins id e) (s : Threads)
    (hrun : (interleaved env).run ⟨cm, []⟩ es = some s) (hsome : s.threads ≠ [])
    (hdone : ∀ t ∈ s.threads, ∃ r, t = .answered r) :
    LoginsAgree id s ↔ (interleaved env).Along NoOverlap ⟨cm, []⟩ es := by
  have hvalid : Threads.Valid ⟨cm, []⟩ := ⟨hcm, fun t ht => absurd ht List.not_mem_nil⟩
  constructor
  · intro hagree
    by_contra hnot
    obtain ⟨es₁, e, es₂, t, u, rfl, -, hrun₁, hstep, hno⟩ :=
      Transition.exists_broken_of_not_along hnot
    -- up to the overlap: a valid state of logins; from there on: doomed
    have hbefore : t.Valid ∧ ∀ v ∈ t.threads, v.of_login id :=
      Transition.invariant_along (C := fun _ e => OfLogins id e)
        (P := fun s => s.Valid ∧ ∀ v ∈ s.threads, v.of_login id)
        (fun _ _ _ hs he h => ⟨interleaved_valid hs.1 h, of_login_step hs.2 he h⟩)
        ⟨hvalid, fun v hv => absurd hv List.not_mem_nil⟩
        (Transition.along_of_forall fun e he => hes e (List.mem_append_left _ he)) hrun₁
    have he : OfLogins id e := hes e (List.mem_append_right _ List.mem_cons_self)
    obtain ⟨t', ht', hrun₂⟩ := Transition.run_append_iff.mp hrun
    obtain rfl : t' = t := Option.some.inj (ht'.symm.trans hrun₁)
    rw [Transition.run_cons hstep] at hrun₂
    have hafter : s.Valid ∧ (∀ v ∈ s.threads, v.of_login id) ∧ Doomed id s :=
      Transition.invariant_along (C := fun _ e => OfLogins id e)
        (P := fun s => s.Valid ∧ (∀ v ∈ s.threads, v.of_login id) ∧ Doomed id s)
        (fun _ _ _ hs he h => ⟨interleaved_valid hs.1 h, of_login_step hs.2.1 he h,
          doomed_step hs.1 hs.2.1 hinit hs.2.2 he h⟩)
        ⟨interleaved_valid hbefore.1 hstep, of_login_step hbefore.2 he hstep,
          doomed_of_overlap hstep hbefore.2 hno⟩
        (Transition.along_of_forall fun e he =>
          hes e (List.mem_append_right _ (List.mem_cons_of_mem _ he))) hrun₂
    exact not_agree_of_doomed hafter.2.2 hdone hagree
  · intro hno
    have hstart : Unregistered id ⟨cm, []⟩ ∨ ∃ p, Registered id p ⟨cm, []⟩ := by
      rcases hl : cm.m_client.lookup id with _ | p
      · exact Or.inl ⟨hl, fun t ht => absurd ht List.not_mem_nil, Nat.zero_le 1⟩
      · exact Or.inr ⟨p, hl, fun t ht => absurd ht List.not_mem_nil⟩
    have hend : s.Valid ∧ (Unregistered id s ∨ ∃ p, Registered id p s) :=
      Transition.invariant_along
        (P := fun s => s.Valid ∧ (Unregistered id s ∨ ∃ p, Registered id p s))
        (fun _ _ _ => no_overlap_step hinit) ⟨hvalid, hstart⟩
        (Transition.along_and hno (Transition.along_of_forall hes)) hrun
    rcases hend.2 with hu | ⟨p, hr⟩
    · -- a thread that has answered shows that the user was registered
      obtain ⟨t, ht⟩ := List.exists_mem_of_ne_nil s.threads hsome
      obtain ⟨r, rfl⟩ := hdone t ht
      exact (hu.threads _ ht).elim
    · refine ⟨p, hr.lookup, fun t ht => ?_⟩
      obtain ⟨r, rfl⟩ := hdone t ht
      exact ⟨r, rfl, hr.threads _ ht⟩

/-- Two logins of user 7; the second looks for the user a second time only after the
first has inserted it. -/
theorem logins_agree_no_overlap :
    ∃ s, (interleaved accepting).run ⟨client_manager.ctor, []⟩
      [.login 7, .login 7, .run 0, .run 1, .run 0, .run 0, .run 0, .run 1, .run 1, .run 0]
        = some s ∧ LoginsAgree 7 s := by
  refine ⟨⟨_, [.answered _, .answered _]⟩, rfl, (logins_agree_iff accepting client_manager.ctor
    client_manager.ctor_valid 7 (fun _ => rfl)
    [.login 7, .login 7, .run 0, .run 1, .run 0, .run 0, .run 0, .run 1, .run 1, .run 0]
    ?_ _ rfl ?_ ?_).mpr ?_⟩
  · simp [OfLogins]
  · exact List.cons_ne_nil _ _
  · simp
  · decide

/-- Two logins of user 7 that both find the user missing twice before either of them
inserts it: the second is answered `UNKNOWN_ERROR`. -/
theorem not_logins_agree :
    ∃ s, (interleaved accepting).run ⟨client_manager.ctor, []⟩
      [.login 7, .login 7, .run 0, .run 1, .run 0, .run 1, .run 0, .run 1, .run 0, .run 1,
        .run 0, .run 1] = some s ∧
      (∀ t ∈ s.threads, ∃ r, t = .answered r) ∧ ¬ LoginsAgree 7 s := by
  refine ⟨⟨_, [.answered _, .answered _]⟩, rfl, by simp, ?_⟩
  refine not_agree_of_doomed (.refused (List.mem_cons_of_mem _ List.mem_cons_self) ?_) (by simp)
  rfl

end MyWarehouse

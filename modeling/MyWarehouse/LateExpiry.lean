/-
Whose entry an expired timer takes out of the registry.

`client_manager::erase(id, p)` receives the client whose timer expired and does
not look at it: it removes whatever is registered under the user id. That is the
entry of another client when the user has logged in again between the eviction
of `p` and the call. It takes a handler of `p` that is still to run when the new
client is registered: one that has locked its weak pointer, or one that can still
lock it because something owns `p`.

`expiry_removes_its_own` says that this is the only way, `threat_erases` that it
is one.
-/
import MyWarehouse.Threads

set_option autoImplicit false

namespace MyWarehouse

open client_manager

/-- When the event is the erase of a client object, the entry under its user is its
own or there is none. -/
def ErasesOwn (s : Threads) : ThreadEvent → Prop
  | .run i => match s.threads[i]? with
    | some (.timer_erase p) => ∀ q ∈ s.cm.m_client.lookup (s.cm.objects p).id_, q = p
    | _ => True
  | _ => True

instance (s : Threads) (e : ThreadEvent) : Decidable (ErasesOwn s e) :=
  match e with
  | .run i => by
    dsimp only [ErasesOwn]
    rcases s.threads[i]? with _ | t
    · exact isTrue trivial
    · rcases t
      case timer_erase => infer_instance
      all_goals exact isTrue trivial
  | .login _ | .logic _ _ | .complete _ | .tick _ => isTrue trivial

/-- A handler of the timer of `p` may still call `erase`: it has locked its weak
pointer, or the object is owned and has a handler that is about to lock it, a wait
that can complete, or a message that is about to add a wait. -/
def CanStillErase (s : Threads) (p : ℕ) : Prop :=
  .timer_erase p ∈ s.threads ∨
  s.alive p ∧ (.timer_lock p ∈ s.threads ∨ 0 < (s.cm.objects p).waits ∨
    ∃ root r, .logic_do_some p root r ∈ s.threads)

/-- What threatens the entry `q` of the user: another object of the user that can
still erase, or a login of the user that is about to make one. -/
def Threat (env : ClientEnv) (s : Threads) (id : ℤ) (q : ℕ) : Prop :=
  (∃ p, p ≠ q ∧ (s.cm.objects p).id_ = id ∧ CanStillErase s p) ∨
  (∃ r, .login_new id r ∈ s.threads) ∧ ∃ p, s.cm.next ≤ p ∧ env.init_user_info p id = .SUCCEEDED

/-- When the event is an insertion that registers an object, nothing threatens the
new entry. -/
def Unthreatened (env : ClientEnv) (s : Threads) : ThreadEvent → Prop
  | .run i => match s.threads[i]? with
    | some (.login_insert id q _) => s.cm.m_client.lookup id = none → ¬ Threat env s id q
    | _ => True
  | _ => True

/-- The invariant: no entry is threatened. -/
structure Safe (env : ClientEnv) (s : Threads) : Prop where
  valid : s.Valid
  entries : ∀ id q, s.cm.m_client.lookup id = some q → ¬ Threat env s id q

/-! ## What one step adds -/

theorem registered_iff {cm : client_manager} {p : ℕ} :
    cm.registered p ↔ ∃ id, cm.m_client.lookup id = some p := by
  constructor
  · rintro ⟨⟨id, q⟩, hmem, rfl⟩
    exact ⟨id, (OrdMap.mem_entries_iff _ _ _).mp hmem⟩
  · rintro ⟨id, hl⟩
    exact ⟨(id, p), (OrdMap.mem_entries_iff _ _ _).mpr hl, rfl⟩

/-- What a step of the thread `t` can add to what the handlers of an allocated
object `p` may do: nothing, but for a message that reaches a registered client and
a handler that locks a live one. -/
structure Adds (s : Threads) (p : ℕ) (t : Thread) (cm : client_manager) (t' : Thread) :
    Prop where
  registered : cm.registered p → s.cm.registered p ∨ t.holds = some p
  holds : t'.holds = some p → s.alive p ∨ t.holds = some p
  waits : 0 < (cm.objects p).waits →
    0 < (s.cm.objects p).waits ∨ ∃ root r, t = .logic_do_some p root r
  locks : t' ≠ .timer_lock p
  dispatches : ∀ root r, t' = .logic_do_some p root r →
    s.cm.m_client.lookup (s.cm.objects p).id_ = some p
  erases : t' = .timer_erase p → t = .timer_lock p ∧ s.alive p

section Steps

variable {env : ClientEnv} {s s' : Threads} {t t' : Thread} {cm : client_manager} {p : ℕ}

/-- A step to a thread that is not of the timer, holds nothing new and leaves the
registry alone adds nothing. -/
theorem adds_nothing (hholds : t'.holds = some p → s.alive p ∨ t.holds = some p)
    (hlocks : t' ≠ .timer_lock p) (hdispatches : ∀ root r, t' ≠ .logic_do_some p root r)
    (herases : t' ≠ .timer_erase p) : Adds s p t s.cm t' :=
  ⟨Or.inl, hholds, Or.inl, hlocks, fun root r h => absurd h (hdispatches root r),
    fun h => absurd h herases⟩

theorem alive_of_lookup {id : ℤ} (h : s.cm.m_client.lookup id = some p) : s.alive p :=
  Or.inl (registered_iff.mpr ⟨id, h⟩)

/-- A step to a thread that looked `p` up holds a registered object. -/
theorem holds_of_lookup {id : ℤ} {q : ℕ} (hl : s.cm.m_client.lookup id = some q)
    (h : some q = some p) : s.alive p ∨ t.holds = some p := by
  obtain rfl := Option.some.inj h
  exact Or.inl (alive_of_lookup hl)

/-- The construction of a client leaves every allocated object as it is. -/
theorem created_waits (id : ℤ) (hp : p < s.cm.next)
    (h : 0 < ((s.cm.created env id).objects p).waits) : 0 < (s.cm.objects p).waits := by
  have hne : p ≠ s.cm.next := by omega
  rw [created_objects_of_ne env s.cm id hne] at h
  exact h

/-- The cases are the steps of a thread. -/
theorem step_adds (hcm : s.cm.Valid) (hp : p < s.cm.next) (h : t.step env s = some (cm, t')) :
    Adds s p t cm t' := by
  cases Thread.steps_of_step h with
  | login_found hl =>
    exact adds_nothing (holds_of_lookup hl) (by simp) (by simp) (by simp)
  | login_missed => exact adds_nothing (by simp [Thread.holds]) (by simp) (by simp) (by simp)
  | again_found hl =>
    exact adds_nothing (holds_of_lookup hl) (by simp) (by simp) (by simp)
  | again_missed => exact adds_nothing (by simp [Thread.holds]) (by simp) (by simp) (by simp)
  | created =>
    refine ⟨Or.inl, fun hq => ?_, fun hw => Or.inl (created_waits _ hp hw), by simp, by simp,
      by simp⟩
    -- the new object is not an allocated one
    have hnew : s.cm.next = p := Option.some.inj hq
    omega
  | failed =>
    exact ⟨Or.inl, by simp [Thread.holds], fun hw => Or.inl (created_waits _ hp hw), by simp,
      by simp, by simp⟩
  | inserted =>
    refine ⟨fun hreg => ?_, Or.inr, Or.inl, by simp, by simp, by simp⟩
    -- the object that becomes registered is the one the thread held
    obtain ⟨id', hl'⟩ := registered_iff.mp hreg
    simp only [OrdMap.lookup_set_eq] at hl'
    split_ifs at hl'
    · exact Or.inr hl'
    · exact Or.inl (registered_iff.mpr ⟨id', hl'⟩)
  | taken => exact adds_nothing Or.inr (by simp) (by simp) (by simp)
  | login_data => exact adds_nothing (by simp [Thread.holds]) (by simp) (by simp) (by simp)
  | logic_found hl =>
    refine ⟨Or.inl, holds_of_lookup hl, Or.inl, by simp, fun root' r' hq => ?_, by simp⟩
    obtain ⟨rfl, -, -⟩ := Thread.logic_do_some.inj hq
    rw [hcm.id_eq hl, hl]
  | logic_missed => exact adds_nothing (by simp [Thread.holds]) (by simp) (by simp) (by simp)
  | @logic_do_some q root r =>
    refine ⟨Or.inl, Or.inr, fun hw => ?_, by simp, by simp, by simp⟩
    by_cases hpq : p = q
    · exact Or.inr ⟨root, r, by rw [hpq]⟩
    · have hsame : (s.cm.client_do_some env q root).1.objects p = s.cm.objects p :=
        Function.update_of_ne hpq _ _
      rw [hsame] at hw
      exact Or.inl hw
  | logic_data => exact adds_nothing (by simp [Thread.holds]) (by simp) (by simp) (by simp)
  | locked halive =>
    refine ⟨Or.inl, fun hq => Or.inl ?_, Or.inl, by simp, by simp, fun hq => ?_⟩
    · obtain rfl := Option.some.inj hq
      exact halive
    · obtain rfl := Thread.timer_erase.inj hq
      exact ⟨rfl, halive⟩
  | expired => exact adds_nothing (by simp [Thread.holds]) (by simp) (by simp) (by simp)
  | timer_erase =>
    refine ⟨fun hreg => Or.inl ?_, by simp [Thread.holds], fun hw => Or.inl ?_, by simp, by simp,
      by simp⟩
    · obtain ⟨id', hl'⟩ := registered_iff.mp hreg
      rw [clear_client, lookup_erase] at hl'
      split_ifs at hl'
      exact registered_iff.mpr ⟨id', hl'⟩
    · rw [clear_client, erase_objects] at hw
      exact hw

/-- A thread's step makes no allocated object live again. -/
theorem alive_of_run {i : ℕ} (hi : s.threads[i]? = some t) (hadds : Adds s p t cm t')
    (h : Threads.alive ⟨cm, s.threads.set i t'⟩ p) : s.alive p := by
  have hmem := List.mem_of_getElem? hi
  rcases h with hreg | ⟨u, hu, hholds⟩
  · rcases hadds.registered hreg with hreg | hholds
    · exact Or.inl hreg
    · exact Or.inr ⟨t, hmem, hholds⟩
  · rcases List.mem_or_eq_of_mem_set hu with hu | rfl
    · exact Or.inr ⟨u, hu, hholds⟩
    · rcases hadds.holds hholds with halive | hholds
      · exact halive
      · exact Or.inr ⟨t, hmem, hholds⟩

/-- No step gives the handlers of an allocated object more to do, unless the object
is the one registered for its user. -/
theorem canStillErase_step (hs : s.Valid) {e : ThreadEvent}
    (h : (interleaved env).step s e = some s') (hp : p < s.cm.next)
    (hcan : CanStillErase s' p) :
    CanStillErase s p ∨ s.cm.m_client.lookup (s.cm.objects p).id_ = some p := by
  obtain ⟨id, -, rfl⟩ | ⟨id, root, -, rfl⟩ | ⟨q, -, -, hwaits, rfl⟩ | ⟨d, -, rfl⟩ |
    ⟨i, t, cm, t', -, hi, hstep, rfl⟩ := interleaved_cases h
  · simpa [CanStillErase, Threads.alive, or_and_right, exists_or, Thread.holds] using
      Or.inl hcan
  · simpa [CanStillErase, Threads.alive, or_and_right, exists_or, Thread.holds] using
      Or.inl hcan
  · left
    have hlive : Threads.alive ⟨s.cm.wait_done q, s.threads ++ [.timer_lock q]⟩ p →
        s.alive p := by
      rintro (hreg | ⟨u, hu, hholds⟩)
      · exact Or.inl hreg
      · rcases List.mem_append.mp hu with hu | hu
        · exact Or.inr ⟨u, hu, hholds⟩
        · rw [List.mem_singleton.mp hu] at hholds
          cases hholds
    rcases hcan with herase | ⟨halive, hcan⟩
    · simp only [List.mem_append, List.mem_singleton, reduceCtorEq, or_false] at herase
      exact Or.inl herase
    refine Or.inr ⟨hlive halive, ?_⟩
    rcases hcan with hlock | hw | ⟨root, r, hdo⟩
    · simp only [List.mem_append, List.mem_singleton, Thread.timer_lock.injEq] at hlock
      rcases hlock with hlock | rfl
      · exact Or.inl hlock
      · exact Or.inr (Or.inl hwaits)
    · by_cases hpq : p = q
      · exact Or.inr (Or.inl (hpq ▸ hwaits))
      · simp only [client_manager.wait_done, Function.update_of_ne hpq] at hw
        exact Or.inr (Or.inl hw)
    · simp only [List.mem_append, List.mem_singleton, reduceCtorEq, or_false] at hdo
      exact Or.inr (Or.inr ⟨root, r, hdo⟩)
  · exact Or.inl hcan
  · have hadds := step_adds hs.cm hp hstep
    have hmem := List.mem_of_getElem? hi
    rcases hcan with herase | ⟨halive, hlock | hw | ⟨root, r, hdo⟩⟩
    · rcases List.mem_or_eq_of_mem_set herase with herase | rfl
      · exact Or.inl (Or.inl herase)
      · obtain ⟨rfl, halive⟩ := hadds.erases rfl
        exact Or.inl (Or.inr ⟨halive, Or.inl hmem⟩)
    · rcases List.mem_or_eq_of_mem_set hlock with hlock | rfl
      · exact Or.inl (Or.inr ⟨alive_of_run hi hadds halive, Or.inl hlock⟩)
      · exact absurd rfl hadds.locks
    · rcases hadds.waits hw with hw | ⟨root, r, rfl⟩
      · exact Or.inl (Or.inr ⟨alive_of_run hi hadds halive, Or.inr (Or.inl hw)⟩)
      · exact Or.inl (Or.inr ⟨alive_of_run hi hadds halive, Or.inr (Or.inr ⟨root, r, hmem⟩)⟩)
    · rcases List.mem_or_eq_of_mem_set hdo with hdo | rfl
      · exact Or.inl (Or.inr ⟨alive_of_run hi hadds halive, Or.inr (Or.inr ⟨root, r, hdo⟩)⟩)
      · exact Or.inr (hadds.dispatches root r rfl)

/-- An object with a handler that can still erase was allocated. -/
theorem lt_next_of_canStillErase (hs : s.Valid) (h : CanStillErase s p) : p < s.cm.next := by
  rcases h with herase | ⟨hreg | ⟨u, hu, hholds⟩, -⟩
  · exact hs.threads _ herase
  · obtain ⟨id, hl⟩ := registered_iff.mp hreg
    exact hs.cm.lt_next hl
  · exact (hs.threads u hu).lt_next hholds

/-- An entry that appears was put there by the insertion of its object. -/
theorem lookup_step {e : ThreadEvent} (h : (interleaved env).step s e = some s') {id : ℤ}
    {q : ℕ} (hl : s'.cm.m_client.lookup id = some q) :
    s.cm.m_client.lookup id = some q ∨
    s.cm.m_client.lookup id = none ∧
      ∃ i r, e = .run i ∧ s.threads[i]? = some (.login_insert id q r) := by
  obtain ⟨_, -, rfl⟩ | ⟨_, _, -, rfl⟩ | ⟨_, -, -, -, rfl⟩ | ⟨_, -, rfl⟩ |
    ⟨i, t, cm, t', rfl, hi, hstep, rfl⟩ := interleaved_cases h
  · exact Or.inl hl
  · exact Or.inl hl
  · exact Or.inl hl
  · exact Or.inl hl
  · obtain rfl | ⟨id', r, -, rfl, -⟩ | ⟨id', q', r, rfl, hnone, rfl, -⟩ |
      ⟨q', root, r, -, rfl⟩ | ⟨q', -, rfl⟩ := step_writes hstep
    · exact Or.inl hl
    · exact Or.inl hl
    · simp only [OrdMap.lookup_set_eq] at hl
      split_ifs at hl with hid
      · obtain rfl := Option.some.inj hl
        subst hid
        exact Or.inr ⟨hnone, i, r, rfl, hi⟩
      · exact Or.inl hl
    · exact Or.inl hl
    · simp only [clear_client, lookup_erase] at hl
      split_ifs at hl
      exact Or.inl hl

/-- An object that was not allocated before the step and can erase after it comes
from a login whose `init_user_info` succeeded. -/
theorem login_new_of_canStillErase (hs : s.Valid) {e : ThreadEvent}
    (h : (interleaved env).step s e = some s') (hp : s.cm.next ≤ p)
    (hcan : CanStillErase s' p) :
    p = s.cm.next ∧ (∃ r, .login_new (s'.cm.objects p).id_ r ∈ s.threads) ∧
      env.init_user_info p (s'.cm.objects p).id_ = .SUCCEEDED := by
  have hlt := lt_next_of_canStillErase (interleaved_valid hs h) hcan
  obtain ⟨_, -, rfl⟩ | ⟨_, _, -, rfl⟩ | ⟨_, -, -, -, rfl⟩ | ⟨_, -, rfl⟩ |
    ⟨i, t, cm, t', rfl, hi, hstep, rfl⟩ := interleaved_cases h
  · exact absurd hlt (not_lt.mpr hp)
  · exact absurd hlt (not_lt.mpr hp)
  · exact absurd hlt (not_lt.mpr hp)
  · exact absurd hlt (not_lt.mpr hp)
  · obtain rfl | ⟨id', r, rfl, rfl, hnew⟩ | ⟨id', q', r, rfl, hnone, rfl, -⟩ |
      ⟨q', root, r, -, rfl⟩ | ⟨q', -, rfl⟩ := step_writes hstep
    · exact absurd hlt (not_lt.mpr hp)
    · have hpn : p = s.cm.next := by
        simp only [created_next] at hlt
        omega
      subst hpn
      have hid : ((s.cm.created env id').objects s.cm.next).id_ = id' := by
        rw [created_objects_next]
        rfl
      rw [hid]
      refine ⟨rfl, ⟨r, List.mem_of_getElem? hi⟩, ?_⟩
      rcases hnew with ⟨hec, -⟩ | ⟨-, r', rfl⟩
      · exact hec
      · -- the object was dropped at once: nothing owns it
        have hold : ∀ u ∈ s.threads.set i (.answered r'), u ∈ s.threads ∨ u = .answered r' :=
          fun u hu => List.mem_or_eq_of_mem_set hu
        exfalso
        rcases hcan with herase | ⟨hreg | ⟨u, hu, hholds⟩, -⟩
        · rcases hold _ herase with herase | herase
          · exact absurd (hs.threads _ herase) (lt_irrefl _)
          · cases herase
        · obtain ⟨id, hl⟩ := registered_iff.mp hreg
          exact absurd (hs.cm.lt_next hl) (lt_irrefl _)
        · rcases hold _ hu with hu | rfl
          · exact absurd ((hs.threads u hu).lt_next hholds) (lt_irrefl _)
          · cases hholds
    · exact absurd hlt (not_lt.mpr hp)
    · exact absurd hlt (not_lt.mpr hp)
    · rw [clear_client, erase_next] at hlt
      exact absurd hlt (not_lt.mpr hp)

/-! ## The invariant -/

/-- The step lemma. -/
theorem safe_step (hs : Safe env s) {e : ThreadEvent} (he : Unthreatened env s e)
    (h : (interleaved env).step s e = some s') : Safe env s' := by
  have hvalid := interleaved_valid hs.valid h
  refine ⟨hvalid, fun id q hl => ?_⟩
  -- nothing threatened the entry before the step, or it is inserted unthreatened
  have hbefore : ¬ Threat env s id q := by
    rcases lookup_step h hl with hl | ⟨hnone, i, r, rfl, hi⟩
    · exact hs.entries id q hl
    · simp only [Unthreatened, hi] at he
      exact he hnone
  have hother : ∀ p, s.cm.m_client.lookup id = some p → p = q := by
    intro p hp
    rcases lookup_step h hl with hl | ⟨hnone, -⟩
    · exact Option.some.inj (hp.symm.trans hl)
    · rw [hnone] at hp
      cases hp
  rintro (⟨p, hpq, hid, hcan⟩ | ⟨⟨r, hnew⟩, p, hp, hec⟩)
  · by_cases hlt : p < s.cm.next
    · rw [(interleaved_keeps hs.valid h).id_ p hlt] at hid
      rcases canStillErase_step hs.valid h hlt hcan with hcan | hreg
      · exact hbefore (Or.inl ⟨p, hpq, hid, hcan⟩)
      · exact hpq (hother p (hid ▸ hreg))
    · obtain ⟨rfl, hnew, hec⟩ := login_new_of_canStillErase hs.valid h (not_lt.mp hlt) hcan
      rw [hid] at hnew hec
      exact hbefore (Or.inr ⟨hnew, _, le_refl _, hec⟩)
  · have hnext := (interleaved_keeps hs.valid h).next
    refine hbefore (Or.inr ⟨⟨r, ?_⟩, p, hnext.trans hp, hec⟩)
    obtain ⟨_, -, rfl⟩ | ⟨_, _, -, rfl⟩ | ⟨_, -, -, -, rfl⟩ | ⟨_, -, rfl⟩ |
      ⟨i, t, cm, t', rfl, hi, hstep, rfl⟩ := interleaved_cases h
    · simpa using hnew
    · simpa using hnew
    · simpa using hnew
    · exact hnew
    · rcases List.mem_or_eq_of_mem_set hnew with hnew | rfl
      · exact hnew
      · -- a second look that misses cannot happen while the user has an entry
        obtain ⟨-, hnone, rfl⟩ := login_new_of_step hstep
        rw [hnone] at hl
        cases hl

/-- In a safe state a timer erases its own entry or none. -/
theorem erasesOwn_of_safe (hs : Safe env s) (e : ThreadEvent) : ErasesOwn s e := by
  rcases e with _ | _ | _ | i | _
  · trivial
  · trivial
  · trivial
  · unfold ErasesOwn
    dsimp only
    split
    · rename_i p hi
      intro q hl
      by_contra hne
      exact hs.entries _ q hl
        (Or.inl ⟨p, fun heq => hne heq.symm, rfl, Or.inl (List.mem_of_getElem? hi)⟩)
    · trivial
  · trivial

end Steps

/-- **An expiry removes only its own client**, in every run in which no object is
registered under a threat: from any registry with no thread at work, for every
interleaving of logins, messages, timer handlers and time, and whatever codes the
clients return. -/
theorem expiry_removes_its_own (env : ClientEnv) (cm : client_manager) (hcm : cm.Valid)
    (es : List ThreadEvent)
    (hes : (interleaved env).Along (Unthreatened env) ⟨cm, []⟩ es) :
    (interleaved env).Along ErasesOwn ⟨cm, []⟩ es := by
  have hstart : Safe env ⟨cm, []⟩ := by
    refine ⟨⟨hcm, fun t ht => absurd ht List.not_mem_nil⟩, fun id q hl => ?_⟩
    rintro (⟨p, hpq, hid, herase | ⟨hreg | ⟨u, hu, -⟩, -⟩⟩ | ⟨⟨r, hnew⟩, -⟩)
    · exact absurd herase List.not_mem_nil
    · -- two registered objects of one user are one object
      obtain ⟨id', hl'⟩ := registered_iff.mp hreg
      obtain rfl : id' = id := (hcm.id_eq hl').symm.trans hid
      exact hpq (Option.some.inj (hl'.symm.trans hl))
    · exact absurd hu List.not_mem_nil
    · exact absurd hnew List.not_mem_nil
  exact Transition.along_mono (P := Safe env) (fun _ _ _ hs he h => safe_step hs he h)
    (fun _ e _ hs _ _ => erasesOwn_of_safe hs e) hstart hes

/-- User 7 logs in and is evicted two hours later. -/
theorem expiry_removes_its_own_once :
    (interleaved accepting).Along ErasesOwn ⟨client_manager.ctor, []⟩
      [.login 7, .run 0, .run 0, .run 0, .run 0, .run 0, .tick (seconds 7200), .complete 0,
        .run 1, .run 1] := by
  refine expiry_removes_its_own accepting client_manager.ctor client_manager.ctor_valid
    [.login 7, .run 0, .run 0, .run 0, .run 0, .run 0, .tick (seconds 7200), .complete 0,
      .run 1, .run 1] ?_
  refine ⟨trivial, trivial, trivial, trivial, fun _ => ?_, trivial, trivial, trivial, trivial,
    trivial, trivial⟩
  -- the only thread holds the object it is about to register
  rintro (⟨p, hp, -, herase | ⟨⟨e, he, -⟩ | ⟨u, hu, hholds⟩, -⟩⟩ | ⟨⟨r, hnew⟩, -⟩)
  · cases List.mem_singleton.mp herase
  · exact absurd he List.not_mem_nil
  · rw [List.mem_singleton.mp hu] at hholds
    exact hp (Option.some.inj hholds).symm
  · cases List.mem_singleton.mp hnew

/-- Two waits of user 7 complete. The first handler evicts the user, who logs in
again before the second handler, which has locked its weak pointer, erases the new
entry. -/
theorem not_expiry_removes_its_own :
    ¬ (interleaved accepting).Along ErasesOwn ⟨client_manager.ctor, []⟩
      [.login 7, .run 0, .run 0, .run 0, .run 0, .run 0,
        .logic 7 .null, .run 1, .run 1, .run 1,
        .tick (seconds 7200), .complete 0, .complete 0, .run 2, .run 3, .run 2,
        .login 7, .run 4, .run 4, .run 4, .run 4, .run 3] := by
  decide

/-! ## The condition is exact -/

/-- Some continuation from the state lets a timer erase the entry of another client. -/
def Breaks (env : ClientEnv) (s : Threads) : Prop :=
  ∃ es, ¬ (interleaved env).Along ErasesOwn s es

section Breaks

variable {env : ClientEnv} {s s' : Threads} {p q : ℕ}

theorem breaks_of_step {e : ThreadEvent} (h : (interleaved env).step s e = some s')
    (hb : Breaks env s') : Breaks env s := by
  obtain ⟨es, hes⟩ := hb
  refine ⟨e :: es, fun halong => hes ?_⟩
  rw [Transition.along_cons h] at halong
  exact halong.2

theorem breaks_of_erase (hpq : p ≠ q) (hl : s.cm.m_client.lookup (s.cm.objects p).id_ = some q)
    (hmem : .timer_erase p ∈ s.threads) : Breaks env s := by
  obtain ⟨i, hi⟩ := List.mem_iff_getElem?.mp hmem
  refine ⟨[.run i], fun halong => ?_⟩
  rw [Transition.along_cons (run_step hi rfl)] at halong
  have hown := halong.1
  simp only [ErasesOwn, hi] at hown
  exact hpq (hown q hl).symm

theorem breaks_of_lock (hpq : p ≠ q) (hl : s.cm.m_client.lookup (s.cm.objects p).id_ = some q)
    (halive : s.alive p) (hmem : .timer_lock p ∈ s.threads) : Breaks env s := by
  obtain ⟨i, hi⟩ := List.mem_iff_getElem?.mp hmem
  refine breaks_of_step (run_step hi rfl) (breaks_of_erase hpq hl ?_)
  rw [if_pos halive]
  exact List.mem_set (List.getElem?_eq_some_iff.mp hi).1 _

/-- Time passes until the timer of `p` expires, and a wait of it completes. -/
theorem breaks_of_wait (hpq : p ≠ q) (hl : s.cm.m_client.lookup (s.cm.objects p).id_ = some q)
    (hp : p < s.cm.next) (halive : s.alive p) (hw : 0 < (s.cm.objects p).waits) :
    Breaks env s := by
  let t : Threads := { s with cm := { s.cm with now := s.cm.now + (s.cm.objects p).timer_ } }
  have htick : (interleaved env).step s (.tick (s.cm.objects p).timer_) = some t := rfl
  have hdue : (s.cm.objects p).timer_ ≤ s.cm.now + (s.cm.objects p).timer_ := by omega
  have hcomplete : (interleaved env).step t (.complete p)
      = some ⟨t.cm.wait_done p, t.threads ++ [.timer_lock p]⟩ :=
    if_pos ⟨hp, hw, hdue⟩
  refine breaks_of_step htick (breaks_of_step hcomplete (breaks_of_lock hpq ?_ ?_ ?_))
  · rw [wait_done_id_]
    exact hl
  · rcases halive with hreg | ⟨u, hu, hholds⟩
    · exact Or.inl hreg
    · exact Or.inr ⟨u, List.mem_append_left _ hu, hholds⟩
  · exact List.mem_append_right _ (List.mem_singleton_self _)

/-- A message that was on its way to `p` adds a wait. -/
theorem breaks_of_do_some (hpq : p ≠ q)
    (hl : s.cm.m_client.lookup (s.cm.objects p).id_ = some q) (hp : p < s.cm.next)
    {root : Value} {r : Members} (hmem : .logic_do_some p root r ∈ s.threads) :
    Breaks env s := by
  obtain ⟨i, hi⟩ := List.mem_iff_getElem?.mp hmem
  have hself : (s.cm.client_do_some env p root).1.objects p = (s.cm.objects p).do_some s.cm.now :=
    Function.update_self _ _ _
  refine breaks_of_step (run_step hi logic_do_some_step) (breaks_of_wait hpq ?_ hp ?_ ?_)
  · simp only [hself, client.do_some_id_]
    exact hl
  · exact Or.inr ⟨_, List.mem_set (List.getElem?_eq_some_iff.mp hi).1 _, rfl⟩
  · simp only [hself]
    exact Nat.succ_pos _

/-- A login that was about to make an object makes it, with a wait. -/
theorem breaks_of_login_new (hs : s.Valid) {id : ℤ} (hl : s.cm.m_client.lookup id = some q)
    (hec : env.init_user_info s.cm.next id = .SUCCEEDED) {r : Members}
    (hmem : .login_new id r ∈ s.threads) : Breaks env s := by
  obtain ⟨i, hi⟩ := List.mem_iff_getElem?.mp hmem
  have hself := created_objects_next env s.cm id
  refine breaks_of_step (run_step hi (login_new_step_of_succeeds hec))
    (breaks_of_wait (p := s.cm.next) (q := q) (hs.cm.lt_next hl).ne' ?_ (Nat.lt_succ_self _) ?_ ?_)
  · simp only [hself]
    exact hl
  · exact Or.inr ⟨_, List.mem_set (List.getElem?_eq_some_iff.mp hi).1 _, rfl⟩
  · simp only [hself]
    exact Nat.one_pos

/-- **The condition leaves out only runs that can go wrong.** When an object is
registered under a threat, some continuation lets the timer of another object erase
its entry; `henv` says that whether `init_user_info` succeeds depends on the user
only. -/
theorem threat_erases (hs : s.Valid) (henv : ∀ p p' id, env.init_user_info p id =
    env.init_user_info p' id) {i : ℕ} (he : ¬ Unthreatened env s (.run i)) : Breaks env s := by
  unfold Unthreatened at he
  dsimp only at he
  split at he
  swap
  · exact absurd trivial he
  rename_i id q r hi
  simp only [not_forall, not_not] at he
  obtain ⟨hnone, hthreat⟩ := he
  have hinsert : (interleaved env).step s (.run i) = some
      ⟨{ s.cm with m_client := s.cm.m_client.set id q },
        s.threads.set i (.login_data q (r.set "errorcode" ERROR_CODE.SUCCEEDED.toValue))⟩ :=
    run_step hi (login_insert_step_of_none hnone)
  refine breaks_of_step hinsert ?_
  have hvalid := interleaved_valid hs hinsert
  have hreg : (s.cm.m_client.set id q).lookup id = some q := by
    rw [OrdMap.lookup_set_eq, if_pos rfl]
  rcases hthreat with ⟨p, hpq, hid, hcan⟩ | ⟨⟨r', hnew⟩, p, -, hec⟩
  · have hlt := lt_next_of_canStillErase hs hcan
    have hl : (s.cm.m_client.set id q).lookup (s.cm.objects p).id_ = some q := by
      rw [hid, hreg]
    rcases hcan with herase | ⟨halive, hcan⟩
    · exact breaks_of_erase hpq hl (Transition.mem_set_of_ne hi herase (by simp) _)
    -- `p` has the owner it had: the insertion dropped none but that of `q`
    have halive' : Threads.alive ⟨{ s.cm with m_client := s.cm.m_client.set id q },
        s.threads.set i (.login_data q (r.set "errorcode" ERROR_CODE.SUCCEEDED.toValue))⟩ p := by
      rcases halive with hown | ⟨u, hu, hholds⟩
      · obtain ⟨id', hl'⟩ := registered_iff.mp hown
        refine Or.inl (registered_iff.mpr ⟨id', ?_⟩)
        have hne : id' ≠ id := by
          rintro rfl
          rw [hnone] at hl'
          cases hl'
        simp only [OrdMap.lookup_set_eq, if_neg hne, hl']
      · refine Or.inr ⟨u, Transition.mem_set_of_ne hi hu ?_ _, hholds⟩
        rintro rfl
        exact hpq (Option.some.inj hholds).symm
    rcases hcan with hlock | hw | ⟨root, r', hdo⟩
    · exact breaks_of_lock hpq hl halive' (Transition.mem_set_of_ne hi hlock (by simp) _)
    · exact breaks_of_wait hpq hl hlt halive' hw
    · exact breaks_of_do_some hpq hl hlt (Transition.mem_set_of_ne hi hdo (by simp) _)
  · refine breaks_of_login_new hvalid hreg ?_ (Transition.mem_set_of_ne hi hnew (by simp) _)
    rw [henv _ p id]
    exact hec

end Breaks

end MyWarehouse

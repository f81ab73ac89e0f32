/-
Getters that sleep on `m_empty_cv`.

`releaseConn` wakes one getter for each connection it brings back. A getter that was not
asleep may take the connection before the one that was woken, which then finds the buffer
empty and goes back to sleep; a getter may also wake up by itself. In between, connections
and getters that were woken are counted against each other: as long as somebody sleeps,
there are at most as many connections in the buffer as there are notified getters that
have not run yet (`Attended`).
-/
import MyWarehouse.DBConnectPool

set_option autoImplicit false

namespace MyWarehouse

variable {C : Type}

/-! ## The count -/

/-- The getters that `notify_one` has woken and that have not run since. -/
def Pooling.notified (s : Pooling C) : ℕ := s.getters.countP (· = .awake true)

/-- The invariant. -/
def Pooling.Attended (s : Pooling C) : Prop :=
  .asleep ∈ s.getters → s.pool.m_connPool.length ≤ s.notified

section Steps

variable {s s' : Pooling C} {e : PoolEvent}

theorem settle_attended (hs : s.Attended) : s.settle.Attended := by
  intro hasleep
  rw [Pooling.settle_getters] at hasleep
  have hle := s.settle_length
  have hattended := hs hasleep
  rw [Pooling.notified, Pooling.settle_getters]
  exact hle.trans hattended

/-- **One getter more**, if there is anybody to wake. -/
theorem notify_one_notified {woken : Option ℕ} {getters getters' : List Getter}
    (h : notify_one getters woken = some getters') (hasleep : .asleep ∈ getters') :
    .asleep ∈ getters ∧
      getters'.countP (· = .awake true) = getters.countP (· = .awake true) + 1 := by
  rcases woken with _ | i
  · -- nobody was asleep, and nobody is
    simp only [notify_one] at h
    split_ifs at h with hnone
    obtain rfl := Option.some.inj h
    exact absurd hasleep hnone
  · simp only [notify_one] at h
    split_ifs at h with hi
    obtain rfl := Option.some.inj h
    have hcount := Transition.countP_set_add (· = Getter.awake true) hi (.awake true)
    have hwas : decide (Getter.asleep = .awake true) = false := rfl
    have his : decide (Getter.awake true = .awake true) = true := rfl
    rw [hwas, his] at hcount
    exact ⟨List.mem_of_getElem? hi, hcount⟩

/-- A getter that goes to `getter'`, which is not sleep, leaves no new one asleep. -/
theorem asleep_of_set {i : ℕ} {getter' : Getter} (hne : getter' ≠ .asleep)
    (hasleep : .asleep ∈ s.getters.set i getter') : .asleep ∈ s.getters := by
  rcases List.mem_or_eq_of_mem_set hasleep with hmem | heq
  · exact hmem
  · exact absurd heq.symm hne

/-- A getter that was not notified and is not notified now. -/
theorem attended_set {i : ℕ} {getter getter' : Getter} (hs : s.Attended)
    (hi : s.getters[i]? = some getter) (hwas : getter ≠ .awake true)
    (his : getter' ≠ .awake true) (hne : getter' ≠ .asleep) :
    Pooling.Attended { s with getters := s.getters.set i getter' } := by
  intro hasleep
  have hattended := hs (asleep_of_set hne hasleep)
  have hcount := Transition.countP_set_add (· = Getter.awake true) hi getter'
  rw [decide_eq_false hwas, decide_eq_false his] at hcount
  unfold Pooling.notified at hattended ⊢
  exact hattended.trans_eq hcount.symm

/-- **The step lemma.** -/
theorem attended_step (hs : s.Attended) (hstep : s.Step e s') : s'.Attended := by
  cases hstep with
  | share i hi =>
    -- the new getter is awake and was not notified
    intro hasleep
    have hwas : .asleep ∈ s.getters := by simpa using hasleep
    have hattended := hs hwas
    have hnotified : (s.getters ++ [Getter.idle]).countP (· = Getter.awake true) = s.notified :=
      List.countP_append
    exact hattended.trans_eq hnotified.symm
  | take i getter conn rest hi hgetter hpool =>
    -- a connection less, and if the getter was notified it is a notified getter less
    intro hasleep
    have hattended := hs (asleep_of_set (by decide) hasleep)
    have hcount := Transition.countP_set_add (· = Getter.awake true) hi Getter.idle
    have hidle : decide (Getter.idle = Getter.awake true) = false := rfl
    rw [hidle, if_neg Bool.false_ne_true] at hcount
    unfold Pooling.notified at hattended ⊢
    rw [hpool, List.length_cons] at hattended
    show rest.length ≤ (s.getters.set i .idle).countP (· = .awake true)
    split_ifs at hcount
    · omega
    · omega
  | sleep i getter hi hgetter hpool =>
    -- a getter falls asleep only when the buffer is empty
    intro _
    show s.pool.m_connPool.length ≤ _
    rw [hpool]
    exact Nat.zero_le _
  -- a getter that wakes up by itself was not counted, and is not counted now
  | spurious i hi => exact attended_set hs hi (by decide) (by decide) (by decide)
  | drop_pool i hi =>
    apply settle_attended
    exact attended_set hs hi (by decide) (by decide) (by decide)
  | push r release conn woken getters hr hrelease hroom hgetters =>
    -- a connection more, and a notified getter more
    intro hasleep
    obtain ⟨hwas, hnotified⟩ := notify_one_notified hgetters hasleep
    have hattended := hs hwas
    have hpush := s.pool.push_back_length conn
    unfold Pooling.notified at hattended ⊢
    show (s.pool.push_back conn).m_connPool.length ≤ getters.countP (· = .awake true)
    omega
  | leave r hr => exact settle_attended hs
  | _ => exact hs

end Steps

/-! ## No wake-up is lost -/

/-- **No wake-up is lost.** For a pool of any capacity, any number of getters and every
interleaving, in every state: while a getter sleeps on `m_empty_cv`, the connections in
the buffer are at most as many as the notified getters that have not run yet. So there is
no state in which a getter sleeps, a connection lies in the buffer, and no getter that was
notified is due to take it. -/
theorem no_wake_up_lost (n : ℕ) (conns : List C) (es : List PoolEvent) (s : Pooling C)
    (hrun : pooling.run (Pooling.start n conns) es = some s) :
    (.asleep ∈ s.getters → s.pool.m_connPool.length ≤ s.notified) ∧
      ¬ (.asleep ∈ s.getters ∧ s.pool.m_connPool ≠ [] ∧ .awake true ∉ s.getters) := by
  have hstart : (Pooling.start n conns).Attended := by
    intro hasleep
    cases List.mem_singleton.mp hasleep
  have hs : s.Attended :=
    Transition.invariant (P := Pooling.Attended)
      (fun _ _ _ hs hstep => attended_step hs (pooling_cases hstep)) hstart hrun
  refine ⟨hs, ?_⟩
  rintro ⟨hasleep, hpool, hnone⟩
  have hzero : s.notified = 0 := by
    apply List.countP_eq_zero.mpr
    intro getter hmem hawake
    rw [of_decide_eq_true hawake] at hmem
    exact hnone hmem
  have hpos := List.length_pos_of_ne_nil hpool
  have hle := hs hasleep
  omega

/-- Two getters sleep; one is notified, and a third takes the connection before it. -/
theorem no_wake_up_lost_late :
    ∃ s, pooling.run (Pooling.start 1 [7]) [.share 0, .share 0, .share 0, .getConn 0, .getConn 1,
        .getConn 2, .drop 0, .lock 0, .releaseConn 0 (some 2), .getConn 3] = some s ∧
      (.asleep ∈ s.getters → s.pool.m_connPool.length ≤ s.notified) ∧
        ¬ (.asleep ∈ s.getters ∧ s.pool.m_connPool ≠ [] ∧ .awake true ∉ s.getters) :=
  ⟨_, rfl, no_wake_up_lost 1 [7] [.share 0, .share 0, .share 0, .getConn 0, .getConn 1,
    .getConn 2, .drop 0, .lock 0, .releaseConn 0 (some 2), .getConn 3] _ rfl⟩

end MyWarehouse

/-
Runs of the registry: messages handled one after another, the clock, and the
completions of the timers of the client objects.

Time passes by `tick`. A wait pending on the timer of an object may complete at
any moment from the timer's expiry on; each pending wait completes on its own,
and each finds the object only while something still owns it. Between messages
the registry is the only owner.
-/
import MyWarehouse.Dispatch
import MyWarehouse.Lib.Transition

set_option autoImplicit false

namespace MyWarehouse

open client_manager

/-- What can happen to the registry. -/
inductive ClientEvent where
  | tick (d : ℕ)
  | message (body : Bytes)
  | expire (p : ℕ)
  deriving DecidableEq, Repr

/-- One wait on the timer of the object `p` is over. -/
def client_manager.wait_done (cm : client_manager) (p : ℕ) : client_manager :=
  let c := { cm.objects p with waits := (cm.objects p).waits - 1 }
  { cm with objects := Function.update cm.objects p c }

/-- The handler `client::start_timer` installs, for one completed wait of the
object `p`: lock the weak pointer and, when that works, clear the client. -/
def client_manager.timer_completes (cm : client_manager) (p : ℕ) : client_manager :=
  if cm.registered p then (cm.wait_done p).clear_client p else cm.wait_done p

/-- The registry under messages, time and timers. -/
def traffic (jc : JsonCpp) (env : ClientEnv) : Transition client_manager ClientEvent where
  step cm
    | .tick d => some { cm with now := cm.now + d }
    | .message body => some (cm.do_some jc env body response.ctor.root_).cm
    | .expire p =>
      if 0 < (cm.objects p).waits ∧ (cm.objects p).timer_ ≤ cm.now then
        some (cm.timer_completes p)
      else none

/-! ## One step -/

section Step

variable {jc : JsonCpp} {env : ClientEnv} {cm : client_manager}

/-- A message leaves the state its closed form describes, also when `parse` throws
and nothing is done. -/
theorem do_some_cm (hcm : cm.Valid) (body : Bytes) :
    (cm.do_some jc env body response.ctor.root_).cm = cm.after env (message jc body) := by
  have hfresh : response.ctor.root_.members = .ok OrdMap.empty := rfl
  rcases hp : jc.parse body with e | v
  · have hmsg : message jc body = .unparsable := by simp only [message, hp]
    rw [do_some_of_throws env cm hp hfresh, hmsg]
    rfl
  · have hparse : ∀ e, jc.parse body ≠ .error e := by simp [hp]
    obtain ⟨ms', heq, -⟩ := do_some_spec env hcm hparse hfresh
    rw [heq]

/-- What one event can do: nothing but the clock moves, a message is handled, or a
wait of an expired timer completes, on an object that is or is not registered. -/
theorem traffic_cases {e : ClientEvent} {cm' : client_manager} (hcm : cm.Valid)
    (h : (traffic jc env).step cm e = some cm') :
    (∃ d, e = .tick d ∧ cm' = { cm with now := cm.now + d }) ∨
    (∃ body, e = .message body ∧ cm' = cm.after env (message jc body)) ∨
    (∃ p, e = .expire p ∧ 0 < (cm.objects p).waits ∧ (cm.objects p).timer_ ≤ cm.now ∧
      cm' = cm.timer_completes p) := by
  rcases e with d | body | p
  · exact Or.inl ⟨d, rfl, (Option.some.inj h).symm⟩
  · refine Or.inr (Or.inl ⟨body, rfl, ?_⟩)
    rw [← do_some_cm hcm body]
    exact (Option.some.inj h).symm
  · simp only [traffic] at h
    split_ifs at h with hexp
    exact Or.inr (Or.inr ⟨p, rfl, hexp.1, hexp.2, (Option.some.inj h).symm⟩)

@[simp] theorem wait_done_m_client (p : ℕ) : (cm.wait_done p).m_client = cm.m_client := rfl

@[simp] theorem wait_done_next (p : ℕ) : (cm.wait_done p).next = cm.next := rfl

/-- A finished wait changes nothing about an object but its number of waits. -/
theorem wait_done_objects (cm : client_manager) (p q : ℕ) :
    ∃ w, (cm.wait_done p).objects q = { cm.objects q with waits := w } := by
  by_cases hq : q = p
  · subst hq
    exact ⟨_, Function.update_self _ _ _⟩
  · exact ⟨(cm.objects q).waits, Function.update_of_ne hq _ _⟩

theorem wait_done_id_ (p q : ℕ) : ((cm.wait_done p).objects q).id_ = (cm.objects q).id_ := by
  obtain ⟨w, hw⟩ := wait_done_objects cm p q
  rw [hw]

theorem client_manager.Valid.wait_done (hcm : cm.Valid) (p : ℕ) : (cm.wait_done p).Valid := by
  constructor
  · intro id q h
    obtain ⟨w, hw⟩ := wait_done_objects cm p q
    rw [hw]
    exact hcm.stored id q h
  · intro q k hk
    obtain ⟨w, hw⟩ := wait_done_objects cm p q
    rw [hw]
    exact hcm.plain q k hk

/-- What `erase` leaves in the registry. -/
theorem lookup_erase (id id' : ℤ) (p : ℕ) :
    (cm.erase id p).m_client.lookup id'
      = if id' = id then none else cm.m_client.lookup id' := by
  unfold client_manager.erase
  split
  · rw [OrdMap.lookup_remove_eq]
  · rename_i hnone
    by_cases hid : id' = id
    · rw [if_pos hid, hid, hnone]
    · rw [if_neg hid]

/-- A completed wait of `p` takes at most the entry of the user `p` stands for out
of the registry, and only when `p` is registered. -/
theorem timer_completes_lookup (p : ℕ) (id : ℤ) :
    (cm.timer_completes p).m_client.lookup id =
      if cm.registered p ∧ id = (cm.objects p).id_ then none else cm.m_client.lookup id := by
  unfold timer_completes
  by_cases hreg : cm.registered p
  · rw [if_pos hreg, clear_client, lookup_erase, wait_done_id_, wait_done_m_client]
    simp only [hreg, true_and]
  · simp only [hreg, false_and, if_false, wait_done_m_client]

theorem erase_objects (id : ℤ) (p : ℕ) : (cm.erase id p).objects = cm.objects := by
  unfold client_manager.erase
  split
  · rfl
  · rfl

theorem erase_next (id : ℤ) (p : ℕ) : (cm.erase id p).next = cm.next := by
  unfold client_manager.erase
  split
  · rfl
  · rfl

/-- A completed wait changes nothing about an object but its number of waits. -/
theorem timer_completes_objects (cm : client_manager) (p q : ℕ) :
    ∃ w, (cm.timer_completes p).objects q = { cm.objects q with waits := w } := by
  unfold timer_completes
  split_ifs
  · rw [clear_client, erase_objects]
    exact wait_done_objects cm p q
  · exact wait_done_objects cm p q

theorem client_manager.Valid.timer_completes (hcm : cm.Valid) (p : ℕ) :
    (cm.timer_completes p).Valid := by
  unfold client_manager.timer_completes
  split_ifs
  · exact (hcm.wait_done p).erase _ p
  · exact hcm.wait_done p

/-- Every event keeps the registry invariant. -/
theorem traffic_valid {e : ClientEvent} {cm' : client_manager} (hcm : cm.Valid)
    (h : (traffic jc env).step cm e = some cm') : cm'.Valid := by
  obtain ⟨d, -, rfl⟩ | ⟨body, -, rfl⟩ | ⟨p, -, -, -, rfl⟩ := traffic_cases hcm h
  · exact ⟨hcm.stored, hcm.plain⟩
  · exact hcm.after env _
  · exact hcm.timer_completes p

/-- A message unregisters nobody. -/
theorem lookup_after (msg : Message) {id : ℤ} {p : ℕ}
    (h : cm.m_client.lookup id = some p) :
    (cm.after env msg).m_client.lookup id = some p := by
  rw [after_m_client]
  unfold registry_after
  split
  · split_ifs with hnew
    · rename_i id'
      have hne : id ≠ id' := by
        rintro rfl
        rw [hnew.1] at h
        cases h
      rw [OrdMap.lookup_set_eq, if_neg hne, h]
    · exact h
  · exact h

end Step

end MyWarehouse

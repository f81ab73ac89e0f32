/-
When the timer of a client evicts it.

The comment above `client::start_timer` promises that a client is cleared after
two hours without a message. `timer_` is built with its two hours when the object
is constructed, and a further `async_wait` adds a wait on the same expiry; so the
client goes two hours after its construction, however busy it was. The promise is
kept by exactly the runs that dispatch no message to a client after the instant
it was constructed.
-/
import MyWarehouse.ClientRuns

set_option autoImplicit false

namespace MyWarehouse

open client_manager

/-- When the event is a timer that removes its client, no message was dispatched
to that client in the last 7200 seconds. -/
def EvictsOnlyIdle (cm : client_manager) : ClientEvent → Prop
  | .expire p => cm.registered p →
      ∀ t ∈ (cm.objects p).dispatched, t + seconds 7200 ≤ cm.now
  | _ => True

instance (cm : client_manager) (e : ClientEvent) : Decidable (EvictsOnlyIdle cm e) := by
  rcases e with d | body | p
  · exact isTrue trivial
  · exact isTrue trivial
  · exact inferInstanceAs (Decidable (_ → ∀ t ∈ _, _))

/-- When the event is a message for a registered client, the client is constructed
at this very instant: the two hours of its timer have not begun to run. -/
def AtConstruction (jc : JsonCpp) (cm : client_manager) : ClientEvent → Prop
  | .message body => ∀ id root p, message jc body = .logic id root →
      cm.m_client.lookup id = some p → cm.now + seconds 7200 ≤ (cm.objects p).timer_
  | _ => True

/-- No message was dispatched to an object after the instant it was constructed,
and objects not yet allocated have no history. -/
def Untouched (cm : client_manager) : Prop :=
  ∀ p, ∀ t ∈ (cm.objects p).dispatched, t + seconds 7200 ≤ (cm.objects p).timer_

variable {jc : JsonCpp} {env : ClientEnv} {cm : client_manager}

/-- The only dispatches are the two `start_timer` callers: `init_user_info` on the
object just constructed, whose expiry is two hours off, and `do_some` on a
registered object, where the condition speaks. -/
theorem untouched_after (hU : Untouched cm) {msg : Message}
    (hmsg : ∀ id root p, msg = .logic id root → cm.m_client.lookup id = some p →
      cm.now + seconds 7200 ≤ (cm.objects p).timer_) : Untouched (cm.after env msg) := by
  have hcreated : ∀ id, Untouched (cm.created env id) := by
    intro id p t ht
    by_cases hp : p = cm.next
    · subst hp
      rw [created_objects_next] at ht ⊢
      rcases List.mem_singleton.mp ht with rfl
      exact le_refl _
    · rw [created_objects_of_ne env cm id hp] at ht ⊢
      exact hU p t ht
  unfold client_manager.after
  split
  · split
    · exact hU
    · split_ifs
      · exact hcreated _
      · exact hcreated _
  · rename_i id root
    split
    · rename_i q hq
      intro p t ht
      by_cases hp : p = q
      · subst hp
        simp only [client_do_some, Function.update_self, client.do_some_timer_] at ht ⊢
        rcases List.mem_cons.mp ht with rfl | ht
        · exact hmsg id root p rfl hq
        · exact hU p t ht
      · simp only [client_do_some, Function.update_of_ne hp] at ht ⊢
        exact hU p t ht
    · exact hU
  · exact hU

/-- One step under the condition leaves every object untouched. -/
theorem untouched_step {e : ClientEvent} {cm' : client_manager} (hcm : cm.Valid)
    (hU : Untouched cm) (he : AtConstruction jc cm e)
    (h : (traffic jc env).step cm e = some cm') : Untouched cm' := by
  obtain ⟨d, -, rfl⟩ | ⟨body, rfl, rfl⟩ | ⟨q, -, -, -, rfl⟩ := traffic_cases hcm h
  · exact hU
  · exact untouched_after hU (fun id root p => he id root p)
  · intro p t ht
    obtain ⟨w, hw⟩ := timer_completes_objects cm q p
    rw [hw] at ht ⊢
    exact hU p t ht

/-- A timer that fires on an untouched client finds it idle. -/
theorem evictsOnlyIdle_of_untouched (hU : Untouched cm) {e : ClientEvent}
    {cm' : client_manager} (h : (traffic jc env).step cm e = some cm') :
    EvictsOnlyIdle cm e := by
  rcases e with d | body | p
  · trivial
  · trivial
  · simp only [traffic] at h
    split_ifs at h with hexp
    intro _ t ht
    exact le_trans (hU p t ht) hexp.2

/-- **Only idle clients are evicted**, in every run that dispatches messages to a
client only at the instant it was constructed: from any registry with no other
history, for every sequence of messages, times and timer completions, and
whatever codes the clients return. -/
theorem evicts_only_idle (jc : JsonCpp) (env : ClientEnv) (cm : client_manager)
    (hcm : cm.Valid) (hU : Untouched cm) (es : List ClientEvent)
    (hes : (traffic jc env).Along (AtConstruction jc) cm es) :
    (traffic jc env).Along EvictsOnlyIdle cm es :=
  Transition.along_mono (P := fun cm => cm.Valid ∧ Untouched cm)
    (fun _ _ _ hs he h => ⟨traffic_valid hs.1 h, untouched_step hs.1 hs.2 he h⟩)
    (fun _ _ _ hs _ h => evictsOnlyIdle_of_untouched hs.2 h) ⟨hcm, hU⟩ hes

/-- User 7 alone, evicted after two hours of silence. -/
theorem evicts_only_idle_silent :
    (traffic (JsonCpp.reading []) (client.env fun _ => 5)).Along EvictsOnlyIdle manager_with_7
      [.tick (seconds 7200), .expire 0] :=
  evicts_only_idle (JsonCpp.reading []) (client.env fun _ => 5) manager_with_7
    manager_with_7_valid
    (by
      intro p t ht
      rcases List.mem_singleton.mp ht with rfl
      exact le_refl _)
    [.tick (seconds 7200), .expire 0] (by
      simp only [Transition.Along, traffic, AtConstruction, true_and]
      split
      · trivial
      · trivial)

/-- User 7 sends a message one second before its timer expires, and is evicted one
second after it. -/
theorem not_evicts_only_idle :
    ¬ (traffic (JsonCpp.reading [(logic_body, logic_value)]) (client.env fun _ => 5)).Along
      EvictsOnlyIdle manager_with_7
      [.tick (seconds 7199), .message logic_body, .tick (seconds 1), .expire 0] := by
  decide

/-- The condition is exact: a message dispatched to a client after the instant it
was constructed can be followed by the eviction of that client before it has been
idle for two hours. Nothing more needs to happen than time passing. -/
theorem evicts_busy_client (hcm : cm.Valid) {body : Bytes} {id : ℤ} {root : Value} {p : ℕ}
    (hmsg : message jc body = .logic id root) (hreg : cm.m_client.lookup id = some p)
    (hlate : (cm.objects p).timer_ < cm.now + seconds 7200) :
    ¬ (traffic jc env).Along EvictsOnlyIdle cm
      [.message body, .tick ((cm.objects p).timer_ - cm.now), .expire p] := by
  intro h
  have hafter : cm.after env (message jc body) = (cm.client_do_some env p root).1 := by
    simp only [hmsg, after, hreg]
  have hstep : (traffic jc env).step cm (.message body)
      = some (cm.client_do_some env p root).1 := by
    rw [← hafter, ← do_some_cm hcm body]
    rfl
  have hobj : (cm.client_do_some env p root).1.objects p = (cm.objects p).do_some cm.now := by
    simp only [client_do_some, Function.update_self]
  have htick : (traffic jc env).step (cm.client_do_some env p root).1
      (.tick ((cm.objects p).timer_ - cm.now))
      = some { (cm.client_do_some env p root).1 with
          now := cm.now + ((cm.objects p).timer_ - cm.now) } := rfl
  rw [Transition.along_cons hstep, Transition.along_cons htick] at h
  obtain ⟨-, -, h⟩ := h
  have hwait : 0 < ((cm.objects p).do_some cm.now).waits := Nat.succ_pos _
  have hdue : (cm.objects p).timer_ ≤ cm.now + ((cm.objects p).timer_ - cm.now) := by omega
  simp only [Transition.Along, traffic, hobj, client.do_some_timer_, hwait, hdue, and_self,
    if_true, EvictsOnlyIdle] at h
  have hidle := h.1 ⟨(id, p), (OrdMap.mem_entries_iff _ _ _).mpr hreg, rfl⟩ cm.now
    List.mem_cons_self
  have hpos : 0 < seconds 7200 := by decide
  omega

end MyWarehouse

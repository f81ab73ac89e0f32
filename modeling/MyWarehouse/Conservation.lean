/-
Where the connections of the pool are.

A connection is in `m_connPool`, with a family of handles, with a deleter that brings it
back, or finished. Every step moves it from one of these places to another, which is
said of any weight that is given to connections: the weights of all places together stay
what they were (`weigh_step`). With the same weight for all it follows that there is
room in the buffer for a connection that is brought back, so that `releaseConn` never
waits and nothing is overwritten; with the weight of one connection, that it is in one
place.
-/
import MyWarehouse.DBConnectPool

set_option autoImplicit false

namespace MyWarehouse

variable {C : Type}

/-! ## The weight of the connections -/

/-- The weight of the connection a deleter brings back. -/
def Release.weigh (weight : C → ℕ) (release : Release C) : ℕ :=
  match release.conn? with
  | none => 0
  | some conn => weight conn

/-- The weight of the connections in all places together. -/
def Pooling.weigh (weight : C → ℕ) (s : Pooling C) : ℕ :=
  (s.pool.m_connPool.map weight).sum + (s.handles.map fun h => weight h.1).sum +
    (s.releases.map (Release.weigh weight)).sum + (s.finished.map weight).sum

/-- The invariant. The connections the pool was constructed with are all somewhere; the
capacity is their number; no deleter is blocked; and the pool is alive as long as there is
a reference to it, and empty afterwards. -/
structure Pooling.Conserves (conns : List C) (s : Pooling C) : Prop where
  weight : ∀ weight, s.weigh weight = (conns.map weight).sum
  capacity : s.pool.capacity = conns.length
  unblocked : ∀ conn, Release.blocked conn ∉ s.releases
  alive : s.alive = true ↔ 0 < s.references
  gone : s.alive = false → s.pool.m_connPool = []

section Steps

variable {conns : List C} {s s' : Pooling C} {e : PoolEvent}

/-- The destructor passes what is in the pool to `PQfinish`. -/
theorem weigh_settle (weight : C → ℕ) (s : Pooling C) : s.settle.weigh weight = s.weigh weight := by
  unfold Pooling.settle
  split_ifs
  · simp only [Pooling.weigh, List.map_append, List.sum_append, List.map_nil, List.sum_nil]
    omega
  · rfl

/-- A deleter has a weight of its own beside that of the pool. -/
theorem weigh_ge (weight : C → ℕ) {r : ℕ} {release : Release C}
    (hr : s.releases[r]? = some release) :
    (s.pool.m_connPool.map weight).sum + release.weigh weight ≤ s.weigh weight := by
  have hsum := Transition.sum_eraseIdx_add (Release.weigh weight) hr
  unfold Pooling.weigh
  omega

theorem sum_ones (l : List C) : (l.map fun _ => 1).sum = l.length := by
  rw [List.map_const', List.sum_replicate_nat, Nat.mul_one]

/-- The buffer holds at most what it has room for. -/
theorem Pooling.Conserves.le_capacity (hs : s.Conserves conns) :
    s.pool.m_connPool.length ≤ s.pool.capacity := by
  have hweight := hs.weight fun _ => 1
  rw [sum_ones, ← hs.capacity] at hweight
  have hpool := sum_ones s.pool.m_connPool
  unfold Pooling.weigh at hweight
  omega

/-- **There is room** for every connection that is still to be brought back. -/
theorem Pooling.Conserves.room (hs : s.Conserves conns) {r : ℕ} {release : Release C} {conn : C}
    (hr : s.releases[r]? = some release) (hconn : release.conn? = some conn) :
    s.pool.m_connPool.length < s.pool.capacity := by
  -- every connection weighs one
  have hweight := hs.weight fun _ => 1
  rw [sum_ones, ← hs.capacity] at hweight
  have hge := weigh_ge (fun _ => 1) hr
  have hone : release.weigh (fun _ => 1) = 1 := by
    unfold Release.weigh
    rw [hconn]
  have hpool := sum_ones s.pool.m_connPool
  omega

/-- Only a deleter that has locked its `weak_ptr` runs the section of `releaseConn`. -/
theorem Pooling.Conserves.locked (hs : s.Conserves conns) {r : ℕ} {release : Release C} {conn : C}
    (hr : s.releases[r]? = some release)
    (hrelease : release = .locked conn ∨ release = .blocked conn) : release = .locked conn := by
  rcases hrelease with hlocked | rfl
  · exact hlocked
  · exact absurd (List.mem_of_getElem? hr) (hs.unblocked conn)

/-- The destructor has run exactly when no reference is left. -/
theorem Pooling.Conserves.dead_iff (hs : s.Conserves conns) :
    s.alive = false ↔ s.references = 0 := by
  rw [← Bool.not_eq_true, hs.alive, Nat.pos_iff_ne_zero, not_not]

/-- **A step moves connections**, and changes the weight of none. -/
theorem weigh_step (weight : C → ℕ) (hs : s.Conserves conns) (hstep : s.Step e s') :
    s'.weigh weight = s.weigh weight := by
  cases hstep with
  | share i hi => rfl
  | take i getter conn rest hi hgetter hpool =>
    -- from the buffer to a family of its own
    simp only [Pooling.weigh, hpool, List.map_cons, List.map_append, List.map_nil, List.sum_cons,
      List.sum_append, List.sum_nil]
    omega
  | sleep i getter hi hgetter hpool => rfl
  | spurious i hi => rfl
  | drop_pool i hi => exact weigh_settle weight _
  | copy k conn count hk =>
    have hsame := Transition.map_set_of_eq (fun h : C × ℕ => weight h.1) hk
      (show weight (conn, count + 1).1 = weight (conn, count).1 from rfl)
    simp only [Pooling.weigh, hsame]
  | drop k conn count hk hmany =>
    have hsame := Transition.map_set_of_eq (fun h : C × ℕ => weight h.1) hk
      (show weight (conn, count - 1).1 = weight (conn, count).1 from rfl)
    simp only [Pooling.weigh, hsame]
  | drop_last k conn count hk hlast =>
    -- from its family to the deleter
    have hsum : ((s.handles.eraseIdx k).map fun h => weight h.1).sum + weight conn
        = (s.handles.map fun h => weight h.1).sum :=
      Transition.sum_eraseIdx_add (fun h : C × ℕ => weight h.1) hk
    have hdropped : (Release.dropped conn).weigh weight = weight conn := rfl
    simp only [Pooling.weigh, List.map_append, List.map_cons, List.map_nil, List.sum_append,
      List.sum_cons, List.sum_nil, hdropped]
    omega
  | lock r conn hr =>
    have hsame : (if s.alive then Release.locked conn else .failed conn).weigh weight
        = (Release.dropped conn).weigh weight := by
      split_ifs
      · rfl
      · rfl
    have hmap := Transition.map_set_of_eq (Release.weigh weight) hr hsame
    simp only [Pooling.weigh, hmap]
  | push r release conn woken getters hr hrelease hroom hgetters =>
    -- from the deleter to the back of the buffer
    have hlt : s.pool.m_connPool.length < s.pool.capacity :=
      Nat.lt_of_le_of_ne hs.le_capacity hroom
    obtain rfl := hs.locked hr hrelease
    have hsum := Transition.sum_set_add (Release.weigh weight) hr .leaving
    have hlocked : (Release.locked conn).weigh weight = weight conn := rfl
    have hleaving : (Release.leaving : Release C).weigh weight = 0 := rfl
    simp only [Pooling.weigh, DBConnectPool.push_back, if_pos hlt, List.map_append, List.map_cons,
      List.map_nil, List.sum_append, List.sum_cons, List.sum_nil]
    omega
  | block r release conn woken hr hrelease hfull =>
    -- the weight of the connection it brings back says that the buffer is not full
    obtain rfl := hs.locked hr hrelease
    exact absurd hfull (hs.room hr rfl).ne
  | leave r hr =>
    have hsum := Transition.sum_eraseIdx_add (Release.weigh weight) hr
    have hleaving : (Release.leaving : Release C).weigh weight = 0 := rfl
    rw [weigh_settle]
    simp only [Pooling.weigh]
    omega
  | PQfinish r conn hr =>
    have hsum := Transition.sum_eraseIdx_add (Release.weigh weight) hr
    have hfailed : (Release.failed conn).weigh weight = weight conn := rfl
    simp only [Pooling.weigh, List.map_append, List.map_cons, List.map_nil, List.sum_append,
      List.sum_cons, List.sum_nil]
    omega

theorem capacity_step (hstep : s.Step e s') : s'.pool.capacity = s.pool.capacity := by
  rcases hstep
  case drop_pool => exact Pooling.settle_capacity _
  case push => exact DBConnectPool.push_back_capacity _ _
  case leave => exact Pooling.settle_capacity _
  all_goals rfl

/-- No deleter is ever blocked. -/
theorem unblocked_step (hs : s.Conserves conns) (hstep : s.Step e s') (conn : C) :
    Release.blocked conn ∉ s'.releases := by
  have hset : ∀ (r : ℕ) (release : Release C), release ≠ .blocked conn →
      Release.blocked conn ∉ s.releases.set r release := by
    intro r release hne hmem
    rcases List.mem_or_eq_of_mem_set hmem with hmem | heq
    · exact hs.unblocked conn hmem
    · exact hne heq.symm
  cases hstep with
  | drop_pool i hi =>
    rw [Pooling.settle_releases]
    exact hs.unblocked conn
  | drop_last k conn' count hk hlast =>
    intro hmem
    rcases List.mem_append.mp hmem with hmem | hmem
    · exact hs.unblocked conn hmem
    · cases List.mem_singleton.mp hmem
  | lock r conn' hr =>
    apply hset
    split_ifs
    · rintro ⟨⟩
    · rintro ⟨⟩
  | push r release conn' woken getters hr hrelease hroom hgetters =>
    apply hset
    rintro ⟨⟩
  | block r release conn' woken hr hrelease hfull =>
    obtain rfl := hs.locked hr hrelease
    exact absurd hfull (hs.room hr rfl).ne
  | leave r hr =>
    rw [Pooling.settle_releases]
    exact fun hmem => hs.unblocked conn (List.mem_of_mem_eraseIdx hmem)
  | PQfinish r conn' hr => exact fun hmem => hs.unblocked conn (List.mem_of_mem_eraseIdx hmem)
  | _ => exact hs.unblocked conn

/-! ## References -/

/-- A getter that has not dropped its reference holds one. -/
theorem references_of_getter {i : ℕ} {getter : Getter} (hi : s.getters[i]? = some getter)
    (hne : getter ≠ .gone) : 0 < s.references := by
  have hsum := Transition.sum_eraseIdx_add Getter.references hi
  have hone : getter.references = 1 := by
    rcases getter with _ | _ | _ | _
    case gone => exact absurd rfl hne
    all_goals rfl
  unfold Pooling.references
  omega

/-- So does a deleter that has locked its `weak_ptr`. -/
theorem references_of_release {r : ℕ} {release : Release C} (hr : s.releases[r]? = some release)
    (hone : release.references = 1) : 0 < s.references := by
  have hsum := Transition.sum_eraseIdx_add Release.references hr
  unfold Pooling.references
  omega

/-- A getter that goes on holding its reference. -/
theorem references_set_getter {i : ℕ} {getter : Getter} (hi : s.getters[i]? = some getter)
    (getter' : Getter) (hsame : getter'.references = getter.references) :
    ((s.getters.set i getter').map Getter.references).sum
      = (s.getters.map Getter.references).sum := by
  have hsum := Transition.sum_set_add Getter.references hi getter'
  omega

/-- The destructor runs when no reference is left. -/
theorem settle_alive (halive : s.alive = true) :
    s.settle.alive = true ↔ 0 < s.settle.references := by
  unfold Pooling.settle
  split_ifs with hlast
  · have hzero : Pooling.references { s with
        alive := false
        finished := s.finished ++ s.pool.m_connPool
        pool := { s.pool with m_connPool := [] } } = 0 := hlast.2
    rw [hzero]
    decide
  · have hpos : 0 < s.references := by
      apply Nat.pos_of_ne_zero
      exact fun hzero => hlast ⟨halive, hzero⟩
    exact ⟨fun _ => hpos, fun _ => halive⟩

theorem settle_gone (halive : s.alive = true) (hgone : s.settle.alive = false) :
    s.settle.pool.m_connPool = [] := by
  unfold Pooling.settle at hgone ⊢
  split_ifs at hgone ⊢
  · rfl
  · rw [halive] at hgone
    cases hgone

theorem notify_one_references {woken : Option ℕ} {getters getters' : List Getter}
    (h : notify_one getters woken = some getters') :
    (getters'.map Getter.references).sum = (getters.map Getter.references).sum := by
  rcases woken with _ | i
  · simp only [notify_one] at h
    split_ifs at h
    obtain rfl := Option.some.inj h
    rfl
  · simp only [notify_one] at h
    split_ifs at h with hi
    obtain rfl := Option.some.inj h
    have hsum := Transition.sum_set_add Getter.references hi (.awake true)
    have hasleep : Getter.asleep.references = 1 := rfl
    have hawake : (Getter.awake true).references = 1 := rfl
    omega

/-- A getter that runs holds a reference. -/
theorem references_of_runs {getter : Getter}
    (h : getter = .idle ∨ ∃ notified, getter = .awake notified) : getter.references = 1 := by
  rcases h with rfl | ⟨notified, rfl⟩
  · rfl
  · rfl

/-- **The pool is alive as long as there is a reference.** -/
theorem alive_step (hs : s.Conserves conns) (hstep : s.Step e s') :
    s'.alive = true ↔ 0 < s'.references := by
  have hkeep : s'.alive = s.alive → s'.references = s.references →
      (s'.alive = true ↔ 0 < s'.references) := by
    intro halive hreferences
    rw [halive, hreferences]
    exact hs.alive
  cases hstep with
  | share i hi =>
    have halive := hs.alive.mpr (references_of_getter hi (by simp))
    have hidle : Getter.idle.references = 1 := rfl
    refine ⟨fun _ => ?_, fun _ => halive⟩
    simp only [Pooling.references, List.map_append, List.map_cons, List.map_nil, List.sum_append,
      List.sum_cons, List.sum_nil]
    omega
  | take i getter conn rest hi hgetter hpool =>
    apply hkeep rfl
    have hsame := references_set_getter hi .idle (references_of_runs hgetter).symm
    simp only [Pooling.references, hsame]
  | sleep i getter hi hgetter hpool =>
    apply hkeep rfl
    have hsame := references_set_getter hi .asleep (references_of_runs hgetter).symm
    simp only [Pooling.references, hsame]
  | spurious i hi =>
    apply hkeep rfl
    have hsame := references_set_getter hi (.awake false) rfl
    simp only [Pooling.references, hsame]
  | drop_pool i hi =>
    apply settle_alive
    exact hs.alive.mpr (references_of_getter hi (by simp))
  | copy k conn count hk => exact hkeep rfl rfl
  | drop k conn count hk hmany => exact hkeep rfl rfl
  | drop_last k conn count hk hlast =>
    apply hkeep rfl
    have hdropped : (Release.dropped conn).references = 0 := rfl
    simp only [Pooling.references, List.map_append, List.map_cons, List.map_nil, List.sum_append,
      List.sum_cons, List.sum_nil, hdropped]
    omega
  | lock r conn hr =>
    have hdropped : (Release.dropped conn).references = 0 := rfl
    by_cases halive : s.alive = true
    · -- the lock succeeds and makes one reference more
      have hpos := hs.alive.mp halive
      have hsum := Transition.sum_set_add Release.references hr (.locked conn)
      refine ⟨fun _ => ?_, fun _ => halive⟩
      simp only [Pooling.references, if_pos halive] at hpos ⊢
      omega
    · -- the lock fails and makes none
      apply hkeep rfl
      have hsum := Transition.sum_set_add Release.references hr (.failed conn)
      have hfailed : (Release.failed conn).references = 0 := rfl
      simp only [Pooling.references, if_neg halive]
      omega
  | push r release conn woken getters hr hrelease hroom hgetters =>
    -- the deleter keeps its reference until it leaves
    apply hkeep rfl
    obtain rfl := hs.locked hr hrelease
    have hsum := Transition.sum_set_add Release.references hr .leaving
    have hlocked : (Release.locked conn).references = 1 := rfl
    have hleaving : (Release.leaving : Release C).references = 1 := rfl
    have hgetters' := notify_one_references hgetters
    simp only [Pooling.references]
    omega
  | block r release conn woken hr hrelease hfull =>
    obtain rfl := hs.locked hr hrelease
    exact absurd hfull (hs.room hr rfl).ne
  | leave r hr =>
    apply settle_alive
    exact hs.alive.mpr (references_of_release hr rfl)
  | PQfinish r conn hr =>
    apply hkeep rfl
    have hsum := Transition.sum_eraseIdx_add Release.references hr
    have hfailed : (Release.failed conn).references = 0 := rfl
    simp only [Pooling.references]
    omega

/-- The pool stays empty when its destructor has run: nobody is left to touch it. -/
theorem gone_step (hs : s.Conserves conns) (hstep : s.Step e s') (hgone : s'.alive = false) :
    s'.pool.m_connPool = [] := by
  have hdead : ∀ {i : ℕ} {getter : Getter}, s.getters[i]? = some getter → getter ≠ .gone →
      s.alive = true := fun hi hne => hs.alive.mpr (references_of_getter hi hne)
  cases hstep with
  | take i getter conn rest hi hgetter hpool =>
    -- there is nothing to take
    have hempty := hs.gone hgone
    rw [hpool] at hempty
    cases hempty
  | drop_pool i hi => exact settle_gone (hdead hi (by simp)) hgone
  | push r release conn woken getters hr hrelease hroom hgetters =>
    obtain rfl := hs.locked hr hrelease
    have halive := hs.alive.mpr (references_of_release hr rfl)
    exact absurd (halive.symm.trans hgone) (by decide)
  | leave r hr => exact settle_gone (hs.alive.mpr (references_of_release hr rfl)) hgone
  | _ => exact hs.gone hgone

theorem conserves_step (hs : s.Conserves conns) (hstep : pooling.step s e = some s') :
    s'.Conserves conns := by
  have hstep := pooling_cases hstep
  exact ⟨fun weight => (weigh_step weight hs hstep).trans (hs.weight weight),
    (capacity_step hstep).trans hs.capacity, unblocked_step hs hstep, alive_step hs hstep,
    gone_step hs hstep⟩

/-- The constructor pushes every connection, and none is overwritten. -/
theorem foldl_push_back {n : ℕ} {l conns : List C} (hlen : l.length + conns.length ≤ n) :
    conns.foldl DBConnectPool.push_back ⟨n, l⟩ = ⟨n, l ++ conns⟩ := by
  induction conns generalizing l with
  | nil => rw [List.foldl_nil, List.append_nil]
  | cons conn conns ih =>
    rw [List.length_cons] at hlen
    have hpush : DBConnectPool.push_back ⟨n, l⟩ conn = ⟨n, l ++ [conn]⟩ := by
      rw [DBConnectPool.push_back, if_pos (by show l.length < n; omega)]
    have hlen' : (l ++ [conn]).length + conns.length ≤ n := by
      rw [List.length_append, List.length_singleton]
      omega
    rw [List.foldl_cons, hpush, ih hlen', List.append_assoc, List.singleton_append]

theorem start_conserves {n : ℕ} (hlen : conns.length = n) :
    (Pooling.start n conns).Conserves conns := by
  have hpool : DBConnectPool.ctor n conns = ⟨n, conns⟩ := by
    apply foldl_push_back
    rw [List.length_nil]
    omega
  refine ⟨fun weight => ?_, ?_, fun _ => List.not_mem_nil, ⟨fun _ => Nat.one_pos, fun _ => rfl⟩, ?_⟩
  · simp only [Pooling.weigh, Pooling.start, hpool, List.map_nil, List.sum_nil, Nat.add_zero]
  · simp only [Pooling.start, hpool]
    exact hlen.symm
  · rintro ⟨⟩

end Steps

/-! ## Each connection is in one place -/

section Places

variable [DecidableEq C] {conns : List C} {s : Pooling C}

/-- How many times a connection is in the buffer, has a family of handles, is brought
back, or was finished. -/
def Pooling.places (s : Pooling C) (conn : C) : ℕ :=
  s.pool.m_connPool.count conn + s.handles.countP (fun h => h.1 = conn) +
    s.releases.countP (fun release => release.conn? = some conn) + s.finished.count conn

/-- What the pool does with its connections.

* `once`: each is in exactly one place, once; nothing else is anywhere.
* `room`: a deleter that is about to run `releaseConn` finds the buffer not full, and
  none ever waits there.
* `alive`: the destructor of the pool has run if and only if nobody holds a reference to it
  any more.
* `gone`: with the last reference the pool is empty: what was in it has been passed to
  `PQfinish`.
* `ended`: when the last reference, all handles and all deleters are gone, each connection has
  been passed to `PQfinish` once. -/
structure Pooling.Conserved (conns : List C) (s : Pooling C) : Prop where
  once : ∀ conn : C, s.places conn = if conn ∈ conns then 1 else 0
  room : ∀ (r : ℕ) (conn : C), s.releases[r]? = some (.locked conn) →
    s.pool.m_connPool.length < s.pool.capacity
  unblocked : ∀ conn : C, Release.blocked conn ∉ s.releases
  alive : s.alive = false ↔ s.references = 0
  gone : s.references = 0 → s.pool.m_connPool = []
  ended : s.references = 0 → s.handles = [] → s.releases = [] → s.finished.Perm conns

/-- The places of a connection are the weight of all when it alone weighs something. -/
theorem places_eq_weigh (s : Pooling C) (conn : C) :
    s.places conn = s.weigh fun c => if c = conn then 1 else 0 := by
  have hcount : ∀ l : List C, (l.map fun c => if c = conn then 1 else 0).sum = l.count conn := by
    intro l
    rw [List.count, ← Transition.sum_ite_eq_countP]
    simp only [beq_iff_eq]
  have hhandles : (s.handles.map fun h => if h.1 = conn then 1 else 0).sum
      = s.handles.countP fun h => h.1 = conn := by
    rw [← Transition.sum_ite_eq_countP]
    simp only [decide_eq_true_eq]
  have hreleases : (s.releases.map (Release.weigh fun c => if c = conn then 1 else 0)).sum
      = s.releases.countP fun release => release.conn? = some conn := by
    rw [← Transition.sum_ite_eq_countP]
    apply congrArg List.sum
    apply List.map_congr_left
    intro release _
    unfold Release.weigh
    rcases release.conn? with _ | c
    · rfl
    · simp only [Option.some.injEq, decide_eq_true_eq]
  rw [Pooling.places, Pooling.weigh, hcount, hcount, hhandles, hreleases]

theorem Pooling.Conserves.places (hs : s.Conserves conns) (conn : C) :
    s.places conn = conns.count conn := by
  rw [places_eq_weigh, hs.weight, List.count, ← Transition.sum_ite_eq_countP]
  simp only [beq_iff_eq]

theorem Pooling.Conserves.conserved (hs : s.Conserves conns) (hnodup : conns.Nodup) :
    s.Conserved conns := by
  have hgone : s.references = 0 → s.pool.m_connPool = [] := by
    intro hzero
    exact hs.gone (hs.dead_iff.mpr hzero)
  refine ⟨fun conn => ?_, fun r conn hr => hs.room hr rfl, hs.unblocked, hs.dead_iff, hgone,
    fun hzero hhandles hreleases => ?_⟩
  · rw [hs.places, hnodup.count]
  · -- the only place that is left is the list of the finished
    apply List.perm_iff_count.mpr
    intro conn
    have hplaces := hs.places conn
    rw [Pooling.places, hgone hzero, hhandles, hreleases] at hplaces
    simpa using hplaces

end Places

/-- **Connections are conserved.** For a pool of any capacity whose connections were all
opened, and every interleaving of the sections of any number of getters and deleters,
each connection is in exactly one place in every state, `releaseConn` never finds the
buffer full, the destructor runs with the last reference, and when the handles and the
deleters are gone as well each connection has been finished once. -/
theorem connections_conserved [DecidableEq C] (n : ℕ) (conns : List C) (hlen : conns.length = n)
    (hnodup : conns.Nodup) (es : List PoolEvent) (s : Pooling C)
    (hrun : pooling.run (Pooling.start n conns) es = some s) : s.Conserved conns := by
  have hs : s.Conserves conns :=
    Transition.invariant (P := fun s : Pooling C => s.Conserves conns)
      (fun _ _ _ hs hstep => conserves_step hs hstep) (start_conserves hlen) hrun
  exact hs.conserved hnodup

/-- The last reference to the pool is that of a deleter: its destructor runs when the
deleter has brought its connection back, and finishes both. -/
theorem connections_conserved_late :
    ∃ s, pooling.run (Pooling.start 2 [1, 2]) [.getConn 0, .copy 0, .drop 0, .drop 0, .lock 0,
        .drop_pool 0, .releaseConn 0 none, .leave 0] = some s ∧
      s.alive = false ∧ s.finished = [2, 1] ∧ s.finished.Perm [1, 2] := by
  have hconserved := connections_conserved 2 [1, 2] rfl (by decide) [.getConn 0, .copy 0, .drop 0,
    .drop 0, .lock 0, .drop_pool 0, .releaseConn 0 none, .leave 0] _ rfl
  exact ⟨_, rfl, hconserved.alive.mpr rfl, rfl, hconserved.ended rfl rfl rfl⟩

end MyWarehouse

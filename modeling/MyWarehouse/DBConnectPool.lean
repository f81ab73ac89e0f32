/-
`DBConnectPool.h` and `DBConnectPool.cpp`: the pool of database connections.

`getConn` waits for a connection and hands it out in a `shared_ptr` whose deleter brings
it back: it locks a `weak_ptr` to the pool and calls `releaseConn`, or finishes the
connection when the pool is gone. The handles that are copied from one another are a
family; the deleter runs when the last of them is dropped, on whatever thread drops it.

Every section under `m_lock` is one step, and so is the lock of the `weak_ptr`. A thread
that calls `getConn` holds a reference to the pool, and so does a deleter that has locked
its `weak_ptr`; when the last reference goes, the destructor of the pool runs.

A wait on a condition variable lets go of the mutex and falls asleep in one step.
`notify_one` wakes one of the threads that sleep, if there is one; a thread may also wake
up by itself. A thread that is awake runs later, when it has the mutex again, and until
then others may come before it.
-/
import MyWarehouse.Lib.Transition

set_option autoImplicit false

namespace MyWarehouse

variable {C : Type}

/-! ## The pool -/

/-- `DBConnectPool`; `C` is `PGconn*`. `m_connPool` is the circular buffer, front first,
and `capacity` its capacity. -/
structure DBConnectPool (C : Type) where
  capacity : ℕ
  m_connPool : List C

namespace DBConnectPool

/-- `boost::circular_buffer::push_back`: a full buffer loses its front. -/
def push_back (p : DBConnectPool C) (conn : C) : DBConnectPool C :=
  if p.m_connPool.length < p.capacity then { p with m_connPool := p.m_connPool ++ [conn] }
  else { p with m_connPool := (p.m_connPool ++ [conn]).tail }

@[simp] theorem push_back_capacity (p : DBConnectPool C) (conn : C) :
    (p.push_back conn).capacity = p.capacity := by
  unfold push_back
  split_ifs
  · rfl
  · rfl

/-- One connection more at the most. -/
theorem push_back_length (p : DBConnectPool C) (conn : C) :
    (p.push_back conn).m_connPool.length ≤ p.m_connPool.length + 1 := by
  unfold push_back
  split_ifs
  · rw [List.length_append, List.length_singleton]
  · rw [List.length_tail, List.length_append, List.length_singleton]
    omega

/-- `DBConnectPool::DBConnectPool`, given the connections it opens. -/
def ctor (n : ℕ) (conns : List C) : DBConnectPool C := conns.foldl push_back ⟨n, []⟩

/-- The section of `getConn`: the connection it takes, or nothing when it has to wait. -/
def getConn (p : DBConnectPool C) : Option (C × DBConnectPool C) :=
  match p.m_connPool with
  | [] => none
  | conn :: rest => some (conn, { p with m_connPool := rest })

/-- The section of `releaseConn`; nothing when it has to wait. -/
def releaseConn (p : DBConnectPool C) (conn : C) : Option (DBConnectPool C) :=
  if p.m_connPool.length = p.capacity then none else some (p.push_back conn)

end DBConnectPool

/-! ## The threads -/

/-- A reference to the pool and what its thread does with it: nothing, sleep on
`m_empty_cv`, or run again after it has woken up, by `notify_one` or by itself; `gone`
when it was dropped. -/
inductive Getter where
  | idle
  | asleep
  | awake (notified : Bool)
  | gone
  deriving DecidableEq, Repr

/-- The references a getter holds. -/
def Getter.references : Getter → ℕ
  | .gone => 0
  | _ => 1

/-- A deleter with its connection: the last handle was `dropped`; the `weak_ptr` was
`locked`, and `releaseConn` may be `blocked` on `m_full_cv`, until it has pushed the
connection and is `leaving`; or the lock `failed`. -/
inductive Release (C : Type) where
  | dropped (conn : C)
  | locked (conn : C)
  | blocked (conn : C)
  | leaving
  | failed (conn : C)
  deriving DecidableEq, Repr

/-- The references a deleter holds. -/
def Release.references : Release C → ℕ
  | .dropped _ | .failed _ => 0
  | _ => 1

/-- The connection a deleter has to bring back. -/
def Release.conn? : Release C → Option C
  | .dropped conn | .locked conn | .blocked conn | .failed conn => some conn
  | .leaving => none

/-- The pool with everything around it: `alive` until its destructor has run, the getters,
the families of handles with the number of handles in each, the deleters, and the
connections passed to `PQfinish`. -/
structure Pooling (C : Type) where
  pool : DBConnectPool C
  alive : Bool
  getters : List Getter
  handles : List (C × ℕ)
  releases : List (Release C)
  finished : List C

namespace Pooling

/-- The references to the pool. -/
def references (s : Pooling C) : ℕ :=
  (s.getters.map Getter.references).sum + (s.releases.map Release.references).sum

/-- `DBConnectPool::~DBConnectPool`, when the last reference has gone. -/
def settle (s : Pooling C) : Pooling C :=
  if s.alive = true ∧ s.references = 0 then
    { s with
      alive := false
      finished := s.finished ++ s.pool.m_connPool
      pool := { s.pool with m_connPool := [] } }
  else s

@[simp] theorem settle_getters (s : Pooling C) : s.settle.getters = s.getters := by
  unfold settle
  split_ifs
  · rfl
  · rfl

@[simp] theorem settle_releases (s : Pooling C) : s.settle.releases = s.releases := by
  unfold settle
  split_ifs
  · rfl
  · rfl

@[simp] theorem settle_capacity (s : Pooling C) : s.settle.pool.capacity = s.pool.capacity := by
  unfold settle
  split_ifs
  · rfl
  · rfl

/-- The destructor only takes connections out of the buffer. -/
theorem settle_length (s : Pooling C) :
    s.settle.pool.m_connPool.length ≤ s.pool.m_connPool.length := by
  unfold settle
  split_ifs
  · exact Nat.zero_le _
  · exact Nat.le_refl _

/-- A pool right after its constructor, with one reference. -/
def start (n : ℕ) (conns : List C) : Pooling C :=
  ⟨.ctor n conns, true, [.idle], [], [], []⟩

end Pooling

/-- `notify_one`, waking the given thread; none only when no thread sleeps. -/
def notify_one (getters : List Getter) : Option ℕ → Option (List Getter)
  | none => if .asleep ∈ getters then none else some getters
  | some i => if getters[i]? = some .asleep then some (getters.set i (.awake true)) else none

/-- A getter copies its reference for another thread, runs the section of `getConn`, wakes
up by itself or drops its reference; a handle is copied or dropped; a deleter locks its
`weak_ptr`, runs the section of `releaseConn`, waking the given getter, gives back its
reference, or finishes its connection. -/
inductive PoolEvent where
  | share (i : ℕ)
  | getConn (i : ℕ)
  | spurious (i : ℕ)
  | drop_pool (i : ℕ)
  | copy (k : ℕ)
  | drop (k : ℕ)
  | lock (r : ℕ)
  | releaseConn (r : ℕ) (woken : Option ℕ)
  | leave (r : ℕ)
  | PQfinish (r : ℕ)
  deriving DecidableEq, Repr

/-- The section of `getConn` run by getter `i`. -/
def Pooling.getConn (s : Pooling C) (i : ℕ) : Pooling C :=
  -- its `m_full_cv.notify_one` allows no deleter more than it may do anyway
  match s.pool.getConn with
  | none => { s with getters := s.getters.set i .asleep }
  | some (conn, pool) => { s with
      pool := pool
      getters := s.getters.set i .idle
      handles := s.handles ++ [(conn, 1)] }

/-- The section of `releaseConn` run by deleter `r`. A deleter that is blocked runs it
again when it has been notified, or by itself. -/
def Pooling.releaseConn (s : Pooling C) (r : ℕ) (conn : C) (woken : Option ℕ) :
    Option (Pooling C) :=
  match s.pool.releaseConn conn with
  | none => some { s with releases := s.releases.set r (.blocked conn) }
  | some pool => (notify_one s.getters woken).map fun getters =>
      { s with pool := pool, getters := getters, releases := s.releases.set r .leaving }

/-- The pool, its getters and its handles. -/
def pooling : Transition (Pooling C) PoolEvent where
  step s
    | .share i => match s.getters[i]? with
      | some .idle => some { s with getters := s.getters ++ [.idle] }
      | _ => none
    | .getConn i => match s.getters[i]? with
      | some .idle | some (.awake _) => some (s.getConn i)
      | _ => none
    | .spurious i => match s.getters[i]? with
      | some .asleep => some { s with getters := s.getters.set i (.awake false) }
      | _ => none
    | .drop_pool i => match s.getters[i]? with
      | some .idle => some { s with getters := s.getters.set i .gone }.settle
      | _ => none
    | .copy k => match s.handles[k]? with
      | some (conn, count) => some { s with handles := s.handles.set k (conn, count + 1) }
      | none => none
    | .drop k => match s.handles[k]? with
      | some (conn, count) =>
        -- the deleter is called when the last handle goes
        if 1 < count then some { s with handles := s.handles.set k (conn, count - 1) }
        else some { s with
          handles := s.handles.eraseIdx k, releases := s.releases ++ [.dropped conn] }
      | none => none
    | .lock r => match s.releases[r]? with
      -- the pool has references as long as its destructor has not run
      | some (.dropped conn) => some { s with
          releases := s.releases.set r (if s.alive then .locked conn else .failed conn) }
      | _ => none
    | .releaseConn r woken => match s.releases[r]? with
      | some (.locked conn) | some (.blocked conn) => s.releaseConn r conn woken
      | _ => none
    | .leave r => match s.releases[r]? with
      | some .leaving => some { s with releases := s.releases.eraseIdx r }.settle
      | _ => none
    | .PQfinish r => match s.releases[r]? with
      | some (.failed conn) => some { s with
          releases := s.releases.eraseIdx r, finished := s.finished ++ [conn] }
      | _ => none

/-! ## What a step does -/

/-- The steps one by one. A getter that runs takes a connection or falls asleep; the last
handle of a family leaves a deleter behind; a deleter pushes its connection or is
blocked. -/
inductive Pooling.Step (s : Pooling C) : PoolEvent → Pooling C → Prop where
  | share (i : ℕ) : s.getters[i]? = some .idle →
      Step s (.share i) { s with getters := s.getters ++ [.idle] }
  | take (i : ℕ) (getter : Getter) (conn : C) (rest : List C) : s.getters[i]? = some getter →
      getter = .idle ∨ (∃ notified, getter = .awake notified) →
      s.pool.m_connPool = conn :: rest →
      Step s (.getConn i) { s with
        pool := { s.pool with m_connPool := rest }
        getters := s.getters.set i .idle
        handles := s.handles ++ [(conn, 1)] }
  | sleep (i : ℕ) (getter : Getter) : s.getters[i]? = some getter →
      getter = .idle ∨ (∃ notified, getter = .awake notified) → s.pool.m_connPool = [] →
      Step s (.getConn i) { s with getters := s.getters.set i .asleep }
  | spurious (i : ℕ) : s.getters[i]? = some .asleep →
      Step s (.spurious i) { s with getters := s.getters.set i (.awake false) }
  | drop_pool (i : ℕ) : s.getters[i]? = some .idle →
      Step s (.drop_pool i) { s with getters := s.getters.set i .gone }.settle
  | copy (k : ℕ) (conn : C) (count : ℕ) : s.handles[k]? = some (conn, count) →
      Step s (.copy k) { s with handles := s.handles.set k (conn, count + 1) }
  | drop (k : ℕ) (conn : C) (count : ℕ) : s.handles[k]? = some (conn, count) → 1 < count →
      Step s (.drop k) { s with handles := s.handles.set k (conn, count - 1) }
  | drop_last (k : ℕ) (conn : C) (count : ℕ) : s.handles[k]? = some (conn, count) → ¬ 1 < count →
      Step s (.drop k) { s with
        handles := s.handles.eraseIdx k, releases := s.releases ++ [.dropped conn] }
  | lock (r : ℕ) (conn : C) : s.releases[r]? = some (.dropped conn) →
      Step s (.lock r) { s with
        releases := s.releases.set r (if s.alive then .locked conn else .failed conn) }
  | push (r : ℕ) (release : Release C) (conn : C) (woken : Option ℕ) (getters : List Getter) :
      s.releases[r]? = some release → release = .locked conn ∨ release = .blocked conn →
      s.pool.m_connPool.length ≠ s.pool.capacity → notify_one s.getters woken = some getters →
      Step s (.releaseConn r woken) { s with
        pool := s.pool.push_back conn, getters := getters, releases := s.releases.set r .leaving }
  | block (r : ℕ) (release : Release C) (conn : C) (woken : Option ℕ) :
      s.releases[r]? = some release → release = .locked conn ∨ release = .blocked conn →
      s.pool.m_connPool.length = s.pool.capacity →
      Step s (.releaseConn r woken) { s with releases := s.releases.set r (.blocked conn) }
  | leave (r : ℕ) : s.releases[r]? = some .leaving →
      Step s (.leave r) { s with releases := s.releases.eraseIdx r }.settle
  | PQfinish (r : ℕ) (conn : C) : s.releases[r]? = some (.failed conn) →
      Step s (.PQfinish r) { s with
        releases := s.releases.eraseIdx r, finished := s.finished ++ [conn] }

section Steps

variable {s s' : Pooling C} {e : PoolEvent}

theorem getConn_step {i : ℕ} {getter : Getter} (hi : s.getters[i]? = some getter)
    (hgetter : getter = .idle ∨ ∃ notified, getter = .awake notified) :
    s.Step (.getConn i) (s.getConn i) := by
  rcases hpool : s.pool.m_connPool with _ | ⟨conn, rest⟩
  · have hsleep := Pooling.Step.sleep i getter hi hgetter hpool
    simp only [Pooling.getConn, DBConnectPool.getConn, hpool]
    exact hsleep
  · have htake := Pooling.Step.take i getter conn rest hi hgetter hpool
    simp only [Pooling.getConn, DBConnectPool.getConn, hpool]
    exact htake

theorem releaseConn_step {r : ℕ} {release : Release C} {conn : C} {woken : Option ℕ}
    (hr : s.releases[r]? = some release)
    (hrelease : release = .locked conn ∨ release = .blocked conn)
    (hstep : s.releaseConn r conn woken = some s') : s.Step (.releaseConn r woken) s' := by
  unfold Pooling.releaseConn DBConnectPool.releaseConn at hstep
  by_cases hfull : s.pool.m_connPool.length = s.pool.capacity
  · rw [if_pos hfull] at hstep
    obtain rfl := Option.some.inj hstep
    exact .block r release conn woken hr hrelease hfull
  · rw [if_neg hfull] at hstep
    obtain ⟨getters, hgetters, rfl⟩ := Option.map_eq_some_iff.mp hstep
    exact .push r release conn woken getters hr hrelease hfull hgetters

/-- Every step is one of these. -/
theorem pooling_cases (hstep : pooling.step s e = some s') : s.Step e s' := by
  rcases e with i | i | i | i | k | k | r | ⟨r, woken⟩ | r | r
  case share =>
    simp only [pooling] at hstep
    split at hstep
    · next hi =>
      obtain rfl := Option.some.inj hstep
      exact .share i hi
    · cases hstep
  case getConn =>
    simp only [pooling] at hstep
    split at hstep
    · next hi =>
      obtain rfl := Option.some.inj hstep
      exact getConn_step hi (Or.inl rfl)
    · next notified hi =>
      obtain rfl := Option.some.inj hstep
      exact getConn_step hi (Or.inr ⟨notified, rfl⟩)
    · cases hstep
  case spurious =>
    simp only [pooling] at hstep
    split at hstep
    · next hi =>
      obtain rfl := Option.some.inj hstep
      exact .spurious i hi
    · cases hstep
  case drop_pool =>
    simp only [pooling] at hstep
    split at hstep
    · next hi =>
      obtain rfl := Option.some.inj hstep
      exact .drop_pool i hi
    · cases hstep
  case copy =>
    simp only [pooling] at hstep
    split at hstep
    · next conn count hk =>
      obtain rfl := Option.some.inj hstep
      exact .copy k conn count hk
    · cases hstep
  case drop =>
    simp only [pooling] at hstep
    split at hstep
    · next conn count hk =>
      split_ifs at hstep with hmany
      · obtain rfl := Option.some.inj hstep
        exact .drop k conn count hk hmany
      · obtain rfl := Option.some.inj hstep
        exact .drop_last k conn count hk hmany
    · cases hstep
  case lock =>
    simp only [pooling] at hstep
    split at hstep
    · next conn hr =>
      obtain rfl := Option.some.inj hstep
      exact .lock r conn hr
    · cases hstep
  case releaseConn =>
    simp only [pooling] at hstep
    split at hstep
    · next conn hr => exact releaseConn_step hr (Or.inl rfl) hstep
    · next conn hr => exact releaseConn_step hr (Or.inr rfl) hstep
    · cases hstep
  case leave =>
    simp only [pooling] at hstep
    split at hstep
    · next hr =>
      obtain rfl := Option.some.inj hstep
      exact .leave r hr
    · cases hstep
  case PQfinish =>
    simp only [pooling] at hstep
    split at hstep
    · next conn hr =>
      obtain rfl := Option.some.inj hstep
      exact .PQfinish r conn hr
    · cases hstep

end Steps

end MyWarehouse

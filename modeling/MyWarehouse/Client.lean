/-
`client.h`: the object that stands for a logged-in user.

`client` derives from `client_interface`, whose `init_user_info` and `do_some`
are virtual; the codes they return are a parameter (`ClientEnv`), and
`client.env` is what `client.h` itself returns. What the two functions do to the
object is modelled as written.

`timer_` is a `deadline_timer`. It is built with a duration, so it expires that
long after the object was constructed; `async_wait` adds a wait and leaves the
expiry alone. A completed wait that was not aborted locks its weak pointer and
calls `clear_client`.
-/
import MyWarehouse.Base

set_option autoImplicit false

namespace MyWarehouse

/-- What handling a message takes from outside `client_manager`: the codes the
virtual functions of a client object return, and `rand()`. An object is named by
the number it was allocated under. -/
structure ClientEnv where
  init_user_info : ℕ → ℤ → ERROR_CODE
  do_some : ℕ → Value → ERROR_CODE
  rand : ℕ → ℤ

/-- The codes client.h returns. -/
def client.env (rand : ℕ → ℤ) : ClientEnv where
  init_user_info _ _ := .USER_NOT_EXIST
  do_some _ _ := .TEST_ERROR_CODE
  rand := rand

/-- Clients whose `init_user_info` succeeds. -/
def accepting : ClientEnv where
  init_user_info _ _ := .SUCCEEDED
  do_some _ _ := .TEST_ERROR_CODE
  rand p := p

/-- A `client` object. `timer_` is the expiry of its timer and `waits` the number
of waits pending on it; `dispatched` records when `init_user_info` and `do_some`
were entered, which the program itself does not keep. -/
structure client where
  m_session_data : Members
  timer_ : ℕ
  waits : ℕ
  id_ : ℤ
  dispatched : List ℕ

/-- `client::client`. The source leaves `id_` uninitialised until
`init_user_info`; no wait is pending before that. -/
def client.ctor (now : ℕ) : client where
  m_session_data := OrdMap.empty
  timer_ := now + seconds 7200
  waits := 0
  id_ := 0
  dispatched := []

/-- `client::start_timer`: one more wait, on the expiry the timer has. -/
def client.start_timer (c : client) : client := { c with waits := c.waits + 1 }

/-- The session data `client::init_user_info` stores. -/
def client.session_data (rand id : ℤ) : Members :=
  (((OrdMap.empty.set "Value" (.int rand)).set "Name" (.str "ZX")).set "UsrID" (.int id)).set
    "sub1" (.obj [("subObj", .int 100)])

/-- `client::init_user_info`, its effect on the object. -/
def client.init_user_info (now : ℕ) (rand id : ℤ) (c : client) : client :=
  { c.start_timer with
    m_session_data := client.session_data rand id
    id_ := id
    dispatched := now :: c.dispatched }

/-- `client::do_some`, its effect on the object. -/
def client.do_some (now : ℕ) (c : client) : client :=
  { c.start_timer with dispatched := now :: c.dispatched }

/-- `client::get_session_data`: the members of a copy of the stored data are
swapped into the response one by one. -/
def client.get_session_data (c : client) (respons : Members) : Members :=
  respons.assignAll c.m_session_data.entries

namespace client

@[simp] theorem do_some_m_session_data (now : ℕ) (c : client) :
    (c.do_some now).m_session_data = c.m_session_data := rfl

@[simp] theorem do_some_id_ (now : ℕ) (c : client) : (c.do_some now).id_ = c.id_ := rfl

@[simp] theorem do_some_timer_ (now : ℕ) (c : client) :
    (c.do_some now).timer_ = c.timer_ := rfl

@[simp] theorem init_user_info_timer_ (now : ℕ) (rand id : ℤ) (c : client) :
    (c.init_user_info now rand id).timer_ = c.timer_ := rfl

/-- The response after the session data went in: a stored member reads as
stored, every other member as before. -/
theorem lookup_get_session_data (c : client) (respons : Members) (k : String) :
    (c.get_session_data respons).lookup k
      = (c.m_session_data.lookup k).or (respons.lookup k) :=
  OrdMap.lookup_assignAll respons c.m_session_data.sorted k

theorem lookup_session_data (rand id : ℤ) (k : String) :
    (session_data rand id).lookup k =
      if k = "sub1" then some (.obj [("subObj", .int 100)])
      else if k = "UsrID" then some (.int id)
      else if k = "Name" then some (.str "ZX")
      else if k = "Value" then some (.int rand)
      else none := by
  simp only [session_data, OrdMap.lookup_set_eq, OrdMap.lookup_empty]

/-- Session data never has a member `errorcode` or `errormsg`. -/
theorem lookup_session_data_reply (rand id : ℤ) {k : String}
    (hk : k = "errorcode" ∨ k = "errormsg") : (session_data rand id).lookup k = none := by
  rw [lookup_session_data]
  rcases hk with rfl | rfl
  · rfl
  · rfl

end client

end MyWarehouse

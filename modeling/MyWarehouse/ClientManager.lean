/-
`client_manager.h` and `client_manager.cpp`: the registry of logged-in users and
the dispatch of one message.

The state is the registry together with the client objects it and its callers
refer to and the clock. A `shared_ptr<client_interface>` is the number its object
was allocated under; an object that nothing refers to any more keeps its number
and can no longer be locked (`registered` is the part of "some owner is left"
that the registry contributes).

Each function below is one critical section of `m_lock` or the code between two
of them, so that `Threads` can interleave them; `process_login`, `process_logic`
and `do_some` compose them as one thread runs them.
-/
import MyWarehouse.Client

set_option autoImplicit false

namespace MyWarehouse

/-- `client_manager`, with the client objects allocated so far (`objects`, below
`next`) and the clock. -/
structure client_manager where
  m_client : OrdMap ℤ ℕ (· < ·)
  objects : ℕ → client
  next : ℕ
  now : ℕ

/-- An error code as the program stores it in a response. -/
def ERROR_CODE.toValue (ec : ERROR_CODE) : Value := .int ec.value

namespace client_manager

/-- `client_manager::client_manager`: nobody is registered. -/
def ctor : client_manager where
  m_client := OrdMap.empty
  objects _ := client.ctor 0
  next := 0
  now := 0

/-! ## The critical sections and what lies between them -/

/-- `client_manager::find_client_use_id`: the code, and the out-parameter `sc`
afterwards. -/
def find_client_use_id (cm : client_manager) (id : ℤ) (sc : Option ℕ) :
    ERROR_CODE × Option ℕ :=
  match cm.m_client.lookup id with
  | some p => (.SUCCEEDED, some p)
  | none => (.USER_NOT_LOGIN, sc)

/-- `client_manager::insert`: `unordered_map::insert` leaves an entry that is
there alone and says so. -/
def insert (cm : client_manager) (id : ℤ) (p : ℕ) : client_manager × Bool :=
  match cm.m_client.lookup id with
  | some _ => (cm, false)
  | none => ({ cm with m_client := cm.m_client.set id p }, true)

/-- `client_manager::erase`. The second argument is the client whose timer
expired; the source does not look at it. -/
def erase (cm : client_manager) (id : ℤ) (_p : ℕ) : client_manager :=
  match cm.m_client.lookup id with
  | some _ => { cm with m_client := cm.m_client.remove id }
  | none => cm

/-- `new client(ios, shared_from_this())`. -/
def new_client (cm : client_manager) : client_manager × ℕ :=
  ({ cm with
      objects := Function.update cm.objects cm.next (client.ctor cm.now)
      next := cm.next + 1 }, cm.next)

/-- `sc->init_user_info(id)` on the object `p`. -/
def init_user_info (env : ClientEnv) (cm : client_manager) (p : ℕ) (id : ℤ) :
    client_manager × ERROR_CODE :=
  let c := (cm.objects p).init_user_info cm.now (env.rand p) id
  ({ cm with objects := Function.update cm.objects p c }, env.init_user_info p id)

/-- `sc->do_some(root, respons)` on the object `p`. -/
def client_do_some (env : ClientEnv) (cm : client_manager) (p : ℕ) (root : Value) :
    client_manager × ERROR_CODE :=
  let c := (cm.objects p).do_some cm.now
  ({ cm with objects := Function.update cm.objects p c }, env.do_some p root)

/-- `client::clear_client` of the object `p`. -/
def clear_client (cm : client_manager) (p : ℕ) : client_manager :=
  cm.erase (cm.objects p).id_ p

/-- The registry holds a reference to the object `p`. -/
def registered (cm : client_manager) (p : ℕ) : Prop := ∃ e ∈ cm.m_client.entries, e.2 = p

instance (cm : client_manager) (p : ℕ) : Decidable (cm.registered p) :=
  inferInstanceAs (Decidable (∃ e ∈ _, _))

/-! ## The dispatch -/

/-- `client_manager::insert_client_use_id`. -/
def insert_client_use_id (env : ClientEnv) (cm : client_manager) (id : ℤ) (sc : Option ℕ) :
    client_manager × ERROR_CODE × Option ℕ :=
  let (ec, sc) := cm.find_client_use_id id sc
  if ec ≠ .SUCCEEDED then
    let (cm, p) := cm.new_client
    let (cm, ec) := cm.init_user_info env p id
    if ec ≠ .SUCCEEDED then (cm, ec, none)
    else
      let (cm, ok) := cm.insert id p
      (cm, if !ok then .UNKNOWN_ERROR else .SUCCEEDED, some p)
  else (cm, ec, sc)

/-- `client_manager::process_login`. -/
def process_login (env : ClientEnv) (cm : client_manager) (value : ℤ) (respons : Members) :
    client_manager × Members :=
  let (ec, sc) := cm.find_client_use_id value none
  let (cm, sc, respons) :=
    if ec ≠ .SUCCEEDED then
      let (cm, ec, sc) := cm.insert_client_use_id env value sc
      (cm, sc, respons.set "errorcode" ec.toValue)
    else (cm, sc, respons)
  match sc with
  | some p => (cm, (cm.objects p).get_session_data respons)
  | none => (cm, respons)

/-- `client_manager::process_logic`. The only step that can throw is the first. -/
def process_logic (jc : JsonCpp) (env : ClientEnv) (cm : client_manager) (root : Value)
    (respons : Members) : Except Exn (client_manager × Members) := do
  let (v, root) ← root.index "UsrID"
  let id ← jc.asInt v
  let (ec, sc) := cm.find_client_use_id id none
  match ec, sc with
  | .SUCCEEDED, some p =>
    let (cm, ec) := cm.client_do_some env p root
    let respons := (cm.objects p).get_session_data respons
    return (cm, respons.set "errorcode" ec.toValue)
  | ec, _ => return (cm, respons.set "errorcode" ec.toValue)

/-- The values `do_some` reads inside its `try` block. -/
structure Values where
  ClientVersion : String
  SceneId : String
  iUsrID : ℤ

/-- The `try` block of `do_some`: the values, and the root afterwards. -/
def get_values (jc : JsonCpp) (root : Value) : Except Exn (Values × Value) := do
  let (v, root) ← root.index "ClientVersion"
  let ClientVersion ← jc.asString v
  let (v, root) ← root.index "SceneId"
  let SceneId ← jc.asString v
  let (v, root) ← root.index "UsrID"
  let iUsrID ← jc.asInt v
  return (⟨ClientVersion, SceneId, iUsrID⟩, root)

/-- What one call of `do_some` leaves: its result or the exception that left it,
the registry, and the response root. -/
structure Reply where
  ret : Except Exn Bool
  cm : client_manager
  res : Value

/-- The end of `do_some`: `errormsg` is set from `errorcode`. -/
def finish (jc : JsonCpp) (cm : client_manager) (res : Members) : Reply :=
  match jc.asString ((res.lookup "errorcode").getD .null) with
  | .error e => ⟨.error e, cm, .obj res.entries⟩
  | .ok s => ⟨.ok true, cm, .obj (res.set "errormsg" (.str s)).entries⟩

/-- `client_manager::do_some` on a request with the given body, `res` being
`response_.getValue()`. `Json::Reader::parse` stands outside the `try` block, so
what it throws leaves `do_some`. -/
def do_some (jc : JsonCpp) (env : ClientEnv) (cm : client_manager) (body : Bytes)
    (res : Value) : Reply :=
  match res.members with
  | .error e => ⟨.error e, cm, res⟩
  | .ok ms =>
    let ms := ms.set "errorcode" ERROR_CODE.SUCCEEDED.toValue
    match jc.parse body with
    | .error e => ⟨.error e, cm, .obj ms.entries⟩
    | .ok none => cm.finish jc (ms.set "errorcode" ERROR_CODE.JSON_PARSER_ERROR.toValue)
    | .ok (some root) =>
      match get_values jc root with
      | .error _ => cm.finish jc (ms.set "errorcode" ERROR_CODE.JSON_GETVALUE_EXCEPTION.toValue)
      | .ok (vs, root) =>
        if vs.ClientVersion ≠ "0.0.1" then
          match cm.process_logic jc env root ms with
          | .error e => ⟨.error e, cm, .obj ms.entries⟩
          | .ok (cm, ms) => cm.finish jc ms
        else
          let (cm, ms) := cm.process_login env vs.iUsrID ms
          cm.finish jc ms

/-! ## What each function does

One lemma a case; later proofs use these and do not unfold the functions. -/

theorem find_client_use_id_of_some {cm : client_manager} {id : ℤ} {p : ℕ}
    (h : cm.m_client.lookup id = some p) (sc : Option ℕ) :
    cm.find_client_use_id id sc = (.SUCCEEDED, some p) := by
  rw [find_client_use_id, h]

theorem find_client_use_id_of_none {cm : client_manager} {id : ℤ}
    (h : cm.m_client.lookup id = none) (sc : Option ℕ) :
    cm.find_client_use_id id sc = (.USER_NOT_LOGIN, sc) := by
  rw [find_client_use_id, h]

/-- The state after `new client` and its `init_user_info(id)`: one more object,
and the registry as it was. -/
def created (env : ClientEnv) (cm : client_manager) (id : ℤ) : client_manager :=
  (cm.new_client.1.init_user_info env cm.next id).1

section Created

variable (env : ClientEnv) (cm : client_manager) (id : ℤ)

@[simp] theorem created_m_client : (cm.created env id).m_client = cm.m_client := rfl

@[simp] theorem created_next : (cm.created env id).next = cm.next + 1 := rfl

@[simp] theorem created_now : (cm.created env id).now = cm.now := rfl

/-- The object `created` adds. -/
theorem created_objects_next : (cm.created env id).objects cm.next =
    (client.ctor cm.now).init_user_info cm.now (env.rand cm.next) id := by
  simp [created, init_user_info, new_client]

theorem created_objects_of_ne {p : ℕ} (hp : p ≠ cm.next) :
    (cm.created env id).objects p = cm.objects p := by
  simp [created, init_user_info, new_client, hp]

end Created

/-- `do_some` of a client adds a wait and an entry to the history of one object. -/
theorem client_do_some_objects (env : ClientEnv) (cm : client_manager) (p q : ℕ)
    (root : Value) : ∃ w ts, (cm.client_do_some env p root).1.objects q
      = { cm.objects q with waits := w, dispatched := ts } := by
  by_cases hq : q = p
  · subst hq
    exact ⟨_, _, Function.update_self _ _ _⟩
  · exact ⟨(cm.objects q).waits, (cm.objects q).dispatched, Function.update_of_ne hq _ _⟩

/-- `insert_client_use_id` for a user its own lookup does not find. -/
theorem insert_client_use_id_of_none (env : ClientEnv) {cm : client_manager} {id : ℤ}
    (h : cm.m_client.lookup id = none) (sc : Option ℕ) :
    cm.insert_client_use_id env id sc =
      if env.init_user_info cm.next id ≠ .SUCCEEDED then
        (cm.created env id, env.init_user_info cm.next id, none)
      else
        let r := (cm.created env id).insert id cm.next
        (r.1, if !r.2 then .UNKNOWN_ERROR else .SUCCEEDED, some cm.next) := by
  rw [insert_client_use_id, find_client_use_id_of_none h]
  rfl

/-- Logging in a user that is registered. -/
theorem process_login_of_some (env : ClientEnv) {cm : client_manager} {id : ℤ} {p : ℕ}
    (h : cm.m_client.lookup id = some p) (respons : Members) :
    cm.process_login env id respons = (cm, (cm.objects p).get_session_data respons) := by
  simp only [process_login, find_client_use_id_of_some h, ne_eq, not_true_eq_false, if_false]

/-- Logging in a user that is not registered, when `init_user_info` fails. -/
theorem process_login_of_fails (env : ClientEnv) {cm : client_manager} {id : ℤ}
    (h : cm.m_client.lookup id = none) (hec : env.init_user_info cm.next id ≠ .SUCCEEDED)
    (respons : Members) :
    cm.process_login env id respons = (cm.created env id,
      respons.set "errorcode" (env.init_user_info cm.next id).toValue) := by
  have hinsert : cm.insert_client_use_id env id none
      = (cm.created env id, env.init_user_info cm.next id, none) := by
    rw [insert_client_use_id_of_none env h, if_pos hec]
  simp only [process_login, find_client_use_id_of_none h, hinsert, ne_eq, reduceCtorEq,
    not_false_eq_true, if_true]

/-- Logging in a user that is not registered, when `init_user_info` succeeds. -/
theorem process_login_of_succeeds (env : ClientEnv) {cm : client_manager} {id : ℤ}
    (h : cm.m_client.lookup id = none) (hec : env.init_user_info cm.next id = .SUCCEEDED)
    (respons : Members) :
    cm.process_login env id respons =
      ({ cm.created env id with m_client := cm.m_client.set id cm.next },
        ((cm.created env id).objects cm.next).get_session_data
          (respons.set "errorcode" ERROR_CODE.SUCCEEDED.toValue)) := by
  have hins : (cm.created env id).insert id cm.next
      = ({ cm.created env id with m_client := cm.m_client.set id cm.next }, true) := by
    rw [insert, created_m_client, h]
  have hinsert : cm.insert_client_use_id env id none
      = ({ cm.created env id with m_client := cm.m_client.set id cm.next },
          .SUCCEEDED, some cm.next) := by
    rw [insert_client_use_id_of_none env h, if_neg (not_not.mpr hec), hins]
    rfl
  simp only [process_login, find_client_use_id_of_none h, hinsert, ne_eq, reduceCtorEq,
    not_false_eq_true, if_true]

/-- The root `get_values` leaves has the member it read `iUsrID` from. -/
theorem index_UsrID_of_get_values {jc : JsonCpp} {root root' : Value} {vs : Values}
    (h : get_values jc root = .ok (vs, root')) :
    ∃ v, root'.index "UsrID" = .ok (v, root') ∧ jc.asInt v = .ok vs.iUsrID := by
  simp only [get_values, bind, Except.bind] at h
  split at h
  · cases h
  split at h
  · cases h
  split at h
  · cases h
  split at h
  · cases h
  split at h
  · cases h
  rename_i hindex
  split at h
  · cases h
  rename_i hint
  cases h
  exact ⟨_, Value.index_index hindex, hint⟩

/-- The second `root["UsrID"].asInt()` never throws, and a message of a user that
is not registered is refused. -/
theorem process_logic_of_none {jc : JsonCpp} (env : ClientEnv) {cm : client_manager}
    {root root' : Value} {vs : Values} (hv : get_values jc root = .ok (vs, root'))
    (h : cm.m_client.lookup vs.iUsrID = none) (respons : Members) :
    cm.process_logic jc env root' respons
      = .ok (cm, respons.set "errorcode" ERROR_CODE.USER_NOT_LOGIN.toValue) := by
  obtain ⟨v, hindex, hint⟩ := index_UsrID_of_get_values hv
  simp only [process_logic, bind, Except.bind, hindex, hint, find_client_use_id_of_none h]
  rfl

/-- A message of a registered user is dispatched to its object, and the session
data goes into the response. -/
theorem process_logic_of_some {jc : JsonCpp} (env : ClientEnv) {cm : client_manager}
    {root root' : Value} {vs : Values} {p : ℕ} (hv : get_values jc root = .ok (vs, root'))
    (h : cm.m_client.lookup vs.iUsrID = some p) (respons : Members) :
    cm.process_logic jc env root' respons = .ok ((cm.client_do_some env p root').1,
      (((cm.objects p).do_some cm.now).get_session_data respons).set "errorcode"
        (env.do_some p root').toValue) := by
  obtain ⟨v, hindex, hint⟩ := index_UsrID_of_get_values hv
  simp only [process_logic, bind, Except.bind, hindex, hint, find_client_use_id_of_some h,
    client_do_some, Function.update_self]
  rfl

/-- When the errorcode is in place, the end of `do_some` adds its string form. -/
theorem finish_of_errorcode (jc : JsonCpp) (cm : client_manager) {res : Members}
    {ec : ERROR_CODE} (h : res.lookup "errorcode" = some ec.toValue) :
    cm.finish jc res = ⟨.ok true, cm,
      .obj (res.set "errormsg" (.str (toString ec.value))).entries⟩ := by
  rw [finish, h]
  simp only [Option.getD_some, ERROR_CODE.toValue, jc.asString_int]

end client_manager

end MyWarehouse

/-
What `client_manager::do_some` is for, and that it does it.

A request body is read as a `Message`: a login, a message of a logged-in user, or
one of the two kinds of bad body. For each the specification says what the
registry is afterwards (`registry_after`), which code the response carries
(`errorcode_after`), and whose session data it holds (`session_after`).

`do_some_spec` proves the code meets it on every message, from any registry and
any response an earlier message may have left; the one thing it needs is that
`Json::Reader::parse` returns. `dispatch_refines_iff` says it needs exactly that.
-/
import MyWarehouse.ClientManager
import MyWarehouse.Response

set_option autoImplicit false

namespace MyWarehouse

open client_manager

/-! ## The registry invariant -/

/-- Every registered object was allocated, and holds what `init_user_info` stored
for the user it is registered under; and no object at all holds a member that the
response has of its own. -/
structure client_manager.Valid (cm : client_manager) : Prop where
  stored : ∀ id p, cm.m_client.lookup id = some p →
    p < cm.next ∧ (cm.objects p).id_ = id ∧
      ∃ rand, (cm.objects p).m_session_data = client.session_data rand id
  plain : ∀ p k, k = "errorcode" ∨ k = "errormsg" →
    (cm.objects p).m_session_data.lookup k = none

/-- The registry the constructor leaves. -/
theorem client_manager.ctor_valid : client_manager.ctor.Valid := by
  constructor
  · intro id p h
    cases h
  · intro p k _
    rfl

namespace client_manager.Valid

variable {cm : client_manager} (hcm : cm.Valid)

include hcm

theorem lt_next {id : ℤ} {p : ℕ} (h : cm.m_client.lookup id = some p) : p < cm.next :=
  (hcm.stored id p h).1

theorem id_eq {id : ℤ} {p : ℕ} (h : cm.m_client.lookup id = some p) :
    (cm.objects p).id_ = id :=
  (hcm.stored id p h).2.1

theorem created (env : ClientEnv) (id : ℤ) : (cm.created env id).Valid := by
  constructor
  · intro id' p h
    obtain ⟨hlt, hid, hdata⟩ := hcm.stored id' p h
    rw [created_objects_of_ne env cm id (by omega), created_next]
    exact ⟨by omega, hid, hdata⟩
  · intro p k hk
    by_cases hp : p = cm.next
    · subst hp
      rw [created_objects_next]
      exact client.lookup_session_data_reply _ id hk
    · rw [created_objects_of_ne env cm id hp]
      exact hcm.plain p k hk

/-- Registering an allocated object that `init_user_info` filled for the user keeps
the invariant. -/
theorem register {id : ℤ} {p : ℕ} (hp : p < cm.next) (hid : (cm.objects p).id_ = id)
    (hdata : ∃ rand, (cm.objects p).m_session_data = client.session_data rand id) :
    ({ cm with m_client := cm.m_client.set id p } : client_manager).Valid := by
  refine ⟨fun id' q h => ?_, hcm.plain⟩
  rw [OrdMap.lookup_set_eq] at h
  split_ifs at h with heq
  · obtain rfl := Option.some.inj h
    rw [heq]
    exact ⟨hp, hid, hdata⟩
  · exact hcm.stored id' q h

/-- Registering the object `created` added keeps the invariant. -/
theorem registers (env : ClientEnv) (id : ℤ) :
    ({ cm.created env id with m_client := cm.m_client.set id cm.next } : client_manager).Valid := by
  refine (hcm.created env id).register (Nat.lt_succ_self _) ?_ ⟨env.rand cm.next, ?_⟩
  · rw [created_objects_next]
    rfl
  · rw [created_objects_next]
    rfl

theorem client_do_some (env : ClientEnv) (p : ℕ) (root : Value) :
    (cm.client_do_some env p root).1.Valid := by
  constructor
  · intro id q h
    obtain ⟨hlt, hid, hdata⟩ := hcm.stored id q h
    obtain ⟨w, ts, hq⟩ := client_do_some_objects env cm p q root
    rw [hq]
    exact ⟨hlt, hid, hdata⟩
  · intro q k hk
    obtain ⟨w, ts, hq⟩ := client_do_some_objects env cm p q root
    rw [hq]
    exact hcm.plain q k hk

theorem erase (id : ℤ) (p : ℕ) : (cm.erase id p).Valid := by
  unfold client_manager.erase
  split
  · refine ⟨fun id' q h => ?_, hcm.plain⟩
    rw [OrdMap.lookup_remove_eq] at h
    split_ifs at h
    exact hcm.stored id' q h
  · exact hcm

end client_manager.Valid

/-! ## What a message asks for -/

/-- A request body as `do_some` takes it. -/
inductive Message where
  | unparsable
  | ill_typed
  | login (id : ℤ)
  | logic (id : ℤ) (root : Value)

/-- Reading a body: the login message is the one with client version 0.0.1. -/
def message (jc : JsonCpp) (body : Bytes) : Message :=
  match jc.parse body with
  | .ok (some root) => match get_values jc root with
    | .error _ => .ill_typed
    | .ok (vs, root) =>
      if vs.ClientVersion ≠ "0.0.1" then .logic vs.iUsrID root else .login vs.iUsrID
  | _ => .unparsable

/-- A body that is a message was parsed without an exception. -/
theorem parse_returns_of_message {jc : JsonCpp} {body : Bytes}
    (h : message jc body ≠ .unparsable) (e : Exn) : jc.parse body ≠ .error e := by
  intro he
  exact h (by simp only [message, he])

/-! ## The specification -/

/-- The session data stored for a user, when it is registered. -/
def client_manager.session_of (cm : client_manager) (id : ℤ) : Option Members :=
  (cm.m_client.lookup id).map (fun p => (cm.objects p).m_session_data)

/-- The registry after a message: as before, except that a login which
`init_user_info` lets through adds the new object under its user. -/
def registry_after (env : ClientEnv) (cm : client_manager) :
    Message → OrdMap ℤ ℕ (· < ·)
  | .login id =>
    if cm.m_client.lookup id = none ∧ env.init_user_info cm.next id = .SUCCEEDED then
      cm.m_client.set id cm.next
    else cm.m_client
  | _ => cm.m_client

/-- The code a message is answered with, `m'` being the registry afterwards. -/
def errorcode_after (env : ClientEnv) (cm : client_manager) (m' : OrdMap ℤ ℕ (· < ·)) :
    Message → ERROR_CODE
  | .unparsable => .JSON_PARSER_ERROR
  | .ill_typed => .JSON_GETVALUE_EXCEPTION
  | .login id => match m'.lookup id with
    | some _ => .SUCCEEDED
    | none => env.init_user_info cm.next id
  | .logic id root => match cm.m_client.lookup id with
    | some p => env.do_some p root
    | none => .USER_NOT_LOGIN

/-- The session data the answer to a message carries, `cm'` being the state
afterwards. -/
def session_after (cm' : client_manager) : Message → Option Members
  | .login id => cm'.session_of id
  | .logic id _ => cm'.session_of id
  | _ => none

/-- A response with code `ec` and the given session data, written over members
`ms` that were there before. -/
structure Answered (ec : ERROR_CODE) (session : Option Members) (ms ms' : Members) : Prop where
  errorcode : ms'.lookup "errorcode" = some ec.toValue
  errormsg : ms'.lookup "errormsg" = some (.str (toString ec.value))
  others : ∀ k, k ≠ "errorcode" → k ≠ "errormsg" →
    ms'.lookup k = (session.bind (·.lookup k)).or (ms.lookup k)

/-- The specification of one message handled on a fresh response. -/
structure Dispatched (env : ClientEnv) (cm : client_manager) (msg : Message) (r : Reply) :
    Prop where
  returns : r.ret = .ok true
  registry : r.cm.m_client = registry_after env cm msg
  response : ∃ ms', r.res = .obj ms'.entries ∧
    Answered (errorcode_after env cm r.cm.m_client msg) (session_after r.cm msg)
      OrdMap.empty ms'
  unchanged : ∀ id p, cm.m_client.lookup id = some p →
    (r.cm.objects p).m_session_data = (cm.objects p).m_session_data

/-! ## The code -/

/-- The state `do_some` leaves, in closed form. -/
def client_manager.after (env : ClientEnv) (cm : client_manager) : Message → client_manager
  | .login id => match cm.m_client.lookup id with
    | some _ => cm
    | none =>
      if env.init_user_info cm.next id = .SUCCEEDED then
        { cm.created env id with m_client := cm.m_client.set id cm.next }
      else cm.created env id
  | .logic id root => match cm.m_client.lookup id with
    | some p => (cm.client_do_some env p root).1
    | none => cm
  | _ => cm

theorem client_manager.Valid.after {cm : client_manager} (hcm : cm.Valid) (env : ClientEnv)
    (msg : Message) : (cm.after env msg).Valid := by
  unfold client_manager.after
  split
  · split
    · exact hcm
    · split_ifs
      · exact hcm.registers env _
      · exact hcm.created env _
  · split
    · exact hcm.client_do_some env _ _
    · exact hcm
  · exact hcm

/-- The registry in the closed form is the one of the specification. -/
theorem after_m_client (env : ClientEnv) (cm : client_manager) (msg : Message) :
    (cm.after env msg).m_client = registry_after env cm msg := by
  unfold client_manager.after registry_after
  rcases msg with _ | _ | id | ⟨id, root⟩
  · rfl
  · rfl
  · rcases h : cm.m_client.lookup id with _ | p
    · simp only [h, true_and]
      split_ifs
      · rfl
      · rfl
    · simp only [h, reduceCtorEq, false_and, if_false]
  · rcases h : cm.m_client.lookup id with _ | p
    · simp only [h]
    · simp only [h]
      rfl

/-- No message changes what is stored for a registered user: a login allocates
above every registered object, and `do_some` of a client leaves its data alone. -/
theorem after_m_session_data {cm : client_manager} (hcm : cm.Valid) (env : ClientEnv)
    (msg : Message) {id : ℤ} {p : ℕ} (h : cm.m_client.lookup id = some p) :
    ((cm.after env msg).objects p).m_session_data = (cm.objects p).m_session_data := by
  have hne : p ≠ cm.next := (hcm.lt_next h).ne
  have hcreated : ∀ id', ((cm.created env id').objects p).m_session_data
      = (cm.objects p).m_session_data := by
    intro id'
    rw [created_objects_of_ne env cm id' hne]
  unfold client_manager.after
  split
  · split
    · rfl
    · split_ifs
      · exact hcreated _
      · exact hcreated _
  · split
    · obtain ⟨w, ts, hq⟩ := client_do_some_objects env cm _ p _
      rw [hq]
    · rfl
  · rfl

/-- The end of `do_some` turns members that carry the code into the answer. -/
theorem finish_answered (jc : JsonCpp) (cm : client_manager) {ec : ERROR_CODE}
    {session : Option Members} {ms res : Members}
    (hec : res.lookup "errorcode" = some ec.toValue)
    (hothers : ∀ k, k ≠ "errorcode" → k ≠ "errormsg" →
      res.lookup k = (session.bind (·.lookup k)).or (ms.lookup k)) :
    ∃ ms', cm.finish jc res = ⟨.ok true, cm, .obj ms'.entries⟩ ∧
      Answered ec session ms ms' := by
  refine ⟨_, finish_of_errorcode jc cm hec, ?_, ?_, ?_⟩
  · rw [OrdMap.lookup_set_eq, if_neg (by decide), hec]
  · rw [OrdMap.lookup_set_eq, if_pos rfl]
  · intro k hk hk'
    rw [OrdMap.lookup_set_eq, if_neg hk', hothers k hk hk']

/-- An answer without session data: only `errorcode` was written before the end. -/
theorem finish_answered_code (jc : JsonCpp) (cm : client_manager) (ec ec₀ : ERROR_CODE)
    (ms : Members) :
    ∃ ms', cm.finish jc ((ms.set "errorcode" ec₀.toValue).set "errorcode" ec.toValue)
        = ⟨.ok true, cm, .obj ms'.entries⟩ ∧ Answered ec none ms ms' := by
  refine finish_answered jc cm ?_ ?_
  · rw [OrdMap.lookup_set_eq, if_pos rfl]
  · intro k hk _
    rw [OrdMap.lookup_set_eq, if_neg hk, OrdMap.lookup_set_eq, if_neg hk]
    rfl

/-- An answer with the session data of a client, which has none of the response's
own members; the code was written before the data or is written over it. -/
theorem finish_answered_session (jc : JsonCpp) (cm : client_manager) {c : client}
    {ec : ERROR_CODE} {ms res : Members} (hec : res.lookup "errorcode" = some ec.toValue)
    (hothers : ∀ k, k ≠ "errorcode" →
      res.lookup k = (c.m_session_data.lookup k).or (ms.lookup k)) :
    ∃ ms', cm.finish jc res = ⟨.ok true, cm, .obj ms'.entries⟩ ∧
      Answered ec (some c.m_session_data) ms ms' :=
  finish_answered jc cm hec (fun k hk _ => hothers k hk)

/-- `do_some` by message. Each branch hands over to the end of `do_some` with the
state and the members it produced. -/
theorem do_some_eq {jc : JsonCpp} (env : ClientEnv) (cm : client_manager) {body : Bytes}
    (hparse : ∀ e, jc.parse body ≠ .error e) {res : Value} {ms : Members}
    (hres : res.members = .ok ms) :
    cm.do_some jc env body res =
      let ms₀ := ms.set "errorcode" ERROR_CODE.SUCCEEDED.toValue
      match message jc body with
      | .unparsable => cm.finish jc (ms₀.set "errorcode" ERROR_CODE.JSON_PARSER_ERROR.toValue)
      | .ill_typed =>
        cm.finish jc (ms₀.set "errorcode" ERROR_CODE.JSON_GETVALUE_EXCEPTION.toValue)
      | .login id => (cm.process_login env id ms₀).1.finish jc (cm.process_login env id ms₀).2
      | .logic id root => match cm.m_client.lookup id with
        | none => cm.finish jc (ms₀.set "errorcode" ERROR_CODE.USER_NOT_LOGIN.toValue)
        | some p => (cm.client_do_some env p root).1.finish jc
          ((((cm.objects p).do_some cm.now).get_session_data ms₀).set "errorcode"
            (env.do_some p root).toValue) := by
  rcases hp : jc.parse body with e | _ | root
  · exact absurd hp (hparse e)
  · simp only [do_some, hres, message, hp]
  rcases hv : get_values jc root with e | ⟨vs, root'⟩
  · simp only [do_some, hres, message, hp, hv]
  by_cases hver : vs.ClientVersion = "0.0.1"
  · simp only [do_some, hres, message, hp, hv, hver, ne_eq, not_true_eq_false, if_false]
  simp only [do_some, hres, message, hp, hv, hver, ne_eq, not_false_eq_true, if_true]
  rcases hl : cm.m_client.lookup vs.iUsrID with _ | p
  · simp only [process_logic_of_none env hv hl]
  · simp only [process_logic_of_some env hv hl]

/-- **`do_some` on any message `parse` returns from.** It returns, leaves the state
`after` describes, and answers as specified over whatever members the response
had. The cases are those of the message: two bad bodies, a login that finds the
user, fails or registers, and a message of a known or an unknown user. -/
theorem do_some_spec {jc : JsonCpp} (env : ClientEnv) {cm : client_manager} (hcm : cm.Valid)
    {body : Bytes} (hparse : ∀ e, jc.parse body ≠ .error e) {res : Value} {ms : Members}
    (hres : res.members = .ok ms) :
    ∃ ms', cm.do_some jc env body res
        = ⟨.ok true, cm.after env (message jc body), .obj ms'.entries⟩ ∧
      Answered (errorcode_after env cm (registry_after env cm (message jc body))
          (message jc body))
        (session_after (cm.after env (message jc body)) (message jc body)) ms ms' := by
  rw [do_some_eq env cm hparse hres]
  -- what the session data leaves of `ms` once the code stands in front of it
  have hset : ∀ (ec : ERROR_CODE) (k : String), k ≠ "errorcode" →
      (ms.set "errorcode" ec.toValue).lookup k = ms.lookup k := by
    intro ec k hk
    rw [OrdMap.lookup_set_eq, if_neg hk]
  rcases message jc body with _ | _ | id | ⟨id, root⟩
  · exact finish_answered_code jc cm _ _ ms
  · exact finish_answered_code jc cm _ _ ms
  · rcases hl : cm.m_client.lookup id with _ | p
    · by_cases hec : env.init_user_info cm.next id = .SUCCEEDED
      · -- the login registers the object it created
        have hreg : (cm.m_client.set id cm.next).lookup id = some cm.next := by
          rw [OrdMap.lookup_set_eq, if_pos rfl]
        simp only [process_login_of_succeeds env hl hec, after, registry_after, errorcode_after,
          session_after, session_of, hl, hec, and_self, if_true, hreg, Option.map_some]
        refine finish_answered_session jc _ ?_ ?_
        · have hdata := (hcm.registers env id).plain cm.next "errorcode" (Or.inl rfl)
          rw [client.lookup_get_session_data, hdata, Option.none_or, OrdMap.lookup_set_eq,
            if_pos rfl]
        · intro k hk
          rw [client.lookup_get_session_data, OrdMap.lookup_set_eq, if_neg hk, hset _ k hk]
      · -- the login fails with the code of `init_user_info`
        simp only [process_login_of_fails env hl hec, after, registry_after, errorcode_after,
          session_after, session_of, created_m_client, hl, hec, and_false, if_false,
          Option.map_none]
        exact finish_answered_code jc _ _ _ ms
    · -- the login finds the user
      simp only [process_login_of_some env hl, after, registry_after, errorcode_after,
        session_after, session_of, hl, reduceCtorEq, false_and, if_false, Option.map_some]
      refine finish_answered_session jc cm ?_ ?_
      · rw [client.lookup_get_session_data, hcm.plain p _ (Or.inl rfl), Option.none_or,
          OrdMap.lookup_set_eq, if_pos rfl]
      · intro k hk
        rw [client.lookup_get_session_data, hset _ k hk]
  · rcases hl : cm.m_client.lookup id with _ | p
    · simp only [after, errorcode_after, session_after, session_of, hl, Option.map_none]
      exact finish_answered_code jc cm _ _ ms
    · have hm : (cm.client_do_some env p root).1.m_client = cm.m_client := rfl
      have hobj : (cm.client_do_some env p root).1.objects p
          = (cm.objects p).do_some cm.now := by
        simp only [client_do_some, Function.update_self]
      simp only [after, errorcode_after, session_after, session_of, hl, hm, hobj,
        Option.map_some]
      refine finish_answered_session jc _ ?_ ?_
      · rw [OrdMap.lookup_set_eq, if_pos rfl]
      · intro k hk
        rw [OrdMap.lookup_set_eq, if_neg hk, client.lookup_get_session_data, hset _ k hk]

/-- What `parse` throws leaves `do_some`, with `errorcode` still at success. -/
theorem do_some_of_throws {jc : JsonCpp} (env : ClientEnv) (cm : client_manager) {body : Bytes}
    {e : Exn} (hparse : jc.parse body = .error e) {res : Value} {ms : Members}
    (hres : res.members = .ok ms) :
    cm.do_some jc env body res
      = ⟨.error e, cm, .obj (ms.set "errorcode" ERROR_CODE.SUCCEEDED.toValue).entries⟩ := by
  simp only [do_some, hres, hparse]

/-! ## The dispatch meets its specification exactly when `parse` returns -/

/-- **Dispatch refines its specification.** From any registry, whatever codes the
client objects return, a message handled on a fresh response meets the
specification if and only if `Json::Reader::parse` does not throw on its body:
everything else that throws is caught, and `parse` is called outside the `try`. -/
theorem dispatch_refines_iff (jc : JsonCpp) (env : ClientEnv) (cm : client_manager)
    (hcm : cm.Valid) (body : Bytes) :
    Dispatched env cm (message jc body) (cm.do_some jc env body response.ctor.root_)
      ↔ ∀ e, jc.parse body ≠ .error e := by
  have hfresh : response.ctor.root_.members = .ok OrdMap.empty := rfl
  constructor
  · intro h e hparse
    have hret := h.returns
    rw [do_some_of_throws env cm hparse hfresh] at hret
    cases hret
  · intro hparse
    obtain ⟨ms', heq, hans⟩ := do_some_spec env hcm hparse hfresh
    rw [heq]
    refine ⟨rfl, after_m_client env cm _, ⟨ms', rfl, ?_⟩, ?_⟩
    · show Answered (errorcode_after env cm (cm.after env _).m_client _) _ _ _
      rw [after_m_client]
      exact hans
    · intro id p h
      exact after_m_session_data hcm env _ h

/-- A registry with user 7 logged in at time 0. -/
def manager_with_7 : client_manager where
  m_client := OrdMap.empty.set 7 0
  objects _ := (client.ctor 0).init_user_info 0 5 7
  next := 1
  now := 0

theorem manager_with_7_valid : manager_with_7.Valid := by
  refine ⟨fun id p h => ?_, fun p k hk => client.lookup_session_data_reply 5 7 hk⟩
  have hset : manager_with_7.m_client.lookup id = if id = 7 then some 0 else none := by
    simp only [manager_with_7, OrdMap.lookup_set_eq, OrdMap.lookup_empty]
  rw [hset] at h
  split_ifs at h with hid
  obtain rfl := Option.some.inj h
  rw [hid]
  exact ⟨Nat.one_pos, rfl, 5, rfl⟩

/-- The body of a message of user 7. -/
def logic_body : Bytes := bytes "\x7b\"ClientVersion\":\"1\",\"SceneId\":\"s\",\"UsrID\":7\x7d"

/-- The value it parses to. -/
def logic_value : Value :=
  .obj [("ClientVersion", .str "1"), ("SceneId", .str "s"), ("UsrID", .int 7)]

theorem dispatch_refines_logic :
    Dispatched (client.env fun _ => 5) manager_with_7
      (message (JsonCpp.reading [(logic_body, logic_value)]) logic_body)
      (manager_with_7.do_some (JsonCpp.reading [(logic_body, logic_value)])
        (client.env fun _ => 5) logic_body response.ctor.root_) :=
  (dispatch_refines_iff _ _ manager_with_7 manager_with_7_valid logic_body).mpr (by
    intro e h
    simp [JsonCpp.reading, logic_body, bytes] at h)

/-- A body that opens 1001 arrays: it fits the receive buffer of a session. -/
def deep_body : Bytes := List.replicate 1001 91

/-- The reader throws on it. -/
theorem parse_deep_body : (JsonCpp.reading []).parse deep_body
    = .error ⟨"Exceeded stackLimit in readValue()."⟩ := by
  have hdeep : 1000 < (deep_body.takeWhile (fun c => c = 91)).length := by
    rw [deep_body, List.takeWhile_replicate, if_pos (by decide), List.length_replicate]
    decide
  simp only [JsonCpp.reading, if_pos hdeep]

/-- The reader throws on the deep body, and the specification is not met. -/
theorem not_dispatched_deep_body :
    ¬ Dispatched (client.env fun _ => 5) client_manager.ctor
      (message (JsonCpp.reading []) deep_body)
      (client_manager.ctor.do_some (JsonCpp.reading []) (client.env fun _ => 5) deep_body
        response.ctor.root_) := by
  intro h
  have hfresh : response.ctor.root_.members = .ok OrdMap.empty := rfl
  have hret := h.returns
  rw [do_some_of_throws _ _ parse_deep_body hfresh] at hret
  cases hret

/-! ## What a body can throw -/

/-- `do_some` has returned, and the response holds a code and its text. -/
structure Answers (reply : Reply) : Prop where
  returns : reply.ret = .ok true
  holds : ∃ ms, reply.res.members = .ok ms ∧ ms.lookup "errorcode" ≠ none ∧
    ms.lookup "errormsg" ≠ none

/-- The second `root["UsrID"].asInt()`, outside the `try` block, does not throw: the
first has read the same member. -/
theorem process_logic_returns {jc : JsonCpp} (env : ClientEnv) (cm : client_manager)
    {root root' : Value} {vs : Values} (hv : get_values jc root = .ok (vs, root'))
    (respons : Members) : ∃ r, cm.process_logic jc env root' respons = .ok r := by
  rcases hl : cm.m_client.lookup vs.iUsrID with _ | p
  · exact ⟨_, process_logic_of_none env hv hl respons⟩
  · exact ⟨_, process_logic_of_some env hv hl respons⟩

/-- **No body but one that `parse` throws on throws out of the handler.** From any
registry and any response root that is an object or null, `do_some` returns with a code
and its text in the response if and only if `Json::Reader::parse` does not throw. -/
theorem do_some_answers_iff (jc : JsonCpp) (env : ClientEnv) (cm : client_manager)
    (hcm : cm.Valid) (body : Bytes) (res : Value) (ms : Members) (hres : res.members = .ok ms) :
    Answers (cm.do_some jc env body res) ↔ ∀ e, jc.parse body ≠ .error e := by
  constructor
  · intro h e hparse
    have hret := h.returns
    rw [do_some_of_throws env cm hparse hres] at hret
    cases hret
  · intro hparse
    obtain ⟨ms', heq, hans⟩ := do_some_spec env hcm hparse hres
    rw [heq]
    refine ⟨rfl, ms', Value.members_obj ms', ?_, ?_⟩
    · rw [hans.errorcode]
      exact Option.some_ne_none _
    · rw [hans.errormsg]
      exact Option.some_ne_none _

/-- A request without a body is answered. -/
theorem do_some_answers_empty :
    Answers (manager_with_7.do_some (JsonCpp.reading []) (client.env fun _ => 5) []
      response.ctor.root_) :=
  (do_some_answers_iff _ _ manager_with_7 manager_with_7_valid [] response.ctor.root_
    OrdMap.empty rfl).mpr (by
    intro e h
    simp [JsonCpp.reading] at h)

/-- What the reader throws on the deep body leaves the handler. -/
theorem not_do_some_answers_deep_body :
    ¬ Answers (client_manager.ctor.do_some (JsonCpp.reading []) (client.env fun _ => 5)
      deep_body response.ctor.root_) := by
  intro h
  have hret := h.returns
  rw [do_some_of_throws _ _ parse_deep_body rfl] at hret
  cases hret

end MyWarehouse

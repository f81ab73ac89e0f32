/-
What a login is good for: the user is registered, the answer says so, and later
messages of the user are dispatched to its client object.

`client::init_user_info` fills the object and then returns `USER_NOT_EXIST`, so
with the codes of `client.h` a login registers nobody. It establishes a session
exactly for a user that is registered already.
-/
import MyWarehouse.ClientRuns

set_option autoImplicit false

namespace MyWarehouse

open client_manager

/-- The event takes user `id` out of the registry. -/
def Erases (id : ℤ) (cm : client_manager) : ClientEvent → Prop
  | .expire p => cm.registered p ∧ (cm.objects p).id_ = id
  | _ => False

/-- A body handled in `cm` goes to the `do_some` of the client registered for
`id`, and is not answered `USER_NOT_LOGIN`. -/
structure ServedBy (jc : JsonCpp) (env : ClientEnv) (id : ℤ) (cm : client_manager)
    (body : Bytes) : Prop where
  dispatched : ∃ p, cm.m_client.lookup id = some p ∧
    ((cm.do_some jc env body response.ctor.root_).cm.objects p).dispatched
      = cm.now :: (cm.objects p).dispatched
  answered : ∃ ms : Members, (cm.do_some jc env body response.ctor.root_).res = .obj ms.entries ∧
    ∃ ec, ms.lookup "errorcode" = some (ERROR_CODE.toValue ec) ∧ ec ≠ .USER_NOT_LOGIN

/-- What a login of user `id` is to establish, `r` being what it leaves: the user
is registered, the answer is `SUCCEEDED` with the user's session data, and in
every later run that does not erase the user each of its other messages is
served. -/
structure LoginEstablishes (jc : JsonCpp) (env : ClientEnv) (id : ℤ) (r : Reply) : Prop where
  registered : (r.cm.m_client.lookup id).isSome
  answered : ∃ ms : Members, r.res = .obj ms.entries ∧
    ms.lookup "errorcode" = some ERROR_CODE.SUCCEEDED.toValue ∧
    ∃ data, r.cm.session_of id = some data ∧
      ∀ k v, data.lookup k = some v → ms.lookup k = some v
  later : ∀ es cm, (traffic jc env).run r.cm es = some cm →
    (traffic jc env).Along (fun cm e => ¬ Erases id cm e) r.cm es →
    ∀ body root, message jc body = .logic id root → ServedBy jc env id cm body

variable {jc : JsonCpp} {env : ClientEnv} {cm : client_manager} {id : ℤ} {p : ℕ}

/-- Until its client is erased a registered user stays registered, with the same
object: messages unregister nobody, and a timer erases the user of its own
object. -/
theorem stays_registered {e : ClientEvent} {cm' : client_manager} (hcm : cm.Valid)
    (hreg : cm.m_client.lookup id = some p) (he : ¬ Erases id cm e)
    (h : (traffic jc env).step cm e = some cm') : cm'.m_client.lookup id = some p := by
  obtain ⟨d, -, rfl⟩ | ⟨body, -, rfl⟩ | ⟨q, rfl, -, -, rfl⟩ := traffic_cases hcm h
  · exact hreg
  · exact lookup_after _ hreg
  · rw [timer_completes_lookup]
    have hnot : ¬ (cm.registered q ∧ id = (cm.objects q).id_) :=
      fun hq => he ⟨hq.1, hq.2.symm⟩
    rw [if_neg hnot, hreg]

/-- A message of a registered user is served, when `client::do_some` does not
itself return `USER_NOT_LOGIN`. -/
theorem served_of_registered (hcm : cm.Valid) {body : Bytes} {root : Value}
    (hreg : cm.m_client.lookup id = some p) (hmsg : message jc body = .logic id root)
    (hcode : env.do_some p root ≠ .USER_NOT_LOGIN) : ServedBy jc env id cm body := by
  have hparse : ∀ e, jc.parse body ≠ .error e :=
    parse_returns_of_message (by rw [hmsg]; exact Message.noConfusion)
  have hfresh : response.ctor.root_.members = .ok OrdMap.empty := rfl
  obtain ⟨ms, heq, hans⟩ := do_some_spec env hcm hparse hfresh
  rw [hmsg] at heq hans
  simp only [errorcode_after, hreg] at hans
  refine ⟨⟨p, hreg, ?_⟩, ⟨ms, by rw [heq], _, hans.errorcode, hcode⟩⟩
  rw [heq]
  simp only [after, hreg, client_do_some, Function.update_self, client.do_some]

/-- A login of a registered user establishes its session. -/
theorem login_establishes_of_registered (hcm : cm.Valid) {body : Bytes}
    (hmsg : message jc body = .login id) (hreg : cm.m_client.lookup id = some p)
    (hcode : ∀ q root, env.do_some q root ≠ .USER_NOT_LOGIN) :
    LoginEstablishes jc env id (cm.do_some jc env body response.ctor.root_) := by
  have hparse : ∀ e, jc.parse body ≠ .error e :=
    parse_returns_of_message (by rw [hmsg]; exact Message.noConfusion)
  have hfresh : response.ctor.root_.members = .ok OrdMap.empty := rfl
  obtain ⟨ms, heq, hans⟩ := do_some_spec env hcm hparse hfresh
  have hafter : cm.after env (.login id) = cm := by simp only [after, hreg]
  rw [hmsg, hafter] at heq hans
  have hm' : registry_after env cm (.login id) = cm.m_client := by
    rw [← after_m_client, hafter]
  rw [hm'] at hans
  simp only [errorcode_after, hreg, session_after, session_of, Option.map_some] at hans
  rw [heq]
  refine ⟨by rw [hreg]; rfl, ⟨ms, rfl, hans.errorcode, (cm.objects p).m_session_data, ?_, ?_⟩, ?_⟩
  · rw [session_of, hreg]
    rfl
  · -- a stored member is neither of the response's own two, so it reads as stored
    intro k v hv
    have hk : ∀ k', k' = "errorcode" ∨ k' = "errormsg" → k ≠ k' := by
      rintro k' hk' rfl
      rw [hcm.plain p k hk'] at hv
      cases hv
    rw [hans.others k (hk _ (Or.inl rfl)) (hk _ (Or.inr rfl)), Option.bind_some, hv]
    rfl
  · intro es cm' hrun hkeep body' root hlogic
    have hinv : cm'.Valid ∧ cm'.m_client.lookup id = some p :=
      Transition.invariant_along (P := fun s => s.Valid ∧ s.m_client.lookup id = some p)
        (fun s e t hs he h => ⟨traffic_valid hs.1 h, stays_registered hs.1 hs.2 he h⟩)
        ⟨hcm, hreg⟩ hkeep hrun
    exact served_of_registered hinv.1 hinv.2 hlogic (hcode p root)

/-- **A login establishes a session exactly for a registered user.** With the
codes of `client.h`, whatever the registry and whoever logs in. -/
theorem login_establishes_iff (jc : JsonCpp) (rand : ℕ → ℤ) (cm : client_manager)
    (hcm : cm.Valid) (id : ℤ) (body : Bytes) (hmsg : message jc body = .login id) :
    LoginEstablishes jc (client.env rand) id
        (cm.do_some jc (client.env rand) body response.ctor.root_)
      ↔ (cm.m_client.lookup id).isSome := by
  constructor
  · intro h
    have hreg := h.registered
    have hfails : ¬ (client.env rand).init_user_info cm.next id = .SUCCEEDED := by
      intro hs
      cases hs
    rw [do_some_cm hcm, hmsg, after_m_client] at hreg
    simp only [registry_after, hfails, and_false, if_false] at hreg
    exact hreg
  · intro h
    obtain ⟨p, hreg⟩ := Option.isSome_iff_exists.mp h
    exact login_establishes_of_registered hcm hmsg hreg (fun _ _ hc => by cases hc)

/-- The body of the login of user 7. -/
def login_body : Bytes :=
  bytes "\x7b\"ClientVersion\":\"0.0.1\",\"SceneId\":\"s\",\"UsrID\":7\x7d"

/-- The value it parses to. -/
def login_value : Value :=
  .obj [("ClientVersion", .str "0.0.1"), ("SceneId", .str "s"), ("UsrID", .int 7)]

theorem login_establishes_of_7 :
    LoginEstablishes (JsonCpp.reading [(login_body, login_value)]) (client.env fun _ => 5) 7
      (manager_with_7.do_some (JsonCpp.reading [(login_body, login_value)])
        (client.env fun _ => 5) login_body response.ctor.root_) :=
  (login_establishes_iff _ _ manager_with_7 manager_with_7_valid 7 login_body (by rfl)).mpr
    (by decide)

/-- On an empty registry the login of user 7 establishes nothing. -/
theorem not_login_establishes :
    ¬ LoginEstablishes (JsonCpp.reading [(login_body, login_value)]) (client.env fun _ => 5) 7
      (client_manager.ctor.do_some (JsonCpp.reading [(login_body, login_value)])
        (client.env fun _ => 5) login_body response.ctor.root_) := by
  intro h
  have hnone : (client_manager.ctor.do_some (JsonCpp.reading [(login_body, login_value)])
      (client.env fun _ => 5) login_body response.ctor.root_).cm.m_client.lookup 7 = none := by
    decide
  have hreg := h.registered
  rw [hnone] at hreg
  cases hreg

end MyWarehouse

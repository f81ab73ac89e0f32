/-
What a message on a connection leaves for the next one.

`request_` and `response_` live as long as the session and nothing resets them
between two messages the parser finds in one read. A later message without a body is
read from the body of an earlier one; the members of an earlier reply stay in the
response root, and of these the session data stays visible when the later reply has
none of its own; and `response::end` keeps the `Content-Length` it stored first.

`Separate` collects the three conditions a message must meet, and
`separate_messages` says that they are enough for every reply to be the one a fresh
session gives. `separate_of_uncontaminated` says that they are necessary, when the
writer writes different replies differently.
-/
import MyWarehouse.HttpMessage
import MyWarehouse.Dispatch

set_option autoImplicit false

namespace MyWarehouse

open client_manager http_session

/-! ## The text of a reply -/

/-- The headers of a response that was never written, or was first written with a
body of the given length. -/
def sent_headers : Option ℕ → Headers
  | none => response.ctor.headers_
  | some n => response.ctor.headers_.set (bytes "Content-Length") (decimal n)

/-- The text of a reply. -/
def reply_text (length : ℕ) (body : Bytes) : Bytes :=
  bytes "HTTP/1.1 200 OK\r\nContent-Length: " ++
    (decimal length ++ (bytes "\r\nContent-Type: text/json\r\n\r\n" ++ body))

/-- `response::end` on a response of this program: the length of the first reply
stays in the header. -/
theorem end_text (write : Value → Bytes) (n : Option ℕ) (body_ : Bytes) (root_ : Value) :
    response.end_ write ⟨sent_headers n, 200, body_, root_⟩
      = (⟨sent_headers (some (n.getD (write root_).length)), 200, write root_, root_⟩,
          reply_text (n.getD (write root_).length) (write root_)) := by
  have hentries : ∀ length : ℕ, (sent_headers (some length)).entries
      = [(bytes "Content-Length", decimal length), (bytes "Content-Type", bytes "text/json")] :=
    fun _ => rfl
  have htext : ∀ length : ℕ, bytes "HTTP/1.1 " ++ decimal 200 ++ bytes " "
      ++ response.get_status_text 200 ++ bytes "\r\n"
      ++ (sent_headers (some length)).entries.flatMap header_line ++ bytes "\r\n" ++ write root_
      = reply_text length (write root_) := by
    intro length
    rw [hentries]
    simp only [List.flatMap_cons, List.flatMap_nil, header_line, List.append_assoc,
      List.nil_append]
    rfl
  rcases n with _ | n
  · simp only [response.end_, Option.getD_none]
    exact congrArg _ (htext _)
  · simp only [response.end_, Option.getD_some]
    exact congrArg _ (htext n)

/-- Two replies with one text have one length in their header and one body: the
number in the header ends where the carriage return stands. -/
theorem reply_text_inj {length length' : ℕ} {body body' : Bytes}
    (h : reply_text length body = reply_text length' body') :
    decimal length = decimal length' ∧ body = body' := by
  have hcut : ∀ (n : ℕ) (r : Bytes), (decimal n ++ 13 :: r).takeWhile (fun c => c ≠ 13)
      = decimal n := by
    intro n r
    rw [List.takeWhile_append_of_pos]
    · simp
    · intro c hc
      simp only [ne_eq, decide_not, Bool.not_eq_eq_eq_not, Bool.not_true,
        decide_eq_false_iff_not]
      rintro rfl
      exact cr_notMem_decimal n hc
  have h := List.append_cancel_left h
  have hlength : decimal length = decimal length' := by
    have htake := congrArg (fun l => List.takeWhile (fun c => c ≠ 13) l) h
    exact (hcut length _).symm.trans (htake.trans (hcut length' _))
  rw [hlength] at h
  exact ⟨hlength, List.append_cancel_left (List.append_cancel_left h)⟩

/-! ## Messages on one session -/

/-- `func_` as `main` gives it to the server. -/
def client_manager.handler (jc : JsonCpp) (env : ClientEnv) : Handler client_manager where
  invoke cm body r :=
    let reply := cm.do_some jc env body r.root_
    (reply.ret, reply.cm, { r with root_ := reply.res })
  write := jc.write

/-- A complete message as the parser reports it: the pieces of its body, each an
offset in the buffer and a length, and the registry at the time it is complete. -/
structure Arrival where
  bodies : List (ℕ × ℕ)
  cm : client_manager
  valid : cm.Valid

section Conversation

variable {P : HttpParser}

/-- The callbacks for one message. -/
def deliver (jc : JsonCpp) (env : ClientEnv) (m : Arrival) (s : http_session P) :
    client_manager × http_session P :=
  callbacks (client_manager.handler jc env) 0 m.cm s
    (m.bodies.map (fun b => .on_body b.1 b.2) ++ [.on_message_complete])

/-- The text the message is answered with; there is none when the handler throws. -/
def reply_to (jc : JsonCpp) (env : ClientEnv) (s : http_session P) (m : Arrival) :
    Option Bytes :=
  ((deliver jc env m s).2.written.drop s.written.length).head?

/-- The messages the parser finds on one session, one after the other. -/
def conversation (jc : JsonCpp) (env : ClientEnv) : Transition (http_session P) Arrival where
  step s m := if s.threw then none else some (deliver jc env m s).2

/-- A session that has the bytes of `s` and has answered nothing. -/
def fresh (s : http_session P) : http_session P :=
  { s with request_ := request.ctor, response_ := response.ctor }

/-- The body the handler sees when the pieces have been reported. -/
def body_seen (s : http_session P) (bodies : List (ℕ × ℕ)) : Bytes :=
  (s.on_bodies 0 bodies).request_.body s.data_

/-- The message gets the text it would get alone. -/
def Uncontaminated (jc : JsonCpp) (env : ClientEnv) (s : http_session P) (m : Arrival) : Prop :=
  reply_to jc env s m = reply_to jc env (fresh s) m

instance (jc : JsonCpp) (env : ClientEnv) (s : http_session P) (m : Arrival) :
    Decidable (Uncontaminated jc env s m) :=
  inferInstanceAs (Decidable (reply_to jc env s m = reply_to jc env (fresh s) m))

/-- The members of a fresh answer. -/
def answer (ec : ERROR_CODE) (session : Option Members) : Members :=
  ((session.getD OrdMap.empty).set "errormsg" (.str (toString ec.value))).set "errorcode"
    ec.toValue

/-- The members of the answer a fresh session gives to a message. -/
def answer_to (env : ClientEnv) (cm : client_manager) (msg : Message) : Members :=
  answer (errorcode_after env cm (registry_after env cm msg) msg)
    (session_after (cm.after env msg) msg)

/-- The message is one that is answered with session data: it is for a registered
user, or a login that registers one. -/
def carries_session (env : ClientEnv) (cm : client_manager) : Message → Prop
  | .login id => cm.m_client.lookup id ≠ none ∨ env.init_user_info cm.next id = .SUCCEEDED
  | .logic id _ => cm.m_client.lookup id ≠ none
  | _ => False

/-- What keeps a message apart from those before it.

* `body`: when it has no body, the parser rejects the body of an earlier one, as it
  rejects an empty one.
* `session`: when the response root holds more than a code and its text, the
  answer to the message carries session data, which replaces the old.
* `length`: a `Content-Length` that was stored is the length of its answer. -/
structure Separate (jc : JsonCpp) (env : ClientEnv) (s : http_session P) (m : Arrival) :
    Prop where
  body : m.bodies = [] → jc.parse (s.request_.body s.data_) = .ok none
  session : (∃ v, jc.parse (body_seen (fresh s) m.bodies) = .ok v) →
    ∀ ms k, s.response_.root_.members = .ok ms → k ≠ "errorcode" → k ≠ "errormsg" →
      ms.lookup k ≠ none → carries_session env m.cm (message jc (body_seen (fresh s) m.bodies))
  length : (∃ v, jc.parse (body_seen (fresh s) m.bodies) = .ok v) →
    ∀ v, s.response_.headers_.lookup (bytes "Content-Length") = some v →
      v = decimal (jc.write (.obj
        (answer_to env m.cm (message jc (body_seen (fresh s) m.bodies))).entries)).length

/-- What the response of a session looks like between two messages: `ms` are the
members of its root and `n` is the length its first reply had. -/
structure Spoken (s : http_session P) (ms : Members) (n : Option ℕ) : Prop where
  root_ : s.response_.root_.members = .ok ms
  headers_ : s.response_.headers_ = sent_headers n
  status_ : s.response_.status_ = 200
  errorcode : ∀ v, ms.lookup "errorcode" = some v → ∃ ec : ERROR_CODE, v = ec.toValue
  errormsg : ∀ v, ms.lookup "errormsg" = some v → ∃ t, v = .str t
  others : ∀ k v, k ≠ "errorcode" → k ≠ "errormsg" → ms.lookup k = some v →
    ∃ rand id, (client.session_data rand id).lookup k = some v

/-! ## What an answer carries -/

variable {jc : JsonCpp} {env : ClientEnv} {s : http_session P} {ms : Members} {n : Option ℕ}
  {m : Arrival}

/-- Over a fresh root the specification leaves no choice. -/
theorem Answered.eq_answer {ec : ERROR_CODE} {session : Option Members}
    (h : Answered ec session OrdMap.empty ms) : ms = answer ec session := by
  refine OrdMap.ext_lookup fun k => ?_
  rw [answer, OrdMap.lookup_set_eq, OrdMap.lookup_set_eq]
  split_ifs with hcode hmsg
  · rw [hcode, h.errorcode]
  · rw [hmsg, h.errormsg]
  · rw [h.others k hcode hmsg, OrdMap.lookup_empty, Option.or_none]
    rcases session with _ | d
    · rfl
    · rfl

/-- The session data of an answer is what `init_user_info` stored. -/
theorem session_after_stored {cm : client_manager} (hcm : cm.Valid) {msg : Message}
    {d : Members} (h : session_after cm msg = some d) :
    ∃ rand id, d = client.session_data rand id := by
  have hof : ∀ id, cm.session_of id = some d → ∃ rand id, d = client.session_data rand id := by
    intro id hid
    obtain ⟨p, hp, rfl⟩ := Option.map_eq_some_iff.mp hid
    obtain ⟨-, -, rand, hdata⟩ := hcm.stored id p hp
    exact ⟨rand, id, hdata⟩
  rcases msg with _ | _ | id | ⟨id, root⟩
  · cases h
  · cases h
  · exact hof id h
  · exact hof id h

/-- Every stored session data has the same members. -/
theorem session_data_isSome (rand rand' id id' : ℤ) (k : String) :
    ((client.session_data rand id).lookup k).isSome
      = ((client.session_data rand' id').lookup k).isSome := by
  simp only [client.lookup_session_data]
  split_ifs
  all_goals rfl

theorem carries_session_iff (env : ClientEnv) (cm : client_manager) (msg : Message) :
    carries_session env cm msg ↔ session_after (cm.after env msg) msg ≠ none := by
  rcases msg with _ | _ | id | ⟨id, root⟩
  · simp [carries_session, session_after]
  · simp [carries_session, session_after]
  · have hlookup := congrArg (OrdMap.lookup · id) (after_m_client env cm (.login id))
    simp only [registry_after] at hlookup
    simp only [carries_session, session_after, session_of, ne_eq, Option.map_eq_none_iff, hlookup]
    split_ifs with hnew
    · simp [hnew.2, OrdMap.lookup_set_eq]
    · rw [not_and_or] at hnew
      constructor
      · rintro (hl | hec)
        · exact hl
        · exact hnew.resolve_right (not_not.mpr hec)
      · exact Or.inl
  · have hlookup := congrArg (OrdMap.lookup · id) (after_m_client env cm (.logic id root))
    simp only [registry_after] at hlookup
    simp only [carries_session, session_after, session_of, ne_eq, Option.map_eq_none_iff, hlookup]

/-! ## One message -/

theorem deliver_eq (jc : JsonCpp) (env : ClientEnv) (m : Arrival) (hs : s.threw = false) :
    deliver jc env m s = (s.on_bodies 0 m.bodies).on_message_complete
      (client_manager.handler jc env) m.cm := by
  rw [deliver, callbacks_on_bodies hs, callbacks_complete]

/-- A message whose body makes `parse` throw is not answered. -/
theorem deliver_throws (hs : s.threw = false) (hsp : Spoken s ms n) {e : Exn}
    (hparse : jc.parse (body_seen s m.bodies) = .error e) :
    reply_to jc env s m = none ∧ (deliver jc env m s).2.threw = true := by
  obtain ⟨-, hdata, -, -, hresponse, -, -, -, hwritten, -⟩ := on_bodies_fields s 0 m.bodies
  have hroot : (s.on_bodies 0 m.bodies).response_.root_.members = .ok ms := by
    rw [hresponse]
    exact hsp.root_
  have hbody : jc.parse ((s.on_bodies 0 m.bodies).request_.body (s.on_bodies 0 m.bodies).data_)
      = .error e := by
    rw [hdata]
    exact hparse
  have hcall := do_some_of_throws env m.cm hbody hroot
  have hdeliver := deliver_eq jc env m hs
  simp only [on_message_complete, client_manager.handler, hcall] at hdeliver
  constructor
  · rw [reply_to, hdeliver]
    simp only [hwritten, List.drop_length]
    rfl
  · rw [hdeliver]

/-- **The answer to a message.** Whatever the response held before, the text is that
of the specified answer over those members, with the length of the first reply. -/
theorem deliver_answers (env : ClientEnv) (m : Arrival) (hs : s.threw = false) (hsp : Spoken s ms n)
    (hparse : ∀ e, jc.parse (body_seen s m.bodies) ≠ .error e) :
    let msg := message jc (body_seen s m.bodies)
    ∃ ms', Answered (errorcode_after env m.cm (registry_after env m.cm msg) msg)
        (session_after (m.cm.after env msg) msg) ms ms' ∧
      reply_to jc env s m = some (reply_text (n.getD (jc.write (.obj ms'.entries)).length)
        (jc.write (.obj ms'.entries))) ∧
      (deliver jc env m s).2.threw = false ∧
      Spoken (deliver jc env m s).2 ms' (some (n.getD (jc.write (.obj ms'.entries)).length)) := by
  obtain ⟨-, hdata, -, -, hresponse, -, -, -, hwritten, hthrew⟩ := on_bodies_fields s 0 m.bodies
  have hroot : (s.on_bodies 0 m.bodies).response_.root_.members = .ok ms := by
    rw [hresponse]
    exact hsp.root_
  have hbody : body_seen s m.bodies
      = (s.on_bodies 0 m.bodies).request_.body (s.on_bodies 0 m.bodies).data_ := by
    rw [hdata]
    rfl
  rw [hbody] at hparse ⊢
  obtain ⟨ms', hcall, hanswered⟩ := do_some_spec env m.valid hparse hroot
  have hdeliver := deliver_eq jc env m hs
  have hend : ∀ r : Value, ({ (s.on_bodies 0 m.bodies).response_ with root_ := r } : response)
      = ⟨sent_headers n, 200, s.response_.body_, r⟩ := by
    intro r
    rw [hresponse, ← hsp.headers_, ← hsp.status_]
  simp only [on_message_complete, client_manager.handler, hcall, hend, end_text, do_write]
    at hdeliver
  refine ⟨ms', hanswered, ?_, ?_, ?_⟩
  · rw [reply_to, hdeliver]
    simp only [hwritten, List.drop_left]
    rfl
  · rw [hdeliver]
    exact hthrew.trans hs
  · rw [hdeliver]
    refine ⟨Value.members_obj ms', rfl, rfl, ?_, ?_, ?_⟩
    · intro v hv
      rw [hanswered.errorcode] at hv
      exact ⟨_, (Option.some.inj hv).symm⟩
    · intro v hv
      rw [hanswered.errormsg] at hv
      exact ⟨_, (Option.some.inj hv).symm⟩
    · intro k v hcode hmsg hv
      rw [hanswered.others k hcode hmsg] at hv
      rcases hsession : session_after (m.cm.after env (message jc _)) (message jc _) with _ | d
      · rw [hsession] at hv
        exact hsp.others k v hcode hmsg hv
      · obtain ⟨rand, id, rfl⟩ := session_after_stored (m.valid.after env _) hsession
        rw [hsession] at hv
        rcases hk : (client.session_data rand id).lookup k with _ | x
        · simp only [Option.bind_some, hk, Option.none_or] at hv
          exact hsp.others k v hcode hmsg hv
        · simp only [Option.bind_some, hk, Option.some_or] at hv
          exact ⟨rand, id, hk.trans hv⟩

/-- Answering a message keeps the registry invariant. -/
theorem deliver_valid (hs : s.threw = false) (hsp : Spoken s ms n) :
    (deliver jc env m s).1.Valid := by
  obtain ⟨-, hdata, -, -, hresponse, -, -, -, -, -⟩ := on_bodies_fields s 0 m.bodies
  have hroot : (s.on_bodies 0 m.bodies).response_.root_.members = .ok ms := by
    rw [hresponse]
    exact hsp.root_
  have hdeliver := deliver_eq jc env m hs
  rcases hparse : jc.parse ((s.on_bodies 0 m.bodies).request_.body
    (s.on_bodies 0 m.bodies).data_) with e | v
  · have hcall := do_some_of_throws env m.cm hparse hroot
    simp only [on_message_complete, client_manager.handler, hcall] at hdeliver
    rw [hdeliver]
    exact m.valid
  · have hreturns : ∀ e, jc.parse ((s.on_bodies 0 m.bodies).request_.body
        (s.on_bodies 0 m.bodies).data_) ≠ .error e := by
      intro e he
      rw [hparse] at he
      cases he
    obtain ⟨ms', hcall, -⟩ := do_some_spec env m.valid hreturns hroot
    simp only [on_message_complete, client_manager.handler, hcall] at hdeliver
    rw [hdeliver]
    exact m.valid.after env _

/-! ## The conditions are enough -/

theorem spoken_fresh (s : http_session P) : Spoken (fresh s) OrdMap.empty none where
  root_ := rfl
  headers_ := rfl
  status_ := rfl
  errorcode v hv := by
    rw [OrdMap.lookup_empty] at hv
    cases hv
  errormsg v hv := by
    rw [OrdMap.lookup_empty] at hv
    cases hv
  others k v _ _ hv := by
    rw [OrdMap.lookup_empty] at hv
    cases hv

/-- A message with a body is read from it in both sessions. -/
theorem body_seen_fresh {bodies : List (ℕ × ℕ)} (hne : bodies ≠ []) :
    body_seen (fresh s) bodies = body_seen s bodies := by
  have hlast : ∃ b, bodies.getLast? = some b := by
    rcases h : bodies.getLast? with _ | b
    · exact absurd (List.getLast?_eq_none_iff.mp h) hne
    · exact ⟨b, rfl⟩
  obtain ⟨⟨at_, len⟩, hlast⟩ := hlast
  simp only [body_seen, on_bodies, hlast]
  rfl

/-- The message a separate message is read as is its own. -/
theorem parse_of_separate (hempty : jc.parse [] = .ok none)
    (hbody : m.bodies = [] → jc.parse (s.request_.body s.data_) = .ok none) :
    jc.parse (body_seen s m.bodies) = jc.parse (body_seen (fresh s) m.bodies) := by
  by_cases hne : m.bodies = []
  · have hnone : body_seen (fresh s) [] = [] := rfl
    rw [hne, hnone, hempty]
    exact hbody hne
  · rw [body_seen_fresh hne]

/-- `message` depends on the body through `parse` only. -/
theorem message_congr {body body' : Bytes} (h : jc.parse body = jc.parse body') :
    message jc body = message jc body' := by
  simp only [message, h]

/-- **One separate message** gets the text a fresh session gives. -/
theorem separate_step (hempty : jc.parse [] = .ok none) (hs : s.threw = false)
    (hsp : Spoken s ms n) (hm : Separate jc env s m) : Uncontaminated jc env s m := by
  have hparse := parse_of_separate hempty hm.body
  have hmsg := message_congr hparse
  have hfresh : (fresh s).threw = false := hs
  rcases hown : jc.parse (body_seen (fresh s) m.bodies) with e | v
  · rw [Uncontaminated, (deliver_throws hs hsp (hparse.trans hown)).1,
      (deliver_throws hfresh (spoken_fresh s) hown).1]
  have hreturns : ∀ e, jc.parse (body_seen (fresh s) m.bodies) ≠ .error e := by
    intro e he
    rw [hown] at he
    cases he
  obtain ⟨ms₁, hans₁, hreply₁, -⟩ := deliver_answers env m hs hsp (hparse ▸ hreturns)
  obtain ⟨ms₂, hans₂, hreply₂, -⟩ :=
    deliver_answers env m hfresh (spoken_fresh s) hreturns
  rw [hmsg] at hans₁
  -- the members of the two answers are the same
  have hms : ms₁ = ms₂ := by
    refine OrdMap.ext_lookup fun k => ?_
    by_cases hcode : k = "errorcode"
    · rw [hcode, hans₁.errorcode, hans₂.errorcode]
    by_cases herr : k = "errormsg"
    · rw [herr, hans₁.errormsg, hans₂.errormsg]
    rw [hans₁.others k hcode herr, hans₂.others k hcode herr, OrdMap.lookup_empty, Option.or_none]
    rcases hold : ms.lookup k with _ | v'
    · rw [Option.or_none]
    -- an old member is session data, and is covered by the new session data
    obtain ⟨rand, id, hstored⟩ := hsp.others k v' hcode herr hold
    have hcarries := hm.session ⟨v, hown⟩ ms k hsp.root_ hcode herr (by rw [hold]; simp)
    obtain ⟨d, hd⟩ := Option.ne_none_iff_exists'.mp ((carries_session_iff env m.cm _).mp hcarries)
    obtain ⟨rand', id', rfl⟩ := session_after_stored (m.valid.after env _) hd
    have hsome := session_data_isSome rand rand' id id' k
    rw [hstored, Option.isSome_some] at hsome
    obtain ⟨x, hx⟩ := Option.isSome_iff_exists.mp hsome.symm
    rw [hd, Option.bind_some, hx]
    rfl
  have hlength : decimal (n.getD (jc.write (.obj ms₁.entries)).length : ℕ)
      = decimal (jc.write (.obj ms₂.entries)).length := by
    rcases n with _ | n
    · rw [Option.getD_none, hms]
    · have hheader : s.response_.headers_.lookup (bytes "Content-Length") = some (decimal n) := by
        rw [hsp.headers_]
        rfl
      have hcond := hm.length ⟨v, hown⟩ _ hheader
      rw [Option.getD_some, hcond, answer_to, ← hans₂.eq_answer]
  rw [Uncontaminated, hreply₁, hreply₂, Option.getD_none, reply_text, reply_text, hlength, hms]

/-- Between two messages the response is as `Spoken` describes, unless the handler has
thrown. -/
theorem spoken_step {s' : http_session P}
    (hsp : s.threw = false → ∃ ms n, Spoken s ms n)
    (hstep : (conversation jc env).step s m = some s') :
    s'.threw = false → ∃ ms n, Spoken s' ms n := by
  simp only [conversation] at hstep
  split_ifs at hstep with hthrew
  have hs : s.threw = false := Bool.eq_false_iff.mpr hthrew
  obtain ⟨ms, n, hsp⟩ := hsp hs
  obtain rfl := Option.some.inj hstep
  intro hs'
  rcases hparse : jc.parse (body_seen s m.bodies) with e | v
  · rw [(deliver_throws hs hsp hparse).2] at hs'
    cases hs'
  · obtain ⟨ms', -, -, -, hsp'⟩ := deliver_answers env m hs hsp
      (by rw [hparse]; simp)
    exact ⟨_, _, hsp'⟩

/-! ## The conditions are necessary -/

/-- A value a member of a reply can have. -/
def Speakable (ms : Members) : Prop :=
  ∀ k v, ms.lookup k = some v →
    (∃ i, v = .int i) ∨ (∃ t, v = .str t) ∨ v = .obj [("subObj", .int 100)]

theorem Spoken.speakable (hsp : Spoken s ms n) : Speakable ms := by
  intro k v hv
  by_cases hcode : k = "errorcode"
  · obtain ⟨ec, rfl⟩ := hsp.errorcode v (hcode ▸ hv)
    exact Or.inl ⟨ec.value, rfl⟩
  by_cases hmsg : k = "errormsg"
  · exact Or.inr (Or.inl (hsp.errormsg v (hmsg ▸ hv)))
  obtain ⟨rand, id, hdata⟩ := hsp.others k v hcode hmsg hv
  rw [client.lookup_session_data] at hdata
  split_ifs at hdata
  · exact Or.inr (Or.inr (Option.some.inj hdata).symm)
  · exact Or.inl ⟨id, (Option.some.inj hdata).symm⟩
  · exact Or.inr (Or.inl ⟨"ZX", (Option.some.inj hdata).symm⟩)
  · exact Or.inl ⟨rand, (Option.some.inj hdata).symm⟩

/-- With the codes of client.h only a body that is rejected is answered
`JSON_PARSER_ERROR`. -/
theorem errorcode_after_ne {rand : ℕ → ℤ} {cm : client_manager} {m' : OrdMap ℤ ℕ (· < ·)}
    {msg : Message} (hmsg : msg ≠ .unparsable) :
    errorcode_after (client.env rand) cm m' msg ≠ .JSON_PARSER_ERROR := by
  rcases msg with _ | _ | id | ⟨id, root⟩
  · exact absurd rfl hmsg
  · simp [errorcode_after]
  · simp only [errorcode_after]
    split
    · simp
    · simp [client.env]
  · simp only [errorcode_after]
    split
    · simp [client.env]
    · simp

theorem message_ne_unparsable {body : Bytes} {root : Value}
    (h : jc.parse body = .ok (some root)) : message jc body ≠ .unparsable := by
  simp only [message, h]
  split
  · simp
  · split_ifs
    · simp
    · simp

/-- Two sessions that answer with one text answer with one code, one set of members
and one length. -/
theorem answers_agree (hwrite : ∀ a b : Members, Speakable a → Speakable b →
      jc.write (.obj a.entries) = jc.write (.obj b.entries) → a = b)
    (hs : s.threw = false) (hsp : Spoken s ms n)
    (hun : Uncontaminated jc env s m)
    (hseen : ∀ e, jc.parse (body_seen s m.bodies) ≠ .error e)
    (hown : ∀ e, jc.parse (body_seen (fresh s) m.bodies) ≠ .error e) :
    let msg := message jc (body_seen s m.bodies)
    let msg' := message jc (body_seen (fresh s) m.bodies)
    ∃ ms', Answered (errorcode_after env m.cm (registry_after env m.cm msg) msg)
        (session_after (m.cm.after env msg) msg) ms ms' ∧
      Answered (errorcode_after env m.cm (registry_after env m.cm msg') msg')
        (session_after (m.cm.after env msg') msg') OrdMap.empty ms' ∧
      decimal (n.getD (jc.write (.obj ms'.entries)).length : ℕ)
        = decimal (jc.write (.obj ms'.entries)).length := by
  have hfresh : (fresh s).threw = false := hs
  obtain ⟨ms₁, hans₁, hreply₁, -, hsp₁⟩ := deliver_answers env m hs hsp hseen
  obtain ⟨ms₂, hans₂, hreply₂, -, hsp₂⟩ :=
    deliver_answers env m hfresh (spoken_fresh s) hown
  rw [Uncontaminated, hreply₁, hreply₂, Option.some.injEq] at hun
  obtain ⟨hlength, hbody⟩ := reply_text_inj hun
  obtain rfl := hwrite ms₁ ms₂ hsp₁.speakable hsp₂.speakable hbody
  exact ⟨ms₁, hans₁, hans₂, hlength⟩

/-- **A message that gets the text of a fresh session is separate**, with the codes of
client.h and a writer that tells the replies of this program apart. -/
theorem separate_of_uncontaminated {rand : ℕ → ℤ} (hempty : jc.parse [] = .ok none)
    (hwrite : ∀ a b : Members, Speakable a → Speakable b →
      jc.write (.obj a.entries) = jc.write (.obj b.entries) → a = b)
    (hs : s.threw = false) (hsp : Spoken s ms n)
    (hun : Uncontaminated jc (client.env rand) s m) : Separate jc (client.env rand) s m := by
  have hbody : m.bodies = [] → jc.parse (s.request_.body s.data_) = .ok none := by
    intro hnil
    have hstale : body_seen s m.bodies = s.request_.body s.data_ := by rw [hnil]; rfl
    have hnone : body_seen (fresh s) m.bodies = [] := by rw [hnil]; rfl
    have hown : jc.parse (body_seen (fresh s) m.bodies) = .ok none := by rw [hnone, hempty]
    have hreturns : ∀ e, jc.parse (body_seen (fresh s) m.bodies) ≠ .error e := by simp [hown]
    rcases hseen : jc.parse (body_seen s m.bodies) with e | _ | root
    · -- no answer against an answer
      have hfresh : (fresh s).threw = false := hs
      obtain ⟨ms₂, -, hreply₂, -⟩ := deliver_answers (client.env rand) m hfresh
        (spoken_fresh s) hreturns
      rw [Uncontaminated, (deliver_throws hs hsp hseen).1, hreply₂] at hun
      cases hun
    · rw [← hstale, hseen]
    · -- the old body is read as a message, the empty one is rejected
      exfalso
      obtain ⟨ms', hans₁, hans₂, -⟩ :=
        answers_agree hwrite hs hsp hun (by simp [hseen]) hreturns
      have hcode := hans₁.errorcode.symm.trans hans₂.errorcode
      have hvalue := Value.int.inj (Option.some.inj hcode)
      have hunp : message jc (body_seen (fresh s) m.bodies) = .unparsable := by
        simp only [message, hown]
      refine errorcode_after_ne (message_ne_unparsable hseen)
        ((ERROR_CODE.value_injective hvalue).trans ?_)
      rw [hunp]
      rfl
  have hparse := parse_of_separate hempty hbody
  have hmsg := message_congr hparse
  refine ⟨hbody, ?_, ?_⟩
  · rintro ⟨v, hown⟩ ms' k hroot hcode herr hold
    obtain rfl : ms = ms' := Except.ok.inj (hsp.root_.symm.trans hroot)
    by_contra hnot
    obtain ⟨ms₁, hans₁, hans₂, -⟩ :=
      answers_agree hwrite hs hsp hun (by simp [hparse, hown]) (by simp [hown])
    have hnone := not_not.mp (mt (carries_session_iff _ _ _).mpr hnot)
    rw [hmsg] at hans₁
    have h₁ := hans₁.others k hcode herr
    have h₂ := hans₂.others k hcode herr
    rw [hnone, Option.bind_none, Option.none_or] at h₁ h₂
    rw [OrdMap.lookup_empty] at h₂
    exact hold (h₁.symm.trans h₂)
  · rintro ⟨v, hown⟩ x hheader
    obtain ⟨ms₁, -, hans₂, hlength⟩ :=
      answers_agree hwrite hs hsp hun (by simp [hparse, hown]) (by simp [hown])
    rw [hsp.headers_] at hheader
    rcases n with _ | n
    · have hnone : (sent_headers none).lookup (bytes "Content-Length") = none := rfl
      rw [hnone] at hheader
      cases hheader
    · obtain rfl : decimal n = x := Option.some.inj hheader
      rw [Option.getD_some] at hlength
      rw [answer_to, ← hans₂.eq_answer, hlength]

/-- Along a conversation, what follows in the states a conversation can be in. -/
theorem along_spoken {C D : http_session P → Arrival → Prop}
    (hCD : ∀ s m ms n, s.threw = false → Spoken s ms n → C s m → D s m) {es : List Arrival}
    (hes : (conversation jc env).Along C (fresh s) es) :
    (conversation jc env).Along D (fresh s) es := by
  refine Transition.along_mono (P := fun s => s.threw = false → ∃ ms n, Spoken s ms n)
    (fun _ _ _ hsp _ hstep => spoken_step hsp hstep) (fun s m s' hsp hm hstep => ?_)
    (fun _ => ⟨_, _, spoken_fresh s⟩) hes
  simp only [conversation] at hstep
  split_ifs at hstep with hthrew
  have hs : s.threw = false := Bool.eq_false_iff.mpr hthrew
  obtain ⟨ms, n, hsp⟩ := hsp hs
  exact hCD s m ms n hs hsp hm

end Conversation

/-- **Messages kept apart.** In every sequence of messages on one session that are
all separate, whatever the registry is when each of them is complete, every message
gets the text that a fresh session would give it. -/
theorem separate_messages (P : HttpParser) (jc : JsonCpp) (env : ClientEnv)
    (hempty : jc.parse [] = .ok none) (s : http_session P) (es : List Arrival)
    (hes : (conversation jc env).Along (Separate jc env) (fresh s) es) :
    (conversation jc env).Along (Uncontaminated jc env) (fresh s) es := by
  apply along_spoken ?_ hes
  intro s m ms n hs hsp hm
  exact separate_step hempty hs hsp hm

/-- A session that has read a message of user 7; the body comes after 64 bytes. -/
def session_with_logic : http_session (.expecting []) :=
  .ctor _ 0 (store (List.replicate 2048 0) 64 logic_body)

/-- A message of user 7 with a body. -/
def with_body : Arrival := ⟨[(64, logic_body.length)], manager_with_7, manager_with_7_valid⟩

/-- A message without a body. -/
def without_body : Arrival := ⟨[], manager_with_7, manager_with_7_valid⟩

/-- The message of user 7, sent twice: the second replaces everything the first has
left, and its answer has the same length. -/
theorem separate_messages_of_7 :
    (conversation (JsonCpp.reading [(logic_body, logic_value)]) (client.env fun _ => 5)).Along
      (Uncontaminated (JsonCpp.reading [(logic_body, logic_value)]) (client.env fun _ => 5))
      (fresh session_with_logic) [with_body, with_body] := by
  refine separate_messages _ _ _ rfl session_with_logic [with_body, with_body] ?_
  have hlogic : message (JsonCpp.reading [(logic_body, logic_value)]) logic_body
      = .logic 7 logic_value := rfl
  have hcarries : manager_with_7.m_client.lookup 7 ≠ none := by decide
  have hseen : ∀ s : http_session (.expecting []), s.data_ = session_with_logic.data_ →
      body_seen (fresh s) with_body.bodies = logic_body := by
    intro s hs
    show ((s.data_.drop 64).take logic_body.length) = logic_body
    rw [hs]
    decide +kernel
  have hlength : (deliver (JsonCpp.reading [(logic_body, logic_value)]) (client.env fun _ => 5)
      with_body (fresh session_with_logic)).2.response_.headers_.lookup (bytes "Content-Length")
      = some (decimal ((JsonCpp.reading [(logic_body, logic_value)]).write (.obj
        (answer_to (client.env fun _ => 5) manager_with_7 (.logic 7 logic_value)).entries)).length)
      := by
    decide +kernel
  have hnone : (fresh session_with_logic).response_.headers_.lookup (bytes "Content-Length")
      = none := rfl
  refine ⟨⟨?_, ?_, ?_⟩, ⟨?_, ?_, ?_⟩, trivial⟩
  · intro hnil
    cases hnil
  · intro _ _ _ _ _ _ _
    rw [hseen (fresh session_with_logic) rfl, hlogic]
    exact hcarries
  · intro _ v hv
    rw [hnone] at hv
    cases hv
  · intro hnil
    cases hnil
  · intro _ _ _ _ _ _ _
    rw [hseen (deliver _ _ with_body (fresh session_with_logic)).2 rfl, hlogic]
    exact hcarries
  · intro _ v hv
    rw [hlength] at hv
    rw [hseen (deliver _ _ with_body (fresh session_with_logic)).2 rfl, hlogic]
    exact (Option.some.inj hv).symm

/-- A message of user 7 and then one without a body: the second, which alone is
rejected, is answered as the first again. -/
theorem not_separate_messages :
    ¬ (conversation (JsonCpp.reading [(logic_body, logic_value)]) (client.env fun _ => 5)).Along
      (Uncontaminated (JsonCpp.reading [(logic_body, logic_value)]) (client.env fun _ => 5))
      (fresh session_with_logic) [with_body, without_body] := by
  decide +kernel

/-- The other direction, with the codes of client.h and a writer that tells the
replies of this program apart. -/
theorem separate_of_messages (P : HttpParser) (jc : JsonCpp) (rand : ℕ → ℤ)
    (hempty : jc.parse [] = .ok none)
    (hwrite : ∀ a b : Members, Speakable a → Speakable b →
      jc.write (.obj a.entries) = jc.write (.obj b.entries) → a = b)
    (s : http_session P) (es : List Arrival)
    (hes : (conversation jc (client.env rand)).Along (Uncontaminated jc (client.env rand))
      (fresh s) es) :
    (conversation jc (client.env rand)).Along (Separate jc (client.env rand)) (fresh s) es := by
  apply along_spoken ?_ hes
  intro s m ms n hs hsp hm
  exact separate_of_uncontaminated hempty hwrite hs hsp hm

end MyWarehouse

/-
The texts a connection writes are those of a conversation.

All messages of a connection end in one read: a session whose handler has answered
reads no more. What that read makes the parser report, after the pieces of body that
earlier reads have reported, is a list of messages; so what is said about the messages
of a conversation holds of the connections of the server.
-/
import MyWarehouse.Contamination
import MyWarehouse.OneResponse

set_option autoImplicit false

namespace MyWarehouse

open client_manager http_session

variable {P : HttpParser} {jc : JsonCpp} {env : ClientEnv} {s s' : http_session P}

/-- The pieces of body so far, and one more. -/
theorem on_bodies_concat (s : http_session P) (p : List (ℕ × ℕ)) (off len : ℕ) :
    s.on_bodies 0 (p ++ [(off, len)]) = (s.on_bodies 0 p).on_body off len := by
  have hlast : s.on_bodies 0 (p ++ [(off, len)]) = s.on_body off len := by
    rw [on_bodies, List.getLast?_concat]
    simp only [Nat.zero_add]
  rw [hlast, on_bodies]
  rcases p.getLast? with _ | ⟨at_, n⟩
  · rfl
  · rfl

/-- A message that is answered ends the reading. -/
theorem deliver_process (m : Arrival) (hs : s.threw = false)
    (hs' : (deliver jc env m s).2.threw = false) : (deliver jc env m s).2.process_ = true := by
  have hpieces : (s.on_bodies 0 m.bodies).threw = false := by
    obtain ⟨-, -, -, -, -, -, -, -, -, hthrew⟩ := on_bodies_fields s 0 m.bodies
    exact hthrew.trans hs
  rw [deliver_eq jc env m hs] at hs' ⊢
  obtain ⟨w', r, heq | ⟨text, heq⟩⟩ :=
    on_message_complete_cases (client_manager.handler jc env) m.cm _ hpieces
  · rw [heq] at hs'
    cases hs'
  · rw [heq]
    exact Bool.or_true _

/-- The callbacks of one read, which starts at `off` after the pieces `p` of a
message, are a conversation and the first pieces of a message that goes on. -/
theorem conversation_of_callbacks (jc : JsonCpp) (env : ClientEnv) (off : ℕ)
    {cm : client_manager} (hcm : cm.Valid)
    (hs : s.threw = false) (hsp : ∃ ms n, Spoken s ms n) (p : List (ℕ × ℕ))
    (cs : List Callback) :
    ∃ es p' s', (conversation jc env).run s es = some s' ∧
      (callbacks (client_manager.handler jc env) off cm (s.on_bodies 0 p) cs).2
        = s'.on_bodies 0 p' ∧
      (callbacks (client_manager.handler jc env) off cm (s.on_bodies 0 p) cs).1.Valid ∧
      (es = [] ∨ s'.process_ = true ∨ s'.threw = true) := by
  have hpieces : (s.on_bodies 0 p).threw = false := by
    obtain ⟨-, -, -, -, -, -, -, -, -, hthrew⟩ := on_bodies_fields s 0 p
    exact hthrew.trans hs
  induction cs generalizing cm s p with
  | nil => exact ⟨[], p, s, rfl, rfl, hcm, Or.inl rfl⟩
  | cons c cs ih =>
    rcases c with ⟨at_, len⟩ | _
    · -- one more piece
      have hcons : callbacks (client_manager.handler jc env) off cm (s.on_bodies 0 p)
          (.on_body at_ len :: cs)
          = callbacks (client_manager.handler jc env) off cm
            (s.on_bodies 0 (p ++ [(off + at_, len)])) cs := by
        have hthrew : ((s.on_bodies 0 p).on_body (off + at_) len).threw = false := hpieces
        rw [on_bodies_concat]
        simp only [callbacks, callback, hthrew, Bool.false_eq_true, if_false]
      rw [hcons]
      refine ih hcm hs hsp _ ?_
      rw [on_bodies_concat]
      exact hpieces
    · -- a message is complete
      obtain ⟨ms, n, hspoken⟩ := hsp
      let m : Arrival := ⟨p, cm, hcm⟩
      have hfirst : (s.on_bodies 0 p).on_message_complete (client_manager.handler jc env) cm
          = deliver jc env m s := (deliver_eq jc env m hs).symm
      have hstep : (conversation jc env).step s m = some (deliver jc env m s).2 := by
        simp only [conversation, hs, Bool.false_eq_true, if_false]
      have hvalid : (deliver jc env m s).1.Valid := deliver_valid hs hspoken
      simp only [callbacks, callback, hfirst]
      by_cases hthrew : (deliver jc env m s).2.threw = true
      · rw [if_pos hthrew]
        exact ⟨[m], [], _, Transition.run_cons hstep, rfl, hvalid, Or.inr (Or.inr hthrew)⟩
      · rw [if_neg hthrew]
        have hthrew' := Bool.eq_false_iff.mpr hthrew
        obtain ⟨es, p', s', hrun, hcs, hvalid', hend⟩ :=
          ih (s := (deliver jc env m s).2) hvalid hthrew'
            (spoken_step (fun _ => ⟨ms, n, hspoken⟩) hstep hthrew') [] hthrew'
        refine ⟨m :: es, p', s', (Transition.run_cons hstep).trans hrun, hcs, hvalid', ?_⟩
        rcases hend with rfl | hend
        · obtain rfl := Option.some.inj hrun
          exact Or.inr (Or.inl (deliver_process m hs hthrew'))
        · exact Or.inr hend

/-- A session that has answered nothing: it may have read the first pieces of a
message. -/
structure Waiting (s : http_session P) : Prop where
  threw : s.threw = false
  process_ : s.process_ = false
  written : s.written = []
  response_ : s.response_ = response.ctor
  request_ : s.request_ = request.ctor ∨ ∃ off len, s.request_ = ⟨some off, len⟩

/-- A session that has had a conversation and reads no more. -/
structure Answering (jc : JsonCpp) (env : ClientEnv) (s : http_session P) : Prop where
  reads : s.reads = []
  texts : ∃ (s₀ s' : http_session P) (es : List Arrival), s₀.written = [] ∧
    (conversation jc env).run (fresh s₀) es = some s' ∧ s.written = s'.written

/-- What has been read of the first message makes a session that waits. -/
theorem Waiting.eq_on_bodies (hw : Waiting s) : ∃ p, s = (fresh s).on_bodies 0 p := by
  rcases hw.request_ with hrequest | ⟨off, len, hrequest⟩
  · refine ⟨[], ?_⟩
    show s = { s with request_ := request.ctor, response_ := response.ctor }
    rw [← hrequest, ← hw.response_]
  · refine ⟨[(off, len)], ?_⟩
    show s = { s with request_ := ⟨some (0 + off), len⟩, response_ := response.ctor }
    rw [Nat.zero_add, ← hrequest, ← hw.response_]

theorem Waiting.quiet (hw : Waiting s) (hq : Quiet s s') : Waiting s' := by
  refine ⟨hq.threw.trans hw.threw, hq.process_.trans hw.process_, hq.written.trans hw.written,
    hq.response_.trans hw.response_, ?_⟩
  rw [hq.request_]
  exact hw.request_

theorem Answering.quiet (ha : Answering jc env s) (hq : Quiet s s') : Answering jc env s' := by
  obtain ⟨s₀, s₁, es, hw₀, hrun, hwritten⟩ := ha.texts
  refine ⟨?_, s₀, s₁, es, hw₀, hrun, hq.written.trans hwritten⟩
  rcases hq.reads with hreads | hreads
  · exact hreads.trans ha.reads
  · exact hreads

/-- Pieces of body leave a session waiting. -/
theorem Waiting.on_bodies (hthrew : s.threw = false) (hprocess : s.process_ = false)
    (hwritten : s.written = []) (p : List (ℕ × ℕ)) : Waiting ((fresh s).on_bodies 0 p) := by
  rw [http_session.on_bodies]
  rcases p.getLast? with _ | ⟨at_, len⟩
  · exact ⟨hthrew, hprocess, hwritten, rfl, Or.inl rfl⟩
  · exact ⟨hthrew, hprocess, hwritten, rfl, Or.inr ⟨_, _, rfl⟩⟩

/-- The session that has read and talked: it waits, or it is done. -/
theorem advance_talks {cm : client_manager} (hcm : cm.Valid) (hreads : s.reads = [])
    (hwait : s.process_ = false → Waiting s) (htalk : ∃ (s₀ s' : http_session P)
      (es : List Arrival), s₀.written = [] ∧ (conversation jc env).run (fresh s₀) es = some s' ∧
      s.written = s'.written) (length : ℕ) :
    cm.Valid ∧ Waiting (s.advance length) ∨ Answering jc env (s.advance length) := by
  rcases advance_cases s length with ⟨-, heq⟩ | ⟨hprocess, -, heq⟩ | ⟨hprocess, -, heq⟩
  · rw [heq]
    exact Or.inr ⟨hreads, htalk⟩
  · obtain ⟨hthrew, -, hwritten, hresponse, hrequest⟩ := hwait hprocess
    rw [heq]
    exact Or.inl ⟨hcm, hthrew, hprocess, hwritten, hresponse, hrequest⟩
  · obtain ⟨hthrew, -, hwritten, hresponse, hrequest⟩ := hwait hprocess
    rw [heq]
    exact Or.inl ⟨hcm, hthrew, hprocess, hwritten, hresponse, hrequest⟩

/-- A session that waits for its first message still waits after a read, or has had a
conversation. -/
theorem read_talks {cm cm' : client_manager} {now : ℕ} {bytes : Bytes} (hcm : cm.Valid)
    (hb : s.Buffered) (hw : Waiting s) (howned : s.owned = true)
    (hreads : s.reads = [(s.pos_, max_length - s.pos_)]) (hpos : 1 ≤ bytes.length)
    (hlen : bytes.length ≤ max_length - s.pos_)
    (hstep : s.step (client_manager.handler jc env) now cm (.read 0 bytes) = some (cm', s')) :
    cm'.Valid ∧ Waiting s' ∨ Answering jc env s' := by
  rw [read_step hb hw.threw howned hreads hpos hlen] at hstep
  have hwait : Waiting (s.receive bytes) :=
    ⟨hw.threw, hw.process_, hw.written, hw.response_, hw.request_⟩
  obtain ⟨p, hp⟩ := hwait.eq_on_bodies
  have hfresh : (fresh (s.receive bytes)).threw = false := hw.threw
  obtain ⟨es, p', s₁, hrun, hcs, hvalid, hend⟩ := conversation_of_callbacks jc env
    s.pos_ hcm hfresh ⟨_, _, spoken_fresh _⟩ p (P.http_parser_execute s.parser_ bytes).2
  rw [← hp] at hcs hvalid
  obtain ⟨w', rq, r, inv, wr, threw, hserved, -⟩ := callbacks_cases (client_manager.handler jc env)
    s.pos_ cm (s.receive bytes) hw.threw (P.http_parser_execute s.parser_ bytes).2
  have hnone : (callbacks (client_manager.handler jc env) s.pos_ cm (s.receive bytes)
      (P.http_parser_execute s.parser_ bytes).2).2.reads = [] := by
    rw [hserved]
    rfl
  generalize callbacks (client_manager.handler jc env) s.pos_ cm (s.receive bytes)
    (P.http_parser_execute s.parser_ bytes).2 = result at hstep hcs hvalid hnone
  obtain ⟨-, -, -, hprocess, -, -, -, -, hwritten, hthrew⟩ := on_bodies_fields s₁ 0 p'
  rw [← hcs] at hprocess hwritten hthrew
  have htalk : ∃ (s₀ s' : http_session P) (es : List Arrival), s₀.written = [] ∧
      (conversation jc env).run (fresh s₀) es = some s' ∧ result.2.written = s'.written :=
    ⟨s.receive bytes, s₁, es, hw.written, hrun, hwritten⟩
  simp only [Option.some.injEq] at hstep
  split_ifs at hstep with hthrown
  · obtain rfl : result.2 = s' := congrArg Prod.snd hstep
    exact Or.inr ⟨hnone, htalk⟩
  · obtain ⟨rfl, rfl⟩ := Prod.mk.inj hstep
    refine advance_talks hvalid hnone (fun hreading => ?_) htalk bytes.length
    rcases hend with rfl | hdone | hdone
    · -- no message was complete
      obtain rfl := Option.some.inj hrun
      rw [hcs]
      exact Waiting.on_bodies hwait.threw hwait.process_ hwait.written p'
    · rw [hprocess, hdone] at hreading
      cases hreading
    · rw [hthrew, hdone] at hthrown
      exact absurd rfl hthrown

/-- **What a connection writes is a conversation.** The texts of a connection, in any
run from `start` on, are those of a conversation on a fresh session. -/
theorem conversation_of_run {c : Connection P client_manager} {t₀ now : ℕ} {data_ : Bytes}
    (hdata : data_.length = max_length) {cm : client_manager} (hcm : cm.Valid)
    {es : List (ConnectionEvent client_manager)} (hes : ∀ e ∈ es, ∀ w, e = .elsewhere w → w.Valid)
    (hrun : (connection (client_manager.handler jc env)).run (Connection.start P t₀ now data_ cm) es
      = some c) :
    ∃ (s₀ s' : http_session P) (ms : List Arrival), s₀.written = [] ∧
      (conversation jc env).run (fresh s₀) ms = some s' ∧ c.session.written = s'.written := by
  have hstart : (Connection.start P t₀ now data_ cm).session.Buffered ∧
      (cm.Valid ∧ Waiting (Connection.start P t₀ now data_ cm).session ∨
        Answering jc env (Connection.start P t₀ now data_ cm).session) :=
    ⟨⟨hdata, Nat.zero_le _, Or.inr rfl⟩, Or.inl ⟨hcm, rfl, rfl, rfl, rfl, Or.inl rfl⟩⟩
  have hinv : c.session.Buffered ∧
      (c.world.Valid ∧ Waiting c.session ∨ Answering jc env c.session) := by
    refine Transition.invariant_along (P := fun c : Connection P client_manager =>
      c.session.Buffered ∧ (c.world.Valid ∧ Waiting c.session ∨ Answering jc env c.session))
      (fun c e c' hc he hstep => ?_) hstart (Transition.along_of_forall hes) hrun
    refine ⟨buffered_step hc.1 hstep, ?_⟩
    rcases e with d | w | e
    · obtain rfl := Option.some.inj hstep
      exact hc.2
    · obtain rfl := Option.some.inj hstep
      exact hc.2.imp (fun h => ⟨he w rfl, h.2⟩) id
    obtain ⟨⟨d, hd⟩ | ⟨w, hw⟩, -⟩ | ⟨e', w', s', heq, hsession, rfl⟩ := connection_cases hstep
    · cases hd
    · cases hw
    obtain rfl := ConnectionEvent.session.inj heq
    obtain ⟨-, ⟨bytes, rfl, howned, hreads, hpos, hlen⟩ | ⟨rfl, hq, -⟩⟩ := step_cases hc.1 hsession
    · rcases hc.2 with ⟨hvalid, hw⟩ | ha
      · exact read_talks hvalid hc.1 hw howned hreads hpos hlen hsession
      · rw [ha.reads] at hreads
        cases hreads
    · exact hc.2.imp (fun h => ⟨h.1, h.2.quiet hq⟩) fun h => h.quiet hq
  rcases hinv.2 with ⟨-, hw⟩ | ha
  · exact ⟨c.session, _, [], hw.written, rfl, rfl⟩
  · exact ha.texts

end MyWarehouse

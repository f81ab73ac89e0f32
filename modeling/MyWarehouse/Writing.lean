/-
The bytes a write sends.

`on_message_complete` calls `do_write(response_.end())`. The string is a temporary: it is
gone when this call expression ends. `async_write` keeps a reference to its bytes, and
its handler a `weak_ptr` to the session, so nothing else holds the string. What the
socket takes inside the call is read from the string; what it takes later is read from
memory that was given back, and may hold anything by then.

An operation is one such write. The system below is a connection with the operations its
session has started, one for each text that was handed to `do_write`.
-/
import MyWarehouse.OneResponse

set_option autoImplicit false

namespace MyWarehouse

open http_session

/-! ## One operation -/

/-- Who may hold the string: the temporary in the call expression, the session, or the
operation. -/
inductive Owner where
  | temporary
  | session
  | operation
  deriving DecidableEq, Repr

/-- A write that `do_write` has started. `text` is what `response_.end()` returned;
`memory` is what stands now where the string was, and `owners` those that hold it.
`sent` counts the bytes taken so far and `delivered` are these bytes; `result` is how the
operation ended. -/
structure Operation where
  text : Bytes
  memory : Bytes
  owners : List Owner
  sent : ℕ
  delivered : Bytes
  result : Option error_code
  deriving DecidableEq, Repr

/-- `do_write` when `async_write` has been given the buffer: it is the temporary that
holds the string. -/
def Operation.start (text : Bytes) : Operation where
  text := text
  memory := text
  owners := [.temporary]
  sent := 0
  delivered := []
  result := none

/-- The socket takes some bytes, the operation ends, the call expression ends, or memory
that nobody holds is used for something else. -/
inductive OperationEvent where
  | transfer (n : ℕ)
  | complete (ec : error_code)
  | release
  | reuse (bytes : Bytes)
  deriving DecidableEq, Repr

/-- Success is reported when all bytes were taken. -/
def operation : Transition Operation OperationEvent where
  step op
    | .transfer n =>
      if op.result = none ∧ 1 ≤ n ∧ op.sent + n ≤ op.text.length then
        some { op with
          sent := op.sent + n
          delivered := op.delivered ++ (op.memory.drop op.sent).take n }
      else none
    | .complete ec =>
      if op.result = none ∧ (ec = 0 → op.sent = op.text.length) then
        some { op with result := some ec }
      else none
    | .release =>
      if .temporary ∈ op.owners then some { op with owners := op.owners.erase .temporary }
      else none
    | .reuse bytes =>
      if op.owners = [] ∧ bytes.length = op.text.length then some { op with memory := bytes }
      else none

/-- The operation has taken every byte, or has ended. -/
def Operation.Taken (op : Operation) : Prop := op.sent = op.text.length ∨ op.result ≠ none

instance (op : Operation) : Decidable op.Taken :=
  inferInstanceAs (Decidable (_ ∨ _))

/-- The invariant: nobody but the temporary holds the string, the bytes delivered are the
first of the text, and what is still to be taken is held. -/
structure Operation.Sound (op : Operation) : Prop where
  owners : op.owners = [.temporary] ∨ op.owners = []
  sent : op.sent ≤ op.text.length
  delivered : op.delivered = op.text.take op.sent
  success : op.result = some 0 → op.sent = op.text.length
  held : op.owners ≠ [] → op.memory = op.text
  taken : op.owners = [] → op.Taken

theorem sound_start (text : Bytes) : (Operation.start text).Sound := by
  refine ⟨Or.inl rfl, Nat.zero_le _, (List.take_zero).symm, ?_, fun _ => rfl, ?_⟩
  · rintro ⟨⟩
  · rintro ⟨⟩

/-- What was delivered is the text, up to some byte, and all of it on success. -/
theorem Operation.Sound.delivers {op : Operation} (h : op.Sound) :
    op.delivered <+: op.text ∧ (op.result = some 0 → op.delivered = op.text) := by
  refine ⟨?_, fun hresult => ?_⟩
  · rw [h.delivered]
    exact List.take_prefix _ _
  · rw [h.delivered, h.success hresult, List.take_length]

/-- An operation that is still to take bytes has an owner of the string. -/
theorem Operation.Sound.owned {op op' : Operation} {n : ℕ} (h : op.Sound)
    (hstep : operation.step op (.transfer n) = some op') : op.owners ≠ [] := by
  simp only [operation] at hstep
  split_ifs at hstep with hcond
  obtain ⟨hresult, hpos, hlen⟩ := hcond
  intro hnone
  rcases h.taken hnone with hall | hended
  · omega
  · exact hended hresult

/-- When the temporary goes, nobody is left. -/
theorem Operation.Sound.released {op : Operation} (h : op.Sound) (howned : op.owners ≠ []) :
    op.owners.erase .temporary = [] := by
  rcases h.owners with hone | hnone
  · rw [hone]
    rfl
  · exact absurd hnone howned

/-- **A step keeps the invariant** when the call expression ends only after every byte was
taken or the operation has ended. -/
theorem sound_step {op op' : Operation} {e : OperationEvent} (h : op.Sound)
    (he : e = .release → op.Taken) (hstep : operation.step op e = some op') : op'.Sound := by
  rcases e with n | ec | _ | bytes
  · -- what is taken is read from the text, because the temporary still holds it
    have howned := h.owned hstep
    simp only [operation] at hstep
    split_ifs at hstep with hcond
    obtain ⟨hresult, hpos, hlen⟩ := hcond
    obtain rfl := Option.some.inj hstep
    refine ⟨h.owners, hlen, ?_, fun hsuccess => ?_, h.held, fun hnone => absurd hnone howned⟩
    · show op.delivered ++ (op.memory.drop op.sent).take n = op.text.take (op.sent + n)
      rw [h.held howned, h.delivered, List.take_add]
    · rw [show op.result = some 0 from hsuccess] at hresult
      cases hresult
  · simp only [operation] at hstep
    split_ifs at hstep with hcond
    obtain rfl := Option.some.inj hstep
    refine ⟨h.owners, h.sent, h.delivered, fun hsuccess => ?_, h.held, fun _ => Or.inr (by simp)⟩
    exact hcond.2 (Option.some.inj hsuccess)
  · simp only [operation] at hstep
    split_ifs at hstep with hheld
    obtain rfl := Option.some.inj hstep
    have howned : op.owners ≠ [] := List.ne_nil_of_mem hheld
    -- the last owner goes when nothing is left to take
    exact ⟨Or.inr (h.released howned), h.sent, h.delivered, h.success, fun _ => h.held howned,
      fun _ => he rfl⟩
  · simp only [operation] at hstep
    split_ifs at hstep with hcond
    obtain rfl := Option.some.inj hstep
    exact ⟨h.owners, h.sent, h.delivered, h.success, fun howned => absurd hcond.1 howned, h.taken⟩

/-- No step changes the text. -/
theorem operation_text {op op' : Operation} {e : OperationEvent}
    (hstep : operation.step op e = some op') : op'.text = op.text := by
  rcases e with n | ec | _ | bytes
  all_goals
    simp only [operation] at hstep
    split_ifs at hstep
    obtain rfl := Option.some.inj hstep
    rfl

/-! ## A connection and its operations -/

/-- A connection, with an operation for each text its session has handed to
`do_write`. -/
structure Delivery (P : HttpParser) (W : Type) where
  connection : Connection P W
  operations : List Operation

/-- Something happens at the connection, or to an operation. -/
inductive DeliveryEvent (W : Type) where
  | connection (e : ConnectionEvent W)
  | operation (i : ℕ) (e : OperationEvent)

/-- The event is the end of a write, which comes from an operation here. -/
def ConnectionEvent.written {W : Type} : ConnectionEvent W → Bool
  | .session (.write_done _) => true
  | _ => false

/-- Each `do_write` of a step starts an operation. The end of an operation is handled by
the session as the end of a write. -/
def delivery {P : HttpParser} {W : Type} (h : Handler W) :
    Transition (Delivery P W) (DeliveryEvent W) where
  step s
    | .connection e =>
      if e.written then none
      else match (connection h).step s.connection e with
        | none => none
        | some c => some ⟨c, s.operations ++
            (c.session.written.drop s.connection.session.written.length).map Operation.start⟩
    | .operation i e => match s.operations[i]? with
      | none => none
      | some op => match operation.step op e with
        | none => none
        | some op' => match e with
          | .complete ec => match (connection h).step s.connection (.session (.write_done ec)) with
            | none => none
            | some c => some ⟨c, s.operations.set i op'⟩
          | _ => some { s with operations := s.operations.set i op' }

/-- A connection right after `start`. -/
def Delivery.start (P : HttpParser) {W : Type} (t₀ now : ℕ) (data_ : Bytes) (w : W) :
    Delivery P W := ⟨Connection.start P t₀ now data_ w, []⟩

/-- When the call expression of an operation ends, the operation has taken every byte, or
has ended. -/
def TakenInCall {P : HttpParser} {W : Type} (s : Delivery P W) (e : DeliveryEvent W) : Prop :=
  ∀ i op, e = .operation i .release → s.operations[i]? = some op → op.Taken

/-- The bytes an operation takes are read from a string that has an owner. -/
def FromOwned {P : HttpParser} {W : Type} (s : Delivery P W) (e : DeliveryEvent W) : Prop :=
  ∀ i n op, e = .operation i (.transfer n) → s.operations[i]? = some op → op.owners ≠ []

section Steps

variable {P : HttpParser} {W : Type} {h : Handler W} {s s' : Delivery P W} {e : DeliveryEvent W}

/-- The connection moves and starts operations, or an operation moves; when it ends, the
session handles that. -/
theorem delivery_cases (hstep : (delivery h).step s e = some s') :
    (∃ e' c, e = .connection e' ∧ (connection h).step s.connection e' = some c ∧
      s' = ⟨c, s.operations ++
        (c.session.written.drop s.connection.session.written.length).map Operation.start⟩) ∨
    ∃ i e' op op', e = .operation i e' ∧ s.operations[i]? = some op ∧
      operation.step op e' = some op' ∧ s'.operations = s.operations.set i op' ∧
      (s'.connection = s.connection ∨ ∃ ec,
        (connection h).step s.connection (.session (.write_done ec)) = some s'.connection) := by
  rcases e with e | ⟨i, e⟩
  · left
    simp only [delivery] at hstep
    split_ifs at hstep
    rcases hc : (connection h).step s.connection e with _ | c
    · simp only [hc] at hstep
      cases hstep
    · simp only [hc] at hstep
      exact ⟨e, c, rfl, hc, (Option.some.inj hstep).symm⟩
  · right
    simp only [delivery] at hstep
    rcases hop : s.operations[i]? with _ | op
    · simp only [hop] at hstep
      cases hstep
    simp only [hop] at hstep
    rcases hop' : operation.step op e with _ | op'
    · simp only [hop'] at hstep
      cases hstep
    simp only [hop'] at hstep
    rcases e with n | ec | _ | bytes
    case complete =>
      rcases hc : (connection h).step s.connection (.session (.write_done ec)) with _ | c
      · simp only [hc] at hstep
        cases hstep
      · simp only [hc] at hstep
        obtain rfl := Option.some.inj hstep
        exact ⟨i, _, op, op', rfl, hop, hop', rfl, Or.inr ⟨ec, hc⟩⟩
    all_goals
      obtain rfl := Option.some.inj hstep
      exact ⟨i, _, op, op', rfl, hop, hop', rfl, Or.inl rfl⟩

/-- **The operations are beside the connection**: without them it runs as it does alone. -/
theorem connection_of_delivery {es : List (DeliveryEvent W)} {s₀ s : Delivery P W}
    (hrun : (delivery h).run s₀ es = some s) :
    ∃ es', (connection h).run s₀.connection es' = some s.connection := by
  apply Transition.simulated (f := Delivery.connection) ?_ hrun
  intro s e s' hstep
  obtain ⟨e', c, rfl, hc, rfl⟩ | ⟨i, e', op, op', rfl, hop, hop', hops, hsame | ⟨ec, hc⟩⟩ :=
    delivery_cases hstep
  · exact Or.inr ⟨e', hc⟩
  · exact Or.inl hsame
  · exact Or.inr ⟨_, hc⟩

/-- A step of a connection only adds to what was written. -/
theorem written_step {c c' : Connection P W} {e : ConnectionEvent W} (hb : c.session.Buffered)
    (hstep : (connection h).step c e = some c') :
    ∃ wr, c'.session.written = c.session.written ++ wr := by
  obtain ⟨-, hsame⟩ | ⟨e, w', s', rfl, hsession, rfl⟩ := connection_cases hstep
  · exact ⟨[], by rw [hsame, List.append_nil]⟩
  obtain ⟨hthrew, ⟨bytes, rfl, howned, hreads, hpos, hlen⟩ | ⟨-, hq, -⟩⟩ := step_cases hb hsession
  · obtain ⟨inv, wr, hread, -⟩ := read_fields hb howned hthrew hreads hpos hlen hsession
    exact ⟨wr, hread.written⟩
  · exact ⟨[], hq.written.trans (List.append_nil _).symm⟩

/-- The end of a write writes nothing. -/
theorem written_write_done {c c' : Connection P W} {ec : error_code} (hb : c.session.Buffered)
    (hstep : (connection h).step c (.session (.write_done ec)) = some c') :
    c'.session.written = c.session.written := by
  obtain ⟨-, hsame⟩ | ⟨e, w', s', he, hsession, rfl⟩ := connection_cases hstep
  · rw [hsame]
  obtain rfl := ConnectionEvent.session.inj he
  obtain ⟨-, ⟨bytes, hread, -⟩ | ⟨-, hq, -⟩⟩ := step_cases hb hsession
  · cases hread
  · exact hq.written

/-- The invariant: one operation for each text handed to `do_write`, all of them sound. -/
structure Delivers (s : Delivery P W) : Prop where
  buffered : s.connection.session.Buffered
  texts : s.operations.map Operation.text = s.connection.session.written
  sound : ∀ op ∈ s.operations, op.Sound

theorem delivers_step (hs : Delivers s) (he : TakenInCall s e)
    (hstep : (delivery h).step s e = some s') : Delivers s' := by
  obtain ⟨e, c, rfl, hc, rfl⟩ | ⟨i, e, op, op', rfl, hop, hop', hops, hconnection⟩ :=
    delivery_cases hstep
  · obtain ⟨wr, hwr⟩ := written_step hs.buffered hc
    have hnew : c.session.written.drop s.connection.session.written.length = wr := by
      rw [hwr, List.drop_left]
    refine ⟨buffered_step hs.buffered hc, ?_, ?_⟩
    · show (s.operations ++ _).map Operation.text = c.session.written
      rw [hnew, List.map_append, hs.texts, hwr, List.map_map]
      exact congrArg _ (List.map_id wr)
    · intro op hop
      rcases List.mem_append.mp hop with hop | hop
      · exact hs.sound op hop
      · obtain ⟨text, -, rfl⟩ := List.mem_map.mp hop
        exact sound_start text
  · have hmem : op ∈ s.operations := List.mem_of_getElem? hop
    have hsound' : op'.Sound := by
      apply sound_step (hs.sound op hmem) ?_ hop'
      rintro rfl
      exact he i op rfl hop
    have htexts : s'.operations.map Operation.text = s.operations.map Operation.text := by
      rw [hops]
      exact Transition.map_set_of_eq Operation.text hop (operation_text hop')
    have hsound : ∀ t ∈ s'.operations, t.Sound := by
      intro t ht
      rw [hops] at ht
      rcases List.mem_or_eq_of_mem_set ht with ht | rfl
      · exact hs.sound t ht
      · exact hsound'
    rcases hconnection with hsame | ⟨ec, hc⟩
    · exact ⟨hsame ▸ hs.buffered, by rw [htexts, hsame, hs.texts], hsound⟩
    · refine ⟨buffered_step hs.buffered hc, ?_, hsound⟩
      rw [htexts, written_write_done hs.buffered hc, hs.texts]

theorem fromOwned_of_delivers (hs : Delivers s) (hstep : (delivery h).step s e = some s') :
    FromOwned s e := by
  rintro i n op rfl hop
  obtain ⟨e', c, he, -⟩ | ⟨i', e', op₁, op', he, hop₁, hop', -⟩ := delivery_cases hstep
  · cases he
  obtain ⟨rfl, rfl⟩ := DeliveryEvent.operation.inj he
  obtain rfl : op = op₁ := Option.some.inj (hop.symm.trans hop₁)
  exact (hs.sound op (List.mem_of_getElem? hop)).owned hop'

theorem start_delivers (P : HttpParser) {W : Type} (t₀ now : ℕ) {data_ : Bytes}
    (hdata : data_.length = max_length) (w : W) : Delivers (Delivery.start P t₀ now data_ w) :=
  ⟨⟨hdata, Nat.zero_le _, Or.inr rfl⟩, rfl, fun _ hop => absurd hop List.not_mem_nil⟩

end Steps

/-- **The bytes on the wire are the response** when each of them is taken inside the call.
In every run of a connection in which every operation has taken its whole text, or has
ended, when the call expression ends: bytes are taken from strings that have an owner
only, what an operation delivers is the text that was handed to `do_write` up to some
byte, and all of it when the operation reports success. -/
theorem delivers_response {P : HttpParser} {W : Type} (h : Handler W) (t₀ now : ℕ) (data_ : Bytes)
    (hdata : data_.length = max_length) (w : W) (es : List (DeliveryEvent W))
    (hes : (delivery h).Along TakenInCall (Delivery.start P t₀ now data_ w) es) :
    (delivery h).Along FromOwned (Delivery.start P t₀ now data_ w) es ∧
      ∀ s, (delivery h).run (Delivery.start P t₀ now data_ w) es = some s →
        s.operations.map Operation.text = s.connection.session.written ∧
        ∀ op ∈ s.operations, op.delivered <+: op.text ∧
          (op.result = some 0 → op.delivered = op.text) := by
  have hstart := start_delivers P t₀ now hdata w
  refine ⟨?_, fun s hrun => ?_⟩
  · exact Transition.along_mono (P := Delivers)
      (fun _ _ _ hs he hstep => delivers_step hs he hstep)
      (fun _ _ _ hs _ hstep => fromOwned_of_delivers hs hstep) hstart hes
  · have hs : Delivers s := Transition.invariant_along (P := Delivers)
      (fun _ _ _ hs he hstep => delivers_step hs he hstep) hstart hes hrun
    exact ⟨hs.texts, fun op hop => (hs.sound op hop).delivers⟩

instance {P : HttpParser} {W : Type} (s : Delivery P W) (e : DeliveryEvent W) :
    Decidable (TakenInCall s e) :=
  match e with
  | .operation i .release => decidable_of_iff (∀ op ∈ s.operations[i]?, op.Taken)
      ⟨by rintro hall _ op ⟨⟩ hop; exact hall op hop, fun hall op hop => hall i op rfl hop⟩
  | .operation _ (.transfer _) => isTrue (by rintro _ _ ⟨⟩)
  | .operation _ (.complete _) => isTrue (by rintro _ _ ⟨⟩)
  | .operation _ (.reuse _) => isTrue (by rintro _ _ ⟨⟩)
  | .connection _ => isTrue (by rintro _ _ ⟨⟩)

/-- The text a fresh response gives when its body is empty. -/
def empty_reply : Bytes := (response.ctor.end_ fun _ => []).2

/-- A request without a body. -/
def get_request : Bytes := bytes "GET / HTTP/1.1\r\n\r\n"

/-- The connection on which it comes. -/
def get_start : Delivery (.expecting [framing get_request]) Unit :=
  Delivery.start (.expecting [framing get_request]) 0 0 (List.replicate 2048 0) ()

/-- The socket takes the whole reply inside the call. -/
theorem delivers_response_at_once :
    ∃ s, (delivery still).run get_start [.connection (.session (.read 0 get_request)),
        .operation 0 (.transfer empty_reply.length), .operation 0 .release,
        .operation 0 (.complete 0)] = some s ∧
      ∀ op ∈ s.operations, op.delivered <+: op.text ∧
        (op.result = some 0 → op.delivered = op.text) := by
  have hruns : ((delivery still).run get_start [.connection (.session (.read 0 get_request)),
      .operation 0 (.transfer empty_reply.length), .operation 0 .release,
      .operation 0 (.complete 0)]).isSome := by
    decide +kernel
  obtain ⟨s, hrun⟩ := Option.isSome_iff_exists.mp hruns
  have hdelivers := delivers_response (P := .expecting [framing get_request]) still 0 0
    (List.replicate 2048 0) List.length_replicate () [.connection (.session (.read 0 get_request)),
      .operation 0 (.transfer empty_reply.length), .operation 0 .release,
      .operation 0 (.complete 0)] (by decide +kernel)
  exact ⟨s, hrun, (hdelivers.2 s hrun).2⟩

/-- The socket takes four bytes inside the call and the others when the memory of the
string has been used for something else: the write succeeds, and what it has delivered is
not the reply. -/
theorem not_delivers_response_later :
    ∃ s op, (delivery still).run get_start [.connection (.session (.read 0 get_request)),
        .operation 0 (.transfer 4), .operation 0 .release,
        .operation 0 (.reuse (List.replicate empty_reply.length 0)),
        .operation 0 (.transfer (empty_reply.length - 4)), .operation 0 (.complete 0)] = some s ∧
      s.operations[0]? = some op ∧ s.connection.session.written = [op.text] ∧
      op.text = empty_reply ∧ op.result = some 0 ∧ op.delivered ≠ op.text := by
  have hruns : ((delivery still).run get_start [.connection (.session (.read 0 get_request)),
      .operation 0 (.transfer 4), .operation 0 .release,
      .operation 0 (.reuse (List.replicate empty_reply.length 0)),
      .operation 0 (.transfer (empty_reply.length - 4)), .operation 0 (.complete 0)]).isSome := by
    decide +kernel
  obtain ⟨s, hrun⟩ := Option.isSome_iff_exists.mp hruns
  have hends : ∀ t ∈ (delivery still).run get_start
      [.connection (.session (.read 0 get_request)), .operation 0 (.transfer 4),
      .operation 0 .release, .operation 0 (.reuse (List.replicate empty_reply.length 0)),
      .operation 0 (.transfer (empty_reply.length - 4)), .operation 0 (.complete 0)],
      t.connection.session.written = [empty_reply] ∧
      (t.operations[0]?).map (fun op => (op.text, op.result)) = some (empty_reply, some 0) ∧
      (t.operations[0]?).map (fun op => decide (op.delivered = op.text)) = some false := by
    decide +kernel
  obtain ⟨hwritten, hop, hdelivered⟩ := hends s hrun
  obtain ⟨op, hop, heq⟩ := Option.map_eq_some_iff.mp hop
  obtain ⟨htext, hresult⟩ := Prod.mk.inj heq
  rw [hop, Option.map_some] at hdelivered
  refine ⟨s, op, hrun, hop, ?_, htext, hresult, ?_⟩
  · rw [htext]
    exact hwritten
  · exact of_decide_eq_false (Option.some.inj hdelivered)

/-- **What is taken later is read from released memory.** When a call expression ends
before its operation has taken every byte, the operation can go on, and reads from a
string that nobody owns. -/
theorem reads_released {P : HttpParser} {W : Type} {h : Handler W} {t₀ now : ℕ} {data_ : Bytes}
    (hdata : data_.length = max_length) {w : W} {es : List (DeliveryEvent W)}
    {s s' : Delivery P W} {e : DeliveryEvent W}
    (hes : (delivery h).Along TakenInCall (Delivery.start P t₀ now data_ w) es)
    (hrun : (delivery h).run (Delivery.start P t₀ now data_ w) es = some s)
    (hbad : ¬ TakenInCall s e) (hstep : (delivery h).step s e = some s') :
    ∃ i s'', (delivery h).step s' (.operation i (.transfer 1)) = some s'' ∧
      ¬ FromOwned s' (.operation i (.transfer 1)) := by
  have hs : Delivers s := Transition.invariant_along (P := Delivers)
    (fun _ _ _ hs he hstep => delivers_step hs he hstep) (start_delivers P t₀ now hdata w) hes hrun
  simp only [TakenInCall, not_forall] at hbad
  obtain ⟨i, op, rfl, hop, htaken⟩ := hbad
  obtain ⟨e', c, he, -⟩ | ⟨i', e', op₁, op', he, hop₁, hop', hops, -⟩ := delivery_cases hstep
  · cases he
  obtain ⟨rfl, rfl⟩ := DeliveryEvent.operation.inj he
  obtain rfl : op = op₁ := Option.some.inj (hop.symm.trans hop₁)
  have hsound := hs.sound op (List.mem_of_getElem? hop)
  unfold Operation.Taken at htaken
  rw [not_or, not_not] at htaken
  simp only [operation] at hop'
  split_ifs at hop' with hheld
  obtain rfl := Option.some.inj hop'
  have hreleased : op.owners.erase .temporary = [] := hsound.released (List.ne_nil_of_mem hheld)
  have hslot : s'.operations[i]? = some { op with owners := op.owners.erase .temporary } := by
    rw [hops]
    exact List.getElem?_set_self (List.getElem?_eq_some_iff.mp hop).1
  have hroom : op.sent + 1 ≤ op.text.length := by
    have hle := hsound.sent
    omega
  have hnext : ∃ s'', (delivery h).step s' (.operation i (.transfer 1)) = some s'' := by
    simp only [delivery, hslot, operation, htaken.2, hroom, le_refl, and_self, if_true]
    exact ⟨_, rfl⟩
  obtain ⟨s'', hnext⟩ := hnext
  exact ⟨i, s'', hnext, fun howned => howned i 1 _ rfl hslot hreleased⟩

end MyWarehouse

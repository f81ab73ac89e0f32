/-
`http_session.h` and `http_session.cpp`: one connection.

`http_parser_execute` is a parameter (`HttpParser`): what a session sees of it is
the callbacks it makes while it consumes the bytes of one read. The callbacks of a
session always return 0, so they do not steer the parser. `func_`, which
`http_server::invoke` calls, and `Json::FastWriter::write` are the parameters of
`Handler`; `func_` works on a state `W` that all connections share.

A session is its members together with what boost::asio holds for it: the pending
reads, writes and waits, whether its socket is open, and who owns it. A completion
handler locks a `weak_ptr` first and does nothing when no owner is left; the owners
are the set of sessions of the server and a running `OnAccept`.
-/
import MyWarehouse.Response
import MyWarehouse.Lib.Transition

set_option autoImplicit false

namespace MyWarehouse

/-! ## The parser and the handler -/

/-- The two callbacks a session installs. `at_` counts from the first of the bytes
the parser was given. -/
inductive Callback where
  | on_body (at_ len : ℕ)
  | on_message_complete
  deriving DecidableEq, Repr

/-- `http_parser`: its state after `http_parser_init`, and what
`http_parser_execute` makes of a state and the bytes of one read. -/
structure HttpParser where
  State : Type
  http_parser_init : State
  http_parser_execute : State → Bytes → State × List Callback

/-- What a session calls to answer a message: `http_server::invoke`, on the bytes of
the request body and the response, and `Json::FastWriter::write`. -/
structure Handler (W : Type) where
  invoke : W → Bytes → response → Except Exn Bool × W × response
  write : Value → Bytes

/-! ## The session -/

/-- `boost::asio::error::operation_aborted`. -/
def operation_aborted : error_code := 125

/-- `http_session::max_length`. -/
def max_length : ℕ := 2048

/-- `http_session`. The members of the class come first; `timer_` is the expiry of
the timer. Then what asio holds: `reads` are the pending reads, oldest first, each
with the offset in `data_` it fills and the room it has, `writes` and `waits` count
the pending writes and waits, `cancelled` says that the timer was cancelled. Then
the owners: `in_set` the set of the server, `held` a running `OnAccept`. The last
four are not kept by the program: when `start` was called, the bodies the handler
was called with, the texts handed to `do_write`, and whether the handler threw,
which ends the process. -/
structure http_session (P : HttpParser) where
  parser_ : P.State
  timer_ : ℕ
  data_ : Bytes
  pos_ : ℕ
  process_ : Bool
  request_ : request
  response_ : response
  reads : List (ℕ × ℕ)
  writes : ℕ
  waits : ℕ
  cancelled : Bool
  open_ : Bool
  in_set : Bool
  held : Bool
  started : ℕ
  invoked : List Bytes
  written : List Bytes
  threw : Bool

namespace http_session

variable {P : HttpParser} {W : Type}

/-- `http_session::http_session`: the timer is built with 30 seconds. The buffer is
not initialised; `data_` is what it happens to hold. `http_server::do_accept` holds
the new session. -/
def ctor (P : HttpParser) (now : ℕ) (data_ : Bytes) : http_session P where
  parser_ := P.http_parser_init
  timer_ := now + seconds 30
  data_ := data_
  pos_ := 0
  process_ := false
  request_ := request.ctor
  response_ := response.ctor
  reads := []
  writes := 0
  waits := 0
  cancelled := false
  open_ := true
  in_set := false
  held := true
  started := 0
  invoked := []
  written := []
  threw := false

/-- Some owner is left, so that a `weak_ptr` can be locked. -/
def owned (s : http_session P) : Bool := s.in_set || s.held

/-- `http_session::do_read`. -/
def do_read (s : http_session P) : http_session P :=
  { s with reads := s.reads ++ [(s.pos_, max_length - s.pos_)] }

/-- `http_session::do_write`. -/
def do_write (s : http_session P) (respons : Bytes) : http_session P :=
  { s with writes := s.writes + 1, written := s.written ++ [respons] }

/-- `http_session::close`: the socket, and `server_.erase`. -/
def close (s : http_session P) : http_session P :=
  { s with open_ := false, in_set := false }

/-- `http_session::start` up to its last line: the parser, and the wait on the
timer. -/
def start_wait (now : ℕ) (s : http_session P) : http_session P :=
  { s with parser_ := P.http_parser_init, waits := s.waits + 1, started := now }

/-- `http_session::start`. -/
def start (now : ℕ) (s : http_session P) : http_session P := (s.start_wait now).do_read

/-- The `on_body` callback; the pointer is kept as an offset in `data_`. -/
def on_body (s : http_session P) (off len : ℕ) : http_session P :=
  { s with request_ := ⟨some off, len⟩ }

/-- The `on_message_complete` callback. -/
def on_message_complete (h : Handler W) (w : W) (s : http_session P) : W × http_session P :=
  let body := s.request_.body s.data_
  let (bOK, w, response_) := h.invoke w body s.response_
  let s := { s with response_ := response_, invoked := s.invoked ++ [body] }
  match bOK with
  | .error _ => (w, { s with threw := true })
  | .ok _ =>
    let (response_, text) := s.response_.end_ h.write
    (w, { s with process_ := true, response_ := response_ }.do_write text)

/-- One callback, `off` being where in `data_` the bytes of the read start. -/
def callback (h : Handler W) (off : ℕ) (w : W) (s : http_session P) :
    Callback → W × http_session P
  | .on_body at_ len => (w, s.on_body (off + at_) len)
  | .on_message_complete => s.on_message_complete h w

/-- The callbacks `http_parser_execute` makes; an exception ends them. -/
def callbacks (h : Handler W) (off : ℕ) :
    W → http_session P → List Callback → W × http_session P
  | w, s, [] => (w, s)
  | w, s, c :: cs =>
    let (w, s) := s.callback h off w c
    if s.threw then (w, s) else callbacks h off w s cs

/-- The end of `http_session::onRead`, once the parser has seen `length` bytes. -/
def advance (s : http_session P) (length : ℕ) : http_session P :=
  let s := { s with pos_ := s.pos_ + length }
  if !s.process_ then
    if max_length ≤ s.pos_ then s.close else s.do_read
  else s

/-- `http_session::onRead`. -/
def onRead (h : Handler W) (w : W) (s : http_session P) (ec : error_code) (length : ℕ) :
    W × http_session P :=
  if ec = 0 then
    let (parser_, cs) := P.http_parser_execute s.parser_ ((s.data_.drop s.pos_).take length)
    let (w, s) := callbacks h s.pos_ w { s with parser_ := parser_ } cs
    if s.threw then (w, s) else (w, s.advance length)
  else (w, s.close)

/-- The handler of a completed write, with `http_session::onWrite`: whether it
failed or not, the timer is cancelled and the session closed. -/
def onWrite (s : http_session P) (_ec : error_code) : http_session P :=
  { s with cancelled := true }.close

/-- The bytes of a read go into the buffer. -/
def store (data_ : Bytes) (off : ℕ) (bytes : Bytes) : Bytes :=
  data_.take off ++ bytes ++ data_.drop (off + bytes.length)

end http_session

/-! ## What can happen to a session -/

/-- A completion that is handled, or the return of `OnAccept`. -/
inductive SessionEvent where
  | read (ec : error_code) (bytes : Bytes)
  | write_done (ec : error_code)
  | timer (ec : error_code)
  | release
  deriving DecidableEq, Repr

/-- A successful read delivers at least one byte and at most what it has room for,
a failed one nothing. A wait is aborted when the timer was cancelled or its session
is gone, and is over otherwise only when the timer has expired. -/
def http_session.step {P : HttpParser} {W : Type} (h : Handler W) (now : ℕ) (w : W)
    (s : http_session P) (e : SessionEvent) : Option (W × http_session P) :=
  if s.threw then none
  else match e with
  | .read ec bytes => match s.reads with
    | [] => none
    | (off, size) :: reads =>
      if ec = 0 ∧ 1 ≤ bytes.length ∧ bytes.length ≤ size ∨ ec ≠ 0 ∧ bytes = [] then
        let s := { s with reads := reads, data_ := store s.data_ off bytes }
        if s.owned then some (s.onRead h w ec bytes.length) else some (w, s)
      else none
  | .write_done ec =>
    if 0 < s.writes then
      let s := { s with writes := s.writes - 1 }
      some (w, if s.owned then s.onWrite ec else s)
    else none
  | .timer ec =>
    if 0 < s.waits ∧ (ec = operation_aborted ∧ (s.cancelled ∨ ¬ s.owned) ∨
        ec = 0 ∧ s.timer_ ≤ now) then
      let s := { s with waits := s.waits - 1 }
      some (w, if ec ≠ operation_aborted ∧ s.owned then s.close else s)
    else none
  | .release => if s.held then some (w, { s with held := false }) else none

/-- A connection with what it shares with the others. -/
structure Connection (P : HttpParser) (W : Type) where
  now : ℕ
  world : W
  session : http_session P

/-- Time passes, the others change what is shared, or the session moves. -/
inductive ConnectionEvent (W : Type) where
  | tick (d : ℕ)
  | elsewhere (w : W)
  | session (e : SessionEvent)

/-- One connection and its surroundings. -/
def connection {P : HttpParser} {W : Type} (h : Handler W) :
    Transition (Connection P W) (ConnectionEvent W) where
  step c
    | .tick d => some { c with now := c.now + d }
    | .elsewhere w => some { c with world := w }
    | .session e => match c.session.step h c.now c.world e with
      | none => none
      | some (w, s) => some { c with world := w, session := s }

/-- An event of a connection leaves its session alone, or is one of the session. -/
theorem connection_cases {P : HttpParser} {W : Type} {h : Handler W} {c c' : Connection P W}
    {e : ConnectionEvent W} (hstep : (connection h).step c e = some c') :
    ((∃ d, e = .tick d) ∨ ∃ w, e = .elsewhere w) ∧ c'.session = c.session ∨
    ∃ e' w s, e = .session e' ∧ c.session.step h c.now c.world e' = some (w, s) ∧
      c' = { c with world := w, session := s } := by
  rcases e with d | w | e
  · obtain rfl := Option.some.inj hstep
    exact Or.inl ⟨Or.inl ⟨d, rfl⟩, rfl⟩
  · obtain rfl := Option.some.inj hstep
    exact Or.inl ⟨Or.inr ⟨w, rfl⟩, rfl⟩
  · simp only [connection] at hstep
    rcases hs : c.session.step h c.now c.world e with _ | ⟨w, s⟩
    · rw [hs] at hstep
      cases hstep
    · rw [hs] at hstep
      exact Or.inr ⟨e, w, s, rfl, hs, (Option.some.inj hstep).symm⟩

theorem connection_step {P : HttpParser} {W : Type} {h : Handler W} {c : Connection P W}
    {e : SessionEvent} {w : W} {s : http_session P}
    (hstep : c.session.step h c.now c.world e = some (w, s)) :
    (connection h).step c (.session e) = some { c with world := w, session := s } := by
  simp only [connection, hstep]

/-- A connection whose session was constructed at `t₀`, put into the set of the
server, and started at `now`. -/
def Connection.start (P : HttpParser) {W : Type} (t₀ now : ℕ) (data_ : Bytes) (w : W) :
    Connection P W where
  now := now
  world := w
  session := ({ http_session.ctor P t₀ data_ with in_set := true } : http_session P).start now

/-! ## What the callbacks do -/

namespace http_session

variable {P : HttpParser} {W : Type} {h : Handler W} {off : ℕ} {w : W} {s : http_session P}

/-- The session `s` after callbacks that left the request `rq` and the response `r`,
called the handler with the bodies `inv` and wrote the texts `wr`. -/
def served (s : http_session P) (rq : request) (r : response) (inv wr : List Bytes)
    (threw : Bool) : http_session P :=
  { s with
    process_ := s.process_ || decide (0 < wr.length)
    request_ := rq
    response_ := r
    writes := s.writes + wr.length
    invoked := s.invoked ++ inv
    written := s.written ++ wr
    threw := threw }

theorem served_served (s : http_session P) (rq rq' : request) (r r' : response)
    (inv inv' wr wr' : List Bytes) (b b' : Bool) :
    (s.served rq r inv wr b).served rq' r' inv' wr' b'
      = s.served rq' r' (inv ++ inv') (wr ++ wr') b' := by
  have hprocess : (s.process_ || decide (0 < wr.length) || decide (0 < wr'.length))
      = (s.process_ || decide (0 < (wr ++ wr').length)) := by
    rw [Bool.or_assoc, ← Bool.decide_or]
    simp only [List.length_append, Nat.add_pos_iff_pos_or_pos]
  have hwrites : s.writes + wr.length + wr'.length = s.writes + (wr ++ wr').length := by
    rw [List.length_append]
    omega
  simp only [served, hprocess, hwrites, List.append_assoc]

theorem served_nil (hs : s.threw = false) :
    s.served s.request_ s.response_ [] [] false = s := by
  have heq : s.served s.request_ s.response_ [] [] false = { s with threw := false } := by
    simp only [served, List.length_nil, lt_irrefl, decide_false, Bool.or_false, Nat.add_zero,
      List.append_nil]
  rw [heq, ← hs]

/-- A complete message calls the handler once; when it does not throw, one reply is
written. -/
theorem on_message_complete_cases (h : Handler W) (w : W) (s : http_session P)
    (hs : s.threw = false) :
    ∃ w' r, s.on_message_complete h w
        = (w', s.served s.request_ r [s.request_.body s.data_] [] true) ∨
      ∃ text, s.on_message_complete h w
        = (w', s.served s.request_ r [s.request_.body s.data_] [text] false) := by
  rcases hr : h.invoke w (s.request_.body s.data_) s.response_ with ⟨e | b, w', r⟩
  · refine ⟨w', r, Or.inl ?_⟩
    simp only [on_message_complete, hr, served, List.length_nil, lt_irrefl, decide_false,
      Bool.or_false, Nat.add_zero, List.append_nil]
  · refine ⟨w', (r.end_ h.write).1, Or.inr ⟨(r.end_ h.write).2, ?_⟩⟩
    simp only [on_message_complete, hr, served, do_write, hs, List.length_singleton,
      Nat.one_pos, decide_true, Bool.or_true]

/-- The callbacks of one read: the handler is called and a reply written once for
each message they complete, or an exception ends them at a message that gets none.
Nothing else of the session changes but the request and the response. -/
theorem callbacks_cases (h : Handler W) (off : ℕ) (w : W) (s : http_session P)
    (hs : s.threw = false) (cs : List Callback) :
    ∃ w' rq r inv wr threw, callbacks h off w s cs = (w', s.served rq r inv wr threw) ∧
      (threw = false ∧ inv.length = cs.count .on_message_complete ∧ wr.length = inv.length ∨
        threw = true ∧ inv.length ≤ cs.count .on_message_complete ∧
          inv.length = wr.length + 1) := by
  induction cs generalizing w s with
  | nil =>
    refine ⟨w, s.request_, s.response_, [], [], false, ?_, Or.inl ⟨rfl, rfl, rfl⟩⟩
    rw [callbacks, served_nil hs]
  | cons c cs ih =>
    rcases c with ⟨at_, len⟩ | _
    · -- a piece of body changes the request only
      have hcons : callbacks h off w s (.on_body at_ len :: cs)
          = callbacks h off w (s.on_body (off + at_) len) cs := by
        simp only [callbacks, callback, on_body, hs, Bool.false_eq_true, if_false]
      obtain ⟨w', rq, r, inv, wr, threw, heq, hn⟩ := ih w (s.on_body (off + at_) len) hs
      refine ⟨w', rq, r, inv, wr, threw, hcons.trans heq, ?_⟩
      rw [List.count_cons_of_ne (by simp)]
      exact hn
    · rw [List.count_cons_self]
      obtain ⟨w', r, hthrows | ⟨text, hreply⟩⟩ := on_message_complete_cases h w s hs
      · refine ⟨w', s.request_, r, [s.request_.body s.data_], [], true, ?_,
          Or.inr ⟨rfl, by simp, rfl⟩⟩
        simp only [callbacks, callback, hthrows, served, if_true]
      · have hcons : callbacks h off w s (.on_message_complete :: cs) = callbacks h off w'
            (s.served s.request_ r [s.request_.body s.data_] [text] false) cs := by
          simp only [callbacks, callback, hreply, served, Bool.false_eq_true, if_false]
        obtain ⟨w'', rq, r', inv, wr, threw, heq, hn⟩ :=
          ih w' (s.served s.request_ r [s.request_.body s.data_] [text] false) rfl
        refine ⟨w'', rq, r', s.request_.body s.data_ :: inv, text :: wr, threw, ?_, ?_⟩
        · rw [hcons, heq, served_served]
          rfl
        · rcases hn with ⟨hthrew, hinv, hwr⟩ | ⟨hthrew, hinv, hwr⟩
          · exact Or.inl ⟨hthrew, by simp only [List.length_cons]; omega,
              by simp only [List.length_cons]; omega⟩
          · exact Or.inr ⟨hthrew, by simp only [List.length_cons]; omega,
              by simp only [List.length_cons]; omega⟩

/-- The end of a message, as the only callback. -/
theorem callbacks_complete (h : Handler W) (off : ℕ) (w : W) (s : http_session P) :
    callbacks h off w s [.on_message_complete] = s.on_message_complete h w := by
  rcases heq : s.on_message_complete h w with ⟨w', s'⟩
  simp only [callbacks, callback, heq, ite_self]

theorem on_message_complete_invoked (h : Handler W) (w : W) (s : http_session P) :
    (s.on_message_complete h w).2.invoked = s.invoked ++ [s.request_.body s.data_] := by
  rcases hr : h.invoke w (s.request_.body s.data_) s.response_ with ⟨e | b, w', r⟩
  · simp only [on_message_complete, hr]
  · simp only [on_message_complete, hr]
    rfl

/-- The session after the given pieces of body, each an offset in the read and a
length: only the last one counts. -/
def on_bodies (s : http_session P) (off : ℕ) (bodies : List (ℕ × ℕ)) : http_session P :=
  match bodies.getLast? with
  | none => s
  | some (at_, len) => s.on_body (off + at_) len

/-- Pieces of body change the request only. -/
theorem on_bodies_fields (s : http_session P) (off : ℕ) (bodies : List (ℕ × ℕ)) :
    (s.on_bodies off bodies).parser_ = s.parser_ ∧ (s.on_bodies off bodies).data_ = s.data_ ∧
      (s.on_bodies off bodies).pos_ = s.pos_ ∧
      (s.on_bodies off bodies).process_ = s.process_ ∧
      (s.on_bodies off bodies).response_ = s.response_ ∧
      (s.on_bodies off bodies).reads = s.reads ∧
      (s.on_bodies off bodies).owned = s.owned ∧
      (s.on_bodies off bodies).invoked = s.invoked ∧
      (s.on_bodies off bodies).written = s.written ∧
      (s.on_bodies off bodies).threw = s.threw := by
  rw [on_bodies]
  rcases bodies.getLast? with _ | ⟨at_, len⟩
  · exact ⟨rfl, rfl, rfl, rfl, rfl, rfl, rfl, rfl, rfl, rfl⟩
  · exact ⟨rfl, rfl, rfl, rfl, rfl, rfl, rfl, rfl, rfl, rfl⟩

theorem on_bodies_cons (s : http_session P) (off : ℕ) (b : ℕ × ℕ) (bodies : List (ℕ × ℕ)) :
    s.on_bodies off (b :: bodies) = (s.on_body (off + b.1) b.2).on_bodies off bodies := by
  rcases bodies with _ | ⟨b', bodies⟩
  · rfl
  · rw [on_bodies, on_bodies, List.getLast?_cons_cons]
    rcases hlast : (b' :: bodies).getLast? with _ | ⟨at_, len⟩
    · simp at hlast
    · rfl

/-- Pieces of body in front of other callbacks. -/
theorem callbacks_on_bodies (hs : s.threw = false) (bodies : List (ℕ × ℕ))
    (cs : List Callback) :
    callbacks h off w s (bodies.map (fun b => .on_body b.1 b.2) ++ cs)
      = callbacks h off w (s.on_bodies off bodies) cs := by
  induction bodies generalizing s with
  | nil => rfl
  | cons b bodies ih =>
    have hb : (s.on_body (off + b.1) b.2).threw = false := hs
    rw [on_bodies_cons, ← ih hb]
    simp only [List.map_cons, List.cons_append, callbacks, callback, hb, Bool.false_eq_true,
      if_false]

/-! ## The buffer -/

theorem length_store {data_ bytes : Bytes} {off : ℕ} (h : off + bytes.length ≤ data_.length) :
    (store data_ off bytes).length = data_.length := by
  simp only [store, List.length_append, List.length_take, List.length_drop]
  omega

/-- What was stored can be read back. -/
theorem drop_store {data_ : Bytes} {off : ℕ} (bytes : Bytes) (h : off ≤ data_.length) :
    ((store data_ off bytes).drop off).take bytes.length = bytes := by
  have hoff : (data_.take off).length = off := by
    rw [List.length_take]
    omega
  rw [store, List.append_assoc, List.drop_append_of_le_length hoff.ge,
    List.drop_of_length_le hoff.le, List.nil_append, List.take_left]

/-- The bytes before the place of a store stay. -/
theorem take_store {data_ : Bytes} {off n : ℕ} (bytes : Bytes) (h : off ≤ data_.length)
    (hn : n ≤ off) : (store data_ off bytes).take n = data_.take n := by
  have hoff : (data_.take off).length = off := by
    rw [List.length_take]
    omega
  rw [store, List.append_assoc, List.take_append_of_le_length (by omega), List.take_take,
    Nat.min_eq_left hn]

/-- The buffer has its size, `pos_` is in it, and at most one read is pending, which
fills the buffer from `pos_` on. -/
structure Buffered (s : http_session P) : Prop where
  length : s.data_.length = max_length
  pos : s.pos_ ≤ max_length
  reads : s.reads = [] ∨ s.reads = [(s.pos_, max_length - s.pos_)]

/-- A read without error. -/
theorem onRead_zero (h : Handler W) (w : W) (s : http_session P) (length : ℕ) :
    s.onRead h w 0 length =
      let e := P.http_parser_execute s.parser_ ((s.data_.drop s.pos_).take length)
      let r := callbacks h s.pos_ w { s with parser_ := e.1 } e.2
      if r.2.threw then r else (r.1, r.2.advance length) := by
  rw [onRead, if_pos rfl]

/-- The session the callbacks of a successful read start from. -/
def receive (s : http_session P) (bytes : Bytes) : http_session P :=
  { s with
    reads := []
    data_ := store s.data_ s.pos_ bytes
    parser_ := (P.http_parser_execute s.parser_ bytes).1 }

/-- A successful read of an owned session: the parser sees the bytes of the read. -/
theorem read_step {now : ℕ} (hb : s.Buffered) (hs : s.threw = false) (howned : s.owned = true)
    (hreads : s.reads = [(s.pos_, max_length - s.pos_)]) {bytes : Bytes}
    (hpos : 1 ≤ bytes.length) (hlen : bytes.length ≤ max_length - s.pos_) :
    s.step h now w (.read 0 bytes) =
      let r := callbacks h s.pos_ w (s.receive bytes) (P.http_parser_execute s.parser_ bytes).2
      some (if r.2.threw then r else (r.1, r.2.advance bytes.length)) := by
  have hle : s.pos_ ≤ s.data_.length := by
    have := hb.pos
    rw [hb.length]
    omega
  have hslice := drop_store bytes hle
  have howned' : owned { s with reads := [], data_ := store s.data_ s.pos_ bytes } = true :=
    howned
  have hthrew : ¬ s.threw = true := by
    rw [hs]
    exact Bool.false_ne_true
  rw [step, if_neg hthrew]
  simp only [hreads, hpos, hlen, and_self, true_or, if_true, howned', onRead_zero, hslice]
  rfl

/-- What a successful read of an owned session leaves: the session after the callbacks,
and unless one of them threw, read on or closed. -/
theorem read_leaves {now : ℕ} (hb : s.Buffered) (hs : s.threw = false) (howned : s.owned = true)
    (hreads : s.reads = [(s.pos_, max_length - s.pos_)]) {bytes : Bytes}
    (hpos : 1 ≤ bytes.length) (hlen : bytes.length ≤ max_length - s.pos_) {w' : W}
    {s' : http_session P} (hstep : s.step h now w (.read 0 bytes) = some (w', s')) :
    ∃ rq r inv wr threw,
      s' = (if threw then (s.receive bytes).served rq r inv wr threw
        else ((s.receive bytes).served rq r inv wr threw).advance bytes.length) ∧
      (threw = false ∧
          inv.length = (P.http_parser_execute s.parser_ bytes).2.count .on_message_complete ∧
          wr.length = inv.length ∨
        threw = true ∧
          inv.length ≤ (P.http_parser_execute s.parser_ bytes).2.count .on_message_complete ∧
          inv.length = wr.length + 1) := by
  rw [read_step hb hs howned hreads hpos hlen] at hstep
  obtain ⟨w₁, rq, r, inv, wr, threw, heq, hn⟩ := callbacks_cases h s.pos_ w (s.receive bytes)
    hs (P.http_parser_execute s.parser_ bytes).2
  refine ⟨rq, r, inv, wr, threw, ?_, hn⟩
  simp only [heq, Option.some.injEq] at hstep
  rcases threw with _ | _
  · exact (congrArg Prod.snd hstep).symm
  · exact (congrArg Prod.snd hstep).symm

/-- What a step keeps that is not a successful read of an owned session. -/
structure Quiet (s s' : http_session P) : Prop where
  parser_ : s'.parser_ = s.parser_
  data_ : s'.data_.take s.pos_ = s.data_.take s.pos_
  pos_ : s'.pos_ = s.pos_
  process_ : s'.process_ = s.process_
  request_ : s'.request_ = s.request_
  response_ : s'.response_ = s.response_
  invoked : s'.invoked = s.invoked
  written : s'.written = s.written
  threw : s'.threw = s.threw
  length : s'.data_.length = s.data_.length
  writes : s'.writes ≤ s.writes
  reads : s'.reads = s.reads ∨ s'.reads = []

/-- A write or a wait that ends, the timer, the socket, the set and the owners: nothing else
changes with them. -/
theorem quiet_of_others (s : http_session P) {writes : ℕ} (hwrites : writes ≤ s.writes)
    (waits : ℕ) (cancelled open_ in_set held : Bool) :
    Quiet s { s with
      writes := writes, waits := waits, cancelled := cancelled, open_ := open_
      in_set := in_set, held := held } :=
  ⟨rfl, rfl, rfl, rfl, rfl, rfl, rfl, rfl, rfl, rfl, hwrites, Or.inl rfl⟩

/-! ## What a completion does -/

/-- What an event does to a session. A handler runs when it can lock its session;
otherwise its completion is dropped. -/
inductive Handled (h : Handler W) (now : ℕ) (w : W) (s : http_session P) :
    SessionEvent → W → http_session P → Prop where
  | read (ec : error_code) (bytes : Bytes) (off size : ℕ) (reads : List (ℕ × ℕ)) :
      s.reads = (off, size) :: reads →
      ec = 0 ∧ 1 ≤ bytes.length ∧ bytes.length ≤ size ∨ ec ≠ 0 ∧ bytes = [] →
      s.owned = true →
      Handled h now w s (.read ec bytes)
        (onRead h w { s with reads := reads, data_ := store s.data_ off bytes } ec bytes.length).1
        (onRead h w { s with reads := reads, data_ := store s.data_ off bytes } ec bytes.length).2
  | read_lost (ec : error_code) (bytes : Bytes) (off size : ℕ) (reads : List (ℕ × ℕ)) :
      s.reads = (off, size) :: reads →
      ec = 0 ∧ 1 ≤ bytes.length ∧ bytes.length ≤ size ∨ ec ≠ 0 ∧ bytes = [] →
      s.owned = false →
      Handled h now w s (.read ec bytes) w
        { s with reads := reads, data_ := store s.data_ off bytes }
  | write_done (ec : error_code) : 0 < s.writes → s.owned = true →
      Handled h now w s (.write_done ec) w (onWrite { s with writes := s.writes - 1 } ec)
  | write_lost (ec : error_code) : 0 < s.writes → s.owned = false →
      Handled h now w s (.write_done ec) w { s with writes := s.writes - 1 }
  | timer (ec : error_code) : 0 < s.waits → ec = 0 → s.timer_ ≤ now → s.owned = true →
      Handled h now w s (.timer ec) w (close { s with waits := s.waits - 1 })
  | timer_aborted (ec : error_code) : 0 < s.waits → ec = operation_aborted →
      s.cancelled = true ∨ s.owned = false →
      Handled h now w s (.timer ec) w { s with waits := s.waits - 1 }
  | timer_lost (ec : error_code) : 0 < s.waits → ec = 0 → s.timer_ ≤ now → s.owned = false →
      Handled h now w s (.timer ec) w { s with waits := s.waits - 1 }
  | release : s.held = true → Handled h now w s .release w { s with held := false }

/-- **What a step of a session does.** -/
theorem handled_of_step {now : ℕ} {e : SessionEvent} {w' : W} {s' : http_session P}
    (hstep : s.step h now w e = some (w', s')) : s.threw = false ∧ Handled h now w s e w' s' := by
  unfold step at hstep
  by_cases hthrew : s.threw = true
  · rw [if_pos hthrew] at hstep
    cases hstep
  refine ⟨Bool.eq_false_iff.mpr hthrew, ?_⟩
  rw [if_neg hthrew] at hstep
  rcases e with ⟨ec, bytes⟩ | ec | ec | _
  case read =>
    rcases hreads : s.reads with _ | ⟨⟨off, size⟩, reads⟩
    · simp only [hreads] at hstep
      cases hstep
    simp only [hreads] at hstep
    split_ifs at hstep with hread howned
    · have hresult := Prod.mk.inj (Option.some.inj hstep)
      rw [← hresult.1, ← hresult.2]
      exact .read ec bytes off size reads hreads hread howned
    · obtain ⟨rfl, rfl⟩ := Prod.mk.inj (Option.some.inj hstep)
      exact .read_lost ec bytes off size reads hreads hread (Bool.eq_false_iff.mpr howned)
  case write_done =>
    simp only at hstep
    split_ifs at hstep with hwrites howned
    · obtain ⟨rfl, rfl⟩ := Prod.mk.inj (Option.some.inj hstep)
      exact .write_done ec hwrites howned
    · obtain ⟨rfl, rfl⟩ := Prod.mk.inj (Option.some.inj hstep)
      exact .write_lost ec hwrites (Bool.eq_false_iff.mpr howned)
  case timer =>
    have hzero : (0 : error_code) ≠ operation_aborted := by decide
    simp only at hstep
    split_ifs at hstep with hover hcloses
    · obtain ⟨rfl, rfl⟩ := Prod.mk.inj (Option.some.inj hstep)
      obtain ⟨hwaits, ⟨hec, -⟩ | ⟨hec, hexpired⟩⟩ := hover
      · exact absurd hec hcloses.1
      · exact .timer ec hwaits hec hexpired hcloses.2
    · obtain ⟨rfl, rfl⟩ := Prod.mk.inj (Option.some.inj hstep)
      obtain ⟨hwaits, ⟨hec, haborts⟩ | ⟨rfl, hexpired⟩⟩ := hover
      · refine .timer_aborted ec hwaits hec ?_
        rw [← Bool.not_eq_true]
        exact haborts
      · -- the timer has expired, so nobody owns the session
        refine .timer_lost 0 hwaits rfl hexpired (Bool.eq_false_iff.mpr ?_)
        intro howned
        exact hcloses ⟨hzero, howned⟩
  case release =>
    simp only at hstep
    split_ifs at hstep with hheld
    obtain ⟨rfl, rfl⟩ := Prod.mk.inj (Option.some.inj hstep)
    exact .release hheld

/-- Every step is a successful read of an owned session, or quiet. -/
theorem step_cases {now : ℕ} (hb : s.Buffered) {e : SessionEvent} {w' : W}
    {s' : http_session P} (hstep : s.step h now w e = some (w', s')) :
    s.threw = false ∧
    ((∃ bytes, e = .read 0 bytes ∧ s.owned = true ∧
        s.reads = [(s.pos_, max_length - s.pos_)] ∧ 1 ≤ bytes.length ∧
        bytes.length ≤ max_length - s.pos_) ∨
      w' = w ∧ Quiet s s' ∧ ∀ bytes, e = .read 0 bytes → s.owned = false) := by
  obtain ⟨hthrew, hhandled⟩ := handled_of_step hstep
  refine ⟨hthrew, ?_⟩
  have hpos := hb.pos
  have hfits : s.pos_ ≤ s.data_.length := by
    rw [hb.length]
    exact hpos
  -- the read at the head is the only one, and fills the buffer from `pos_` on
  have hhead : ∀ off size reads, s.reads = (off, size) :: reads →
      off = s.pos_ ∧ size = max_length - s.pos_ ∧ reads = [] := by
    intro off size reads hreads
    rcases hb.reads with hnone | hone
    · rw [hnone] at hreads
      cases hreads
    · rw [hone] at hreads
      cases hreads
      exact ⟨rfl, rfl, rfl⟩
  cases hhandled with
  | read ec bytes off size reads hreads hread howned =>
    obtain ⟨rfl, rfl, rfl⟩ := hhead off size reads hreads
    rcases hread with ⟨rfl, hsome, hlen⟩ | ⟨hec, rfl⟩
    · exact Or.inl ⟨bytes, rfl, howned, hreads, hsome, hlen⟩
    · -- a failed read closes the session
      right
      rw [onRead, if_neg hec]
      refine ⟨rfl, ⟨rfl, ?_, rfl, rfl, rfl, rfl, rfl, rfl, rfl, ?_, le_refl _, Or.inr rfl⟩, ?_⟩
      · exact take_store [] hfits (le_refl _)
      · exact length_store (by rw [hb.length, List.length_nil, Nat.add_zero]; exact hpos)
      · intro bytes heq
        exact absurd (SessionEvent.read.inj heq).1 hec
  | read_lost ec bytes off size reads hreads hread howned =>
    obtain ⟨rfl, rfl, rfl⟩ := hhead off size reads hreads
    have hlen : bytes.length ≤ max_length - s.pos_ := by
      rcases hread with ⟨-, -, hlen⟩ | ⟨-, rfl⟩
      · exact hlen
      · exact Nat.zero_le _
    refine Or.inr ⟨rfl, ⟨rfl, take_store bytes hfits (le_refl _), rfl, rfl, rfl, rfl, rfl, rfl,
      rfl, length_store ?_, le_refl _, Or.inr rfl⟩, fun _ _ => howned⟩
    rw [hb.length]
    omega
  | write_done | write_lost => exact Or.inr ⟨rfl, quiet_of_others s (Nat.sub_le _ _) .., by simp⟩
  | timer | timer_aborted | timer_lost | release =>
    exact Or.inr ⟨rfl, quiet_of_others s (le_refl _) .., by simp⟩

/-- A session without reads, writes and waits has nothing to handle. -/
theorem step_none {now : ℕ} {e : SessionEvent} (hreads : s.reads = []) (hwrites : s.writes = 0)
    (hwaits : s.waits = 0) (he : e ≠ .release) : s.step h now w e = none := by
  rcases hstep : s.step h now w e with _ | ⟨w', s'⟩
  · rfl
  exfalso
  cases (handled_of_step hstep).2 with
  | read _ _ _ _ _ hsome | read_lost _ _ _ _ _ hsome =>
    rw [hreads] at hsome
    cases hsome
  | write_done _ hpos | write_lost _ hpos => exact hpos.ne' hwrites
  | timer _ hpos | timer_aborted _ hpos | timer_lost _ hpos => exact hpos.ne' hwaits
  | release => exact he rfl

/-- A successful read of an owned session, as a step of its connection. -/
theorem read_of_connection {c c' : Connection P W} {bytes : Bytes} (hb : c.session.Buffered)
    (howned : c.session.owned = true)
    (hstep : (connection h).step c (.session (.read 0 bytes)) = some c') :
    c.session.threw = false ∧
      c.session.reads = [(c.session.pos_, max_length - c.session.pos_)] ∧ 1 ≤ bytes.length ∧
      bytes.length ≤ max_length - c.session.pos_ ∧
      ∃ w', c.session.step h c.now c.world (.read 0 bytes) = some (w', c'.session) := by
  obtain ⟨⟨d, hd⟩ | ⟨w, hw⟩, -⟩ | ⟨e, w', s', he, hsession, rfl⟩ := connection_cases hstep
  · cases hd
  · cases hw
  obtain rfl := ConnectionEvent.session.inj he
  obtain ⟨hthrew, ⟨bytes', hbytes, -, hreads, hpos, hlen⟩ | ⟨-, -, hlost⟩⟩ :=
    step_cases hb hsession
  · obtain rfl : bytes = bytes' := (SessionEvent.read.inj hbytes).2
    exact ⟨hthrew, hreads, hpos, hlen, w', hsession⟩
  · rw [hlost bytes rfl] at howned
    cases howned

theorem Buffered.quiet {s' : http_session P} (hb : s.Buffered) (hq : Quiet s s') :
    s'.Buffered := by
  refine ⟨hq.length.trans hb.length, hq.pos_.le.trans hb.pos, ?_⟩
  rcases hq.reads with hreads | hreads
  · rw [hreads, hq.pos_]
    exact hb.reads
  · exact Or.inl hreads

/-- What `advance` does, by whether a message has completed and whether the buffer is
full. -/
theorem advance_cases (s : http_session P) (length : ℕ) :
    (s.process_ = true ∧ s.advance length = { s with pos_ := s.pos_ + length }) ∨
    (s.process_ = false ∧ max_length ≤ s.pos_ + length ∧
      s.advance length = { s with pos_ := s.pos_ + length }.close) ∨
    (s.process_ = false ∧ s.pos_ + length < max_length ∧
      s.advance length = { s with pos_ := s.pos_ + length }.do_read) := by
  rcases hp : s.process_ with _ | _
  · by_cases hfull : max_length ≤ s.pos_ + length
    · refine Or.inr (Or.inl ⟨rfl, hfull, ?_⟩)
      simp only [advance, hp, Bool.not_false, if_true, if_pos hfull]
    · refine Or.inr (Or.inr ⟨rfl, by omega, ?_⟩)
      simp only [advance, hp, Bool.not_false, if_true, if_neg hfull]
  · refine Or.inl ⟨rfl, ?_⟩
    simp only [advance, hp, Bool.not_true, Bool.false_eq_true, if_false]

theorem advance_invoked (s : http_session P) (length : ℕ) :
    (s.advance length).invoked = s.invoked := by
  rcases advance_cases s length with ⟨-, heq⟩ | ⟨-, -, heq⟩ | ⟨-, -, heq⟩
  · rw [heq]
  · rw [heq]
    rfl
  · rw [heq]
    rfl

/-! ## The timer -/

/-- What no step of a session changes, but for the number of waits, which only falls. -/
structure Timed (s s' : http_session P) : Prop where
  timer_ : s'.timer_ = s.timer_
  started : s'.started = s.started
  waits : s'.waits ≤ s.waits
  held : s'.held = s.held

theorem advance_timed (s : http_session P) (length : ℕ) : Timed s (s.advance length) := by
  obtain ⟨-, heq⟩ | ⟨-, -, heq⟩ | ⟨-, -, heq⟩ := advance_cases s length
  all_goals
    rw [heq]
    exact ⟨rfl, rfl, le_refl _, rfl⟩

/-- The handler of a read: an error closes the session; otherwise the parser runs, and what
it has called decides whether the session goes on. -/
theorem onRead_cases (h : Handler W) (w : W) (s : http_session P) (hs : s.threw = false)
    (ec : error_code) (length : ℕ) :
    (s.onRead h w ec length).2 = s.close ∨ ∃ parser_ rq r inv wr threw,
      (s.onRead h w ec length).2
          = served { s with parser_ := parser_ } rq r inv wr threw ∨
        (s.onRead h w ec length).2
          = (served { s with parser_ := parser_ } rq r inv wr threw).advance length := by
  by_cases hec : ec = 0
  · subst hec
    rw [onRead_zero]
    obtain ⟨w', rq, r, inv, wr, threw, hserved, -⟩ := callbacks_cases h s.pos_ w
      { s with parser_ := (P.http_parser_execute s.parser_ ((s.data_.drop s.pos_).take length)).1 }
      hs (P.http_parser_execute s.parser_ ((s.data_.drop s.pos_).take length)).2
    refine Or.inr ⟨(P.http_parser_execute s.parser_ ((s.data_.drop s.pos_).take length)).1,
      rq, r, inv, wr, threw, ?_⟩
    simp only [hserved]
    split_ifs
    · exact Or.inl rfl
    · exact Or.inr rfl
  · rw [onRead, if_neg hec]
    exact Or.inl rfl

theorem onRead_timed (h : Handler W) (w : W) (s : http_session P) (hs : s.threw = false)
    (ec : error_code) (length : ℕ) : Timed s (s.onRead h w ec length).2 := by
  obtain heq | ⟨parser_, rq, r, inv, wr, threw, heq | heq⟩ := onRead_cases h w s hs ec length
  · rw [heq]
    exact ⟨rfl, rfl, le_refl _, rfl⟩
  · rw [heq]
    exact ⟨rfl, rfl, le_refl _, rfl⟩
  · rw [heq]
    obtain ⟨htimer, hstarted, hwaits, hheld⟩ :=
      advance_timed (served { s with parser_ := parser_ } rq r inv wr threw) length
    exact ⟨htimer, hstarted, hwaits, hheld⟩

theorem step_timed {now : ℕ} {e : SessionEvent} {w' : W} {s' : http_session P}
    (he : e ≠ .release) (hstep : s.step h now w e = some (w', s')) : Timed s s' := by
  obtain ⟨hs, hhandled⟩ := handled_of_step hstep
  cases hhandled with
  | read ec bytes off size reads =>
    obtain ⟨htimer, hstarted, hwaits, hheld⟩ := onRead_timed h w
      { s with reads := reads, data_ := store s.data_ off bytes } hs ec bytes.length
    exact ⟨htimer, hstarted, hwaits, hheld⟩
  | read_lost | write_done | write_lost => exact ⟨rfl, rfl, le_refl _, rfl⟩
  | timer | timer_aborted | timer_lost => exact ⟨rfl, rfl, Nat.sub_le _ _, rfl⟩
  | release => exact absurd rfl he

/-- A wait that is over has been aborted, or the timer has expired. -/
theorem timer_step {now : ℕ} {ec : error_code} {w' : W} {s' : http_session P}
    (hstep : s.step h now w (.timer ec) = some (w', s')) :
    0 < s.waits ∧ (ec = operation_aborted ∨ s.timer_ ≤ now) := by
  cases (handled_of_step hstep).2 with
  | timer _ hwaits _ hexpired | timer_lost _ hwaits _ hexpired =>
    exact ⟨hwaits, Or.inr hexpired⟩
  | timer_aborted _ hwaits hec => exact ⟨hwaits, Or.inl hec⟩

end http_session

end MyWarehouse

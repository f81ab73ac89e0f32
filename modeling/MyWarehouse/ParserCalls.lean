/-
What holds over any sequence of calls of `http_parser_execute`.

Each call may bring its own callbacks, and they may return anything. As long as there is no
error, the assertions about the flags, the lengths and the header states hold in front of every
byte the loop looks at.
-/
import MyWarehouse.ParserBlocks

set_option autoImplicit false

namespace MyWarehouse

open Loop http_parser_execute

/-- The parsers there are after some calls. -/
inductive Reached : http_parser_struct → Prop
  | init (t : http_parser_type) : Reached (http_parser_init t)
  | call {parser : http_parser_struct} (settings : http_parser_settings) (data : Bytes)
      (hlen : parser.nread + data.length + 1 < 2 ^ 32) (h : Reached parser) :
      Reached (http_parser_execute settings parser data).2.1

section Calls

variable {settings : http_parser_settings} {parser : http_parser_struct} {data : Bytes}
  {x : Execution}

/-- A callback leaves the assertions, whatever it returns. -/
theorem callback_data_asserts (hx : Asserts x.parser) (f : http_data) (stop ret : ℕ) :
    Loop.Ends (fun x => Asserts x.parser) (fun r => Asserts r.2.parser)
      (x.callback_data settings f stop ret) := by
  refine (x.callback_data_keeps settings f stop ret).mono ?_ ?_
  · rintro y ⟨hy, -⟩
    rw [hy]
    exact hx
  · rintro r ⟨hr, -⟩
    rw [hr]
    exact asserts_errno _ _ hx

/-- So do those behind the loop. -/
theorem leftover_asserts (hx : Asserts x.parser) :
    Loop.Ends (fun x => Asserts x.parser) (fun r => Asserts r.2.parser)
      (leftover settings data x) := by
  refine (callback_data_asserts hx .header_field _ _).bind fun x hx => ?_
  refine (callback_data_asserts hx .header_value _ _).bind fun x hx => ?_
  refine (callback_data_asserts hx .url _ _).bind fun x hx => ?_
  refine (callback_data_asserts hx .body _ _).bind fun x hx => ?_
  exact callback_data_asserts hx .status _ _

/-- The end of the stream. -/
theorem eof_asserts (hx : Asserts x.parser) : Asserts (eof settings x).2.parser := by
  have hnotify := x.callback_notify_keeps settings .message_complete 0
  unfold eof
  split
  · rcases hcall : x.callback_notify settings .message_complete 0 with ret | y
    · rw [hcall] at hnotify
      dsimp only
      rw [hnotify.1]
      exact asserts_errno _ _ hx
    · rw [hcall] at hnotify
      dsimp only
      rw [hnotify.1]
      exact hx
  · exact hx
  · exact hx
  · exact hx
  · exact hx
  · exact asserts_errno _ _ hx

/-- The plain reading keeps them from its first byte to its last. -/
theorem bytewise_asserts (hp : Asserts parser.toparser_core) :
    Asserts (bytewise settings parser data).2.1 := by
  unfold bytewise
  dsimp only
  split_ifs with herrno hnil
  · exact hp
  · exact eof_asserts hp
  · have hloop : Loop.Ends (fun x => Asserts x.parser) (fun r => Asserts r.2.parser)
        (bytewise.loop settings 0 data (start parser) >>= leftover settings data) :=
      Loop.Ends.bind (each_asserts hp data 0) fun x hx => leftover_asserts hx
    rcases hx : bytewise.loop settings 0 data (start parser) >>= leftover settings data with r | x
    · rw [hx] at hloop
      exact hloop
    · rw [hx] at hloop
      exact hloop

/-- A call that ends without an error keeps the assertions. -/
theorem execute_asserts (hp : Asserts parser.toparser_core)
    (hlen : parser.nread + data.length + 1 < 2 ^ 32)
    (herrno : (http_parser_execute settings parser data).2.1.http_errno = .HPE_OK) :
    Asserts (http_parser_execute settings parser data).2.1.toparser_core := by
  obtain ⟨-, hover⟩ | heq := http_parser_execute_bytewise settings parser data hp hlen
  · rw [hover] at herrno
    cases herrno
  · have hkept := @bytewise_asserts settings parser data hp
    rw [heq] at hkept
    exact hkept

/-- The induction is on the calls. Behind an error there is nothing to show. -/
theorem Reached.asserts (h : Reached parser) :
    parser.http_errno = .HPE_OK → Asserts parser.toparser_core := by
  induction h with
  | init t =>
    intro _
    refine ⟨Nat.zero_le _, ?_⟩
    cases t
    · trivial
    · trivial
    · trivial
  | @call parser settings data hlen h ih =>
    intro herrno
    by_cases hok : parser.http_errno = .HPE_OK
    · exact execute_asserts (ih hok) hlen herrno
    · have hcall : http_parser_execute settings parser data = (0, parser, []) := if_pos hok
      rw [hcall] at herrno
      exact absurd herrno hok

/-- Any number of rounds keeps them. The induction is on the rounds; the plain reading that goes
along carries them from one to the next. -/
theorem loop_asserts {B : ℕ} (hB : B < 2 ^ 32) (rounds : ℕ) :
    ∀ p x y, FitsAt data.length B p x y → Asserts x.parser →
      Loop.Ends (fun x => Asserts x.parser) (fun _ => True) (loop settings data rounds p x) := by
  induction rounds with
  | zero => exact fun p x y _ hx => hx
  | succ rounds ih =>
    intro p x y h hx
    rw [loop]
    rcases hch : data[p]? with _ | ch
    · exact hx
    · obtain ⟨k, -, -, hround⟩ := @round_bytes settings _ _ _ _ _ _ h hB hx hch
      have hy : Asserts y.parser := by
        rw [h.parser]
        exact hx
      dsimp only
      rw [← bind_assoc]
      refine (((hround.and_ends (each_asserts hy _ p)).ends
        (I := fun r => ∃ y, FitsAt data.length B (r.1 + 1) r.2 y ∧ Asserts r.2.parser) ?_).bind ?_)
      · rintro ⟨q, x'⟩ y' ⟨⟨hq, hfits⟩, hasserts⟩
        rw [hfits.parser] at hasserts
        refine ⟨y', ?_, hasserts⟩
        rw [hq]
        exact hfits
      · rintro ⟨q, x'⟩ ⟨y', hfits, hasserts⟩
        exact ih (q + 1) x' y' hfits hasserts

end Calls

/-- **The assertions hold** in every call after any calls before it, whatever the callbacks
return: in front of every round of the loop, and in front of every byte of the plain reading. The
second says what the rounds leave out, since a round over a name or a value goes over many bytes
and asserts something of each. -/
theorem assertions_hold {parser : http_parser_struct} (h : Reached parser)
    (herrno : parser.http_errno = .HPE_OK) (settings : http_parser_settings) (data : Bytes)
    (hlen : parser.nread + data.length + 1 < 2 ^ 32) (n : ℕ) :
    Loop.Ends (fun x => Asserted x.parser) (fun _ => True)
        (http_parser_execute.loop settings data n 0 (start parser)) ∧
      Loop.Ends (fun x => Asserted x.parser) (fun _ => True)
        (bytewise.loop settings 0 (data.take n) (start parser)) := by
  have hasserts := h.asserts herrno
  have hfits : FitsAt data.length (parser.nread + data.length + 1) 0 (start parser)
      (start parser) := fits_start parser data
  constructor
  · exact (loop_asserts hlen n 0 _ _ hfits hasserts).mono (fun _ hx => hx.here)
      fun _ _ => trivial
  · exact (each_asserts hasserts (data.take n) 0).mono (fun _ hx => hx.here) fun _ _ => trivial

/-- Three rounds, and three bytes, of a first request. -/
theorem assertions_hold_get :
    Loop.Ends (fun x => Asserted x.parser) (fun _ => True)
        (http_parser_execute.loop ⟨fun _ => false, fun _ => false, false, fun _ => 0⟩
          (bytes "GET / HTTP/1.1\r\n\r\n") 3 0 (start (http_parser_init .HTTP_REQUEST))) ∧
      Loop.Ends (fun x => Asserted x.parser) (fun _ => True)
        (bytewise.loop ⟨fun _ => false, fun _ => false, false, fun _ => 0⟩ 0
          (bytes "GET") (start (http_parser_init .HTTP_REQUEST))) :=
  assertions_hold (.init .HTTP_REQUEST) rfl _ _ (by decide) 3

end MyWarehouse

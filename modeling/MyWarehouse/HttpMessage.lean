/-
The requests a client sends, and what a parser reports of them.

A request is laid out as its bytes in order, each marked with whether it belongs to
the entity body; nothing else of its form matters to a session. On the wire it arrives
in segments, one for each read; `reported` is what a session relies on
`http_parser_execute` for: `on_body` once for each run of body bytes inside one read,
and `on_message_complete` after the last byte.
-/
import MyWarehouse.HttpSession
import MyWarehouse.Lib.Segment

set_option autoImplicit false

namespace MyWarehouse

open Segment

/-! ## Requests -/

/-- The bytes of a message, those of the entity body marked. -/
abbrev Layout := List (UInt8 × Bool)

/-- Bytes that are not of the body. -/
def framing (bs : Bytes) : Layout := bs.map fun b => (b, false)

/-- Bytes of the body. -/
def content (bs : Bytes) : Layout := bs.map fun b => (b, true)

theorem length_framing (bs : Bytes) : (framing bs).length = bs.length := List.length_map _

theorem length_content (bs : Bytes) : (content bs).length = bs.length := List.length_map _

theorem framing_append (bs bs' : Bytes) : framing (bs ++ bs') = framing bs ++ framing bs' :=
  List.map_append

@[simp] theorem marked_framing (bs : Bytes) : marked (framing bs) = [] := by
  simp [marked, framing]

@[simp] theorem marked_content (bs : Bytes) : marked (content bs) = bs := by
  induction bs with
  | nil => rfl
  | cons b bs ih =>
    have hcons : marked (content (b :: bs)) = b :: marked (content bs) := rfl
    rw [hcons, ih]

/-! ## What the parser reports -/

/-- The `on_body` callbacks for one segment. -/
def body_calls (seg : Layout) : List Callback :=
  (runs 0 seg).map fun r => .on_body r.off r.data.length

/-- The callbacks for a message that arrives in the given segments, read by read. -/
def reported : List Layout → List (List Callback)
  | [] => []
  | [seg] => [body_calls seg ++ [.on_message_complete]]
  | seg :: seg' :: segs => body_calls seg :: reported (seg' :: segs)

/-- The callbacks a parser makes, read by read. -/
def HttpParser.feed (P : HttpParser) : P.State → List Bytes → List (List Callback)
  | _, [] => []
  | st, bs :: bss =>
    (P.http_parser_execute st bs).2 :: P.feed (P.http_parser_execute st bs).1 bss

/-- The parser reports the message however its bytes are split over reads. -/
def Reports (P : HttpParser) (m : Layout) : Prop :=
  ∀ segs : List Layout, (∀ seg ∈ segs, seg ≠ []) → segs.flatten = m →
    P.feed P.http_parser_init (segs.map elements) = reported segs

/-! ### A parser to run the model on -/

/-- Reading bytes when the given messages are expected, the first of which may have
been read in part. `off` is where in the read the bytes start. Bytes that are not the
expected ones stop the parser. -/
def scan : ℕ → List Layout → Bytes → List Layout × List Callback
  | _, [], _ => ([], [])
  | off, m :: ms, bs =>
    if elements m = bs.take m.length then
      let (rest, cs) := scan (off + m.length) ms (bs.drop m.length)
      (rest, (runs off m).map (fun r => .on_body r.off r.data.length)
        ++ .on_message_complete :: cs)
    else if (elements m).take bs.length = bs then
      (m.drop bs.length :: ms,
        (runs off (m.take bs.length)).map fun r => .on_body r.off r.data.length)
    else ([], [])

/-- The parser on a connection that carries the given messages one after the
other. -/
def HttpParser.expecting (ms : List Layout) : HttpParser where
  State := List Layout
  http_parser_init := ms
  http_parser_execute := scan 0

/-- The last bytes of the last message expected. -/
theorem scan_all (m : Layout) :
    scan 0 [m] (elements m) = ([], body_calls m ++ [.on_message_complete]) := by
  have htake : elements m = (elements m).take m.length :=
    (List.take_of_length_le (length_elements m).le).symm
  rw [scan, if_pos htake]
  rfl

/-- The first bytes of the message expected, which goes on with `rest`. -/
theorem scan_part (seg : Layout) {rest : Layout} (hrest : rest ≠ []) :
    scan 0 [seg ++ rest] (elements seg) = ([rest], body_calls seg) := by
  have hpos : 0 < rest.length := List.length_pos_iff.mpr hrest
  have hall : ¬ elements (seg ++ rest) = (elements seg).take (seg ++ rest).length := by
    intro heq
    have hlen := congrArg List.length heq
    rw [length_elements, List.length_take, length_elements, List.length_append] at hlen
    omega
  have hpart : (elements (seg ++ rest)).take (elements seg).length = elements seg := by
    rw [elements_append, List.take_left]
  rw [scan, if_neg hall, if_pos hpart, length_elements, List.drop_left, List.take_left]
  rfl

/-- The induction is on the segments still to come, which make up what is left of the
message. -/
theorem feed_expecting (ms : List Layout) {segs : List Layout} (hne : segs ≠ [])
    (hsegs : ∀ seg ∈ segs, seg ≠ []) :
    (HttpParser.expecting ms).feed [segs.flatten] (segs.map elements) = reported segs := by
  induction segs with
  | nil => exact absurd rfl hne
  | cons seg segs ih =>
    rcases segs with _ | ⟨seg', segs⟩
    · have hscan := scan_all seg
      simp only [List.flatten_cons, List.flatten_nil, List.append_nil, List.map_cons,
        List.map_nil, HttpParser.feed, HttpParser.expecting, hscan, reported]
    · have hrest : (seg' :: segs).flatten ≠ [] := by
        intro hnil
        rw [List.flatten_cons] at hnil
        exact hsegs seg' (by simp) (List.append_eq_nil_iff.mp hnil).1
      have hih := ih (List.cons_ne_nil _ _) fun t ht => hsegs t (List.mem_cons_of_mem _ ht)
      have hscan := scan_part seg hrest
      rw [List.flatten_cons, List.map_cons, reported, ← hih]
      simp only [HttpParser.feed, HttpParser.expecting, hscan]

/-- It reports a message that is the only one. -/
theorem reports_expecting {m : Layout} (hm : m ≠ []) : Reports (.expecting [m]) m := by
  rintro segs hsegs rfl
  refine feed_expecting [segs.flatten] ?_ hsegs
  rintro rfl
  exact hm rfl

/-- A handler that leaves the response as it is. -/
def still : Handler Unit where
  invoke w _ r := (.ok true, w, r)
  write _ := []

end MyWarehouse

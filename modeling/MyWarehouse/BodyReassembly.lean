/-
What the handler sees of a request body.

The `on_body` callback overwrites the pointer and the length of the request; the
container that would collect the pieces is commented out in `request`. The handler
therefore sees the last piece the parser reported, and nothing of the pieces before
it: the whole entity body exactly when it came in one piece.
-/
import MyWarehouse.HttpMessage

set_option autoImplicit false

namespace MyWarehouse

open Segment http_session

variable {P : HttpParser} {W : Type}

/-- The successful reads that deliver the given segments. -/
def reads (W : Type) (segs : List Layout) : List (ConnectionEvent W) :=
  segs.map fun seg => .session (.read 0 (elements seg))

/-- The last run of body bytes in the segments, or what was there before. -/
def last_body (prior : Bytes) (segs : List Layout) : Bytes :=
  ((segmentRuns segs).getLast?.map Run.data).getD prior

theorem last_body_cons (prior : Bytes) (seg : Layout) (segs : List Layout) :
    last_body prior (seg :: segs)
      = last_body (((runs 0 seg).getLast?.map Run.data).getD prior) segs := by
  rw [last_body, last_body, segmentRuns_cons, List.getLast?_append]
  rcases (segmentRuns segs).getLast? with _ | r
  · rfl
  · rfl

/-! ## The buffer and the request -/

/-- The body the request points to lies in the part of the buffer already read. -/
def Kept (s : http_session P) : Prop :=
  ∀ p, s.request_.body_ = some p → p + s.request_.len_ ≤ s.pos_

/-- A read does not touch what was read before. -/
theorem body_store {r : request} {data_ bs : Bytes} {off : ℕ} (hoff : off ≤ data_.length)
    (hr : ∀ p, r.body_ = some p → p + r.len_ ≤ off) :
    r.body (store data_ off bs) = r.body data_ := by
  unfold request.body
  rcases hp : r.body_ with _ | p
  · rfl
  · have hle := hr p hp
    have hcut : ∀ l : Bytes, (l.drop p).take r.len_ = (l.take (p + r.len_)).drop p := by
      intro l
      rw [List.drop_take, Nat.add_sub_cancel_left]
    show ((store data_ off bs).drop p).take r.len_ = (data_.drop p).take r.len_
    rw [hcut, hcut, take_store bs hoff hle]

/-- A run of a segment, seen in the buffer the segment was stored in. -/
theorem body_run {data_ : Bytes} {off : ℕ} {seg : Layout} {r : Run UInt8}
    (hoff : off ≤ data_.length) (hr : r ∈ runs 0 seg) :
    (request.body ⟨some (off + r.off), r.data.length⟩ (store data_ off (elements seg)))
      = r.data := by
  obtain ⟨-, hend, hslice⟩ := runs_slice hr
  have hstore := drop_store (elements seg) hoff
  show ((store data_ off (elements seg)).drop (off + r.off)).take r.data.length = r.data
  rw [← List.drop_drop]
  have hcut : ∀ l : Bytes, (l.drop r.off).take r.data.length
      = ((l.take (elements seg).length).drop r.off).take r.data.length := by
    intro l
    rw [List.drop_take, List.take_take, Nat.min_eq_left]
    rw [length_elements]
    omega
  rw [hcut, hstore]
  exact hslice

/-- The pieces of body in a segment, as `on_body` is given them. -/
def pieces (seg : Layout) : List (ℕ × ℕ) := (runs 0 seg).map fun r => (r.off, r.data.length)

theorem body_calls_eq (seg : Layout) :
    body_calls seg = (pieces seg).map fun b => .on_body b.1 b.2 := by
  rw [body_calls, pieces, List.map_map]
  rfl

/-- The request after the pieces of a segment that was stored at `pos_`: its body is
the last run of the segment, or the body it had. -/
theorem body_on_bodies {s : http_session P} (hb : s.Buffered) (hk : Kept s) (seg : Layout) :
    ((s.receive (elements seg)).on_bodies s.pos_ (pieces seg)).request_.body
        (store s.data_ s.pos_ (elements seg))
      = ((runs 0 seg).getLast?.map Run.data).getD (s.request_.body s.data_) := by
  have hoff : s.pos_ ≤ s.data_.length := by
    rw [hb.length]
    exact hb.pos
  rw [on_bodies, pieces, List.getLast?_map]
  rcases hlast : (runs 0 seg).getLast? with _ | r
  · exact body_store hoff hk
  · exact body_run hoff (List.mem_of_getLast? hlast)

/-- The pieces stay inside what has been read. -/
theorem kept_on_bodies {s : http_session P} (hk : Kept s) (seg : Layout) (p : ℕ)
    (hp : ((s.receive (elements seg)).on_bodies s.pos_ (pieces seg)).request_.body_ = some p) :
    p + ((s.receive (elements seg)).on_bodies s.pos_ (pieces seg)).request_.len_
      ≤ s.pos_ + seg.length := by
  rw [on_bodies, pieces, List.getLast?_map] at hp ⊢
  rcases hlast : (runs 0 seg).getLast? with _ | r
  · rw [hlast] at hp
    have := hk p hp
    simp only [Option.map_none]
    show p + s.request_.len_ ≤ s.pos_ + seg.length
    omega
  · rw [hlast] at hp
    obtain ⟨-, hend, -⟩ := runs_slice (List.mem_of_getLast? hlast)
    obtain rfl := Option.some.inj hp
    simp only [Option.map_some]
    show s.pos_ + r.off + r.data.length ≤ s.pos_ + seg.length
    omega

/-! ## The reads -/

/-- A session in the middle of its first message. -/
structure Reading (s : http_session P) : Prop where
  buffered : s.Buffered
  kept : Kept s
  owned : s.owned = true
  threw : s.threw = false
  process_ : s.process_ = false
  reads : s.reads = [(s.pos_, max_length - s.pos_)]
  invoked : s.invoked = []

section Reads

variable (h : Handler W) (now : ℕ) (w : W) {s : http_session P} {seg : Layout}

/-- The bytes of a segment that the buffer has room for are a read. -/
theorem length_of_fit {n : ℕ} {seg : Layout} (hne : seg ≠ [])
    (hfit : n + seg.length ≤ max_length) :
    1 ≤ (elements seg).length ∧ (elements seg).length ≤ max_length - n := by
  have hpos : 0 < seg.length := List.length_pos_iff.mpr hne
  rw [length_elements]
  omega

/-- A segment in which no message ends: the session has the pieces and reads on. -/
theorem read_on (hs : Reading s) (hne : seg ≠ []) (hfit : s.pos_ + seg.length < max_length)
    (hcalls : (P.http_parser_execute s.parser_ (elements seg)).2 = body_calls seg) :
    ∃ s', s.step h now w (.read 0 (elements seg)) = some (w, s') ∧ Reading s' ∧
      s'.parser_ = (P.http_parser_execute s.parser_ (elements seg)).1 ∧
      s'.pos_ = s.pos_ + seg.length ∧
      s'.request_.body s'.data_
        = ((runs 0 seg).getLast?.map Run.data).getD (s.request_.body s.data_) := by
  obtain ⟨hpos, hlen⟩ := length_of_fit hne hfit.le
  have hreceive : (s.receive (elements seg)).threw = false := hs.threw
  obtain ⟨hparser, hdata, hpos', hprocess, -, hreads, howned, hinvoked, -, hthrew⟩ :=
    on_bodies_fields (s.receive (elements seg)) s.pos_ (pieces seg)
  have hbody := body_on_bodies hs.buffered hs.kept seg
  have hkept := kept_on_bodies hs.kept seg
  rw [read_step hs.buffered hs.threw hs.owned hs.reads hpos hlen, hcalls, body_calls_eq,
    ← List.append_nil (List.map _ (pieces seg)), callbacks_on_bodies hreceive]
  -- from here on only the session after the pieces matters
  generalize (s.receive (elements seg)).on_bodies s.pos_ (pieces seg) = s₁ at *
  have hstored : s₁.data_.length = max_length := by
    rw [hdata]
    refine (length_store ?_).trans hs.buffered.length
    rw [hs.buffered.length, length_elements]
    omega
  have hp : s₁.pos_ = s.pos_ := hpos'
  simp only [callbacks, length_elements]
  rw [if_neg (by rw [hthrew]; exact Bool.eq_false_iff.mp hs.threw)]
  rcases advance_cases s₁ seg.length with ⟨hprocess', -⟩ | ⟨-, hfull, -⟩ | ⟨-, -, heq⟩
  · exact absurd (hprocess'.symm.trans (hprocess.trans hs.process_)) (by decide)
  · omega
  · refine ⟨_, rfl, ?_⟩
    rw [heq]
    refine ⟨⟨⟨hstored, by show s₁.pos_ + seg.length ≤ max_length; omega, Or.inr ?_⟩, ?_,
      howned.trans hs.owned, hthrew.trans hs.threw, hprocess.trans hs.process_, ?_,
      hinvoked.trans hs.invoked⟩, hparser, ?_, ?_⟩
    · simp only [do_read, hreads, receive, List.nil_append]
    · intro p hp'
      show p + s₁.request_.len_ ≤ s₁.pos_ + seg.length
      rw [hp]
      exact hkept p hp'
    · simp only [do_read, hreads, receive, List.nil_append]
    · show s₁.pos_ + seg.length = s.pos_ + seg.length
      rw [hp]
    · show s₁.request_.body s₁.data_ = _
      rw [hdata]
      exact hbody

/-- The segment in which the message ends: the handler sees the last piece of it, or
of the segments before when it has none. -/
theorem read_last (hs : Reading s) (hne : seg ≠ []) (hfit : s.pos_ + seg.length ≤ max_length)
    (hcalls : (P.http_parser_execute s.parser_ (elements seg)).2
      = body_calls seg ++ [.on_message_complete]) :
    ∃ w' s', s.step h now w (.read 0 (elements seg)) = some (w', s') ∧
      s'.invoked = [((runs 0 seg).getLast?.map Run.data).getD (s.request_.body s.data_)] := by
  obtain ⟨hpos, hlen⟩ := length_of_fit hne hfit
  have hreceive : (s.receive (elements seg)).threw = false := hs.threw
  obtain ⟨-, hdata, -, -, -, -, -, hinvoked, -, -⟩ :=
    on_bodies_fields (s.receive (elements seg)) s.pos_ (pieces seg)
  have hbody := body_on_bodies hs.buffered hs.kept seg
  rw [read_step hs.buffered hs.threw hs.owned hs.reads hpos hlen, hcalls, body_calls_eq,
    callbacks_on_bodies hreceive, callbacks_complete]
  have hseen : (((s.receive (elements seg)).on_bodies s.pos_ (pieces seg)).on_message_complete
      h w).2.invoked = [((runs 0 seg).getLast?.map Run.data).getD (s.request_.body s.data_)] := by
    rw [on_message_complete_invoked, hinvoked, hdata]
    refine (congrArg (· ++ _) hs.invoked).trans ?_
    rw [List.nil_append]
    exact congrArg (fun b => [b]) hbody
  generalize on_message_complete h w _ = r at hseen ⊢
  by_cases hthrew : r.2.threw = true
  · exact ⟨r.1, r.2, by simp only [if_pos hthrew], hseen⟩
  · refine ⟨r.1, r.2.advance (elements seg).length, by simp only [if_neg hthrew], ?_⟩
    rw [advance_invoked]
    exact hseen

/-- **What the handler sees** is the last run of body bytes the parser reported. The
induction is on the segments; the prior body is what the segments before left. -/
theorem reads_seen (hs : Reading s) {segs : List Layout} (hne : segs ≠ [])
    (hsegs : ∀ seg ∈ segs, seg ≠ []) (hfit : s.pos_ + segs.flatten.length ≤ max_length)
    (hfeed : P.feed s.parser_ (segs.map elements) = reported segs) :
    ∃ c, (connection h).run ⟨now, w, s⟩ (reads W segs) = some c ∧
      c.session.invoked = [last_body (s.request_.body s.data_) segs] := by
  induction segs generalizing s w with
  | nil => exact absurd rfl hne
  | cons seg segs ih =>
    have hseg : seg ≠ [] := hsegs seg List.mem_cons_self
    rw [List.flatten_cons, List.length_append] at hfit
    rw [List.map_cons, HttpParser.feed] at hfeed
    rcases segs with _ | ⟨seg', segs⟩
    · obtain ⟨w', s', hstep, hseen⟩ :=
        read_last h now w hs hseg (by omega) (List.cons.inj hfeed).1
      refine ⟨⟨now, w', s'⟩, Transition.run_cons (connection_step hstep), ?_⟩
      rw [last_body_cons]
      exact hseen
    · have hmore : 0 < (seg' :: segs).flatten.length := by
        rw [List.flatten_cons, List.length_append]
        have := List.length_pos_iff.mpr (hsegs seg' (by simp))
        omega
      obtain ⟨hcalls, hrest⟩ := List.cons.inj hfeed
      obtain ⟨s', hstep, hs', hparser, hpos, hbody⟩ :=
        read_on h now w hs hseg (by omega) hcalls
      obtain ⟨c, hrun, hseen⟩ := ih w hs' (List.cons_ne_nil _ _)
        (fun t ht => hsegs t (List.mem_cons_of_mem _ ht)) (by omega) (by rw [hparser, hrest])
      refine ⟨c, (Transition.run_cons (connection_step hstep)).trans hrun, ?_⟩
      rw [hseen, hbody, last_body_cons (s.request_.body s.data_) seg]

end Reads

/-- The handler is called once, with the last run; that is the whole body when there is no
other. -/
theorem body_seen_of_feed (h : Handler W) {m : Layout} (hne : m ≠ [])
    (hfit : m.length ≤ max_length) {segs : List Layout} (hsegs : ∀ seg ∈ segs, seg ≠ [])
    (hsplit : segs.flatten = m)
    (hfeed : P.feed P.http_parser_init (segs.map elements) = reported segs) (t₀ now : ℕ)
    {data_ : Bytes} (hdata : data_.length = max_length) (w : W) :
    ∃ c body, (connection h).run (Connection.start P t₀ now data_ w) (reads W segs) = some c ∧
      c.session.invoked = [body] ∧ (body = marked m ↔ (segmentRuns segs).length ≤ 1) := by
  have hstart : Reading (Connection.start P t₀ now data_ w).session :=
    ⟨⟨hdata, Nat.zero_le _, Or.inr rfl⟩, fun p hp => absurd hp (by simp [Connection.start, start,
      start_wait, do_read, ctor, request.ctor]), rfl, rfl, rfl, rfl, rfl⟩
  have hsegs_ne : segs ≠ [] := by
    rintro rfl
    exact hne hsplit.symm
  have hfit' : (Connection.start P t₀ now data_ w).session.pos_ + segs.flatten.length
      ≤ max_length := by
    rw [hsplit]
    show 0 + m.length ≤ max_length
    omega
  obtain ⟨c, hrun, hseen⟩ := reads_seen h now w hstart hsegs_ne hsegs hfit' hfeed
  refine ⟨c, _, hrun, hseen, ?_⟩
  rw [← hsplit, ← flatMap_segmentRuns]
  exact lastData_eq_flatMap_iff fun r hr => segmentRuns_ne_nil hr

/-- **Body reassembly.** For every request of at most 2048 bytes the parser reports, in
whatever form it is written, and every way of splitting it over reads: the handler is
called once, and sees the whole entity body if and only if over all reads and chunks the
body arrives in at most one run. -/
theorem body_seen_iff (P : HttpParser) (h : Handler W) (m : Layout) (hne : m ≠ [])
    (hP : Reports P m) (hfit : m.length ≤ max_length) (segs : List Layout)
    (hsegs : ∀ seg ∈ segs, seg ≠ []) (hsplit : segs.flatten = m) (t₀ now : ℕ)
    (data_ : Bytes) (hdata : data_.length = max_length) (w : W) :
    ∃ c body, (connection h).run (Connection.start P t₀ now data_ w) (reads W segs) = some c ∧
      c.session.invoked = [body] ∧ (body = marked m ↔ (segmentRuns segs).length ≤ 1) :=
  body_seen_of_feed h hne hfit hsegs hsplit (hP segs hsegs hsplit) t₀ now hdata w

/-- A request with a body of three bytes. -/
def small_post : Layout :=
  framing (bytes "POST / HTTP/1.1\r\nContent-Length: 3\r\n\r\n") ++ content (bytes "[1]")

theorem small_post_ne_nil : small_post ≠ [] := by
  intro hnil
  exact absurd (congrArg List.length hnil) (by decide)

/-- Its bytes split before the body, as the test client of the repository splits
them. -/
theorem body_seen_in_one_piece :
    ∃ c body, (connection still).run
        (Connection.start (.expecting [small_post]) 0 0 (List.replicate 2048 0) ())
        (reads Unit [small_post.take 38, small_post.drop 38]) = some c ∧
      c.session.invoked = [body] ∧ body = bytes "[1]" := by
  obtain ⟨c, body, hrun, hseen, hiff⟩ := body_seen_iff (.expecting [small_post]) still
    small_post small_post_ne_nil (reports_expecting small_post_ne_nil) (by decide)
    [small_post.take 38, small_post.drop 38] (by decide) (by simp) 0 0
    (List.replicate 2048 0) List.length_replicate ()
  exact ⟨c, body, hrun, hseen, hiff.mpr (by decide)⟩

/-- Split inside the body, the handler sees the second part only. -/
theorem not_body_seen_in_two_pieces :
    Reports (.expecting [small_post]) small_post ∧
    ∃ c, (connection still).run
        (Connection.start (.expecting [small_post]) 0 0 (List.replicate 2048 0) ())
        (reads Unit [small_post.take 40, small_post.drop 40]) = some c ∧
      c.session.invoked = [bytes "]"] ∧ bytes "]" ≠ marked small_post :=
  ⟨reports_expecting small_post_ne_nil, _, rfl, by decide, by decide⟩

end MyWarehouse

/-
What the handler sees, under the parser of the repository.

What is proved of a session assumes of its parser that it reports a request. The repository's
own parser reports every well formed one (`http_reports`), so the session and its parser
together show the handler what the parts of the body allow (`http_body_seen_iff`), with no
assumption left about either.
-/
import MyWarehouse.HttpRequest
import MyWarehouse.BodyReassembly

set_option autoImplicit false

namespace MyWarehouse

open Segment http_session

variable {W : Type}

/-- **The parser reports every well formed request** as a session expects it to, however its
bytes are split over reads. -/
theorem http_reports {m : HttpRequest} (h : m.WellFormed) (hs : m.Short) :
    Reports HttpParser.http m.layout := by
  intro segs hsegs hsplit
  exact m.feed h hs hsegs hsplit

/-- A request whose body comes in two chunks. The field that says so is written in its own way
and stands in front of another; the first size has a zero in front and an extension behind it,
the second a capital letter, and the trailer has a field. -/
def small_chunked : HttpRequest where
  line := ⟨.HTTP_POST, bytes "/login", byte '1', byte '1'⟩
  fields := [⟨bytes "transfer-encoding", bytes "Chunked "⟩, ⟨bytes "Host", bytes " x"⟩]
  entity := .chunked
    [⟨⟨bytes "03", bytes ";a=b"⟩, bytes "[12"⟩, ⟨⟨bytes "C", []⟩, bytes ",345,678,90]"⟩]
    ⟨⟨bytes "00", []⟩, [⟨bytes "Date", bytes " now"⟩]⟩

/-- Each part of it is well formed. -/
theorem small_chunked_wellFormed : small_chunked.WellFormed where
  line := ⟨by decide, by decide, by decide, by decide⟩
  framed := @Framed.chunked [] [⟨bytes "Host", bytes " x"⟩] _ _ _ (by decide)
    ⟨by decide +kernel, [], bytes "Chunked", bytes " ", by decide +kernel, by decide +kernel,
      by decide +kernel, rfl⟩ (by decide +kernel)
  entity := by decide +kernel

/-- The parser reports it however it is split. -/
theorem http_reports_small_chunked : Reports HttpParser.http small_chunked.layout :=
  http_reports small_chunked_wellFormed (HttpRequest.short_of_fit (by decide +kernel))

/-- **The session and its parser.** However a well formed request of at most 2048 bytes is
split over reads, the handler is called once, and it sees the whole entity body if and only if
the body arrives in at most one run. -/
theorem http_body_seen_iff (h : Handler W) (m : HttpRequest) (hm : m.WellFormed)
    (hfit : m.layout.length ≤ max_length) (segs : List Layout) (hsegs : ∀ seg ∈ segs, seg ≠ [])
    (hsplit : segs.flatten = m.layout) (t₀ now : ℕ) (data_ : Bytes)
    (hdata : data_.length = max_length) (w : W) :
    ∃ c body, (connection h).run (Connection.start HttpParser.http t₀ now data_ w)
        (reads W segs) = some c ∧
      c.session.invoked = [body] ∧
      (body = m.entity.body ↔ (segmentRuns segs).length ≤ 1) := by
  have hfeed := m.feed hm (HttpRequest.short_of_fit hfit) hsegs hsplit
  have hseen := body_seen_of_feed h m.layout_ne_nil hfit hsegs hsplit hfeed t₀ now hdata w
  rwa [m.marked_layout] at hseen

/-- A request with a field behind the one that frames its body. -/
def small_length : HttpRequest where
  line := ⟨.HTTP_POST, bytes "/", byte '1', byte '1'⟩
  fields := [⟨bytes "Content-Length", bytes " 3"⟩, ⟨bytes "Host", bytes " x"⟩]
  entity := .plain (bytes "[1]")

theorem small_length_wellFormed : small_length.WellFormed where
  line := ⟨by decide, by decide, by decide, by decide⟩
  framed := @Framed.length [] [⟨bytes "Host", bytes " x"⟩] _ _ (by decide)
    ⟨by decide +kernel, bytes " ", bytes "3", [], by decide +kernel, by decide +kernel,
      by decide +kernel, rfl⟩ (by decide +kernel)
  entity := trivial

/-- Of a body in one piece, split from its headers, the handler sees all; of one in two chunks
it does not, even when the request arrives in one read. -/
theorem http_body_seen_small :
    (∃ c, (connection still).run
        (Connection.start HttpParser.http 0 0 (List.replicate 2048 0) ())
        (reads Unit [small_length.layout.take 47, small_length.layout.drop 47]) = some c ∧
      c.session.invoked = [bytes "[1]"]) ∧
    ∃ c body, (connection still).run
        (Connection.start HttpParser.http 0 0 (List.replicate 2048 0) ())
        (reads Unit [small_chunked.layout]) = some c ∧
      c.session.invoked = [body] ∧ body ≠ bytes "[12,345,678,90]" := by
  obtain ⟨c, body, hrun, hseen, hiff⟩ := http_body_seen_iff still small_length
    small_length_wellFormed (by decide)
    [small_length.layout.take 47, small_length.layout.drop 47] (by decide) (by simp) 0 0
    (List.replicate 2048 0) List.length_replicate ()
  have hbody : body = bytes "[1]" := hiff.mpr (by decide)
  obtain ⟨c', body', hrun', hseen', hiff'⟩ := http_body_seen_iff still small_chunked
    small_chunked_wellFormed (by decide +kernel) [small_chunked.layout] (by decide +kernel)
    (by simp) 0 0 (List.replicate 2048 0) List.length_replicate ()
  have hparts : ¬ (segmentRuns [small_chunked.layout]).length ≤ 1 := by decide +kernel
  refine ⟨⟨c, hrun, hbody ▸ hseen⟩, c', body', hrun', hseen', ?_⟩
  intro hwhole
  exact hparts (hiff'.mp hwhole)

end MyWarehouse

/-
Well formed requests, and that the parser reports them.

A request is a request line, header fields in any order, and an entity that at most one of the
fields frames: `Content-Length` a plain body, `Transfer-Encoding: chunked` a list of chunks.
Nothing here fixes how a client spells it: the names are in any case, the numbers may have
zeros in front, a size line may carry extensions, and the field that frames the body may stand
anywhere among the others.

`HttpRequest.reads` takes the parser over such a request. It needs the lengths of
`HttpRequest.Short`, because the parser counts the bytes of a header and gives up on a long
one; a request that fits into the buffer of a session always has them
(`HttpRequest.short_of_fit`).
-/
import MyWarehouse.RequestBody

set_option autoImplicit false

namespace MyWarehouse

open http_parser_execute Segment

/-! ## Requests -/

/-- What a request carries behind its headers. -/
inductive Entity where
  | plain (body : Bytes)
  | chunked (chunks : List Chunk) (last : LastChunk)

/-- The entity on the wire. -/
def Entity.layout : Entity → Layout
  | .plain body => content body
  | .chunked chunks last => chunks.flatMap Chunk.layout ++ framing last.wire

/-- The entity body. -/
def Entity.body : Entity → Bytes
  | .plain body => body
  | .chunked chunks _ => chunks.flatMap Chunk.data

/-- The marked bytes are those of the body. For chunks the induction is on the chunks. -/
theorem Entity.marked_layout (e : Entity) : marked e.layout = e.body := by
  rcases e with body | ⟨chunks, last⟩
  · exact marked_content body
  · rw [Entity.layout, Entity.body, marked_append, marked_framing, List.append_nil]
    induction chunks with
    | nil => rfl
    | cons k chunks ih =>
      rw [List.flatMap_cons, List.flatMap_cons, marked_append, ih, Chunk.layout, marked_append,
        marked_append, marked_framing, marked_framing, marked_content, List.nil_append,
        List.append_nil]

/-- Chunks and a last chunk that are well formed; a plain body may be any. -/
def Entity.WellFormed : Entity → Prop
  | .plain _ => True
  | .chunked chunks last => (∀ k ∈ chunks, k.WellFormed) ∧ last.WellFormed

instance : DecidablePred Entity.WellFormed
  | .plain _ => isTrue trivial
  | .chunked chunks last =>
    inferInstanceAs (Decidable ((∀ k ∈ chunks, k.WellFormed) ∧ last.WellFormed))

/-- A request. -/
structure HttpRequest where
  line : RequestLine
  fields : List HeaderField
  entity : Entity

/-- What stands in front of the entity: the request line, the header fields and the empty
line. -/
def HttpRequest.head (m : HttpRequest) : Bytes :=
  m.line.wire ++ m.fields.flatMap HeaderField.wire ++ bytes "\r\n"

/-- The request on the wire. -/
def HttpRequest.layout (m : HttpRequest) : Layout := framing m.head ++ m.entity.layout

theorem HttpRequest.marked_layout (m : HttpRequest) : marked m.layout = m.entity.body := by
  rw [HttpRequest.layout, marked_append, marked_framing, List.nil_append, Entity.marked_layout]

/-- No request is empty: there is at least its empty line. -/
theorem HttpRequest.layout_ne_nil (m : HttpRequest) : m.layout ≠ [] := by
  intro hnil
  have hlen := congrArg List.length hnil
  rw [HttpRequest.layout, HttpRequest.head, framing_append, List.length_append,
    List.length_append] at hlen
  have hend : (framing (bytes "\r\n")).length = 2 := rfl
  rw [hend, List.length_nil] at hlen
  omega

/-- The header fields say how the entity is framed. A request without a field that does has no
body. -/
inductive Framed : List HeaderField → Entity → Prop where
  | none {fields : List HeaderField} : (∀ f ∈ fields, f.Ordinary) → Framed fields (.plain [])
  | length {before after : List HeaderField} {f : HeaderField} {body : Bytes} :
    (∀ f ∈ before, f.Ordinary) → f.Length body.length → (∀ f ∈ after, f.Ordinary) →
      Framed (before ++ f :: after) (.plain body)
  | chunked {before after : List HeaderField} {f : HeaderField} {chunks : List Chunk}
      {last : LastChunk} :
    (∀ f ∈ before, f.Ordinary) → f.Chunked → (∀ f ∈ after, f.Ordinary) →
      Framed (before ++ f :: after) (.chunked chunks last)

/-- A request the parser takes, whatever its length. -/
structure HttpRequest.WellFormed (m : HttpRequest) : Prop where
  line : m.line.Valid
  framed : Framed m.fields m.entity
  entity : m.entity.WellFormed

/-- The lines of an entity whose bytes the parser counts: those with the sizes of chunks, and
the trailer. -/
def Entity.lines : Entity → List Bytes
  | .plain _ => []
  | .chunked chunks last =>
    (chunks.map fun k => k.line.wire) ++ [last.line.wire, last.fields]

/-- A request that is not too long for the parser. It counts a name or a value that arrives byte
by byte twice, so that half of `HTTP_MAX_HEADER_SIZE` is what it takes however the request is
split over reads. The last bound is for the 32 bits in which it counts. -/
structure HttpRequest.Short (m : HttpRequest) : Prop where
  head : 2 * m.head.length < HTTP_MAX_HEADER_SIZE
  lines : ∀ l ∈ m.entity.lines, 2 * l.length < HTTP_MAX_HEADER_SIZE
  length : m.layout.length < 2 ^ 31

/-! ## Reading them -/

/-- What the parser has to know of an entity when it comes to the empty line. -/
def Entity.FramedBy (f : Frame) : Entity → Prop
  | .plain body => f.chunked = false ∧
    (f.content_length = body.length ∨ body = [] ∧ f.content_length = ULLONG_MAX)
  | .chunked _ _ => f.chunked = true

/-- The frame of a request that is none of the unusual ones, whatever frames its body. -/
theorem Frame.plain_of_fresh {f : Frame} {method : http_method} (hm : method ≠ .HTTP_CONNECT)
    {n : ℕ} {b : Bool} (hf : f = { Frame.fresh method with content_length := n, chunked := b }) :
    f.Plain := by
  subst hf
  exact ⟨rfl, hm, rfl, rfl, rfl, rfl⟩

/-- **The header fields** tell the parser how the entity is framed. -/
theorem Framed.read {fields : List HeaderField} {e : Entity} (h : Framed fields e)
    (hlen : e.layout.length < 2 ^ 63) {method : http_method} (hm : method ≠ .HTTP_CONNECT)
    {c : parser_core} (hc : c.state.at_line) (hframe : (next_line c).frame = .fresh method) :
    ∃ c', quiets c (fields.flatMap HeaderField.wire) = some c' ∧ c'.state.at_line ∧
      (next_line c').frame.Plain ∧ e.FramedBy (next_line c').frame := by
  cases h with
  | none hfields =>
    -- no field says anything, and the length stays what it is in front of all fields
    obtain ⟨c', hquiets, hc', hframe'⟩ := read_headers hfields c hc
    rw [hframe] at hframe'
    refine ⟨c', hquiets, hc', Frame.plain_of_fresh hm hframe', ?_⟩
    rw [hframe']
    exact ⟨rfl, Or.inr ⟨rfl, rfl⟩⟩
  | @length before after f body hbefore hf hafter =>
    have hbody : body.length < 2 ^ 63 := by
      rw [Entity.layout, content, List.length_map] at hlen
      exact hlen
    obtain ⟨c', hquiets, hc', hframe'⟩ := read_among hbefore hafter
      (g := fun frame => { frame with content_length := body.length })
      (fun c hc => read_content_length hc hf hbody) c hc
    rw [hframe] at hframe'
    refine ⟨c', hquiets, hc', Frame.plain_of_fresh hm hframe', ?_⟩
    rw [hframe']
    exact ⟨rfl, Or.inl rfl⟩
  | chunked hbefore hf hafter =>
    obtain ⟨c', hquiets, hc', hframe'⟩ := read_among hbefore hafter
      (g := fun frame => { frame with chunked := true })
      (fun c hc => read_transfer_encoding hc hf) c hc
    rw [hframe] at hframe'
    refine ⟨c', hquiets, hc', Frame.plain_of_fresh hm hframe', ?_⟩
    rw [hframe']
    rfl

/-- The line feed of the empty line and a plain body. -/
theorem reads_plain {body : Bytes} (hlen : body.length < 2 ^ 63) {c : parser_core}
    (hs : c.state = .s_headers_almost_done) (hplain : c.frame.Plain)
    (hframed : (Entity.plain body).FramedBy c.frame) (n : ℕ) :
    ∃ c' n', ReadsMessage ([(byte '\n', false)] ++ content body) c n c' n' := by
  obtain ⟨hchunked, hlength⟩ := hframed
  by_cases hne : body = []
  · -- the message ends with the line feed
    subst hne
    have hnone : c.content_length = 0 ∨ c.content_length = ULLONG_MAX :=
      hlength.imp id fun h => h.2
    have hend := read_headers_empty hs hplain hchunked hnone n
    exact ⟨_, _, [], byte '\n', false, _, _, rfl, .nil _ _, hend, by decide⟩
  · have hlength : c.content_length = body.length :=
      hlength.elim id fun h => absurd h.1 hne
    have hpos : 0 < c.content_length := by
      rw [hlength]
      exact List.length_pos_iff.mpr hne
    have hend := read_headers_length hs hplain hchunked hpos (by rw [hlength]; exact hlen) n
    obtain ⟨c', hread⟩ := reads_body body hne (n := 0) (by decide)
      { headers_done c with state := .s_body_identity } rfl hlength rfl
    exact ⟨c', 0, (reads_reset hend).message hread⟩

/-- A part of a layout is no longer than the whole. -/
theorem length_le_of_chunk {chunks : List Chunk} (last : LastChunk) {k : Chunk}
    (hk : k ∈ chunks) :
    k.layout.length ≤ (Entity.chunked chunks last).layout.length := by
  have hsub : k.layout.Sublist (chunks.flatMap Chunk.layout) := by
    rw [List.flatMap_def]
    exact List.sublist_flatten_of_mem (List.mem_map_of_mem hk)
  rw [Entity.layout, List.length_append]
  exact hsub.length_le.trans (Nat.le_add_right _ _)

/-- The line feed of the empty line and chunks. -/
theorem reads_chunked {chunks : List Chunk} {last : LastChunk}
    (h : (Entity.chunked chunks last).WellFormed)
    (hlen : (Entity.chunked chunks last).layout.length < 2 ^ 63)
    (hlines : ∀ l ∈ (Entity.chunked chunks last).lines, 2 * l.length < HTTP_MAX_HEADER_SIZE)
    {c : parser_core} (hs : c.state = .s_headers_almost_done) (hplain : c.frame.Plain)
    (hchunked : c.frame.chunked) (n : ℕ) :
    ∃ c' n', ReadsMessage ([(byte '\n', false)] ++ (Entity.chunked chunks last).layout)
      c n c' n' := by
  obtain ⟨hchunks, hlast⟩ := h
  -- a chunk is part of the entity, so its size fits into 64 bits
  have hsizes : ∀ k ∈ chunks, k.data.length < 2 ^ 63 := by
    intro k hk
    have hle := length_le_of_chunk last hk
    rw [Chunk.layout, List.length_append, List.length_append, length_content] at hle
    omega
  have hshort : ∀ k ∈ chunks, 2 * k.line.wire.length < HTTP_MAX_HEADER_SIZE := by
    intro k hk
    exact hlines _ (List.mem_append_left _ (List.mem_map_of_mem hk))
  have hend := read_headers_chunked hs hplain hchunked n
  obtain ⟨c₁, hread, hs₁, -, hup₁⟩ := reads_chunks hchunks hsizes hshort
    { headers_done c with state := .s_chunk_size_start } rfl
  obtain ⟨c', n', hmessage⟩ := reads_last_chunk hs₁ hup₁ hlast
    (hlines _ (List.mem_append_right _ List.mem_cons_self))
    (hlines _ (List.mem_append_right _ (List.mem_cons_of_mem _ List.mem_cons_self)))
  exact ⟨c', n', (reads_reset hend).message (hread.message hmessage)⟩

/-- **A well formed request** is read to its end. -/
theorem HttpRequest.reads {m : HttpRequest} (h : m.WellFormed) (hshort : m.Short) :
    ∃ c' n', ReadsMessage m.layout (http_parser_init .HTTP_REQUEST).toparser_core 0 c' n' := by
  have hlen : m.entity.layout.length < 2 ^ 63 := by
    have hlength := hshort.length
    rw [HttpRequest.layout, List.length_append] at hlength
    omega
  -- the request line and the header fields
  obtain ⟨c₁, hline, hs₁, hframe₁⟩ := read_request_line h.line
  obtain ⟨c₂, hfields, hs₂, hplain, hframed⟩ := h.framed.read hlen h.line.method
    (c := c₁) (by rw [hs₁]; rfl) (by rw [next_line, if_pos hs₁, hframe₁])
  have hquiets : quiets (http_parser_init .HTTP_REQUEST).toparser_core
      (m.line.wire ++ m.fields.flatMap HeaderField.wire) = some c₂ := by
    rw [quiets_trans hline]
    exact hfields
  -- as far as the line feed of the empty line, with which the entity begins
  have hhead := reads_fields hquiets hs₂ hshort.head
  have hlines := hshort.lines
  have hwell := h.entity
  rw [HttpRequest.layout, HttpRequest.head, framing_empty_line]
  rcases hentity : m.entity with body | ⟨chunks, last⟩
  · rw [hentity] at hlen hframed
    rw [Entity.layout, length_content] at hlen
    obtain ⟨c', n', hread⟩ := reads_plain hlen
      (c := { next_line c₂ with state := .s_headers_almost_done }) rfl hplain hframed _
    exact ⟨c', n', hhead.message hread⟩
  · rw [hentity] at hlen hframed hlines hwell
    obtain ⟨c', n', hread⟩ := reads_chunked hwell hlen hlines
      (c := { next_line c₂ with state := .s_headers_almost_done }) rfl hplain hframed _
    exact ⟨c', n', hhead.message hread⟩

/-- **The parser reports a well formed request** however its bytes are split over reads: each
run of body bytes in a read, and the end with the last read. -/
theorem HttpRequest.feed {m : HttpRequest} (h : m.WellFormed) (hshort : m.Short)
    {segs : List Layout} (hsegs : ∀ seg ∈ segs, seg ≠ []) (hflat : segs.flatten = m.layout) :
    HttpParser.http.feed HttpParser.http.http_parser_init (segs.map elements) =
      reported segs := by
  obtain ⟨c', n', hreads⟩ := HttpRequest.reads h hshort
  rw [← hflat] at hreads
  have hlen : ∀ seg ∈ segs, seg.length < 2 ^ 31 := by
    intro seg hseg
    have hle := (List.sublist_flatten_of_mem hseg).length_le
    have hlength := hshort.length
    rw [← hflat] at hlength
    omega
  exact hreads.feed hsegs hlen (http_parser_init .HTTP_REQUEST) 0 ⟨by decide, trivial⟩ rfl
    (Nat.zero_le _) (by decide)

/-! ## Requests that fit into the buffer -/

/-- No line of an entity is longer than the entity. -/
theorem Entity.length_line_le {e : Entity} {l : Bytes} (hl : l ∈ e.lines) :
    l.length ≤ e.layout.length := by
  rcases e with body | ⟨chunks, last⟩
  · cases hl
  · rcases List.mem_append.mp hl with hl | hl
    · obtain ⟨k, hk, rfl⟩ := List.mem_map.mp hl
      have hle := length_le_of_chunk last hk
      rw [Chunk.layout, List.length_append, List.length_append, length_framing] at hle
      omega
    · have hle : l.length ≤ last.wire.length := by
        rw [LastChunk.wire, List.length_append]
        simp only [List.mem_cons, List.not_mem_nil, or_false] at hl
        rcases hl with rfl | rfl
        · exact Nat.le_add_right _ _
        · exact Nat.le_add_left _ _
      rw [Entity.layout, List.length_append, length_framing]
      omega

/-- A request that fits into the buffer of a session is not too long for the parser. -/
theorem HttpRequest.short_of_fit {m : HttpRequest} (hfit : m.layout.length ≤ max_length) :
    m.Short := by
  have hmax : 2 * max_length < HTTP_MAX_HEADER_SIZE := by decide
  have hint : max_length < 2 ^ 31 := by decide
  have hlength : m.layout.length = m.head.length + m.entity.layout.length := by
    rw [HttpRequest.layout, List.length_append, length_framing]
  refine ⟨by omega, ?_, by omega⟩
  intro l hl
  have hle := Entity.length_line_le hl
  omega

end MyWarehouse

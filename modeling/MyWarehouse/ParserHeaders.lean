/-
The header names the parser knows.

`s_header_field` compares a name with five names at once, character by character, and keeps
how far it has come in `header_state` and `index`. `Compared` is what these mean: the name so
far is a proper part of one of the five, or all of it. So the parser takes exactly these
names, in any case, for the headers it interprets (`header_state_of_name`).
-/
import MyWarehouse.ParserAsserts
import Mathlib.Data.List.Induction

set_option autoImplicit false

namespace MyWarehouse

/-! ## One of the names -/

/-- What has been read of a name is a proper part of `known`, and `index` is its last
character. -/
structure Partial (known name : Bytes) (index : UInt8) : Prop where
  take : name = known.take name.length
  index : index.toNat + 1 = name.length
  lt : name.length < known.length

/-- One character more. -/
theorem match_name_cases {c : parser_core} {known name : Bytes} (h : Partial known name c.index)
    (hknown : known.length < 256) (ch : UInt8) (matching matched mismatch : header_states) :
    (match_name c known ch matching matched mismatch).header_state = mismatch ∨
    (match_name c known ch matching matched mismatch).header_state = matched ∧
      name ++ [ch] = known ∨
    (match_name c known ch matching matched mismatch).header_state = matching ∧
      Partial known (name ++ [ch]) (match_name c known ch matching matched mismatch).index := by
  have hlt := h.lt
  have hindex : (c.index + 1).toNat = name.length := by
    rw [UInt8.toNat_add, ← h.index]
    have hlast := h.index
    exact Nat.mod_eq_of_lt (by show c.index.toNat + 1 < 256; omega)
  unfold match_name
  dsimp only
  rw [hindex]
  split_ifs with hdiff hlast
  · exact Or.inl rfl
  · rw [not_or, not_not] at hdiff
    refine Or.inr (Or.inl ⟨rfl, ?_⟩)
    have hch : known[name.length]? = some ch := by
      rw [List.getElem?_eq_getElem hlt, hdiff.2, List.getD_eq_getElem _ _ hlt]
    have htake : known.take (name.length + 1) = name ++ [ch] := by
      rw [List.take_add_one, hch, ← h.take]
      rfl
    rw [← htake, List.take_of_length_le (by omega)]
  · rw [not_or, not_not] at hdiff
    refine Or.inr (Or.inr ⟨rfl, ?_, ?_, ?_⟩)
    · have hch : known[name.length]? = some ch := by
        rw [List.getElem?_eq_getElem hlt, hdiff.2, List.getD_eq_getElem _ _ hlt]
      rw [List.length_append, List.length_singleton, List.take_add_one, hch, ← h.take]
      rfl
    · rw [hindex, List.length_append, List.length_singleton]
    · rw [List.length_append, List.length_singleton]
      omega

/-! ## All of the names -/

/-- What `header_state` and `index` say of the characters of a name, in lower case. -/
def Compared (name : Bytes) (c : parser_core) : Prop :=
  match c.header_state with
  | .h_C => name = bytes "c" ∧ c.index = 0
  | .h_CO => name = bytes "co" ∧ c.index = 1
  | .h_CON => name = bytes "con" ∧ c.index = 2
  | .h_matching_connection => Partial (bytes "connection") name c.index
  | .h_matching_proxy_connection => Partial (bytes "proxy-connection") name c.index
  | .h_matching_content_length => Partial (bytes "content-length") name c.index
  | .h_matching_transfer_encoding => Partial (bytes "transfer-encoding") name c.index
  | .h_matching_upgrade => Partial (bytes "upgrade") name c.index
  | .h_connection => name = bytes "connection" ∨ name = bytes "proxy-connection"
  | .h_content_length => name = bytes "content-length"
  | .h_transfer_encoding => name = bytes "transfer-encoding"
  | .h_upgrade => name = bytes "upgrade"
  | _ => True

theorem compared_general {name : Bytes} {c : parser_core} (h : c.header_state = .h_general) :
    Compared name c := by
  rw [Compared, h]
  trivial

/-- The first character. -/
theorem compared_first (c : parser_core) (ch : UInt8) :
    Compared [ch] { c with index := 0, header_state := first_header_state ch } := by
  unfold first_header_state
  split_ifs with hc hp ht hu
  · subst hc
    exact ⟨rfl, rfl⟩
  · subst hp
    exact ⟨rfl, rfl, by decide⟩
  · subst ht
    exact ⟨rfl, rfl, by decide⟩
  · subst hu
    exact ⟨rfl, rfl, by decide⟩
  · trivial

/-- The comparison goes on with one of the names. -/
theorem compared_match_name {c : parser_core} {known name : Bytes}
    {matching matched : header_states} (h : Partial known name c.index)
    (hknown : known.length < 256) (ch : UInt8)
    (hmatching : ∀ c' : parser_core, c'.header_state = matching →
      Partial known (name ++ [ch]) c'.index → Compared (name ++ [ch]) c')
    (hmatched : ∀ c' : parser_core, c'.header_state = matched → name ++ [ch] = known →
      Compared (name ++ [ch]) c') :
    Compared (name ++ [ch]) (match_name c known ch matching matched .h_general) := by
  obtain hmis | ⟨hstate, hname⟩ | ⟨hstate, hpart⟩ :=
    match_name_cases h hknown ch matching matched .h_general
  · exact compared_general hmis
  · exact hmatched _ hstate hname
  · exact hmatching _ hstate hpart

/-- One character more. -/
theorem compared_field_char {c : parser_core} {name : Bytes} (h : Compared name c) (ch : UInt8)
    (hch : TOKEN ch ≠ 0) : Compared (name ++ [TOKEN ch]) (field_char c ch) := by
  have hspace : ch ≠ byte ' ' := by
    rintro rfl
    exact hch (by decide)
  unfold Compared at h
  unfold field_char
  rcases hstate : c.header_state <;> rw [hstate] at h <;> dsimp only at h ⊢
  case h_C =>
    obtain ⟨rfl, hindex⟩ := h
    split_ifs with ho
    · rw [ho, Compared]
      exact ⟨rfl, by dsimp only; rw [hindex]; rfl⟩
    · exact compared_general rfl
  case h_CO =>
    obtain ⟨rfl, hindex⟩ := h
    split_ifs with hn
    · rw [hn, Compared]
      exact ⟨rfl, by dsimp only; rw [hindex]; rfl⟩
    · exact compared_general rfl
  case h_CON =>
    obtain ⟨rfl, hindex⟩ := h
    split_ifs with hn ht
    · rw [hn, Compared]
      exact ⟨rfl, by dsimp only; rw [hindex]; rfl, by decide⟩
    · rw [ht, Compared]
      exact ⟨rfl, by dsimp only; rw [hindex]; rfl, by decide⟩
    · exact compared_general rfl
  case h_matching_connection =>
    refine compared_match_name h (by decide) _ (fun c' hc' hp => ?_) fun c' hc' hn => ?_
    · rw [Compared, hc']
      exact hp
    · rw [Compared, hc']
      exact Or.inl hn
  case h_matching_proxy_connection =>
    refine compared_match_name h (by decide) _ (fun c' hc' hp => ?_) fun c' hc' hn => ?_
    · rw [Compared, hc']
      exact hp
    · rw [Compared, hc']
      exact Or.inr hn
  case h_matching_content_length | h_matching_transfer_encoding | h_matching_upgrade =>
    refine compared_match_name h (by decide) _ (fun c' hc' hp => ?_) fun c' hc' hn => ?_
    · rw [Compared, hc']
      exact hp
    · rw [Compared, hc']
      exact hn
  case h_connection | h_content_length | h_transfer_encoding | h_upgrade =>
    rw [if_pos hspace]
    exact compared_general rfl
  all_goals
    rw [Compared, hstate]
    trivial

/-- The parser behind a name. -/
def read_name (c : parser_core) : Bytes → parser_core
  | [] => c
  | ch :: name => name.foldl field_char
      { c with index := 0, header_state := first_header_state (TOKEN ch) }

/-- What a name has been taken for. The induction is on its characters from the last. -/
theorem compared_read_name (c : parser_core) {name : Bytes} (hne : name ≠ [])
    (htoken : ∀ ch ∈ name, TOKEN ch ≠ 0) : Compared (name.map TOKEN) (read_name c name) := by
  obtain ⟨first, rest, rfl⟩ := List.exists_cons_of_ne_nil hne
  induction rest using List.reverseRecOn with
  | nil => exact compared_first c (TOKEN first)
  | append_singleton rest ch ih =>
    have hrest := ih (List.cons_ne_nil _ _) fun d hd => htoken d (by
      rcases List.mem_cons.mp hd with rfl | hd
      · exact List.mem_cons_self
      · exact List.mem_cons_of_mem _ (List.mem_append_left _ hd))
    have hch : TOKEN ch ≠ 0 := htoken ch (by simp)
    have hmap : (first :: (rest ++ [ch])).map TOKEN =
        (first :: rest).map TOKEN ++ [TOKEN ch] := by simp
    rw [hmap]
    show Compared _ (List.foldl _ _ (rest ++ [ch]))
    rw [List.foldl_append]
    exact compared_field_char hrest ch hch

/-- A token in lower case is a token in lower case. -/
theorem token_token (ch : UInt8) : TOKEN (TOKEN ch) = TOKEN ch := by
  have hall : ∀ n : Fin 256, TOKEN (TOKEN (UInt8.ofNat n)) = TOKEN (UInt8.ofNat n) := by
    decide +kernel
  have hch := hall ⟨ch.toNat, ch.toNat_lt⟩
  rwa [UInt8.ofNat_toNat] at hch

/-- The case of a character does not matter. -/
theorem field_char_token (c : parser_core) {ch : UInt8} (hch : TOKEN ch ≠ 0) :
    field_char c (TOKEN ch) = field_char c ch := by
  have hspace : ∀ d, TOKEN d ≠ 0 → d ≠ byte ' ' := by
    rintro d hd rfl
    exact hd (by decide)
  have hch' : ch ≠ byte ' ' := hspace ch hch
  have htoken : TOKEN ch ≠ byte ' ' := hspace _ (by rw [token_token]; exact hch)
  unfold field_char
  rw [token_token]
  simp only [ne_eq, hch', htoken, not_false_eq_true, if_true]

theorem read_name_token (c : parser_core) {name : Bytes} (htoken : ∀ ch ∈ name, TOKEN ch ≠ 0) :
    read_name c (name.map TOKEN) = read_name c name := by
  rcases name with _ | ⟨first, rest⟩
  · rfl
  · rw [List.map_cons, read_name, read_name, token_token, List.foldl_map]
    refine List.foldl_ext _ _ _ fun d ch hch => ?_
    exact field_char_token d (htoken ch (List.mem_cons_of_mem _ hch))

/-- The comparison looks at nothing but `header_state` and `index`. -/
theorem field_char_congr {c d : parser_core} (hstate : c.header_state = d.header_state)
    (hindex : c.index = d.index) (ch : UInt8) :
    (field_char c ch).header_state = (field_char d ch).header_state ∧
      (field_char c ch).index = (field_char d ch).index := by
  unfold field_char match_name
  rw [hstate, hindex]
  split
  all_goals first
    | exact ⟨hstate, hindex⟩
    | dsimp only
      split_ifs <;> simp only [hstate, hindex, and_self]

theorem header_state_read_name (c d : parser_core) {name : Bytes} (hne : name ≠ []) :
    (read_name c name).header_state = (read_name d name).header_state := by
  obtain ⟨first, rest, rfl⟩ := List.exists_cons_of_ne_nil hne
  have hfold : ∀ (rest : Bytes) (c d : parser_core), c.header_state = d.header_state →
      c.index = d.index →
      (rest.foldl field_char c).header_state = (rest.foldl field_char d).header_state := by
    intro rest
    induction rest with
    | nil => exact fun c d h _ => h
    | cons ch rest ih =>
      intro c d hstate hindex
      obtain ⟨hstate', hindex'⟩ := field_char_congr hstate hindex ch
      exact ih _ _ hstate' hindex'
  exact hfold rest _ _ rfl rfl

/-- A name in lower case is compared as it is. -/
theorem header_state_of_lower (c : parser_core) {name lower : Bytes} (hlower : lower ≠ [])
    (htoken : ∀ ch ∈ name, TOKEN ch ≠ 0) (h : name.map TOKEN = lower) :
    (read_name c name).header_state =
      (read_name (http_parser_init .HTTP_REQUEST).toparser_core lower).header_state := by
  rw [← read_name_token c htoken, h]
  exact header_state_read_name _ _ hlower

/-- **The headers the parser interprets** are those of exactly these names, whatever the
case they are written in. -/
theorem header_state_of_name (c : parser_core) (name : Bytes) (hne : name ≠ [])
    (htoken : ∀ ch ∈ name, TOKEN ch ≠ 0) :
    ((read_name c name).header_state = .h_content_length ↔
        name.map TOKEN = bytes "content-length") ∧
      ((read_name c name).header_state = .h_transfer_encoding ↔
        name.map TOKEN = bytes "transfer-encoding") ∧
      ((read_name c name).header_state = .h_upgrade ↔ name.map TOKEN = bytes "upgrade") ∧
      ((read_name c name).header_state = .h_connection ↔
        name.map TOKEN = bytes "connection" ∨ name.map TOKEN = bytes "proxy-connection") := by
  have hcompared := compared_read_name c hne htoken
  refine ⟨⟨fun h => ?_, fun h => ?_⟩, ⟨fun h => ?_, fun h => ?_⟩, ⟨fun h => ?_, fun h => ?_⟩,
    ⟨fun h => ?_, fun h => ?_⟩⟩
  -- what `header_state` means, and what the comparison makes of the name itself
  · rwa [Compared, h] at hcompared
  · rw [header_state_of_lower c (by decide) htoken h]
    decide +kernel
  · rwa [Compared, h] at hcompared
  · rw [header_state_of_lower c (by decide) htoken h]
    decide +kernel
  · rwa [Compared, h] at hcompared
  · rw [header_state_of_lower c (by decide) htoken h]
    decide +kernel
  · rwa [Compared, h] at hcompared
  · rcases h with h | h
    · rw [header_state_of_lower c (by decide) htoken h]
      decide +kernel
    · rw [header_state_of_lower c (by decide) htoken h]
      decide +kernel

theorem header_state_of_content_length :
    ((read_name (http_parser_init .HTTP_REQUEST).toparser_core
        (bytes "Content-Length")).header_state = .h_content_length ↔
      (bytes "Content-Length").map TOKEN = bytes "content-length") :=
  (header_state_of_name (http_parser_init .HTTP_REQUEST).toparser_core (bytes "Content-Length")
    (by decide) (by decide +kernel)).1

end MyWarehouse

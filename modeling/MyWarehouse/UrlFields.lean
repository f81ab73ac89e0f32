/-
What `http_parser_parse_url` leaves in its result.

Whether it returns 0 or 1, the fields whose bits are set lie in the buffer
(`parse_url_ends`). The fields whose bits are not set it has not written: the result over
one structure agrees with the result over another on `field_set`, `port` and the fields
that are set, and the others are as they were before (`parse_url_over`).
-/
import MyWarehouse.HttpUrl

set_option autoImplicit false

namespace MyWarehouse

namespace http_parser_url

/-! ## The operations -/

section Operations

variable (u : http_parser_url) (uf g : http_parser_url_fields) (off len : ℕ)
  (f : FieldData → FieldData)

@[simp] theorem has_modify : (u.modify uf f).has g = u.has g := rfl

@[simp] theorem port_modify : (u.modify uf f).port = u.port := rfl

@[simp] theorem has_grow : (u.grow uf).has g = u.has g := rfl

@[simp] theorem port_grow : (u.grow uf).port = u.port := rfl

@[simp] theorem port_start : (u.start uf off len).port = u.port := rfl

@[simp] theorem field_data_modify_self :
    (u.modify uf f).field_data uf = f (u.field_data uf) := Function.update_self ..

theorem field_data_modify_of_ne {uf g : http_parser_url_fields} (hg : g ≠ uf) :
    (u.modify uf f).field_data g = u.field_data g := Function.update_of_ne hg ..

@[simp] theorem field_data_set_len_self :
    (u.set_len uf len).field_data uf = ⟨(u.field_data uf).off, uint16 len⟩ :=
  Function.update_self ..

/-- Two enumerators have different bits. -/
theorem value_inj {uf g : http_parser_url_fields} (h : uf.value = g.value) : uf = g := by
  cases uf
  all_goals
    cases g
    all_goals first | rfl | cases h

/-- A field that begins is set, and no other bit changes. -/
@[simp] theorem has_start : (u.start uf off len).has g = (u.has g || decide (uf = g)) := by
  have hbit : (1 <<< uf.value).testBit g.value = decide (uf = g) := by
    rw [Nat.one_shiftLeft, Nat.testBit_two_pow]
    by_cases hg : uf = g
    · rw [hg, decide_eq_true rfl, decide_eq_true rfl]
    · rw [decide_eq_false hg, decide_eq_false fun h => hg (value_inj h)]
  rw [← hbit]
  exact Nat.testBit_or ..

@[simp] theorem field_data_start_self :
    (u.start uf off len).field_data uf = ⟨uint16 off, uint16 len⟩ := by
  show ((u.set_off uf off).set_len uf len).field_data uf = _
  rw [set_len, field_data_modify_self, set_off, field_data_modify_self]

theorem field_data_start_of_ne {uf g : http_parser_url_fields} (hg : g ≠ uf) :
    (u.start uf off len).field_data g = u.field_data g := by
  show ((u.set_off uf off).set_len uf len).field_data g = _
  rw [set_len, field_data_modify_of_ne _ _ hg, set_off, field_data_modify_of_ne _ _ hg]

end Operations

theorem uint16_le (n : ℕ) : uint16 n ≤ n := Nat.mod_le n 65536

/-! ## The fields lie in the buffer -/

/-- Each field that is set ends before the bound for it. -/
def Bounded (b : http_parser_url_fields → ℕ) (u : http_parser_url) : Prop :=
  ∀ uf, u.has uf = true → (u.field_data uf).off + (u.field_data uf).len ≤ b uf

section Bounded

variable {u : http_parser_url} {b b' : http_parser_url_fields → ℕ} {uf : http_parser_url_fields}
  {off len : ℕ}

theorem Bounded.mono (hu : u.Bounded b) (hb : ∀ g, b g ≤ b' g) : u.Bounded b' :=
  fun g hg => (hu g hg).trans (hb g)

/-- One field is changed. -/
theorem Bounded.modify {f : FieldData → FieldData} (hu : u.Bounded b) (hb : ∀ g, b g ≤ b' g)
    (hf : u.has uf = true → (f (u.field_data uf)).off + (f (u.field_data uf)).len ≤ b' uf) :
    (u.modify uf f).Bounded b' := by
  intro g hg
  -- the field that is changed, and any other
  by_cases hsame : g = uf
  · subst hsame
    rw [field_data_modify_self]
    exact hf hg
  · rw [field_data_modify_of_ne _ _ hsame]
    exact (hu g hg).trans (hb g)

/-- One field is one byte longer. -/
theorem Bounded.grow (hu : u.Bounded b) (hb : ∀ g, b g ≤ b' g) (huf : b uf + 1 ≤ b' uf) :
    (u.grow uf).Bounded b' := by
  apply hu.modify hb
  intro hset
  have hle := hu uf hset
  have hlen := uint16_le ((u.field_data uf).len + 1)
  show (u.field_data uf).off + uint16 ((u.field_data uf).len + 1) ≤ b' uf
  omega

/-- One field begins. -/
theorem Bounded.start (hu : u.Bounded b) (hb : ∀ g, b g ≤ b' g) (huf : off + len ≤ b' uf) :
    (u.start uf off len).Bounded b' := by
  intro g hg
  by_cases hsame : g = uf
  · subst hsame
    rw [field_data_start_self]
    have hoff := uint16_le off
    have hlen := uint16_le len
    show uint16 off + uint16 len ≤ b' g
    omega
  · rw [field_data_start_of_ne _ _ _ hsame]
    rw [has_start, decide_eq_false fun h => hsame h.symm, Bool.or_false] at hg
    exact (hu g hg).trans (hb g)

end Bounded

end http_parser_url

/-! ### The loop of `http_parser_parse_url` -/

/-- The field is found by `http_parse_host`. -/
def http_parser_url_fields.in_host : http_parser_url_fields → Bool
  | .UF_PORT | .UF_USERINFO => true
  | _ => false

/-- The invariant, after `i` bytes. -/
structure UrlLoop.Inv (i : ℕ) (c : UrlLoop) : Prop where
  bounded : c.u.Bounded fun _ => i
  port : c.u.port = 0
  unset : ∀ uf, uf.in_host = true → c.u.has uf = false

section UrlLoop

variable {i : ℕ} {c : UrlLoop}

/-- The invariant does not depend on the automaton. -/
theorem UrlLoop.Inv.succ (hc : c.Inv i) (s : url_state) (found_at : Bool) :
    UrlLoop.Inv (i + 1) { c with s := s, found_at := found_at } :=
  ⟨hc.bounded.mono fun _ => Nat.le_succ i, hc.port, hc.unset⟩

/-- A byte of a field. -/
theorem UrlLoop.Inv.field (hc : c.Inv i) {uf : http_parser_url_fields}
    (huf : uf.in_host = false) (s : url_state) (found_at : Bool) :
    ({ c with s := s, found_at := found_at }.field i uf : UrlLoop).Inv (i + 1) := by
  unfold UrlLoop.field
  by_cases hsame : c.old_uf = some uf
  -- the field goes on, so it ends one byte later
  · rw [if_pos hsame]
    exact ⟨hc.bounded.grow (fun _ => Nat.le_succ i) (le_refl _), hc.port, hc.unset⟩
  · rw [if_neg hsame]
    refine ⟨hc.bounded.start (fun _ => Nat.le_succ i) (le_refl _), hc.port, ?_⟩
    intro g hg
    have hne : uf ≠ g := by
      rintro rfl
      rw [huf] at hg
      cases hg
    show (c.u.start uf i 1).has g = false
    rw [http_parser_url.has_start, hc.unset g hg, decide_eq_false hne]
    rfl

theorem parse_url_body_ends (ch : UInt8) {n : ℕ} (hi : i < n) (hc : c.Inv i) :
    Loop.Ends (UrlLoop.Inv (i + 1)) (http_parser_url.Bounded fun _ => n)
      (http_parser_parse_url.body i ch c) := by
  have hfailed : c.u.Bounded fun _ => n := hc.bounded.mono fun _ => hi.le
  unfold http_parser_parse_url.body
  -- the next state decides: the parse fails, a field has a byte more, or a delimiter is skipped
  rcases parse_url_char c.s ch
  case s_dead | s_req_spaces_before_url => exact hfailed
  case s_req_schema | s_req_server | s_req_server_with_at | s_req_path | s_req_query_string
      | s_req_fragment => exact hc.field rfl _ _
  all_goals exact hc.succ _ _

end UrlLoop

/-! ### The loop of `http_parse_host` -/

/-- No byte of the host has been read yet. -/
def http_host_state.before_host : http_host_state → Bool
  | .s_http_userinfo_start | .s_http_userinfo | .s_http_host_start | .s_http_host_v6_start => true
  | _ => false

/-- The bound for a field in a buffer of `n` bytes, `i` of which `http_parse_host` has
read. -/
def host_bound (n i : ℕ) : http_parser_url_fields → ℕ
  | .UF_HOST | .UF_PORT | .UF_USERINFO => i
  | _ => n

/-- The invariant, at byte `i` of `n`. -/
structure HostInv (n i : ℕ) (c : http_host_state × http_parser_url) : Prop where
  bounded : c.2.Bounded (host_bound n i)
  has_host : c.2.has .UF_HOST = true
  port : c.2.port = 0
  empty : c.1.before_host = true → (c.2.field_data .UF_HOST).len = 0

section HostLoop

variable {s new_s : http_host_state} {n i : ℕ} {u : http_parser_url}

/-- After the host has begun, the automaton stays where it is or goes on to what follows
the host. -/
theorem http_parse_host_char_after (ch : UInt8) (hs : s.before_host = false) :
    http_parse_host_char s ch = s ∨ http_parse_host_char s ch ∈
      [.s_http_host_dead, .s_http_host_v6_end, .s_http_host_port_start, .s_http_host_port] := by
  rcases s
  -- the states before the host are excluded
  case s_http_userinfo_start | s_http_userinfo | s_http_host_start | s_http_host_v6_start =>
    cases hs
  case s_http_host_dead => exact Or.inl rfl
  all_goals
    simp only [http_parse_host_char, reduceCtorEq, false_and, true_and, if_false]
    split_ifs
    all_goals decide

/-- The host begins in a state before it. -/
theorem before_host_of_char (ch : UInt8) (hs : s ≠ http_parse_host_char s ch)
    (hnew : http_parse_host_char s ch ∉ [.s_http_host_dead, .s_http_host_v6_end,
      .s_http_host_port_start, .s_http_host_port]) : s.before_host = true := by
  by_contra hbefore
  rw [Bool.not_eq_true] at hbefore
  rcases http_parse_host_char_after ch hbefore with hsame | hafter
  · exact hs hsame.symm
  · exact hnew hafter

/-- The states before the host come before all others. -/
theorem before_host_back (ch : UInt8) (hnew : (http_parse_host_char s ch).before_host = true) :
    s.before_host = true := by
  by_contra hbefore
  rw [Bool.not_eq_true] at hbefore
  rcases http_parse_host_char_after ch hbefore with hsame | hafter
  · rw [hsame, hbefore] at hnew
    cases hnew
  · simp only [List.mem_cons, List.not_mem_nil, or_false] at hafter
    rcases hafter with h | h | h | h
    all_goals
      rw [h] at hnew
      cases hnew

theorem host_bound_succ (n i : ℕ) (g : http_parser_url_fields) :
    host_bound n i g ≤ host_bound n (i + 1) g := by
  cases g
  case UF_HOST | UF_PORT | UF_USERINFO => exact Nat.le_succ i
  all_goals exact le_refl n

theorem host_bound_le {n i : ℕ} (hi : i ≤ n) (g : http_parser_url_fields) :
    host_bound n i g ≤ n := by
  cases g
  case UF_HOST | UF_PORT | UF_USERINFO => exact hi
  all_goals exact le_refl n

theorem host_bound_in_host {uf : http_parser_url_fields} (huf : uf.in_host = true) (n i : ℕ) :
    host_bound n i uf = i := by
  cases uf
  case UF_PORT | UF_USERINFO => rfl
  all_goals cases huf

/-- A byte of the host. -/
theorem HostInv.host (hc : HostInv n i (s, u)) (hnew : new_s.before_host = false)
    (hbefore : s ≠ new_s → s.before_host = true) :
    HostInv n (i + 1) (new_s, (if s ≠ new_s then u.set_off .UF_HOST i else u).grow .UF_HOST) := by
  have hempty : new_s.before_host = true → False := by
    intro hbefore'
    rw [hnew] at hbefore'
    cases hbefore'
  by_cases hs : s ≠ new_s
  · rw [if_pos hs]
    have hoff : (u.set_off .UF_HOST i).Bounded (host_bound n i) := by
      apply hc.bounded.modify fun _ => le_refl _
      intro _
      -- the length is still 0
      have hlen : (u.field_data .UF_HOST).len = 0 := hc.empty (hbefore hs)
      have hle := http_parser_url.uint16_le i
      show uint16 i + (u.field_data .UF_HOST).len ≤ i
      omega
    exact ⟨hoff.grow (host_bound_succ n i) (le_refl _), hc.has_host, hc.port,
      fun h => (hempty h).elim⟩
  · rw [if_neg hs]
    exact ⟨hc.bounded.grow (host_bound_succ n i) (le_refl _), hc.has_host, hc.port,
      fun h => (hempty h).elim⟩

/-- A byte of the user info or of the port. -/
theorem HostInv.part (hc : HostInv n i (s, u)) {uf : http_parser_url_fields}
    (huf : uf.in_host = true) (hback : new_s.before_host = true → s.before_host = true) :
    HostInv n (i + 1) (new_s, (if s ≠ new_s then u.start uf i 0 else u).grow uf) := by
  have hne : http_parser_url_fields.UF_HOST ≠ uf := by
    rintro rfl
    cases huf
  have hbound : host_bound n i uf + 1 ≤ host_bound n (i + 1) uf := by
    rw [host_bound_in_host huf, host_bound_in_host huf]
  have hhost : (((if s ≠ new_s then u.start uf i 0 else u).grow uf).field_data .UF_HOST)
      = u.field_data .UF_HOST := by
    rw [http_parser_url.grow, http_parser_url.field_data_modify_of_ne _ _ hne]
    split_ifs
    · exact http_parser_url.field_data_start_of_ne _ _ _ hne
    · rfl
  by_cases hs : s ≠ new_s
  · rw [if_pos hs] at hhost ⊢
    have hstart : (u.start uf i 0).Bounded (host_bound n i) := by
      apply hc.bounded.start fun _ => le_refl _
      rw [host_bound_in_host huf]
      omega
    -- the host field is another one, so what is known of it stays
    refine ⟨hstart.grow (host_bound_succ n i) hbound, ?_, hc.port, fun h => ?_⟩
    · show (u.start uf i 0).has .UF_HOST = true
      rw [http_parser_url.has_start, hc.has_host]
      rfl
    · show (((u.start uf i 0).grow uf).field_data .UF_HOST).len = 0
      rw [hhost]
      exact hc.empty (hback h)
  · rw [if_neg hs] at hhost ⊢
    refine ⟨hc.bounded.grow (host_bound_succ n i) hbound, hc.has_host, hc.port, fun h => ?_⟩
    show ((u.grow uf).field_data .UF_HOST).len = 0
    rw [hhost]
    exact hc.empty (hback h)

/-- A delimiter. -/
theorem HostInv.skip (hc : HostInv n i (s, u))
    (hback : new_s.before_host = true → s.before_host = true) : HostInv n (i + 1) (new_s, u) :=
  ⟨hc.bounded.mono (host_bound_succ n i), hc.has_host, hc.port, fun h => hc.empty (hback h)⟩

theorem parse_host_body_ends (ch : UInt8) (hi : i < n) (hc : HostInv n i (s, u)) :
    Loop.Ends (HostInv n (i + 1)) (http_parser_url.Bounded fun _ => n)
      (http_parse_host.body i ch (s, u)) := by
  have hback : (http_parse_host_char s ch).before_host = true → s.before_host = true :=
    before_host_back ch
  have hbegin := fun hs => before_host_of_char ch (hs : s ≠ http_parse_host_char s ch)
  simp only [http_parse_host.body]
  generalize http_parse_host_char s ch = new_s at hback hbegin ⊢
  rcases new_s
  case s_http_host_dead => exact hc.bounded.mono (host_bound_le hi.le)
  case s_http_host | s_http_host_v6 => exact hc.host rfl fun hs => hbegin hs (by decide)
  case s_http_host_port | s_http_userinfo => exact hc.part rfl hback
  all_goals exact hc.skip hback

end HostLoop

/-! ### The results -/

/-- The fields that are set lie in the first `n` bytes, a scheme comes with a host, and the
port is 0 when no port is given. -/
structure http_parser_url.Parsed (n : ℕ) (u : http_parser_url) : Prop where
  bounded : u.Bounded fun _ => n
  host : u.has .UF_SCHEMA = true → u.has .UF_HOST = true
  port : u.has .UF_PORT = false → u.port = 0

section Results

variable {n : ℕ}

theorem parse_host_ends (buf : Bytes) {u : http_parser_url} (found_at : Bool)
    (hu : u.Bounded fun _ => n) (hhost : u.has .UF_HOST = true) (hport : u.port = 0)
    (hunset : ∀ uf, uf.in_host = true → u.has uf = false) :
    Loop.Ends (fun v => v.Bounded (fun _ => n) ∧ v.has .UF_HOST = true ∧ v.port = 0)
      (http_parser_url.Bounded fun _ => n) (http_parse_host buf u found_at) := by
  have hfits : (u.field_data .UF_HOST).off + (u.field_data .UF_HOST).len ≤ n := hu .UF_HOST hhost
  have hlength : (u.field_data .UF_HOST).off + ((buf.drop (u.field_data .UF_HOST).off).take
      (u.field_data .UF_HOST).len).length ≤ n := by
    rw [List.length_take]
    omega
  have hstart : HostInv n (u.field_data .UF_HOST).off
      (if found_at then .s_http_userinfo_start else .s_http_host_start,
        u.set_len .UF_HOST 0) := by
    refine ⟨?_, hhost, hport, fun _ => ?_⟩
    -- the host is empty; the fields found in it are not set yet
    · intro uf huf
      by_cases hsame : uf = .UF_HOST
      · subst hsame
        simp only [http_parser_url.field_data_set_len_self]
        exact le_refl _
      · simp only [http_parser_url.set_len, http_parser_url.field_data_modify_of_ne _ _ hsame]
        have hset : u.has uf = true := huf
        have hle := hu uf hset
        cases uf
        case UF_HOST => exact absurd rfl hsame
        case UF_PORT =>
          rw [hunset .UF_PORT rfl] at hset
          cases hset
        case UF_USERINFO =>
          rw [hunset .UF_USERINFO rfl] at hset
          cases hset
        all_goals exact hle
    · simp only [http_parser_url.field_data_set_len_self]
      rfl
  apply Loop.Ends.bind (Loop.each_ends (fun i ch c hi hc => parse_host_body_ends ch hi hc)
    hlength hstart)
  rintro ⟨s, v⟩ hv
  have hv' : v.Bounded fun _ => n := hv.bounded.mono (host_bound_le hlength)
  show Loop.Ends _ _ (if s.unfinished then Except.error v else Except.ok v)
  split_ifs
  · exact hv'
  · exact ⟨hv', hv.has_host, hv.port⟩

/-- **The fields lie in the buffer**, whether the parse succeeds or fails. -/
theorem parse_url_ends (buf : Bytes) (buflen : ℕ) (is_connect : Bool) (u : http_parser_url) :
    Loop.Ends (http_parser_url.Parsed (buf.take buflen).length)
      (http_parser_url.Bounded fun _ => (buf.take buflen).length)
      (http_parser_parse_url buf buflen is_connect u) := by
  -- no bit is set, so nothing is asked of the offsets
  have hstart : UrlLoop.Inv 0
      ⟨if is_connect then .s_req_server_start else .s_req_spaces_before_url, none, false,
        { u with port := 0, field_set := 0 }⟩ := by
    have hnone : ∀ uf, http_parser_url.has { u with port := 0, field_set := 0 } uf = false :=
      fun uf => Nat.zero_testBit uf.value
    refine ⟨fun uf huf => ?_, rfl, fun uf _ => hnone uf⟩
    have hunset := hnone uf
    rw [huf] at hunset
    cases hunset
  unfold http_parser_parse_url
  apply Loop.Ends.bind (Loop.each_ends (fun i ch c hi hc => parse_url_body_ends ch hi hc)
    (Nat.zero_add _).le hstart)
  intro c hc
  rw [Nat.zero_add] at hc
  by_cases hschema : c.u.has .UF_SCHEMA = true ∧ ¬ c.u.has .UF_HOST = true
  · rw [if_pos hschema]
    exact hc.bounded
  rw [if_neg hschema]
  -- what is known after the host has been parsed, or is absent
  have hparsed : Loop.Ends (fun v => v.Bounded (fun _ => (buf.take buflen).length) ∧
      (v.has .UF_SCHEMA = true → v.has .UF_HOST = true) ∧ v.port = 0)
      (http_parser_url.Bounded fun _ => (buf.take buflen).length)
      (if c.u.has .UF_HOST then http_parse_host buf c.u c.found_at else .ok c.u) := by
    by_cases hhost : c.u.has .UF_HOST = true
    · rw [if_pos hhost]
      exact (parse_host_ends buf c.found_at hc.bounded hhost hc.port hc.unset).mono
        (fun v hv => ⟨hv.1, fun _ => hv.2.1, hv.2.2⟩) fun v hv => hv
    · rw [if_neg hhost]
      refine ⟨hc.bounded, fun hset => ?_, hc.port⟩
      exact absurd ⟨hset, hhost⟩ hschema
  apply hparsed.bind
  rintro v ⟨hv, hvhost, hvport⟩
  simp only
  split_ifs with hconnect hport hmax
  · exact hv
  · exact hv
  · refine ⟨hv, hvhost, fun hunset => ?_⟩
    rw [show v.has .UF_PORT = false from hunset] at hport
    cases hport
  · exact ⟨hv, hvhost, fun _ => hvport⟩

end Results

/-! ## The fields that are not set -/

namespace http_parser_url

/-- `u` is `v` written over `u₀`: what is not set is as in `u₀`. -/
structure Over (u₀ u v : http_parser_url) : Prop where
  field_set : u.field_set = v.field_set
  port : u.port = v.port
  set : ∀ uf, v.has uf = true → u.field_data uf = v.field_data uf
  unset : ∀ uf, v.has uf = false → u.field_data uf = u₀.field_data uf

section Over

variable {u₀ u v : http_parser_url} {uf : http_parser_url_fields}

theorem Over.has (h : Over u₀ u v) (uf : http_parser_url_fields) : u.has uf = v.has uf :=
  congrArg (fun n => n.testBit uf.value) h.field_set

/-- A field that is set is changed. -/
theorem Over.modify (h : Over u₀ u v) (huf : v.has uf = true) (f : FieldData → FieldData) :
    Over u₀ (u.modify uf f) (v.modify uf f) := by
  refine ⟨h.field_set, h.port, fun g hg => ?_, fun g hg => ?_⟩
  · by_cases hsame : g = uf
    · subst hsame
      rw [field_data_modify_self, field_data_modify_self, h.set g hg]
    · rw [field_data_modify_of_ne _ _ hsame, field_data_modify_of_ne _ _ hsame]
      exact h.set g hg
  · have hne : g ≠ uf := by
      rintro rfl
      rw [has_modify, huf] at hg
      cases hg
    rw [field_data_modify_of_ne _ _ hne]
    exact h.unset g hg

/-- A field begins. -/
theorem Over.start (h : Over u₀ u v) (uf : http_parser_url_fields) (off len : ℕ) :
    Over u₀ (u.start uf off len) (v.start uf off len) := by
  refine ⟨congrArg (fun n => n ||| 1 <<< uf.value) h.field_set, h.port, fun g hg => ?_,
    fun g hg => ?_⟩
  · by_cases hsame : g = uf
    · subst hsame
      rw [field_data_start_self, field_data_start_self]
    · rw [has_start, decide_eq_false fun hn => hsame hn.symm, Bool.or_false] at hg
      rw [field_data_start_of_ne _ _ _ hsame, field_data_start_of_ne _ _ _ hsame]
      exact h.set g hg
  · rw [has_start, Bool.or_eq_false_iff, decide_eq_false_iff_not] at hg
    rw [field_data_start_of_ne _ _ _ fun hn => hg.2 hn.symm]
    exact h.unset g hg.1

end Over

end http_parser_url

open http_parser_url (Over)

/-! ### The loop of `http_parser_parse_url` -/

/-- Two executions of the loop, one over `u₀`. -/
structure UrlLoop.Over (u₀ : http_parser_url) (c d : UrlLoop) : Prop where
  s : c.s = d.s
  old_uf : c.old_uf = d.old_uf
  found_at : c.found_at = d.found_at
  u : http_parser_url.Over u₀ c.u d.u
  set : ∀ uf, d.old_uf = some uf → d.u.has uf = true

section UrlLoop

variable {u₀ : http_parser_url} {c d : UrlLoop}

theorem UrlLoop.Over.field (h : c.Over u₀ d) (i : ℕ) (uf : http_parser_url_fields) :
    (c.field i uf).Over u₀ (d.field i uf) := by
  unfold UrlLoop.field
  rw [h.old_uf]
  by_cases hsame : d.old_uf = some uf
  · rw [if_pos hsame, if_pos hsame]
    have hgrow : http_parser_url.Over u₀ (c.u.grow uf) (d.u.grow uf) :=
      h.u.modify (h.set uf hsame) _
    exact ⟨h.s, rfl, h.found_at, hgrow, h.set⟩
  · rw [if_neg hsame, if_neg hsame]
    refine ⟨h.s, rfl, h.found_at, h.u.start uf i 1, ?_⟩
    rintro g ⟨⟩
    show (d.u.start uf i 1).has uf = true
    rw [http_parser_url.has_start, decide_eq_true rfl, Bool.or_true]

theorem parse_url_body_over (i : ℕ) (ch : UInt8) (h : c.Over u₀ d) :
    Loop.EndTogether (UrlLoop.Over u₀) (Over u₀) (http_parser_parse_url.body i ch c)
      (http_parser_parse_url.body i ch d) := by
  have hmoved : ∀ s, UrlLoop.Over u₀ { c with s := s } { d with s := s } :=
    fun s => ⟨rfl, h.old_uf, h.found_at, h.u, h.set⟩
  have hat : ∀ s, UrlLoop.Over u₀ { c with s := s, found_at := true }
      { d with s := s, found_at := true } := fun s => ⟨rfl, h.old_uf, rfl, h.u, h.set⟩
  unfold http_parser_parse_url.body
  -- both executions are in the same state, so they take the same branch
  rw [h.s]
  rcases parse_url_char d.s ch
  case s_dead | s_req_spaces_before_url => exact h.u
  case s_req_server_with_at => exact (hat _).field i _
  case s_req_schema | s_req_server | s_req_path | s_req_query_string | s_req_fragment =>
    exact (hmoved _).field i _
  all_goals exact hmoved _

end UrlLoop

/-! ### The loop of `http_parse_host` -/

/-- Two executions of the loop, one over `u₀`. -/
structure HostOver (u₀ : http_parser_url) (c d : http_host_state × http_parser_url) : Prop where
  s : c.1 = d.1
  u : Over u₀ c.2 d.2
  host : d.2.has .UF_HOST = true
  port : d.1 = .s_http_host_port → d.2.has .UF_PORT = true
  userinfo : d.1 = .s_http_userinfo → d.2.has .UF_USERINFO = true

section HostLoop

variable {u₀ u v : http_parser_url}

/-- A byte of the host. -/
theorem HostOver.host_byte (h : Over u₀ u v) (hhost : v.has .UF_HOST = true) (i : ℕ) (begins : Prop)
    [Decidable begins] : Over u₀ ((if begins then u.set_off .UF_HOST i else u).grow .UF_HOST)
      ((if begins then v.set_off .UF_HOST i else v).grow .UF_HOST) := by
  by_cases hb : begins
  · rw [if_pos hb, if_pos hb]
    exact (h.modify hhost _).modify hhost _
  · rw [if_neg hb, if_neg hb]
    exact h.modify hhost _

/-- A byte of the user info or of the port. -/
theorem HostOver.part_byte (h : Over u₀ u v) (uf : http_parser_url_fields) (i : ℕ)
    (begins : Prop) [Decidable begins] (hset : ¬ begins → v.has uf = true) :
    Over u₀ ((if begins then u.start uf i 0 else u).grow uf)
      ((if begins then v.start uf i 0 else v).grow uf) ∧
      ((if begins then v.start uf i 0 else v).grow uf).has uf = true ∧
      ∀ g, v.has g = true → ((if begins then v.start uf i 0 else v).grow uf).has g = true := by
  by_cases hb : begins
  · have hstart : (v.start uf i 0).has uf = true := by
      rw [http_parser_url.has_start, decide_eq_true rfl, Bool.or_true]
    rw [if_pos hb, if_pos hb]
    refine ⟨(h.start uf i 0).modify hstart _, hstart, fun g hg => ?_⟩
    rw [http_parser_url.has_grow, http_parser_url.has_start, hg, Bool.true_or]
  · rw [if_neg hb, if_neg hb]
    exact ⟨h.modify (hset hb) _, hset hb, fun g hg => hg⟩

theorem parse_host_body_over (i : ℕ) (ch : UInt8) {c d : http_host_state × http_parser_url}
    (h : HostOver u₀ c d) :
    Loop.EndTogether (HostOver u₀) (Over u₀) (http_parse_host.body i ch c)
      (http_parse_host.body i ch d) := by
  obtain ⟨s, u⟩ := c
  obtain ⟨s', v⟩ := d
  obtain rfl : s = s' := h.s
  simp only [http_parse_host.body]
  rcases http_parse_host_char s ch
  case s_http_host_dead => exact h.u
  case s_http_host | s_http_host_v6 =>
    have hbyte := HostOver.host_byte h.u h.host i
    refine ⟨rfl, hbyte _, ?_, nofun, nofun⟩
    split_ifs
    · exact h.host
    · exact h.host
  case s_http_host_port =>
    obtain ⟨hover, hport, hkept⟩ := HostOver.part_byte h.u .UF_PORT i (s ≠ .s_http_host_port)
      fun hs => h.port (not_not.mp hs)
    exact ⟨rfl, hover, hkept _ h.host, fun _ => hport, nofun⟩
  case s_http_userinfo =>
    obtain ⟨hover, huserinfo, hkept⟩ := HostOver.part_byte h.u .UF_USERINFO i
      (s ≠ .s_http_userinfo) fun hs => h.userinfo (not_not.mp hs)
    exact ⟨rfl, hover, hkept _ h.host, nofun, fun _ => huserinfo⟩
  all_goals exact ⟨rfl, h.u, h.host, nofun, nofun⟩

end HostLoop

/-! ### The results -/

section Results

variable {u₀ u v : http_parser_url}

theorem parse_host_over (buf : Bytes) (found_at : Bool) (h : Over u₀ u v)
    (hhost : v.has .UF_HOST = true) :
    Loop.EndTogether (Over u₀) (Over u₀) (http_parse_host buf u found_at)
      (http_parse_host buf v found_at) := by
  unfold http_parse_host
  rw [h.set .UF_HOST hhost]
  have hstart : HostOver u₀
      (if found_at then .s_http_userinfo_start else .s_http_host_start, u.set_len .UF_HOST 0)
      (if found_at then .s_http_userinfo_start else .s_http_host_start, v.set_len .UF_HOST 0) := by
    have hlen : Over u₀ (u.set_len .UF_HOST 0) (v.set_len .UF_HOST 0) := h.modify hhost _
    refine ⟨rfl, hlen, hhost, fun hs => ?_, fun hs => ?_⟩
    · cases found_at
      all_goals cases hs
    · cases found_at
      all_goals cases hs
  apply Loop.EndTogether.bind (Loop.each_endTogether
    (fun i ch c d hcd => parse_host_body_over i ch hcd) hstart)
  rintro ⟨s, u'⟩ ⟨s', v'⟩ hcd
  obtain rfl : s = s' := hcd.s
  show Loop.EndTogether _ _ (if s.unfinished then Except.error u' else Except.ok u')
    (if s.unfinished then Except.error v' else Except.ok v')
  split_ifs
  · exact hcd.u
  · exact hcd.u

/-- **The structure that is passed in shows in the fields that are not set, and nowhere
else.** The parse over it returns as the parse over another does, and its result is the
other one's written over it. -/
theorem parse_url_over (buf : Bytes) (buflen : ℕ) (is_connect : Bool) (u₀ v₀ : http_parser_url) :
    Loop.EndTogether (Over u₀) (Over u₀) (http_parser_parse_url buf buflen is_connect u₀)
      (http_parser_parse_url buf buflen is_connect v₀) := by
  -- after the reset no field is set, whatever the two structures hold
  have hreset : Over u₀ { u₀ with port := 0, field_set := 0 }
      { v₀ with port := 0, field_set := 0 } := by
    refine ⟨rfl, rfl, fun uf huf => ?_, fun _ _ => rfl⟩
    rw [http_parser_url.has, Nat.zero_testBit] at huf
    cases huf
  have hstart : ∀ s, UrlLoop.Over u₀ ⟨s, none, false, { u₀ with port := 0, field_set := 0 }⟩
      ⟨s, none, false, { v₀ with port := 0, field_set := 0 }⟩ := by
    intro s
    refine ⟨rfl, rfl, rfl, hreset, ?_⟩
    rintro uf ⟨⟩
  unfold http_parser_parse_url
  apply Loop.EndTogether.bind (Loop.each_endTogether
    (fun i ch c d hcd => parse_url_body_over i ch hcd) (hstart _))
  intro c d hcd
  simp only [hcd.u.has, hcd.found_at]
  by_cases hschema : d.u.has .UF_SCHEMA = true ∧ ¬ d.u.has .UF_HOST = true
  · rw [if_pos hschema, if_pos hschema]
    exact hcd.u
  rw [if_neg hschema, if_neg hschema]
  have hparsed : Loop.EndTogether (Over u₀) (Over u₀)
      (if d.u.has .UF_HOST then http_parse_host buf c.u d.found_at else .ok c.u)
      (if d.u.has .UF_HOST then http_parse_host buf d.u d.found_at else .ok d.u) := by
    by_cases hhost : d.u.has .UF_HOST = true
    · rw [if_pos hhost, if_pos hhost]
      exact parse_host_over buf d.found_at hcd.u hhost
    · rw [if_neg hhost, if_neg hhost]
      exact hcd.u
  apply hparsed.bind
  intro u v huv
  rw [huv.field_set, huv.has]
  -- the port is read where both have it
  by_cases hport : v.has .UF_PORT = true
  · rw [huv.set .UF_PORT hport]
    simp only [if_pos hport]
    split_ifs
    · exact huv
    · exact huv
    · exact ⟨rfl, rfl, huv.set, huv.unset⟩
  · simp only [if_neg hport]
    split_ifs
    · exact huv
    · exact huv

end Results

end MyWarehouse

/-
`url_obj` of `request_respons.h`: a buffer, and where the components of the URL are in it.

Each accessor looks at one bit before it returns the component, and three of them look at
the bit of another component: `host` asks for a scheme, `port` for a path, `fragment` for a
query. `has_host`, `has_port` and `has_fragment` are there and nobody calls them.

On an object that has parsed one URL the wrong bit gives a wrong component
(`accessors_agree_iff`). On an object that has parsed another URL before, it gives what the
other URL has left in the field (`accessors_reused_iff`).
-/
import MyWarehouse.Response
import MyWarehouse.UrlFields

set_option autoImplicit false

namespace MyWarehouse

/-! ## `url_obj` -/

/-- `std::string::substr`, which throws `std::out_of_range`. -/
def substr (s : Bytes) (pos n : ℕ) : Except Exn Bytes :=
  if s.length < pos then .error ⟨"basic_string::substr"⟩ else .ok ((s.drop pos).take n)

/-- `url_obj`. -/
structure url_obj where
  handle_ : http_parser_url
  buf_ : Bytes

namespace url_obj

/-- `url_obj::url_obj`. -/
def ctor : url_obj := ⟨.zero, []⟩

/-- `url_obj::from_buf`. What `http_parser_parse_url` returns is looked at and dropped. -/
def from_buf (o : url_obj) (buf : Bytes) (len : ℕ) (is_connect : Bool) : url_obj where
  buf_ := buf.take len
  handle_ := match http_parser_parse_url buf len is_connect o.handle_ with
    | .ok u => u
    | .error u => u

variable (o : url_obj)

/-- `buf_.substr` of where a field is. -/
def text (uf : http_parser_url_fields) : Except Exn Bytes :=
  substr o.buf_ (o.handle_.field_data uf).off (o.handle_.field_data uf).len

def has_schema : Bool := o.handle_.has .UF_SCHEMA
def has_host : Bool := o.handle_.has .UF_HOST
def has_port : Bool := o.handle_.has .UF_PORT
def has_path : Bool := o.handle_.has .UF_PATH
def has_query : Bool := o.handle_.has .UF_QUERY
def has_fragment : Bool := o.handle_.has .UF_FRAGMENT

/-- `url_obj::schema`. -/
def schema : Except Exn Bytes :=
  if o.has_schema then o.text .UF_SCHEMA else .ok (bytes "HTTP")

/-- `url_obj::host`. -/
def host : Except Exn Bytes :=
  if o.has_schema then o.text .UF_HOST else .ok (bytes "localhost")

/-- `url_obj::port`. -/
def port : Except Exn ℕ :=
  -- `has_path`, not `has_port`
  if o.has_path then .ok o.handle_.port
  else match o.schema with
    | .error e => .error e
    | .ok schema => .ok (if schema = bytes "HTTP" then 80 else 443)

/-- `url_obj::path`. -/
def path : Except Exn Bytes :=
  if o.has_path then o.text .UF_PATH else .ok (bytes "/")

/-- `url_obj::query`. -/
def query : Except Exn Bytes :=
  if o.has_query then o.text .UF_QUERY else .ok []

/-- `url_obj::fragment`. -/
def fragment : Except Exn Bytes :=
  if o.has_query then o.text .UF_FRAGMENT else .ok []

/-! ## What the accessors find -/

/-- The component that is recorded for a field. -/
def component (uf : http_parser_url_fields) : Bytes :=
  (o.buf_.drop (o.handle_.field_data uf).off).take (o.handle_.field_data uf).len

/-- Every field begins in the buffer, and what is not set is empty. -/
structure Fresh (o : url_obj) : Prop where
  le : ∀ uf, (o.handle_.field_data uf).off ≤ o.buf_.length
  unset : ∀ uf, o.handle_.has uf = false → o.component uf = []

end url_obj

theorem substr_of_le {s : Bytes} {pos : ℕ} (hpos : pos ≤ s.length) (n : ℕ) :
    substr s pos n = .ok ((s.drop pos).take n) := if_neg (Nat.not_lt.mpr hpos)

/-- When a piece of a string is there and empty. -/
theorem substr_eq_nil_iff (s : Bytes) (pos n : ℕ) :
    substr s pos n = .ok [] ↔ pos ≤ s.length ∧ (n = 0 ∨ pos = s.length) := by
  unfold substr
  by_cases hpos : s.length < pos
  · rw [if_pos hpos]
    constructor
    · intro h
      cases h
    · rintro ⟨hle, -⟩
      omega
  · rw [if_neg hpos, Except.ok.injEq, List.take_eq_nil_iff, List.drop_eq_nil_iff]
    constructor
    · rintro (hn | hle)
      · exact ⟨Nat.not_lt.mp hpos, Or.inl hn⟩
      · exact ⟨Nat.not_lt.mp hpos, Or.inr (by omega)⟩
    · rintro ⟨-, hn | hle⟩
      · exact Or.inl hn
      · exact Or.inr hle.ge

section FromBuf

variable (buf : Bytes) (len : ℕ) (is_connect : Bool)

/-- The fields that are set lie in the buffer, after any parse. -/
theorem from_buf_bounded (o : url_obj) :
    (o.from_buf buf len is_connect).handle_.Bounded
      fun _ => (o.from_buf buf len is_connect).buf_.length := by
  have hends := parse_url_ends buf len is_connect o.handle_
  simp only [url_obj.from_buf]
  generalize http_parser_parse_url buf len is_connect o.handle_ = r at hends ⊢
  rcases r with u | u
  · exact hends
  · exact hends.bounded

/-- What a parse leaves is what it leaves in another object, written over what was
there. -/
theorem from_buf_over (o o' : url_obj) :
    http_parser_url.Over o.handle_ (o.from_buf buf len is_connect).handle_
      (o'.from_buf buf len is_connect).handle_ := by
  have hover := parse_url_over buf len is_connect o.handle_ o'.handle_
  simp only [url_obj.from_buf]
  generalize http_parser_parse_url buf len is_connect o.handle_ = r at hover ⊢
  generalize http_parser_parse_url buf len is_connect o'.handle_ = r' at hover ⊢
  rcases r with u | u
  · rcases r' with v | v
    · exact hover
    · exact hover.elim
  · rcases r' with v | v
    · exact hover.elim
    · exact hover

/-- A constructed object after one parse. -/
theorem fresh_from_buf : (url_obj.ctor.from_buf buf len is_connect).Fresh := by
  have hbounded := from_buf_bounded buf len is_connect .ctor
  have hzero : ∀ uf, (url_obj.ctor.from_buf buf len is_connect).handle_.has uf = false →
      (url_obj.ctor.from_buf buf len is_connect).handle_.field_data uf = ⟨0, 0⟩ :=
    (from_buf_over buf len is_connect .ctor .ctor).unset
  refine ⟨fun uf => ?_, fun uf hunset => ?_⟩
  -- a field that is set begins in the buffer, one that is not begins at 0
  · rcases hset : (url_obj.ctor.from_buf buf len is_connect).handle_.has uf with _ | _
    · rw [hzero uf hset]
      exact Nat.zero_le _
    · exact (Nat.le_add_right _ _).trans (hbounded uf hset)
  · rw [url_obj.component, hzero uf hunset]
    exact List.take_zero

/-- A parse that succeeds. -/
theorem from_buf_parsed (o : url_obj)
    (hok : (http_parser_parse_url buf len is_connect o.handle_).isOk = true) :
    (o.from_buf buf len is_connect).handle_.Parsed
      (o.from_buf buf len is_connect).buf_.length := by
  have hends := parse_url_ends buf len is_connect o.handle_
  simp only [url_obj.from_buf]
  generalize http_parser_parse_url buf len is_connect o.handle_ = r at hends hok ⊢
  rcases r with u | u
  · cases hok
  · exact hends

end FromBuf

section Fresh

variable {o : url_obj}

/-- In a fresh object the accessors find the components. -/
theorem url_obj.Fresh.text (ho : o.Fresh) (uf : http_parser_url_fields) :
    o.text uf = .ok (o.component uf) := substr_of_le (ho.le uf) _

/-- An accessor of a fresh object finds the component behind its guard, or its default. -/
theorem url_obj.Fresh.guarded (ho : o.Fresh) (guard : Bool) (uf : http_parser_url_fields)
    (default : Bytes) :
    (if guard then o.text uf else .ok default)
      = .ok (if guard then o.component uf else default) := by
  by_cases hguard : guard = true
  · rw [if_pos hguard, if_pos hguard, ho.text]
  · rw [if_neg hguard, if_neg hguard]

theorem url_obj.Fresh.schema (ho : o.Fresh) :
    o.schema = .ok (if o.has_schema then o.component .UF_SCHEMA else bytes "HTTP") :=
  ho.guarded o.has_schema .UF_SCHEMA _

theorem url_obj.Fresh.host (ho : o.Fresh) :
    o.host = .ok (if o.has_schema then o.component .UF_HOST else bytes "localhost") :=
  ho.guarded o.has_schema .UF_HOST _

theorem url_obj.Fresh.path (ho : o.Fresh) :
    o.path = .ok (if o.has_path then o.component .UF_PATH else bytes "/") :=
  ho.guarded o.has_path .UF_PATH _

theorem url_obj.Fresh.query (ho : o.Fresh) :
    o.query = .ok (if o.has_query then o.component .UF_QUERY else []) :=
  ho.guarded o.has_query .UF_QUERY _

theorem url_obj.Fresh.fragment (ho : o.Fresh) :
    o.fragment = .ok (if o.has_query then o.component .UF_FRAGMENT else []) :=
  ho.guarded o.has_query .UF_FRAGMENT _

/-- The port that `url_obj::port` falls back to: the scheme is compared with its case. -/
def url_obj.default_port (o : url_obj) : ℕ :=
  if o.has_schema = true ∧ o.component .UF_SCHEMA ≠ bytes "HTTP" then 443 else 80

theorem url_obj.Fresh.port (ho : o.Fresh) :
    o.port = .ok (if o.has_path then o.handle_.port else o.default_port) := by
  unfold url_obj.port url_obj.default_port
  rw [ho.schema]
  by_cases hpath : o.has_path = true
  · rw [if_pos hpath, if_pos hpath]
  rw [if_neg hpath, if_neg hpath]
  by_cases hschema : o.has_schema = true
  · simp only [hschema, if_true, true_and, ite_not]
  · simp only [hschema, Bool.false_eq_true, if_false, if_true, false_and]

end Fresh

/-! ## After one parse -/

/-- Each accessor returns its component when the bit of the component is set, and the
default otherwise. -/
structure url_obj.Agrees (o : url_obj) : Prop where
  schema : o.schema = .ok (if o.has_schema then o.component .UF_SCHEMA else bytes "HTTP")
  host : o.host = .ok (if o.has_host then o.component .UF_HOST else bytes "localhost")
  port : o.port = .ok (if o.has_port then o.handle_.port
    else if o.has_schema = true ∧ (o.component .UF_SCHEMA).map tolower ≠ bytes "http" then 443
    else 80)
  path : o.path = .ok (if o.has_path then o.component .UF_PATH else bytes "/")
  query : o.query = .ok (if o.has_query then o.component .UF_QUERY else [])
  fragment : o.fragment = .ok (if o.has_fragment then o.component .UF_FRAGMENT else [])

/-- The combinations of components on which the bit an accessor looks at does for the bit of
the component. -/
structure url_obj.GuardsFit (o : url_obj) : Prop where
  host : o.has_schema = false → o.has_host = true → o.component .UF_HOST = bytes "localhost"
  path : o.has_path = true → o.has_port = true
  port : o.has_path = false → o.has_port = true → o.handle_.port = o.default_port
  scheme : o.has_path = false → o.has_port = false → o.has_schema = true →
    (o.component .UF_SCHEMA).map tolower = bytes "http" → o.component .UF_SCHEMA = bytes "HTTP"
  fragment : o.has_query = false → o.has_fragment = true → o.component .UF_FRAGMENT = []

section Agrees

variable {o : url_obj} {n : ℕ}

theorem host_agrees_iff (ho : o.Fresh) (hparsed : o.handle_.Parsed n) :
    o.host = .ok (if o.has_host then o.component .UF_HOST else bytes "localhost") ↔
      (o.has_schema = false → o.has_host = true → o.component .UF_HOST = bytes "localhost") := by
  rw [ho.host, Except.ok.injEq]
  rcases hschema : o.has_schema with _ | _
  · rcases hhost : o.has_host with _ | _
    · simp
    · simp only [Bool.false_eq_true, if_false, if_true, true_implies]
      exact eq_comm
  · -- a scheme comes with a host
    have hhost : o.has_host = true := hparsed.host hschema
    simp [hhost]

theorem port_agrees_iff (ho : o.Fresh) (hparsed : o.handle_.Parsed n) :
    o.port = .ok (if o.has_port then o.handle_.port
      else if o.has_schema = true ∧ (o.component .UF_SCHEMA).map tolower ≠ bytes "http" then 443
      else 80) ↔
      (o.has_path = true → o.has_port = true) ∧
      (o.has_path = false → o.has_port = true → o.handle_.port = o.default_port) ∧
      (o.has_path = false → o.has_port = false → o.has_schema = true →
        (o.component .UF_SCHEMA).map tolower = bytes "http" →
        o.component .UF_SCHEMA = bytes "HTTP") := by
  have hlower : (bytes "HTTP").map tolower = bytes "http" := by decide
  rw [ho.port, Except.ok.injEq]
  -- the accessor looks at the path, the specification at the port
  rcases hpath : o.has_path with _ | _
  · rcases hport : o.has_port with _ | _
    · -- neither: the scheme decides
      unfold url_obj.default_port
      simp only [Bool.false_eq_true, if_false, false_implies, true_and, true_implies]
      by_cases hschema : o.has_schema = true
      · simp only [hschema, true_and, true_implies]
        by_cases hname : o.component .UF_SCHEMA = bytes "HTTP"
        · simp only [hname, hlower, ne_eq, not_true_eq_false, if_false, implies_true]
        · by_cases hhttp : (o.component .UF_SCHEMA).map tolower = bytes "http"
          · simp [hname, hhttp]
          · simp [hname, hhttp]
      · simp only [hschema, false_and, if_false, Bool.false_eq_true, false_implies]
    · simp only [Bool.false_eq_true, if_false, if_true, true_implies, false_implies, true_and,
        and_true, Bool.true_eq_false, implies_true]
      exact eq_comm
  · rcases hport : o.has_port with _ | _
    · -- no port was given: it is 0
      have hzero : o.handle_.port = 0 := hparsed.port hport
      simp only [hzero, if_true, Bool.false_eq_true, if_false]
      split_ifs
      all_goals simp
    · simp

theorem fragment_agrees_iff (ho : o.Fresh) :
    o.fragment = .ok (if o.has_fragment then o.component .UF_FRAGMENT else []) ↔
      (o.has_query = false → o.has_fragment = true → o.component .UF_FRAGMENT = []) := by
  rw [ho.fragment, Except.ok.injEq]
  rcases hfragment : o.has_fragment with _ | _
  · have hempty : o.component .UF_FRAGMENT = [] := ho.unset .UF_FRAGMENT hfragment
    simp [hempty]
  · rcases hquery : o.has_query with _ | _
    · simp only [Bool.false_eq_true, if_false, if_true, true_implies]
      exact eq_comm
    · simp

end Agrees

/-- **The accessors agree with the URL exactly when the guards fit**, for every buffer that
a constructed object parses. -/
theorem accessors_agree_iff (buf : Bytes) (len : ℕ) (is_connect : Bool)
    (hok : (http_parser_parse_url buf len is_connect url_obj.ctor.handle_).isOk = true) :
    (url_obj.ctor.from_buf buf len is_connect).Agrees ↔
      (url_obj.ctor.from_buf buf len is_connect).GuardsFit := by
  have ho := fresh_from_buf buf len is_connect
  have hparsed := from_buf_parsed buf len is_connect .ctor hok
  constructor
  · intro h
    obtain ⟨hpath, hport, hscheme⟩ := (port_agrees_iff ho hparsed).mp h.port
    exact ⟨(host_agrees_iff ho hparsed).mp h.host, hpath, hport, hscheme,
      (fragment_agrees_iff ho).mp h.fragment⟩
  · intro h
    exact ⟨ho.schema, (host_agrees_iff ho hparsed).mpr h.host,
      (port_agrees_iff ho hparsed).mpr ⟨h.path, h.port, h.scheme⟩, ho.path, ho.query,
      (fragment_agrees_iff ho).mpr h.fragment⟩

/-- A URL with every component but the user info. -/
def full_url : Bytes := bytes "http://localhost:8080/x?q#f"

theorem accessors_agree_full : (url_obj.ctor.from_buf full_url 27 false).Agrees := by
  apply (accessors_agree_iff full_url 27 false (by decide +kernel)).mpr
  exact ⟨by decide +kernel, by decide +kernel, by decide +kernel, by decide +kernel,
    by decide +kernel⟩

/-- A path without a host and a port: `port` returns 0. -/
theorem not_accessors_agree_path :
    (http_parser_parse_url (bytes "/index.html") 11 false url_obj.ctor.handle_).isOk = true ∧
      (url_obj.ctor.from_buf (bytes "/index.html") 11 false).port = .ok 0 ∧
      ¬ (url_obj.ctor.from_buf (bytes "/index.html") 11 false).Agrees := by
  have hport : (url_obj.ctor.from_buf (bytes "/index.html") 11 false).port = .ok 0 := by
    decide +kernel
  refine ⟨by decide +kernel, hport, fun h => ?_⟩
  have hdefault := h.port
  rw [hport] at hdefault
  revert hdefault
  decide +kernel

/-! ## After several parses -/

/-- The arguments of one call of `from_buf`. -/
structure UrlBuffer where
  buf : Bytes
  len : ℕ
  is_connect : Bool

/-- One call of `from_buf`. -/
def url_obj.parse (o : url_obj) (c : UrlBuffer) : url_obj := o.from_buf c.buf c.len c.is_connect

/-- What the accessors return. -/
structure UrlAnswers where
  schema : Bytes
  host : Bytes
  port : ℕ
  path : Bytes
  query : Bytes
  fragment : Bytes

/-- No accessor throws, and they return what is given. -/
structure url_obj.Returns (o : url_obj) (a : UrlAnswers) : Prop where
  schema : o.schema = .ok a.schema
  host : o.host = .ok a.host
  port : o.port = .ok a.port
  path : o.path = .ok a.path
  query : o.query = .ok a.query
  fragment : o.fragment = .ok a.fragment

/-- Where the field is, a buffer of `n` bytes has nothing. -/
def FieldData.Nothing (d : FieldData) (n : ℕ) : Prop := d.off ≤ n ∧ (d.len = 0 ∨ d.off = n)

/-- What an object holds of earlier URLs does not show after the call: when the call leaves a
scheme without a host, the object has nothing for the host at hand, and the same for a
query without a fragment. -/
structure url_obj.Unseen (o : url_obj) (c : UrlBuffer) : Prop where
  host : (url_obj.ctor.parse c).has_schema = true → (url_obj.ctor.parse c).has_host = false →
    (o.handle_.field_data .UF_HOST).Nothing (c.buf.take c.len).length
  fragment : (url_obj.ctor.parse c).has_query = true →
    (url_obj.ctor.parse c).has_fragment = false →
    (o.handle_.field_data .UF_FRAGMENT).Nothing (c.buf.take c.len).length

section Reused

variable (o : url_obj) (c : UrlBuffer)

/-- The bits after a call do not depend on the object. -/
theorem has_parse (uf : http_parser_url_fields) :
    (o.parse c).handle_.has uf = (url_obj.ctor.parse c).handle_.has uf :=
  (from_buf_over c.buf c.len c.is_connect o .ctor).has uf

theorem port_parse : (o.parse c).handle_.port = (url_obj.ctor.parse c).handle_.port :=
  (from_buf_over c.buf c.len c.is_connect o .ctor).port

/-- Nor does a component that is set. -/
theorem text_parse_of_has {uf : http_parser_url_fields}
    (huf : (url_obj.ctor.parse c).handle_.has uf = true) :
    (o.parse c).text uf = (url_obj.ctor.parse c).text uf := by
  have hset := (from_buf_over c.buf c.len c.is_connect o .ctor).set uf huf
  unfold url_obj.text
  rw [show (o.parse c).handle_.field_data uf = (url_obj.ctor.parse c).handle_.field_data uf
    from hset]
  rfl

/-- A component that is not set is read where the object has it from before. -/
theorem text_parse_iff (uf : http_parser_url_fields) :
    (o.parse c).text uf = (url_obj.ctor.parse c).text uf ↔
      ((url_obj.ctor.parse c).handle_.has uf = false →
        (o.handle_.field_data uf).Nothing (c.buf.take c.len).length) := by
  rcases huf : (url_obj.ctor.parse c).handle_.has uf with _ | _
  -- not set: the offset and length are the old ones, and the buffer is the new one
  · have hstale : (o.parse c).handle_.field_data uf = o.handle_.field_data uf :=
      (from_buf_over c.buf c.len c.is_connect o .ctor).unset uf huf
    have hfresh : (url_obj.ctor.parse c).Fresh := fresh_from_buf c.buf c.len c.is_connect
    rw [hfresh.text, hfresh.unset uf huf, url_obj.text, hstale, substr_eq_nil_iff]
    simp only [true_implies]
    rfl
  · simp only [Bool.true_eq_false, false_implies, iff_true]
    exact text_parse_of_has o c huf

/-- An accessor after a call returns what it returns after the call alone, unless its guard
holds and its component is not set. -/
theorem guarded_parse_iff (guard uf : http_parser_url_fields) (default : Bytes) :
    (if (o.parse c).handle_.has guard then (o.parse c).text uf else .ok default)
      = (if (url_obj.ctor.parse c).handle_.has guard then (url_obj.ctor.parse c).text uf
        else .ok default) ↔
    ((url_obj.ctor.parse c).handle_.has guard = true →
      (url_obj.ctor.parse c).handle_.has uf = false →
      (o.handle_.field_data uf).Nothing (c.buf.take c.len).length) := by
  rw [has_parse]
  by_cases hguard : (url_obj.ctor.parse c).handle_.has guard = true
  · rw [if_pos hguard, if_pos hguard, text_parse_iff]
    constructor
    · intro hnone _
      exact hnone
    · intro hnone
      exact hnone hguard
  · rw [if_neg hguard, if_neg hguard]
    constructor
    · intro _ hset
      exact absurd hset hguard
    · intro _
      rfl

/-- An accessor that looks at the bit of its own component. -/
theorem guarded_parse (uf : http_parser_url_fields) (default : Bytes) :
    (if (o.parse c).handle_.has uf then (o.parse c).text uf else .ok default)
      = if (url_obj.ctor.parse c).handle_.has uf then (url_obj.ctor.parse c).text uf
        else .ok default := by
  apply (guarded_parse_iff o c uf uf default).mpr
  intro hset hunset
  rw [hset] at hunset
  cases hunset

theorem schema_parse : (o.parse c).schema = (url_obj.ctor.parse c).schema :=
  guarded_parse o c .UF_SCHEMA (bytes "HTTP")

theorem path_parse : (o.parse c).path = (url_obj.ctor.parse c).path :=
  guarded_parse o c .UF_PATH (bytes "/")

theorem query_parse : (o.parse c).query = (url_obj.ctor.parse c).query :=
  guarded_parse o c .UF_QUERY []

theorem port_accessor_parse : (o.parse c).port = (url_obj.ctor.parse c).port := by
  unfold url_obj.port url_obj.has_path
  rw [has_parse, port_parse, schema_parse]

/-- `host` looks at the bit of the scheme. -/
theorem host_parse_iff : (o.parse c).host = (url_obj.ctor.parse c).host ↔
    ((url_obj.ctor.parse c).has_schema = true → (url_obj.ctor.parse c).has_host = false →
      (o.handle_.field_data .UF_HOST).Nothing (c.buf.take c.len).length) :=
  guarded_parse_iff o c .UF_SCHEMA .UF_HOST (bytes "localhost")

/-- `fragment` looks at the bit of the query. -/
theorem fragment_parse_iff : (o.parse c).fragment = (url_obj.ctor.parse c).fragment ↔
    ((url_obj.ctor.parse c).has_query = true → (url_obj.ctor.parse c).has_fragment = false →
      (o.handle_.field_data .UF_FRAGMENT).Nothing (c.buf.take c.len).length) :=
  guarded_parse_iff o c .UF_QUERY .UF_FRAGMENT []

end Reused

/-- The accessors of a fresh object do not throw. -/
theorem url_obj.Fresh.returns {o : url_obj} (ho : o.Fresh) : ∃ a, o.Returns a :=
  ⟨⟨_, _, _, _, _, _⟩, ho.schema, ho.host, ho.port, ho.path, ho.query, ho.fragment⟩

/-- **A reused object.** After any calls of `from_buf` and one more, no accessor throws and
all return what they return after the last call alone, exactly when nothing of the earlier
URLs can be seen. -/
theorem accessors_reused_iff (cs : List UrlBuffer) (c : UrlBuffer) :
    (∃ a, ((cs.foldl url_obj.parse .ctor).parse c).Returns a ∧
      (url_obj.ctor.parse c).Returns a) ↔ (cs.foldl url_obj.parse .ctor).Unseen c := by
  -- how the object came to hold what it holds does not matter
  generalize cs.foldl url_obj.parse .ctor = o
  constructor
  · rintro ⟨a, ho, hfresh⟩
    exact ⟨(host_parse_iff o c).mp (ho.host.trans hfresh.host.symm),
      (fragment_parse_iff o c).mp (ho.fragment.trans hfresh.fragment.symm)⟩
  · intro hunseen
    obtain ⟨a, ha⟩ := (fresh_from_buf c.buf c.len c.is_connect).returns
    have ha' : (url_obj.ctor.parse c).Returns a := ha
    refine ⟨a, ?_, ha'⟩
    exact ⟨(schema_parse o c).trans ha'.schema,
      ((host_parse_iff o c).mpr hunseen.host).trans ha'.host,
      (port_accessor_parse o c).trans ha'.port, (path_parse o c).trans ha'.path,
      (query_parse o c).trans ha'.query,
      ((fragment_parse_iff o c).mpr hunseen.fragment).trans ha'.fragment⟩

/-- A URL with a fragment, and then a shorter one with a query and no fragment: `fragment`
throws. A URL with a host, and then a scheme on its own: `host` returns a piece of it. -/
theorem not_accessors_reused :
    (([⟨bytes "/index.html?q#frag", 18, false⟩].foldl url_obj.parse .ctor).parse
        ⟨bytes "/?q", 3, false⟩).fragment = .error ⟨"basic_string::substr"⟩ ∧
      (([⟨bytes "http://a/", 9, false⟩].foldl url_obj.parse .ctor).parse
        ⟨bytes "notaurl.txt", 11, false⟩).host = .ok (bytes ".") ∧
      (url_obj.ctor.parse ⟨bytes "notaurl.txt", 11, false⟩).host = .ok [] ∧
      ¬ ∃ a, (([⟨bytes "/index.html?q#frag", 18, false⟩].foldl url_obj.parse .ctor).parse
        ⟨bytes "/?q", 3, false⟩).Returns a ∧
        (url_obj.ctor.parse ⟨bytes "/?q", 3, false⟩).Returns a := by
  have hthrows : (([⟨bytes "/index.html?q#frag", 18, false⟩].foldl url_obj.parse .ctor).parse
      ⟨bytes "/?q", 3, false⟩).fragment = .error ⟨"basic_string::substr"⟩ := by
    decide +kernel
  refine ⟨hthrows, by decide +kernel, by decide +kernel, ?_⟩
  rintro ⟨a, ha, -⟩
  have hreturns := ha.fragment
  rw [hthrows] at hreturns
  cases hreturns

end MyWarehouse

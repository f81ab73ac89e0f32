/-
`request_respons.h`: the request and the response that live in a session, and
the case-insensitive order of header names.

`response::end` writes the text of the response. It also stores a
`Content-Length` header the first time it runs, and later calls find it there;
so it returns the response it leaves behind beside the text.

The two header maps of a request and its `url_` are filled by callbacks that the
source has commented out, so `request` keeps the body pointer and its length.
-/
import MyWarehouse.Base
import Mathlib.Data.List.Lex
import Mathlib.Logic.Function.Basic

set_option autoImplicit false

namespace MyWarehouse

/-! ## `ci_less` -/

/-- `tolower` of the C locale. -/
def tolower (c : UInt8) : UInt8 := if 65 ≤ c ∧ c ≤ 90 then c + 32 else c

/-- `ci_less::nocase_compare`. -/
def nocase_compare (c₁ c₂ : UInt8) : Bool := decide (tolower c₁ < tolower c₂)

/-- `ci_less`: `std::lexicographical_compare` under `nocase_compare`. -/
def ci_less : Bytes → Bytes → Bool
  | [], [] => false
  | [], _ :: _ => true
  | _ :: _, [] => false
  | a :: s, b :: t =>
    if nocase_compare a b then true
    else if nocase_compare b a then false
    else ci_less s t

/-- A name with its letters lowered, as numbers. -/
def lowered (s : Bytes) : List ℕ := s.map (fun c => (tolower c).toNat)

theorem nocase_compare_iff (a b : UInt8) :
    nocase_compare a b = true ↔ (tolower a).toNat < (tolower b).toNat := by
  rw [nocase_compare, decide_eq_true_eq, UInt8.lt_iff_toNat_lt]

/-- `ci_less` is the lexicographic order of the lowered names. -/
theorem ci_less_iff (s t : Bytes) : ci_less s t = true ↔ lowered s < lowered t := by
  induction s generalizing t with
  | nil =>
    rcases t with _ | ⟨b, t⟩
    · simp [ci_less, lowered]
    · simp [ci_less, lowered]
  | cons a s ih =>
    rcases t with _ | ⟨b, t⟩
    · simp [ci_less, lowered]
    · have hcons : lowered (a :: s) < lowered (b :: t)
          ↔ (tolower a).toNat < (tolower b).toNat
            ∨ (tolower a).toNat = (tolower b).toNat ∧ lowered s < lowered t :=
        List.cons_lt_cons_iff
      rw [hcons, ci_less]
      split_ifs with hab hba
      · rw [nocase_compare_iff] at hab
        simp [hab]
      · rw [nocase_compare_iff] at hab hba
        simp only [false_iff]
        omega
      · rw [nocase_compare_iff] at hab hba
        rw [ih]
        have heq : (tolower a).toNat = (tolower b).toNat := by omega
        simp [heq]

/-- Header maps may be ordered by `ci_less`: it is the strict weak order that
lowering the names pulls back from the lists of numbers. -/
instance : IsStrictWeakOrder Bytes (fun s t => ci_less s t = true) where
  irrefl s := by
    rw [ci_less_iff]
    exact lt_irrefl _
  trans s t u := by
    simp only [ci_less_iff]
    exact lt_trans
  incomp_trans s t u := by
    simp only [ci_less_iff]
    exact IsStrictWeakOrder.incomp_trans (lowered s) (lowered t) (lowered u)

/-- `std::map<std::string, std::string, ci_less>`. -/
abbrev Headers := OrdMap Bytes Bytes (fun s t => ci_less s t = true)

/-! ## `request` -/

/-- `request`. `body_` is a `char*` into the session's `data_`, kept as the
offset it points to; `none` is `nullptr`. -/
structure request where
  body_ : Option ℕ
  len_ : ℕ
  deriving DecidableEq, Repr

/-- `request::request`. -/
def request.ctor : request := ⟨none, 0⟩

/-- The bytes between `get_body()` and `get_body() + get_body_len()`, read from
the buffer `data_` the pointer points into. -/
def request.body (r : request) (data_ : Bytes) : Bytes :=
  match r.body_ with
  | none => []
  | some p => (data_.drop p).take r.len_

/-! ## `response` -/

/-- `response`. -/
structure response where
  headers_ : Headers
  status_ : ℤ
  body_ : Bytes
  root_ : Value

/-- `response::response`. -/
def response.ctor : response where
  headers_ := OrdMap.empty.set (bytes "Content-Type") (bytes "text/json")
  status_ := 200
  body_ := []
  root_ := .null

/-- `response::get_status_text`. A status that is not listed runs off the end of
the function, which C++ leaves undefined; it is given no text here. -/
def response.get_status_text (status : ℤ) : Bytes :=
  match status with
  | 100 => bytes "Continue"
  | 101 => bytes "Switching Protocols"
  | 200 => bytes "OK"
  | 201 => bytes "Created"
  | 202 => bytes "Accepted"
  | 203 => bytes "Non-Authoritative Information"
  | 204 => bytes "No Content"
  | 205 => bytes "Reset Content"
  | 206 => bytes "Partial Content"
  | 300 => bytes "Multiple Choices"
  | 301 => bytes "Moved Permanently"
  | 302 => bytes "Found"
  | 303 => bytes "See Other"
  | 304 => bytes "Not Modified"
  | 305 => bytes "Use Proxy"
  | 307 => bytes "Temporary Redirect"
  | 400 => bytes "Bad Request"
  | 401 => bytes "Unauthorized"
  | 402 => bytes "Payment Required"
  | 403 => bytes "Forbidden"
  | 404 => bytes "Not Found"
  | 405 => bytes "Method Not Allowed"
  | 406 => bytes "Not Acceptable"
  | 407 => bytes "Proxy Authentication Required"
  | 408 => bytes "Request Timeout"
  | 409 => bytes "Conflict"
  | 410 => bytes "Gone"
  | 411 => bytes "Length Required"
  | 412 => bytes "Precondition Failed"
  | 413 => bytes "Request Entity Too Large"
  | 414 => bytes "Request-URI Too Long"
  | 415 => bytes "Unsupported Media Type"
  | 416 => bytes "Requested Range Not Satisfiable"
  | 417 => bytes "Expectation Failed"
  | 500 => bytes "Internal Server Error"
  | 501 => bytes "Not Implemented"
  | 502 => bytes "Bad Gateway"
  | 503 => bytes "Service Unavailable"
  | 504 => bytes "Gateway Timeout"
  | 505 => bytes "HTTP Version Not Supported"
  | _ => []

/-- One header line of the response text. -/
def header_line (h : Bytes × Bytes) : Bytes := h.1 ++ bytes ": " ++ h.2 ++ bytes "\r\n"

/-- `response::end`: the response it leaves behind and the text it returns. -/
def response.end_ (write : Value → Bytes) (r : response) : response × Bytes :=
  let body_ := write r.root_
  let headers_ := match r.headers_.lookup (bytes "Content-Length") with
    | none => r.headers_.set (bytes "Content-Length") (decimal body_.length)
    | some _ => r.headers_
  let text := bytes "HTTP/1.1 " ++ decimal r.status_ ++ bytes " "
    ++ response.get_status_text r.status_ ++ bytes "\r\n"
    ++ headers_.entries.flatMap header_line ++ bytes "\r\n" ++ body_
  ({ r with body_ := body_, headers_ := headers_ }, text)

/-- `response::set_status`. -/
def response.set_status (r : response) (status_code : ℤ) : response :=
  { r with status_ := status_code }

/-- `response::set_header`. -/
def response.set_header (r : response) (key value : Bytes) : response :=
  { r with headers_ := r.headers_.set key value }

/-! ## What the texts and the names are made of -/

/-- A decimal number has no carriage return in it. -/
theorem cr_notMem_decimal (n : ℕ) : (13 : UInt8) ∉ decimal n := by
  have hdigits : decimal n = (Nat.toDigits 10 n).map fun c => UInt8.ofNat c.toNat := by
    have hrepr : toString (n : ℤ) = n.repr := rfl
    rw [decimal, hrepr, bytes, Nat.toList_repr]
  rw [hdigits, List.mem_map]
  rintro ⟨c, hc, hcr⟩
  have hdigit := Nat.isDigit_of_mem_toDigits (by decide) (by decide) hc
  obtain ⟨h48, h57⟩ := Char.isDigit_iff_toNat.mp hdigit
  have h48' : 48 ≤ c.toNat := h48
  have h57' : c.toNat ≤ 57 := h57
  have hval : c.toNat % 256 = 13 := congrArg UInt8.toNat hcr
  omega

/-- Two names are the same header when they differ in the case of letters only. -/
theorem same_iff_lowered (s t : Bytes) :
    OrdMap.Same (fun s t => ci_less s t = true) s t ↔ lowered s = lowered t := by
  show (¬ ci_less s t = true ∧ ¬ ci_less t s = true) ↔ _
  rw [ci_less_iff, ci_less_iff]
  exact OrdMap.same_iff_eq (lowered s) (lowered t)

/-- The headers of a response after `end`. -/
theorem response.end_headers (write : Value → Bytes) (r : response) :
    (r.end_ write).1.headers_ = match r.headers_.lookup (bytes "Content-Length") with
      | none => r.headers_.set (bytes "Content-Length") (decimal (write r.root_).length)
      | some _ => r.headers_ := rfl

end MyWarehouse

/-
The `Content-Length` of a response.

`end` computes the length of the body when the header map holds no `Content-Length`, and
stores it there. What it finds in the map it leaves alone: a length the caller has set
with `set_header`, in whatever case, which then stands for the length, and also the one
it has stored itself (`lookup_run`). So a text declares one length, and that is the
caller's when there is one; otherwise it is that of the first body.
-/
import MyWarehouse.Decoding
import MyWarehouse.Lib.Transition

set_option autoImplicit false

namespace MyWarehouse

/-! ## Operations on a response -/

/-- What is done to a response; `getValue` is any edit of the JSON root. -/
inductive ResponseOp where
  | set_status (status_code : ℤ)
  | set_header (key value : Bytes)
  | getValue (root : Value)
  | end_

/-- A response and what is done to it. A status that is not listed has no text, so it is
not set. -/
def responding (write : Value → Bytes) : Transition response ResponseOp where
  step r
    | .set_status status_code =>
      if status_code ∈ listed then some (r.set_status status_code) else none
    | .set_header key value => some (r.set_header key value)
    | .getValue root => some { r with root_ := root }
    | .end_ => some (r.end_ write).1

/-- A header that is set does not break its line. -/
def ResponseOp.Plain : ResponseOp → Prop
  | .set_header key value => PlainName key ∧ PlainValue value
  | _ => True

/-- The `Content-Length` an operation sets. -/
def ResponseOp.length : ResponseOp → Option Bytes
  | .set_header key value =>
    if lowered (bytes "Content-Length") = lowered key then some value else none
  | _ => none

/-- The `Content-Length` the caller has set last. -/
def set_length : List ResponseOp → Option Bytes
  | [] => none
  | op :: ops => (set_length ops).or op.length

/-- The length of the body of the first text, if there is one. -/
def first_length (write : Value → Bytes) : response → List ResponseOp → Option ℕ
  | _, [] => none
  | r, .end_ :: _ => some (write r.root_).length
  | r, op :: ops => match (responding write).step r op with
    | none => none
    | some r' => first_length write r' ops

/-- A call of `end` writes a body of this length. -/
def Ends (write : Value → Bytes) (length : ℕ) (r : response) (op : ResponseOp) : Prop :=
  op = .end_ → (write r.root_).length = length

section Runs

variable {write : Value → Bytes} {r r' : response} {op : ResponseOp} {ops : List ResponseOp}

/-- What an operation that is no `end` does to the length in the map. -/
theorem content_length_step (hop : op ≠ .end_) (hstep : (responding write).step r op = some r') :
    r'.headers_.lookup (bytes "Content-Length")
      = op.length.or (r.headers_.lookup (bytes "Content-Length")) := by
  rcases op with status_code | ⟨key, value⟩ | root | _
  · simp only [responding] at hstep
    split_ifs at hstep
    obtain rfl := Option.some.inj hstep
    rfl
  · obtain rfl := Option.some.inj hstep
    rw [lookup_set_header, ResponseOp.length]
    split_ifs
    · rfl
    · rfl
  · obtain rfl := Option.some.inj hstep
    rfl
  · exact absurd rfl hop

/-- `end` stores the length of its body when the map holds none. -/
theorem lookup_end_length (write : Value → Bytes) (r : response) :
    (r.end_ write).1.headers_.lookup (bytes "Content-Length")
      = (r.headers_.lookup (bytes "Content-Length")).or
          (some (decimal (write r.root_).length)) := by
  rcases hlookup : r.headers_.lookup (bytes "Content-Length") with _ | v
  · rw [lookup_end write hlookup, if_pos rfl]
    rfl
  · rw [response.end_headers, hlookup]
    exact hlookup

/-- **The length in the map** after a run: what the caller has set last, or what was there
before, or the length of the first body. -/
theorem lookup_run (hrun : (responding write).run r ops = some r') :
    r'.headers_.lookup (bytes "Content-Length")
      = (set_length ops).or ((r.headers_.lookup (bytes "Content-Length")).or
          ((first_length write r ops).map fun n : ℕ => decimal n)) := by
  induction ops generalizing r with
  | nil =>
    obtain rfl := Option.some.inj hrun
    exact (Option.or_none).symm
  | cons op ops ih =>
    obtain ⟨r₁, hstep, hrun⟩ := Transition.run_cons_iff.mp hrun
    rw [ih hrun, set_length]
    by_cases hop : op = .end_
    · -- the first `end` stores its length, a later one finds one
      subst hop
      obtain rfl := Option.some.inj hstep
      have hfirst : first_length write r (.end_ :: ops) = some (write r.root_).length := rfl
      have hset : ResponseOp.end_.length = none := rfl
      rw [lookup_end_length, hfirst, hset, Option.or_none]
      rcases r.headers_.lookup (bytes "Content-Length") with _ | v
      · rfl
      · rfl
    · have hfirst : first_length write r (op :: ops) = first_length write r₁ ops := by
        rcases op with _ | _ | _ | _
        case end_ => exact absurd rfl hop
        all_goals simp only [first_length, hstep]
      rw [content_length_step hop hstep, hfirst, Option.or_assoc, Option.or_assoc]

/-- When all bodies have one length, the first has it. -/
theorem first_length_of_ends {n : ℕ} (hends : (responding write).Along (Ends write n) r ops)
    (hrun : (responding write).run r ops = some r') {m : ℕ}
    (hfirst : first_length write r ops = some m) : m = n := by
  induction ops generalizing r with
  | nil => cases hfirst
  | cons op ops ih =>
    obtain ⟨r₁, hstep, hrun⟩ := Transition.run_cons_iff.mp hrun
    rw [Transition.along_cons hstep] at hends
    by_cases hop : op = .end_
    · subst hop
      obtain rfl := Option.some.inj hfirst
      exact hends.1 rfl
    · apply ih hends.2 hrun
      rcases op with _ | _ | _ | _
      case end_ => exact absurd rfl hop
      all_goals
        simp only [first_length, hstep] at hfirst
        exact hfirst

/-- The status is a listed one and no header breaks its line. -/
structure Readable (r : response) : Prop where
  status_ : r.status_ ∈ listed
  headers_ : PlainHeaders r.headers_.entries

theorem readable_step (hr : Readable r) (hop : op.Plain)
    (hstep : (responding write).step r op = some r') : Readable r' := by
  rcases op with status_code | ⟨key, value⟩ | root | _
  · simp only [responding] at hstep
    split_ifs at hstep with hlisted
    obtain rfl := Option.some.inj hstep
    exact ⟨hlisted, hr.headers_⟩
  · obtain rfl := Option.some.inj hstep
    exact ⟨hr.status_, OrdMap.forall_assign hop.1 hop.2 hr.headers_⟩
  · obtain rfl := Option.some.inj hstep
    exact ⟨hr.status_, hr.headers_⟩
  · obtain rfl := Option.some.inj hstep
    exact ⟨hr.status_, plain_end write hr.headers_⟩

theorem readable_run (hops : ∀ op ∈ ops, op.Plain)
    (hrun : (responding write).run response.ctor ops = some r) : Readable r :=
  Transition.invariant_along (P := Readable) (C := fun _ op => op.Plain)
    (fun _ _ _ hr hop hstep => readable_step hr hop hstep) ⟨by decide, plain_ctor⟩
    (Transition.along_of_forall hops) hrun

end Runs

/-- **Every text declares one length.** For any operations on a fresh response that set no
header that breaks its line, the text `end` returns declares exactly one `Content-Length`:
the one the caller has set last, in whatever case; and when the caller has set none and
all the texts before had bodies of the same length, the length of the body that follows
the blank line. -/
theorem declares_one_length (write : Value → Bytes) (ops : List ResponseOp)
    (hops : ∀ op ∈ ops, op.Plain) (r : response)
    (hrun : (responding write).run response.ctor ops = some r) :
    ∃ d v, decode (r.end_ write).2 = some d ∧ d.body = write r.root_ ∧
      d.values (bytes "Content-Length") = [v] ∧
      (∀ u, set_length ops = some u → v = u) ∧
      (set_length ops = none →
        (responding write).Along (Ends write (write r.root_).length) response.ctor ops →
        v = decimal d.body.length) := by
  obtain ⟨hstatus, hplain⟩ := readable_run hops hrun
  have hctor : response.ctor.headers_.lookup (bytes "Content-Length") = none := by decide
  have hlookup := lookup_end_length write r
  rw [lookup_run hrun, hctor, Option.none_or] at hlookup
  -- whether the map held a length or not, it holds one after `end`
  obtain ⟨v, hv⟩ : ∃ v, (r.end_ write).1.headers_.lookup (bytes "Content-Length") = some v := by
    rw [hlookup]
    rcases (set_length ops).or ((first_length write response.ctor ops).map fun n : ℕ => decimal n)
      with _ | v
    · exact ⟨_, rfl⟩
    · exact ⟨v, rfl⟩
  rw [hv] at hlookup
  refine ⟨_, v, decode_end write hstatus hplain, rfl, ?_, fun u hu => ?_, fun hnone hends => ?_⟩
  · rw [values_of_headers, hv]
    rfl
  · rw [hu] at hlookup
    exact Option.some.inj hlookup
  · rw [hnone, Option.none_or] at hlookup
    rcases hfirst : first_length write response.ctor ops with _ | m
    · rw [hfirst] at hlookup
      exact Option.some.inj hlookup
    · rw [hfirst, first_length_of_ends hends hrun hfirst] at hlookup
      exact Option.some.inj hlookup

/-- Two texts with one body, and a header between them. -/
theorem declares_one_length_twice :
    ∃ r d v, (responding fun _ => bytes "null\n").run response.ctor
        [.end_, .set_header (bytes "X-Id") (bytes "7")] = some r ∧
      decode (r.end_ fun _ => bytes "null\n").2 = some d ∧
      d.values (bytes "Content-Length") = [v] ∧ v = decimal d.body.length := by
  have hops : ∀ op ∈ [ResponseOp.end_, .set_header (bytes "X-Id") (bytes "7")], op.Plain := by
    intro op hop
    rcases List.mem_pair.mp hop with rfl | rfl
    · trivial
    · exact ⟨⟨by decide, by decide⟩, Delimited.unbroken_of_notMem (by decide)⟩
  obtain ⟨d, v, hd, -, hv, -, hlength⟩ := declares_one_length (fun _ => bytes "null\n")
    [.end_, .set_header (bytes "X-Id") (bytes "7")] hops _ rfl
  exact ⟨_, d, v, rfl, hd, hv, hlength rfl ⟨fun _ => rfl, by rintro ⟨⟩, trivial⟩⟩

/-- The caller sets a length of its own, and it is declared whatever the body is. A value
with a line end in it makes a second length. -/
theorem not_content_length_true :
    (∃ r d, (responding fun _ => bytes "null\n").run response.ctor
        [.set_header (bytes "content-length") (bytes "7")] = some r ∧
      decode (r.end_ fun _ => bytes "null\n").2 = some d ∧
      d.values (bytes "Content-Length") = [bytes "7"] ∧ bytes "7" ≠ decimal d.body.length) ∧
    ∃ r d, (responding fun _ => bytes "null\n").run response.ctor
        [.set_header (bytes "X-Id") (bytes "1\r\nContent-Length: 7")] = some r ∧
      decode (r.end_ fun _ => bytes "null\n").2 = some d ∧
      d.values (bytes "Content-Length") = [bytes "5", bytes "7"] := by
  refine ⟨⟨_, ⟨200, [(bytes "content-length", bytes "7"),
    (bytes "Content-Type", bytes "text/json")], bytes "null\n"⟩, rfl, ?_, ?_, ?_⟩,
    ⟨_, ⟨200, [(bytes "Content-Length", bytes "5"), (bytes "Content-Type", bytes "text/json"),
      (bytes "X-Id", bytes "1"), (bytes "Content-Length", bytes "7")], bytes "null\n"⟩, rfl,
      ?_, ?_⟩⟩
  all_goals decide +kernel

end MyWarehouse

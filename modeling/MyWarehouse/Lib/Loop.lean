/-
Loops over the elements of a list that can be left early.

`each body i as s` is the loop: the body is run on every element with its number, from `i`
on, and an `error` leaves the loop with what it carries. `Ends` says how an execution ends,
and `EndTogether` how two executions end; each comes with a rule for the loop and one for
two executions one after the other. `EndTogetherUnless` lets the first of the two give up.
-/
import Mathlib.Data.List.Basic

set_option autoImplicit false

namespace Loop

variable {α σ τ ε ζ : Type}

/-- The loop over the elements from number `i` on. -/
def each (body : ℕ → α → σ → Except ε σ) : ℕ → List α → σ → Except ε σ
  | _, [], s => .ok s
  | i, a :: as, s => match body i a s with
    | .error e => .error e
    | .ok t => each body (i + 1) as t

/-- An execution ends in a state with `I`, or early with `E`. -/
def Ends (I : σ → Prop) (E : ε → Prop) : Except ε σ → Prop
  | .ok s => I s
  | .error e => E e

/-- Two executions end in states related by `R`, or both early, related by `Q`. -/
def EndTogether (R : σ → τ → Prop) (Q : ε → ζ → Prop) : Except ε σ → Except ζ τ → Prop
  | .ok s, .ok t => R s t
  | .error e, .error f => Q e f
  | _, _ => False

/-- Two executions end together, or the first ends early with `U`. -/
def EndTogetherUnless (U : ε → Prop) (R : σ → τ → Prop) (Q : ε → ζ → Prop) (x : Except ε σ)
    (y : Except ζ τ) : Prop :=
  (∃ e, x = .error e ∧ U e) ∨ EndTogether R Q x y

/-! ## The loop over a joined list -/

theorem each_singleton (body : ℕ → α → σ → Except ε σ) (i : ℕ) (a : α) (s : σ) :
    each body i [a] s = body i a s := by
  rw [each]
  rcases body i a s with e | t
  · rfl
  · rfl

theorem each_append (body : ℕ → α → σ → Except ε σ) (i : ℕ) (as bs : List α) (s : σ) :
    each body i (as ++ bs) s = each body i as s >>= each body (i + as.length) bs := by
  induction as generalizing i s with
  | nil => rfl
  | cons a as ih =>
    have hi : i + (a :: as).length = i + 1 + as.length := by
      rw [List.length_cons]
      omega
    rw [List.cons_append, each, each, hi]
    rcases body i a s with e | t
    · rfl
    · exact ih (i + 1) t

/-! ## One execution -/

section One

variable {I : σ → Prop} {E : ε → Prop} {x : Except ε σ}

theorem Ends.mono {J : σ → Prop} {F : ε → Prop} (hx : Ends I E x) (hIJ : ∀ s, I s → J s)
    (hEF : ∀ e, E e → F e) : Ends J F x := by
  rcases x with e | s
  · exact hEF e hx
  · exact hIJ s hx

/-- What an execution is, it ends in. -/
theorem ends_self : Ends (fun s => x = .ok s) (fun e => x = .error e) x := by
  rcases x with e | s
  · rfl
  · rfl

/-- The rule for an execution after another. -/
theorem Ends.bind {J : τ → Prop} {f : σ → Except ε τ} (hx : Ends I E x)
    (hf : ∀ s, I s → Ends J E (f s)) : Ends J E (x >>= f) := by
  rcases x with e | s
  · exact hx
  · exact hf s hx

/-- **The invariant rule.** The invariant may speak of the number of the next element. -/
theorem each_ends {body : ℕ → α → σ → Except ε σ} {K : ℕ → σ → Prop} {n : ℕ}
    (hbody : ∀ i a s, i < n → K i s → Ends (K (i + 1)) E (body i a s)) {i : ℕ} {as : List α}
    {s : σ} (hn : i + as.length ≤ n) (hs : K i s) :
    Ends (K (i + as.length)) E (each body i as s) := by
  induction as generalizing i s with
  | nil => exact hs
  | cons a as ih =>
    rw [List.length_cons] at hn ⊢
    have hi : i < n := by omega
    have ha := hbody i a s hi hs
    rw [each]
    rcases h : body i a s with e | t
    · rw [h] at ha
      exact ha
    · rw [h] at ha
      have hrest : i + 1 + as.length ≤ n := by omega
      have hlast : i + (as.length + 1) = i + 1 + as.length := by omega
      rw [hlast]
      exact ih hrest ha

end One

/-! ## Two executions -/

section Two

variable {R : σ → τ → Prop} {Q : ε → ζ → Prop} {x : Except ε σ} {y : Except ζ τ}

/-- Executions that end together, one after the other. -/
theorem EndTogether.bind {σ' τ' : Type} {R' : σ' → τ' → Prop} {f : σ → Except ε σ'}
    {g : τ → Except ζ τ'} (hxy : EndTogether R Q x y)
    (hfg : ∀ s t, R s t → EndTogether R' Q (f s) (g t)) :
    EndTogether R' Q (x >>= f) (y >>= g) := by
  rcases x with e | s
  · rcases y with e' | t
    · exact hxy
    · exact hxy.elim
  · rcases y with e' | t
    · exact hxy.elim
    · exact hfg s t hxy

theorem EndTogether.mono {R' : σ → τ → Prop} {Q' : ε → ζ → Prop} (hxy : EndTogether R Q x y)
    (hR : ∀ s t, R s t → R' s t) (hQ : ∀ e f, Q e f → Q' e f) : EndTogether R' Q' x y := by
  rcases x with e | s
  · rcases y with e' | t
    · exact hQ e e' hxy
    · exact hxy
  · rcases y with e' | t
    · exact hxy
    · exact hR s t hxy

/-- Only the first execution goes on. -/
theorem EndTogether.bind_left {σ' : Type} {R' : σ' → τ → Prop} {f : σ → Except ε σ'}
    (hxy : EndTogether R Q x y) (hf : ∀ s t, R s t → EndTogether R' Q (f s) (.ok t)) :
    EndTogether R' Q (x >>= f) y := by
  rcases x with e | s
  · rcases y with e' | t
    · exact hxy
    · exact hxy
  · rcases y with e' | t
    · exact hxy.elim
    · exact hf s t hxy

/-- Only the first execution goes on, without leaving early. -/
theorem EndTogether.bind_ok {σ' : Type} {R' : σ' → τ → Prop} {f : σ → σ'}
    (hxy : EndTogether R Q x y) (hf : ∀ s t, R s t → R' (f s) t) :
    EndTogether R' Q (x >>= fun s => .ok (f s)) y :=
  hxy.bind_left hf

/-- What is known of the second execution alone. -/
theorem EndTogether.and_ends {J : τ → Prop} {F : ζ → Prop} (hxy : EndTogether R Q x y)
    (hy : Ends J F y) :
    EndTogether (fun s t => R s t ∧ J t) (fun e f => Q e f ∧ F f) x y := by
  rcases x with e | s
  · rcases y with e' | t
    · exact ⟨hxy, hy⟩
    · exact hxy
  · rcases y with e' | t
    · exact hxy
    · exact ⟨hxy, hy⟩

/-- **The rule for two loops** over the same elements. -/
theorem each_endTogether {body : ℕ → α → σ → Except ε σ} {body' : ℕ → α → τ → Except ζ τ}
    (hbody : ∀ i a s t, R s t → EndTogether R Q (body i a s) (body' i a t)) {i : ℕ}
    {as : List α} {s : σ} {t : τ} (hst : R s t) :
    EndTogether R Q (each body i as s) (each body' i as t) := by
  induction as generalizing i s t with
  | nil => exact hst
  | cons a as ih =>
    have ha := hbody i a s t hst
    rw [each, each]
    rcases h : body i a s with e | s'
    · rcases h' : body' i a t with e' | t'
      · rw [h, h'] at ha
        exact ha
      · rw [h, h'] at ha
        exact ha.elim
    · rcases h' : body' i a t with e' | t'
      · rw [h, h'] at ha
        exact ha.elim
      · rw [h, h'] at ha
        exact ih ha

/-- The rule for two loops over the same elements whose numbers start differently. The
relation may speak of how many elements have been passed. -/
theorem each_endTogether_from {body : ℕ → α → σ → Except ε σ} {body' : ℕ → α → τ → Except ζ τ}
    {K : ℕ → σ → τ → Prop} {i j : ℕ}
    (hbody : ∀ k a s t, K k s t → EndTogether (K (k + 1)) Q (body (i + k) a s) (body' (j + k) a t))
    {k : ℕ} {as : List α} {s : σ} {t : τ} (hst : K k s t) :
    EndTogether (K (k + as.length)) Q (each body (i + k) as s) (each body' (j + k) as t) := by
  induction as generalizing k s t with
  | nil => exact hst
  | cons a as ih =>
    have ha := hbody k a s t hst
    have hlen : k + (a :: as).length = k + 1 + as.length := by
      rw [List.length_cons]
      omega
    rw [each, each, hlen]
    rcases h : body (i + k) a s with e | s'
    · rcases h' : body' (j + k) a t with e' | t'
      · rw [h, h'] at ha
        exact ha
      · rw [h, h'] at ha
        exact ha.elim
    · rcases h' : body' (j + k) a t with e' | t'
      · rw [h, h'] at ha
        exact ha.elim
      · rw [h, h'] at ha
        exact ih ha

end Two

/-! ## Two executions, the first of which may give up -/

section Unless

variable {U : ε → Prop} {R : σ → τ → Prop} {Q : ε → ζ → Prop} {x : Except ε σ} {y : Except ζ τ}

theorem EndTogether.orElse (hxy : EndTogether R Q x y) : EndTogetherUnless U R Q x y :=
  Or.inr hxy

theorem EndTogetherUnless.bind {σ' τ' : Type} {R' : σ' → τ' → Prop} {f : σ → Except ε σ'}
    {g : τ → Except ζ τ'} (hxy : EndTogetherUnless U R Q x y)
    (hfg : ∀ s t, R s t → EndTogetherUnless U R' Q (f s) (g t)) :
    EndTogetherUnless U R' Q (x >>= f) (y >>= g) := by
  obtain ⟨e, rfl, he⟩ | hxy := hxy
  · exact Or.inl ⟨e, rfl, he⟩
  · rcases x with e | s
    · rcases y with e' | t
      · exact Or.inr hxy
      · exact hxy.elim
    · rcases y with e' | t
      · exact hxy.elim
      · exact hfg s t hxy

theorem EndTogetherUnless.bind_left {σ' : Type} {R' : σ' → τ → Prop} {f : σ → Except ε σ'}
    (hxy : EndTogetherUnless U R Q x y)
    (hf : ∀ s t, R s t → EndTogetherUnless U R' Q (f s) (.ok t)) :
    EndTogetherUnless U R' Q (x >>= f) y := by
  obtain ⟨e, rfl, he⟩ | hxy := hxy
  · exact Or.inl ⟨e, rfl, he⟩
  · rcases x with e | s
    · rcases y with e' | t
      · exact Or.inr hxy
      · exact hxy.elim
    · rcases y with e' | t
      · exact hxy.elim
      · exact hf s t hxy

theorem EndTogetherUnless.and_ends {J : τ → Prop} {F : ζ → Prop}
    (hxy : EndTogetherUnless U R Q x y) (hy : Ends J F y) :
    EndTogetherUnless U (fun s t => R s t ∧ J t) (fun e f => Q e f ∧ F f) x y :=
  hxy.imp_right fun h => h.and_ends hy

theorem EndTogetherUnless.mono {R' : σ → τ → Prop} {Q' : ε → ζ → Prop}
    (hxy : EndTogetherUnless U R Q x y) (hR : ∀ s t, R s t → R' s t)
    (hQ : ∀ e f, Q e f → Q' e f) : EndTogetherUnless U R' Q' x y :=
  hxy.imp_right fun h => h.mono hR hQ

/-- What is known of the first execution alone. -/
theorem EndTogetherUnless.ends {I : σ → Prop} (hxy : EndTogetherUnless U R Q x y)
    (hR : ∀ s t, R s t → I s) : Ends I (fun _ => True) x := by
  obtain ⟨e, rfl, -⟩ | hxy := hxy
  · trivial
  · rcases x with e | s
    · trivial
    · rcases y with e | t
      · exact hxy.elim
      · exact hR s t hxy

theorem EndTogetherUnless.unless_mono {U' : ε → Prop} (hxy : EndTogetherUnless U R Q x y)
    (hU : ∀ e, U e → U' e) : EndTogetherUnless U' R Q x y :=
  hxy.imp_left fun ⟨e, he, hu⟩ => ⟨e, he, hU e hu⟩

end Unless

end Loop

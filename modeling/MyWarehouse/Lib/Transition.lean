/-
Transition systems driven by events, and the rules the runs of one obey.

A system is a partial step function: `step s e` is the state after event `e`,
or `none` when `e` cannot happen in `s`. All nondeterminism (which thread moves,
what the network delivers, when a clock advances) is in the choice of the
events, so a run is a list of events and is computed by `run`.

Two kinds of statement are made about runs. `invariant` is the usual one: what
holds of the first state and is kept by every step holds of the last. `Along C`
says that every event of a run meets a condition `C` on the event and the state
it happens in; it is how an assumption on the steps of a run, and a property of
the steps of a run, are written.

Many systems are made of parts that move one at a time. The last section counts the
parts of a kind before and after such a move, and counts the events of a kind in a run.
-/
import Mathlib

set_option autoImplicit false

/-- A system: the state after an event, when the event can happen. -/
structure Transition (σ ε : Type) where
  step : σ → ε → Option σ

namespace Transition

variable {σ ε : Type} (S : Transition σ ε)

/-- The state after a list of events. -/
def run : σ → List ε → Option σ
  | s, [] => some s
  | s, e :: es => match S.step s e with
    | none => none
    | some t => run t es

/-- Every event that happens in the run meets `C` in the state it happens in. -/
def Along (C : σ → ε → Prop) : σ → List ε → Prop
  | _, [] => True
  | s, e :: es => match S.step s e with
    | none => True
    | some t => C s e ∧ Along C t es

/-- Whether a run meets a decidable condition can be computed. -/
instance decidableAlong (C : σ → ε → Prop) [∀ s e, Decidable (C s e)] :
    ∀ (s : σ) (es : List ε), Decidable (S.Along C s es)
  | _, [] => isTrue trivial
  | s, e :: es =>
    match h : S.step s e with
    | none => isTrue (by rw [Along, h]; trivial)
    | some t =>
      have : Decidable (S.Along C t es) := decidableAlong C t es
      decidable_of_iff (C s e ∧ S.Along C t es) (by rw [Along, h])

variable {S}

@[simp] theorem run_nil (s : σ) : S.run s [] = some s := rfl

@[simp] theorem along_nil (C : σ → ε → Prop) (s : σ) : S.Along C s [] := trivial

theorem run_cons {s t : σ} {e : ε} {es : List ε} (h : S.step s e = some t) :
    S.run s (e :: es) = S.run t es := by
  simp only [run, h]

/-- A run of `e :: es` is a step of `e` and a run of `es`. -/
theorem run_cons_iff {s u : σ} {e : ε} {es : List ε} :
    S.run s (e :: es) = some u ↔ ∃ t, S.step s e = some t ∧ S.run t es = some u := by
  cases h : S.step s e with
  | none => simp [run, h]
  | some t => simp [run, h]

theorem along_cons {C : σ → ε → Prop} {s t : σ} {e : ε} {es : List ε}
    (h : S.step s e = some t) : S.Along C s (e :: es) ↔ C s e ∧ S.Along C t es := by
  simp only [Along, h]

theorem run_append {s : σ} {es es' : List ε} :
    S.run s (es ++ es') = (S.run s es).bind (fun t => S.run t es') := by
  induction es generalizing s with
  | nil => rfl
  | cons e es ih =>
    cases h : S.step s e with
    | none => simp [run, h]
    | some t => simp only [List.cons_append, run, h, ih]

/-- A run of `es ++ es'` passes through the state `es` leads to. -/
theorem run_append_iff {s u : σ} {es es' : List ε} :
    S.run s (es ++ es') = some u ↔ ∃ t, S.run s es = some t ∧ S.run t es' = some u := by
  rw [run_append, Option.bind_eq_some_iff]

/-- A condition on the events alone is met along a run when every event meets it. -/
theorem along_of_forall {D : ε → Prop} {s : σ} {es : List ε} (h : ∀ e ∈ es, D e) :
    S.Along (fun _ e => D e) s es := by
  induction es generalizing s with
  | nil => trivial
  | cons e es ih =>
    rcases he : S.step s e with _ | t
    · simp only [Along, he]
    · rw [along_cons he]
      exact ⟨h e List.mem_cons_self, ih fun e' he' => h e' (List.mem_cons_of_mem e he')⟩

theorem along_and {C D : σ → ε → Prop} {s : σ} {es : List ε} (hC : S.Along C s es)
    (hD : S.Along D s es) : S.Along (fun s e => C s e ∧ D s e) s es := by
  induction es generalizing s with
  | nil => trivial
  | cons e es ih =>
    rcases he : S.step s e with _ | t
    · simp only [Along, he]
    · rw [along_cons he] at hC hD ⊢
      exact ⟨⟨hC.1, hD.1⟩, ih hC.2 hD.2⟩

/-! ## Invariants -/

/-- **The invariant rule.** -/
theorem invariant {P : σ → Prop} (hstep : ∀ s e t, P s → S.step s e = some t → P t)
    {s t : σ} {es : List ε} (hs : P s) (h : S.run s es = some t) : P t := by
  induction es generalizing s with
  | nil => exact Option.some.inj h ▸ hs
  | cons e es ih =>
    obtain ⟨u, hu, hrun⟩ := run_cons_iff.mp h
    exact ih (hstep s e u hs hu) hrun

/-- The invariant rule for runs whose steps all meet a condition. -/
theorem invariant_along {P : σ → Prop} {C : σ → ε → Prop}
    (hstep : ∀ s e t, P s → C s e → S.step s e = some t → P t)
    {s t : σ} {es : List ε} (hs : P s) (hC : S.Along C s es)
    (h : S.run s es = some t) : P t := by
  induction es generalizing s with
  | nil => exact Option.some.inj h ▸ hs
  | cons e es ih =>
    obtain ⟨u, hu, hrun⟩ := run_cons_iff.mp h
    rw [along_cons hu] at hC
    exact ih (hstep s e u hs hC.1 hu) hC.2 hrun

/-- Under an invariant kept by the steps that meet one condition, that condition
carries along a run to another. -/
theorem along_mono {P : σ → Prop} {C D : σ → ε → Prop}
    (hstep : ∀ s e t, P s → C s e → S.step s e = some t → P t)
    (hCD : ∀ s e t, P s → C s e → S.step s e = some t → D s e)
    {s : σ} {es : List ε} (hs : P s) (hC : S.Along C s es) : S.Along D s es := by
  induction es generalizing s with
  | nil => trivial
  | cons e es ih =>
    rcases he : S.step s e with _ | t
    · simp only [Along, he]
    · rw [along_cons he] at hC ⊢
      exact ⟨hCD s e t hs hC.1 he, ih (hstep s e t hs hC.1 he) hC.2⟩

/-- What every step does in the states of an invariant it does along every run. -/
theorem along_of_invariant {P : σ → Prop} {D : σ → ε → Prop}
    (hstep : ∀ s e t, P s → S.step s e = some t → P t)
    (hD : ∀ s e t, P s → S.step s e = some t → D s e) {s : σ} {es : List ε} (hs : P s) :
    S.Along D s es := by
  apply along_mono (P := P) (C := fun _ _ => True)
  · intro s e t hs _
    exact hstep s e t hs
  · intro s e t hs _
    exact hD s e t hs
  · exact hs
  · exact along_of_forall fun _ _ => trivial

/-- The invariant rule for what is said of a state and of the events that have led to it. -/
theorem invariant_history {P : List ε → σ → Prop}
    (hstep : ∀ es s e t, P es s → S.step s e = some t → P (es ++ [e]) t)
    {es₀ es : List ε} {s t : σ} (hs : P es₀ s) (h : S.run s es = some t) : P (es₀ ++ es) t := by
  induction es generalizing es₀ s with
  | nil =>
    obtain rfl := Option.some.inj h
    rw [List.append_nil]
    exact hs
  | cons e es ih =>
    obtain ⟨u, hu, hrun⟩ := run_cons_iff.mp h
    have hu' : P (es₀ ++ [e]) u := hstep es₀ s e u hs hu
    rw [← List.singleton_append, ← List.append_assoc]
    exact ih hu' hrun

/-- **The simulation rule.** When every step leaves a reading of the state as it was, or is
a step of another system there, every run leads where a run of the other system leads. -/
theorem simulated {τ ε' : Type} {T : Transition τ ε'} {f : σ → τ}
    (hstep : ∀ s e t, S.step s e = some t → f t = f s ∨ ∃ e', T.step (f s) e' = some (f t))
    {s t : σ} {es : List ε} (h : S.run s es = some t) :
    ∃ es', T.run (f s) es' = some (f t) := by
  induction es generalizing s with
  | nil =>
    obtain rfl := Option.some.inj h
    exact ⟨[], rfl⟩
  | cons e es ih =>
    obtain ⟨u, hu, hrun⟩ := run_cons_iff.mp h
    obtain ⟨es', hes'⟩ := ih hrun
    rcases hstep s e u hu with hsame | ⟨e', he'⟩
    · rw [hsame] at hes'
      exact ⟨es', hes'⟩
    · exact ⟨e' :: es', (run_cons he').trans hes'⟩

/-- A run some step of which breaks a condition has a first part that meets it and
leads to the state in which it is broken. -/
theorem exists_broken_of_not_along {C : σ → ε → Prop} {s : σ} {es : List ε}
    (h : ¬ S.Along C s es) :
    ∃ es₁ e es₂ t u, es = es₁ ++ e :: es₂ ∧ S.Along C s es₁ ∧ S.run s es₁ = some t ∧
      S.step t e = some u ∧ ¬ C t e := by
  induction es generalizing s with
  | nil => exact absurd trivial h
  | cons e es ih =>
    rcases he : S.step s e with _ | t
    · exact absurd (by simp only [Along, he]) h
    · rw [along_cons he] at h
      by_cases hC : C s e
      · obtain ⟨es₁, e', es₂, u, v, rfl, hes₁, hrun, hstep, hbad⟩ := ih (fun ha => h ⟨hC, ha⟩)
        refine ⟨e :: es₁, e', es₂, u, v, rfl, ?_, ?_, hstep, hbad⟩
        · rw [along_cons he]
          exact ⟨hC, hes₁⟩
        · rw [run_cons he, hrun]
      · exact ⟨[], e, es, s, t, rfl, trivial, rfl, he, hC⟩

/-! ## Systems of parts -/

section Parts

variable {α : Type} {l : List α} {i : ℕ} {a : α}

/-- Counting the parts of a kind before and after one of them is replaced. -/
theorem countP_set_add (k : α → Bool) (ha : l[i]? = some a) (a' : α) :
    (l.set i a').countP k + (if k a then 1 else 0) = l.countP k + (if k a' then 1 else 0) := by
  obtain ⟨hi, rfl⟩ := List.getElem?_eq_some_iff.mp ha
  rw [List.countP_set hi]
  by_cases hk : k l[i]
  · have hpos : 0 < l.countP k := List.countP_pos_iff.mpr ⟨_, List.getElem_mem hi, hk⟩
    simp only [if_pos hk]
    omega
  · simp only [if_neg hk]
    omega

/-- A part that is replaced by one of the same kind takes none away. -/
theorem countP_le_set (k : α → Bool) (ha : l[i]? = some a) {a' : α}
    (h : k a = true → k a' = true) : l.countP k ≤ (l.set i a').countP k := by
  have hcount := countP_set_add k ha a'
  by_cases hk : k a = true
  · rw [if_pos hk, if_pos (h hk)] at hcount
    omega
  · rw [if_neg hk] at hcount
    omega

/-- Adding up a number of each part before and after one of them is replaced. -/
theorem sum_set_add (f : α → ℕ) (ha : l[i]? = some a) (a' : α) :
    ((l.set i a').map f).sum + f a = (l.map f).sum + f a' := by
  induction l generalizing i with
  | nil => cases ha
  | cons b l ih =>
    rcases i with _ | i
    · obtain rfl := Option.some.inj ha
      rw [List.set_cons_zero, List.map_cons, List.map_cons, List.sum_cons, List.sum_cons]
      omega
    · have hrest := ih ha
      rw [List.set_cons_succ, List.map_cons, List.map_cons, List.sum_cons, List.sum_cons]
      omega

/-- The same when the part is taken out. -/
theorem sum_eraseIdx_add (f : α → ℕ) (ha : l[i]? = some a) :
    ((l.eraseIdx i).map f).sum + f a = (l.map f).sum := by
  induction l generalizing i with
  | nil => cases ha
  | cons b l ih =>
    rcases i with _ | i
    · obtain rfl := Option.some.inj ha
      rw [List.eraseIdx_cons_zero, List.map_cons, List.sum_cons]
      omega
    · have hrest := ih ha
      rw [List.eraseIdx_cons_succ, List.map_cons, List.map_cons, List.sum_cons, List.sum_cons]
      omega

/-- Counting the parts of a kind is adding up ones. -/
theorem sum_ite_eq_countP (k : α → Bool) (l : List α) :
    (l.map fun a => if k a then 1 else 0).sum = l.countP k := by
  induction l with
  | nil => rfl
  | cons a l ih =>
    rw [List.map_cons, List.sum_cons, ih, List.countP_cons]
    omega

/-- A part is still there after another one was replaced. -/
theorem mem_set_of_ne (ha : l[i]? = some a) {b : α} (hb : b ∈ l) (hne : b ≠ a) (a' : α) :
    b ∈ l.set i a' := by
  obtain ⟨j, hj⟩ := List.mem_iff_getElem?.mp hb
  have hij : i ≠ j := by
    rintro rfl
    rw [ha] at hj
    exact hne (Option.some.inj hj).symm
  apply List.mem_iff_getElem?.mpr
  exact ⟨j, by rw [List.getElem?_set_ne hij, hj]⟩

/-- A kind of which there is one part at most. -/
theorem eq_of_countP_le_one {k : α → Bool} (hone : l.countP k ≤ 1) {j : ℕ} {b : α}
    (hi : l[i]? = some a) (hj : l[j]? = some b) (ha : k a = true) (hb : k b = true) : i = j := by
  induction l generalizing i j with
  | nil => cases hi
  | cons c l ih =>
    rw [List.countP_cons] at hone
    rcases i with _ | i
    · rcases j with _ | j
      · rfl
      · obtain rfl := Option.some.inj hi
        have hrest : 0 < l.countP k := List.countP_pos_iff.mpr ⟨b, List.mem_of_getElem? hj, hb⟩
        rw [if_pos ha] at hone
        omega
    · rcases j with _ | j
      · obtain rfl := Option.some.inj hj
        have hrest : 0 < l.countP k := List.countP_pos_iff.mpr ⟨a, List.mem_of_getElem? hi, ha⟩
        rw [if_pos hb] at hone
        omega
      · have hle : l.countP k ≤ 1 := by omega
        exact congrArg Nat.succ (ih hle hi hj)

/-- A reading of the parts that the replaced one does not change. -/
theorem map_set_of_eq {β : Type} (f : α → β) (ha : l[i]? = some a) {a' : α} (h : f a' = f a) :
    (l.set i a').map f = l.map f := by
  obtain ⟨hi, rfl⟩ := List.getElem?_eq_some_iff.mp ha
  have hi' : i < (l.map f).length := by
    rw [List.length_map]
    exact hi
  have hself : f l[i] = (l.map f)[i] := (List.getElem_map f).symm
  rw [List.map_set, h, hself]
  exact List.set_getElem_self hi'

/-- A number that every event of a kind raises by one counts these events. -/
theorem count_run {f : σ → ℕ} {k : ε → Bool}
    (hstep : ∀ s e t, S.step s e = some t → f t = f s + (if k e then 1 else 0))
    {s t : σ} {es : List ε} (h : S.run s es = some t) : f t = f s + es.countP k := by
  induction es generalizing s with
  | nil =>
    obtain rfl := Option.some.inj h
    rfl
  | cons e es ih =>
    obtain ⟨u, hu, hrun⟩ := run_cons_iff.mp h
    rw [ih hrun, hstep s e u hu, List.countP_cons]
    omega

end Parts

end Transition

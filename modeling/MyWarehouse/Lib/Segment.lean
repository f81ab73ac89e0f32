/-
Marked runs of a list that arrives in segments.

A stream is a list of elements some of which are *marked*. It reaches its
consumer in segments, and inside each segment the marked elements form maximal
contiguous runs. `runs` computes the runs of one segment with the offset at
which each starts; `segmentRuns` those of a whole list of segments.

The facts a consumer needs: a run is not empty, it is what the segment holds at
its offset, runs do not touch, the runs of a segment joined together are its
marked elements in order, and a list of non-empty runs equals its last one only
when there is no other.
-/
import Mathlib.Data.List.Basic
import Mathlib.Data.List.Induction
import Mathlib.Tactic.Ring.RingNF

set_option autoImplicit false

namespace Segment

variable {α : Type}

/-- A contiguous run of marked elements and the offset it starts at. -/
structure Run (α : Type) where
  off : ℕ
  data : List α
  deriving DecidableEq, Repr

/-- The elements of a stream, without their marks. -/
def elements (l : List (α × Bool)) : List α := l.map Prod.fst

/-- The marked elements, in order. -/
def marked (l : List (α × Bool)) : List α := (l.filter Prod.snd).map Prod.fst

/-- The maximal contiguous runs of marked elements of a segment whose first
element has offset `off`. -/
def runs (off : ℕ) : List (α × Bool) → List (Run α)
  | [] => []
  | (_, false) :: l => runs (off + 1) l
  | (a, true) :: l => match runs (off + 1) l with
    | [] => [⟨off, [a]⟩]
    | r :: rs => if r.off = off + 1 then ⟨off, a :: r.data⟩ :: rs else ⟨off, [a]⟩ :: r :: rs

/-- The runs of each segment, one segment after the other. -/
def segmentRuns (ss : List (List (α × Bool))) : List (Run α) := ss.flatMap (runs 0)

/-! ## What `elements` and `marked` do to a joined list -/

@[simp] theorem elements_nil : elements ([] : List (α × Bool)) = [] := rfl

@[simp] theorem elements_append (l l' : List (α × Bool)) :
    elements (l ++ l') = elements l ++ elements l' := List.map_append

@[simp] theorem length_elements (l : List (α × Bool)) : (elements l).length = l.length :=
  List.length_map _

@[simp] theorem marked_append (l l' : List (α × Bool)) :
    marked (l ++ l') = marked l ++ marked l' := by
  simp only [marked, List.filter_append, List.map_append]

/-! ## The runs of one segment -/

/-- What `runs` does on a marked element: a run of its own, or one more element
in front of the run that starts right behind it. -/
theorem runs_true (off : ℕ) (a : α) (l : List (α × Bool)) :
    runs off ((a, true) :: l) = ⟨off, [a]⟩ :: runs (off + 1) l ∨
    ∃ d rs, runs (off + 1) l = ⟨off + 1, d⟩ :: rs ∧
      runs off ((a, true) :: l) = ⟨off, a :: d⟩ :: rs := by
  rw [runs]
  split
  · rename_i h
    exact Or.inl (by rw [h])
  · rename_i r rs h
    split_ifs with hoff
    · refine Or.inr ⟨r.data, rs, ?_, rfl⟩
      rw [h, ← hoff]
    · exact Or.inl (by rw [h])

/-- The runs of a segment joined together are its marked elements. -/
theorem flatMap_runs (off : ℕ) (l : List (α × Bool)) :
    (runs off l).flatMap Run.data = marked l := by
  induction l generalizing off with
  | nil => rfl
  | cons e l ih =>
    obtain ⟨a, m⟩ := e
    cases m with
    | false => rw [runs, ih]; rfl
    | true =>
      have hmarked : marked ((a, true) :: l) = a :: marked l := rfl
      rw [hmarked, ← ih (off + 1)]
      rcases runs_true off a l with h | ⟨d, rs, hl, h⟩
      · rw [h]; rfl
      · rw [h, hl]; rfl

/-- A run has at least one element. -/
theorem runs_ne_nil {off : ℕ} {l : List (α × Bool)} {r : Run α} (hr : r ∈ runs off l) :
    r.data ≠ [] := by
  induction l generalizing off with
  | nil => simp [runs] at hr
  | cons e l ih =>
    obtain ⟨a, m⟩ := e
    cases m with
    | false => exact ih hr
    | true =>
      rcases runs_true off a l with h | ⟨d, rs, hl, h⟩
      · rw [h] at hr
        rcases List.mem_cons.mp hr with rfl | hr
        · exact List.cons_ne_nil _ _
        · exact ih hr
      · rw [h] at hr
        rcases List.mem_cons.mp hr with rfl | hr
        · exact List.cons_ne_nil _ _
        · exact ih (hl ▸ List.mem_cons_of_mem _ hr)

/-- A run lies inside its segment, and is what the segment holds there. The
induction peels the first element, which moves every offset by one. -/
theorem runs_slice {off : ℕ} {l : List (α × Bool)} {r : Run α} (hr : r ∈ runs off l) :
    off ≤ r.off ∧ r.off + r.data.length ≤ off + l.length ∧
      ((elements l).drop (r.off - off)).take r.data.length = r.data := by
  induction l generalizing off r with
  | nil => simp [runs] at hr
  | cons e l ih =>
    obtain ⟨a, m⟩ := e
    -- a run of the tail, seen from the whole segment
    have htail : ∀ r ∈ runs (off + 1) l, off ≤ r.off ∧
        r.off + r.data.length ≤ off + ((a, m) :: l).length ∧
        ((elements ((a, m) :: l)).drop (r.off - off)).take r.data.length = r.data := by
      intro r hr
      obtain ⟨hlo, hhi, hslice⟩ := ih hr
      refine ⟨by omega, by rw [List.length_cons]; omega, ?_⟩
      have hsub : r.off - off = (r.off - (off + 1)) + 1 := by omega
      rw [hsub]
      exact hslice
    cases m with
    | false => exact htail r hr
    | true =>
      rcases runs_true off a l with h | ⟨d, rs, hl, h⟩
      · rw [h] at hr
        rcases List.mem_cons.mp hr with rfl | hr
        · simp [elements]
        · exact htail r hr
      · rw [h] at hr
        rcases List.mem_cons.mp hr with rfl | hr
        · have hd : (⟨off + 1, d⟩ : Run α) ∈ runs (off + 1) l := by
            rw [hl]
            exact List.mem_cons_self
          obtain ⟨-, hhi, hslice⟩ := ih hd
          simp only [Nat.sub_self, List.drop_zero] at hhi hslice ⊢
          refine ⟨le_refl _, by simp only [List.length_cons]; omega, ?_⟩
          simp only [elements, List.map_cons, List.length_cons, List.take_succ_cons,
            List.cons.injEq, true_and]
          exact hslice
        · exact htail r (hl ▸ List.mem_cons_of_mem _ hr)

/-- Behind a run comes an element that is not marked: runs do not touch. -/
theorem runs_apart (off : ℕ) (l : List (α × Bool)) :
    (runs off l).Pairwise fun r r' => r.off + r.data.length < r'.off := by
  induction l generalizing off with
  | nil => exact List.Pairwise.nil
  | cons e l ih =>
    obtain ⟨a, m⟩ := e
    cases m with
    | false => exact ih (off + 1)
    | true =>
      have hrest := ih (off + 1)
      have hslice : ∀ r ∈ runs (off + 1) l, off + 1 ≤ r.off := fun r hr => (runs_slice hr).1
      rw [runs]
      rcases hl : runs (off + 1) l with _ | ⟨r, rs⟩
      · exact List.pairwise_singleton _ _
      · rw [hl, List.pairwise_cons] at hrest
        dsimp only
        split_ifs with hoff
        · refine List.pairwise_cons.mpr ⟨fun r' hr' => ?_, hrest.2⟩
          have hlt := hrest.1 r' hr'
          dsimp only
          rw [List.length_cons]
          omega
        · rw [hl] at hslice
          have hr := hslice r List.mem_cons_self
          have hgap : off + 1 < r.off := by omega
          refine List.pairwise_cons.mpr ⟨fun r' hr' => ?_, List.pairwise_cons.mpr hrest⟩
          dsimp only
          rw [List.length_singleton]
          rcases List.mem_cons.mp hr' with rfl | hr'
          · exact hgap
          · have hlt := hrest.1 r' hr'
            omega

/-- Where the marked elements of a segment are, the first element having offset `off`. -/
def positions (off : ℕ) : List (α × Bool) → List ℕ
  | [] => []
  | (_, false) :: l => positions (off + 1) l
  | (_, true) :: l => off :: positions (off + 1) l

theorem positions_append (off : ℕ) (l l' : List (α × Bool)) :
    positions off (l ++ l') = positions off l ++ positions (off + l.length) l' := by
  induction l generalizing off with
  | nil => rfl
  | cons e l ih =>
    obtain ⟨a, m⟩ := e
    have hoff : off + ((a, m) :: l).length = off + 1 + l.length := by
      rw [List.length_cons]
      omega
    rw [hoff]
    cases m with
    | false => exact ih (off + 1)
    | true => exact congrArg (off :: ·) (ih (off + 1))

/-- The runs cover the marked elements. -/
theorem flatMap_range'_runs (off : ℕ) (l : List (α × Bool)) :
    (runs off l).flatMap (fun r => List.range' r.off r.data.length) = positions off l := by
  induction l generalizing off with
  | nil => rfl
  | cons e l ih =>
    obtain ⟨a, m⟩ := e
    cases m with
    | false => exact ih (off + 1)
    | true =>
      rw [positions, ← ih (off + 1)]
      rcases runs_true off a l with h | ⟨d, rs, hl, h⟩
      · rw [h]
        rfl
      · rw [h, hl]
        simp only [List.flatMap_cons, List.length_cons, List.range'_succ, List.cons_append]

/-! ## The runs of all segments -/

@[simp] theorem segmentRuns_nil : segmentRuns ([] : List (List (α × Bool))) = [] := rfl

theorem segmentRuns_cons (s : List (α × Bool)) (ss : List (List (α × Bool))) :
    segmentRuns (s :: ss) = runs 0 s ++ segmentRuns ss := List.flatMap_cons

/-- Joined over all segments the runs are the marked elements of the stream. -/
theorem flatMap_segmentRuns (ss : List (List (α × Bool))) :
    (segmentRuns ss).flatMap Run.data = marked ss.flatten := by
  induction ss with
  | nil => rfl
  | cons s ss ih =>
    rw [segmentRuns_cons, List.flatMap_append, flatMap_runs, ih, List.flatten_cons,
      marked_append]

theorem segmentRuns_ne_nil {ss : List (List (α × Bool))} {r : Run α}
    (hr : r ∈ segmentRuns ss) : r.data ≠ [] := by
  obtain ⟨s, -, hr⟩ := List.mem_flatMap.mp hr
  exact runs_ne_nil hr

/-- The last of a list of runs, or nothing. -/
def lastData (rs : List (Run α)) : List α := (rs.getLast?.map Run.data).getD []

/-- **Only the last run counts.** A consumer that keeps the last run has the
whole of the marked elements exactly when there was at most one run: every run
it dropped had at least one element. -/
theorem lastData_eq_flatMap_iff {rs : List (Run α)} (hne : ∀ r ∈ rs, r.data ≠ []) :
    lastData rs = rs.flatMap Run.data ↔ rs.length ≤ 1 := by
  induction rs using List.reverseRecOn with
  | nil => simp [lastData]
  | append_singleton rs r _ =>
    have hlast : lastData (rs ++ [r]) = r.data := by simp [lastData]
    rw [hlast, List.flatMap_append, List.flatMap_singleton, List.length_append,
      List.length_singleton]
    constructor
    · intro h
      have hnil : rs.flatMap Run.data = [] := by
        have hlen := congrArg List.length h
        rw [List.length_append] at hlen
        exact List.eq_nil_of_length_eq_zero (by omega)
      have hrs : rs = [] := by
        rcases rs with _ | ⟨r', rs⟩
        · rfl
        · rw [List.flatMap_cons] at hnil
          exact absurd (List.append_eq_nil_iff.mp hnil).1 (hne r' (by simp))
      rw [hrs, List.length_nil]
    · intro h
      have hrs : rs = [] := List.eq_nil_of_length_eq_zero (by omega)
      rw [hrs, List.flatMap_nil, List.nil_append]

end Segment

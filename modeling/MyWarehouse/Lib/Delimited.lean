/-
Texts that are cut at a pair of letters.

Line ends and the separator between a name and a value are often two letters long. `next`
cuts a text at the first such pair, and `block` reads pieces that end in it up to the
first empty one, as the head of a message is read up to the blank line. A piece in which
the pair stands nowhere (`Unbroken`) is read back as it was written: `next_append` for
one piece and `block_pieces` for a block of them. The two letters of the pair have to
be different, or a piece that ends in the first would be cut too early.
-/
import Mathlib.Data.List.Chain

set_option autoImplicit false

namespace Delimited

variable {α : Type} [DecidableEq α] (a b : α)

/-- The text up to the first `a` that is followed by `b`, and the text after the two. -/
def next : List α → Option (List α × List α)
  | c :: d :: rest =>
    if c = a ∧ d = b then some ([], rest) else (next (d :: rest)).map fun p => (c :: p.1, p.2)
  | _ => none

/-- The pieces up to the first empty one, and the text after it. `piece` is what has been
read of the piece the text goes on with. -/
def block (piece : List α) : List α → Option (List (List α) × List α)
  | c :: d :: rest =>
    if c = a ∧ d = b then
      if piece = [] then some ([], rest)
      else (block [] rest).map fun p => (piece :: p.1, p.2)
    else block (piece ++ [c]) (d :: rest)
  | _ => none

/-- No `a` is followed by `b`. -/
def Unbroken (l : List α) : Prop := l.IsChain fun c d => ¬ (c = a ∧ d = b)

instance (l : List α) : Decidable (Unbroken a b l) :=
  inferInstanceAs (Decidable (List.IsChain _ l))

variable {a b}

omit [DecidableEq α] in
/-- A text without the first of the two letters is not broken. -/
theorem unbroken_of_notMem {l : List α} (h : a ∉ l) : Unbroken a b l := by
  induction l with
  | nil => exact List.IsChain.nil
  | cons c l ih =>
    rw [List.mem_cons, not_or] at h
    rcases l with _ | ⟨d, l⟩
    · exact List.IsChain.singleton c
    · exact List.IsChain.cons_cons (fun hpair => h.1 hpair.1.symm) (ih h.2)

omit [DecidableEq α] in
/-- Two texts with a third letter between them. -/
theorem Unbroken.append_cons {l l' : List α} {c : α} (hl : Unbroken a b l)
    (hl' : Unbroken a b l') (ha : c ≠ a) (hb : c ≠ b) : Unbroken a b (l ++ c :: l') := by
  apply List.isChain_append.mpr
  refine ⟨hl, ?_, ?_⟩
  · rcases l' with _ | ⟨d, l'⟩
    · exact List.IsChain.singleton c
    · exact List.IsChain.cons_cons (fun hpair => ha hpair.1) hl'
  · intro x _ y hy hpair
    obtain rfl : c = y := Option.some.inj hy
    exact hb hpair.2

/-- **One piece** is cut where it ends. The induction is on the piece; its last letter may
be an `a`, which the `a` of the pair does not complete. -/
theorem next_append (hab : a ≠ b) {l : List α} (hl : Unbroken a b l) (rest : List α) :
    next a b (l ++ a :: b :: rest) = some (l, rest) := by
  induction l with
  | nil => rw [List.nil_append, next, if_pos ⟨rfl, rfl⟩]
  | cons c l ih =>
    rcases l with _ | ⟨d, l⟩
    · have hpair : ¬ (c = a ∧ a = b) := fun h => hab h.2
      have hrest := ih List.IsChain.nil
      rw [List.nil_append] at hrest
      rw [List.cons_append, List.nil_append, next, if_neg hpair, hrest, Option.map_some]
    · obtain ⟨hpair, hl⟩ := List.isChain_cons_cons.mp hl
      have hrest := ih hl
      rw [List.cons_append] at hrest
      rw [List.cons_append, List.cons_append, next, if_neg hpair, hrest, Option.map_some]

/-- The first piece of a block. -/
theorem block_piece (hab : a ≠ b) {l : List α} (hl : Unbroken a b l) (piece rest : List α)
    (hne : piece ++ l ≠ []) :
    block a b piece (l ++ a :: b :: rest)
      = (block a b [] rest).map fun p => ((piece ++ l) :: p.1, p.2) := by
  induction l generalizing piece with
  | nil =>
    rw [List.append_nil] at hne ⊢
    rw [List.nil_append, block, if_pos ⟨rfl, rfl⟩, if_neg hne]
  | cons c l ih =>
    have hsplit : piece ++ c :: l = (piece ++ [c]) ++ l := by
      rw [List.append_assoc, List.singleton_append]
    have hne' : (piece ++ [c]) ++ l ≠ [] := by
      rw [← hsplit]
      exact hne
    rcases l with _ | ⟨d, l⟩
    · have hpair : ¬ (c = a ∧ a = b) := fun h => hab h.2
      have hrest := ih List.IsChain.nil (piece ++ [c]) hne'
      rw [List.nil_append] at hrest
      rw [List.cons_append, List.nil_append, block, if_neg hpair, hrest, List.append_nil]
    · obtain ⟨hpair, hl⟩ := List.isChain_cons_cons.mp hl
      have hrest := ih hl (piece ++ [c]) hne'
      rw [List.cons_append] at hrest
      rw [List.cons_append, List.cons_append, block, if_neg hpair, hrest, hsplit]

/-- **A block of pieces** is read back piece by piece, up to the empty one. -/
theorem block_pieces (hab : a ≠ b) {ls : List (List α)}
    (hls : ∀ l ∈ ls, l ≠ [] ∧ Unbroken a b l) (rest : List α) :
    block a b [] (ls.flatMap (fun l => l ++ [a, b]) ++ a :: b :: rest) = some (ls, rest) := by
  induction ls with
  | nil => rw [List.flatMap_nil, List.nil_append, block, if_pos ⟨rfl, rfl⟩, if_pos rfl]
  | cons l ls ih =>
    obtain ⟨hne, hl⟩ := hls l List.mem_cons_self
    have hrest := ih fun t ht => hls t (List.mem_cons_of_mem l ht)
    rw [List.flatMap_cons, List.append_assoc, List.append_assoc, List.cons_append,
      List.cons_append, List.nil_append, block_piece hab hl [] _ hne, hrest, Option.map_some,
      List.nil_append]

end Delimited

/-
Ordered maps with a comparator: the part of `std::map` a program uses when it
looks a key up, assigns to it and erases it.

A map is a list of entries whose keys go up in a strict weak order `lt`. Two
keys are the *same* key when neither orders before the other, which is weaker
than equality: a case-insensitive comparator identifies `"Host"` and `"host"`.
As in C++, assigning to a key that is present keeps the spelling it was first
stored under and replaces the value.

The list functions come first, with the lemmas that need no order between the
entries; `OrdMap` packs a list with the proof that it is sorted.
-/
import Mathlib

set_option autoImplicit false

namespace OrdMap

/-! ## Keys a comparator does not tell apart -/

section Same

variable {κ : Type} (lt : κ → κ → Prop)

/-- Neither key orders before the other. -/
def Same (a b : κ) : Prop := ¬ lt a b ∧ ¬ lt b a

instance [DecidableRel lt] (a b : κ) : Decidable (Same lt a b) :=
  inferInstanceAs (Decidable (_ ∧ _))

variable {lt}

theorem Same.symm {a b : κ} (h : Same lt a b) : Same lt b a := ⟨h.2, h.1⟩

theorem Same.refl [IsStrictWeakOrder κ lt] (a : κ) : Same lt a a :=
  ⟨irrefl a, irrefl a⟩

theorem Same.trans [IsStrictWeakOrder κ lt] {a b c : κ} (hab : Same lt a b)
    (hbc : Same lt b c) : Same lt a c :=
  IsStrictWeakOrder.incomp_trans a b c hab hbc

/-- A linear order tells any two different keys apart. -/
theorem same_iff_eq [LinearOrder κ] (a b : κ) : Same (· < ·) a b ↔ a = b := by
  constructor
  · rintro ⟨hab, hba⟩
    exact le_antisymm (not_lt.mp hba) (not_lt.mp hab)
  · rintro rfl
    exact ⟨lt_irrefl a, lt_irrefl a⟩

/-- The comparator of a linear order is a strict weak order. -/
instance isStrictWeakOrder_lt [LinearOrder κ] : IsStrictWeakOrder κ (· < ·) where
  irrefl := lt_irrefl
  trans := fun _ _ _ => lt_trans
  incomp_trans := by
    intro a b c hab hbc
    obtain rfl := (same_iff_eq a b).mp hab
    exact hbc

end Same

/-! ## The list functions -/

section Entries

variable {κ ν : Type} (lt : κ → κ → Prop) [DecidableRel lt]

/-- `find`: the value stored under a key the comparator does not tell from `k`. -/
def find? (k : κ) : List (κ × ν) → Option ν
  | [] => none
  | (k', v) :: l => if Same lt k k' then some v else find? k l

/-- `m[k] = v`: replace the value of an entry that is there, insert otherwise. -/
def assign (k : κ) (v : ν) : List (κ × ν) → List (κ × ν)
  | [] => [(k, v)]
  | (k', v') :: l =>
    if lt k k' then (k, v) :: (k', v') :: l
    else if lt k' k then (k', v') :: assign k v l
    else (k', v) :: l

/-- `erase`: drop the entry of `k`. -/
def erase (k : κ) (l : List (κ × ν)) : List (κ × ν) :=
  l.filter (fun e => ¬ Same lt k e.1)

/-- The keys go up, so no key is stored twice. -/
def Sorted (l : List (κ × ν)) : Prop := l.Pairwise (fun a b => lt a.1 b.1)

instance (l : List (κ × ν)) : Decidable (Sorted lt l) :=
  inferInstanceAs (Decidable (List.Pairwise _ _))

variable {lt}

@[simp] theorem find?_nil (k : κ) : find? lt k ([] : List (κ × ν)) = none := rfl

theorem find?_cons (k k' : κ) (v : ν) (l : List (κ × ν)) :
    find? lt k ((k', v) :: l) = if Same lt k k' then some v else find? lt k l := rfl

theorem find?_append (k : κ) (l l' : List (κ × ν)) :
    find? lt k (l ++ l') = (find? lt k l).or (find? lt k l') := by
  induction l with
  | nil => rfl
  | cons e l ih =>
    rw [List.cons_append, find?_cons, find?_cons, ih]
    split_ifs
    · rfl
    · rfl

variable [IsStrictWeakOrder κ lt]

/-- Reading after an assignment. No order between the entries is needed: the
three branches of `assign` put the new value before any entry of the same key. -/
theorem find?_assign (k k' : κ) (v : ν) (l : List (κ × ν)) :
    find? lt k' (assign lt k v l) = if Same lt k' k then some v else find? lt k' l := by
  induction l with
  | nil => simp [assign, find?]
  | cons e l ih =>
    obtain ⟨a, x⟩ := e
    by_cases hka : lt k a
    · rw [assign, if_pos hka, find?_cons]
    · by_cases hak : lt a k
      · rw [assign, if_neg hka, if_pos hak, find?_cons, find?_cons, ih]
        by_cases h : Same lt k' k
        · have ha : ¬ Same lt k' a := fun hs => (h.symm.trans hs).2 hak
          rw [if_neg ha, if_pos h, if_pos h]
        · rw [if_neg h, if_neg h]
      · rw [assign, if_neg hka, if_neg hak, find?_cons, find?_cons]
        by_cases h : Same lt k' k
        · have ha : Same lt k' a := h.trans ⟨hka, hak⟩
          rw [if_pos ha, if_pos h]
        · have ha : ¬ Same lt k' a := fun hs => h (hs.trans ⟨hak, hka⟩)
          rw [if_neg ha, if_neg h, if_neg ha]

/-- Keys the comparator does not tell apart find the same value. -/
theorem find?_congr {k k' : κ} (h : Same lt k k') (l : List (κ × ν)) :
    find? lt k l = find? lt k' l := by
  induction l with
  | nil => rfl
  | cons e l ih =>
    obtain ⟨a, x⟩ := e
    have hsame : Same lt k a ↔ Same lt k' a := ⟨fun hk => h.symm.trans hk, fun hk' => h.trans hk'⟩
    rw [find?_cons, find?_cons, ih]
    simp only [hsame]

theorem find?_erase (k k' : κ) (l : List (κ × ν)) :
    find? lt k' (erase lt k l) = if Same lt k' k then none else find? lt k' l := by
  induction l with
  | nil => simp [erase]
  | cons e l ih =>
    obtain ⟨a, x⟩ := e
    simp only [erase, List.filter_cons, decide_eq_true_eq] at ih ⊢
    by_cases hka : Same lt k a
    · rw [if_neg (by simpa using hka), ih, find?_cons]
      by_cases h : Same lt k' k
      · rw [if_pos h, if_pos h]
      · have ha : ¬ Same lt k' a := fun hs => h (hs.trans hka.symm)
        rw [if_neg h, if_neg h, if_neg ha]
    · rw [if_pos hka, find?_cons, find?_cons, ih]
      by_cases h : Same lt k' k
      · have ha : ¬ Same lt k' a := fun hs => hka (h.symm.trans hs)
        rw [if_neg ha, if_pos h, if_pos h]
      · rw [if_neg h, if_neg h]

omit [IsStrictWeakOrder κ lt] in
/-- What is found is stored, under the same key. -/
theorem mem_of_find? {k : κ} {v : ν} {l : List (κ × ν)} (h : find? lt k l = some v) :
    ∃ k', Same lt k k' ∧ (k', v) ∈ l := by
  induction l with
  | nil => simp at h
  | cons e l ih =>
    obtain ⟨a, x⟩ := e
    rw [find?_cons] at h
    split_ifs at h with hka
    · obtain rfl := Option.some.inj h
      exact ⟨a, hka, List.mem_cons_self⟩
    · obtain ⟨k', hk', hmem⟩ := ih h
      exact ⟨k', hk', List.mem_cons_of_mem _ hmem⟩

/-- In a sorted list every stored entry is the one its key finds. -/
theorem find?_of_mem {k : κ} {v : ν} {l : List (κ × ν)} (hl : Sorted lt l)
    (h : (k, v) ∈ l) : find? lt k l = some v := by
  induction l with
  | nil => simp at h
  | cons e l ih =>
    obtain ⟨a, x⟩ := e
    rw [find?_cons]
    rcases List.mem_cons.mp h with he | hmem
    · obtain ⟨rfl, rfl⟩ := Prod.mk.inj he
      rw [if_pos (Same.refl k)]
    · have hak : lt a k := List.rel_of_pairwise_cons hl hmem
      rw [if_neg (fun hs : Same lt k a => hs.2 hak)]
      exact ih hl.of_cons hmem

omit [IsStrictWeakOrder κ lt] in
/-- An assignment only adds the key it names. -/
theorem key_of_mem_assign {k : κ} {v : ν} {l : List (κ × ν)} {e : κ × ν}
    (h : e ∈ assign lt k v l) : e.1 = k ∨ ∃ e' ∈ l, e'.1 = e.1 := by
  induction l with
  | nil => exact Or.inl (by rw [List.mem_singleton.mp h])
  | cons d l ih =>
    obtain ⟨a, x⟩ := d
    rw [assign] at h
    split_ifs at h
    · rcases List.mem_cons.mp h with rfl | h
      · exact Or.inl rfl
      · exact Or.inr ⟨e, h, rfl⟩
    · rcases List.mem_cons.mp h with rfl | h
      · exact Or.inr ⟨_, List.mem_cons_self, rfl⟩
      · rcases ih h with hk | ⟨e', he', hk⟩
        · exact Or.inl hk
        · exact Or.inr ⟨e', List.mem_cons_of_mem _ he', hk⟩
    · rcases List.mem_cons.mp h with rfl | h
      · exact Or.inr ⟨(a, x), List.mem_cons_self, rfl⟩
      · exact Or.inr ⟨e, List.mem_cons_of_mem _ h, rfl⟩

omit [IsStrictWeakOrder κ lt] in
/-- What holds of every entry, of its key and of its value, is kept by an assignment of a
key and a value that have it. -/
theorem forall_assign {p : κ → Prop} {q : ν → Prop} {k : κ} {v : ν} {l : List (κ × ν)}
    (hk : p k) (hv : q v) (hl : ∀ e ∈ l, p e.1 ∧ q e.2) :
    ∀ e ∈ assign lt k v l, p e.1 ∧ q e.2 := by
  induction l with
  | nil =>
    intro e he
    rw [List.mem_singleton.mp he]
    exact ⟨hk, hv⟩
  | cons d l ih =>
    obtain ⟨a, x⟩ := d
    have hd := hl (a, x) List.mem_cons_self
    have hrest : ∀ e ∈ l, p e.1 ∧ q e.2 := fun e he => hl e (List.mem_cons_of_mem _ he)
    rw [assign]
    split_ifs
    · exact List.forall_mem_cons.mpr ⟨⟨hk, hv⟩, hl⟩
    · exact List.forall_mem_cons.mpr ⟨hd, ih hrest⟩
    · exact List.forall_mem_cons.mpr ⟨⟨hd.1, hv⟩, hrest⟩

/-- In a sorted list the entries of a key are the one it finds, if it finds one. -/
theorem filter_same {l : List (κ × ν)} (hl : Sorted lt l) (k : κ) :
    (l.filter fun e => Same lt k e.1).map Prod.snd = (find? lt k l).toList := by
  induction l with
  | nil => rfl
  | cons e l ih =>
    obtain ⟨a, x⟩ := e
    rw [find?_cons]
    by_cases hka : Same lt k a
    · -- no later entry has the key
      have hnone : l.filter (fun e => Same lt k e.1) = [] := by
        apply List.filter_eq_nil_iff.mpr
        intro e he hke
        have hae : lt a e.1 := List.rel_of_pairwise_cons hl he
        exact (hka.symm.trans (of_decide_eq_true hke)).1 hae
      rw [List.filter_cons_of_pos (by exact decide_eq_true hka), hnone, if_pos hka]
      rfl
    · rw [List.filter_cons_of_neg (by simpa using hka), if_neg hka]
      exact ih hl.of_cons

theorem sorted_assign (k : κ) (v : ν) {l : List (κ × ν)} (hl : Sorted lt l) :
    Sorted lt (assign lt k v l) := by
  induction l with
  | nil => exact List.pairwise_singleton _ _
  | cons e l ih =>
    obtain ⟨a, x⟩ := e
    have hal : ∀ e ∈ l, lt a e.1 := fun e he => List.rel_of_pairwise_cons hl he
    rw [assign]
    split_ifs with hka hak
    · refine List.Pairwise.cons (fun e he => ?_) hl
      rcases List.mem_cons.mp he with rfl | he
      · exact hka
      · exact IsTrans.trans _ _ _ hka (hal e he)
    · refine List.Pairwise.cons (fun e he => ?_) (ih hl.of_cons)
      rcases key_of_mem_assign he with hk | ⟨e', he', hk⟩
      · rw [hk]; exact hak
      · rw [← hk]; exact hal e' he'
    · exact List.Pairwise.cons hal hl.of_cons

omit [IsStrictWeakOrder κ lt] in
theorem sorted_erase (k : κ) {l : List (κ × ν)} (hl : Sorted lt l) :
    Sorted lt (erase lt k l) :=
  List.Pairwise.sublist List.filter_sublist hl

end Entries

/-! ## Equality of sorted lists over a linear order -/

section Linear

variable {κ ν : Type} [LinearOrder κ]

@[simp] theorem find?_assign_eq (k k' : κ) (v : ν) (l : List (κ × ν)) :
    find? (· < ·) k' (assign (· < ·) k v l)
      = if k' = k then some v else find? (· < ·) k' l := by
  rw [find?_assign]
  simp only [same_iff_eq]

theorem mem_iff_find? {l : List (κ × ν)} (hl : Sorted (· < ·) l) (k : κ) (v : ν) :
    (k, v) ∈ l ↔ find? (· < ·) k l = some v := by
  refine ⟨find?_of_mem hl, fun h => ?_⟩
  obtain ⟨k', hk, hmem⟩ := mem_of_find? h
  rwa [(same_iff_eq k k').mp hk]

/-- Two sorted lists that answer every lookup alike are equal. -/
theorem eq_of_find?_eq {l₁ l₂ : List (κ × ν)} (h₁ : Sorted (· < ·) l₁)
    (h₂ : Sorted (· < ·) l₂) (h : ∀ k, find? (· < ·) k l₁ = find? (· < ·) k l₂) :
    l₁ = l₂ := by
  have hnodup : ∀ l : List (κ × ν), Sorted (· < ·) l → l.Nodup := by
    intro l hl
    refine List.Pairwise.imp (fun {a b} hab heq => ?_) hl
    rw [heq] at hab
    exact lt_irrefl _ hab
  have hperm : l₁.Perm l₂ := by
    rw [List.perm_ext_iff_of_nodup (hnodup l₁ h₁) (hnodup l₂ h₂)]
    rintro ⟨k, v⟩
    rw [mem_iff_find? h₁, mem_iff_find? h₂, h k]
  refine hperm.eq_of_pairwise (fun a b _ _ hab hba => ?_) h₁ h₂
  exact absurd hba (lt_asymm hab)

end Linear

end OrdMap

/-! ## The packed map -/

/-- A map from `κ` to `ν` ordered by `lt`. The proof that the entries are sorted
travels with them, so a map with a key stored twice cannot be built. -/
structure OrdMap (κ ν : Type) (lt : κ → κ → Prop) where
  entries : List (κ × ν)
  sorted : OrdMap.Sorted lt entries

namespace OrdMap

section Map

variable {κ ν : Type} {lt : κ → κ → Prop}

@[ext] theorem ext {m₁ m₂ : OrdMap κ ν lt} (h : m₁.entries = m₂.entries) : m₁ = m₂ := by
  cases m₁
  cases m₂
  simpa using h

instance [DecidableEq κ] [DecidableEq ν] : DecidableEq (OrdMap κ ν lt) := fun m₁ m₂ =>
  decidable_of_iff (m₁.entries = m₂.entries) ⟨ext, fun h => by rw [h]⟩

/-- The map with no entry. -/
def empty : OrdMap κ ν lt := ⟨[], List.Pairwise.nil⟩

variable [DecidableRel lt]

/-- `m.find(k)`. -/
def lookup (m : OrdMap κ ν lt) (k : κ) : Option ν := find? lt k m.entries

/-- `m.erase(k)`. -/
def remove (m : OrdMap κ ν lt) (k : κ) : OrdMap κ ν lt :=
  ⟨erase lt k m.entries, sorted_erase k m.sorted⟩

variable [IsStrictWeakOrder κ lt]

/-- `m[k] = v`. -/
def set (m : OrdMap κ ν lt) (k : κ) (v : ν) : OrdMap κ ν lt :=
  ⟨assign lt k v m.entries, sorted_assign k v m.sorted⟩

omit [IsStrictWeakOrder κ lt] in
@[simp] theorem lookup_empty (k : κ) : (empty : OrdMap κ ν lt).lookup k = none := rfl

theorem lookup_set (m : OrdMap κ ν lt) (k k' : κ) (v : ν) :
    (m.set k v).lookup k' = if Same lt k' k then some v else m.lookup k' :=
  find?_assign k k' v m.entries

theorem lookup_remove (m : OrdMap κ ν lt) (k k' : κ) :
    (m.remove k).lookup k' = if Same lt k' k then none else m.lookup k' :=
  find?_erase k k' m.entries

end Map

section LinearMap

variable {κ ν : Type} [LinearOrder κ]

@[simp] theorem lookup_set_eq (m : OrdMap κ ν (· < ·)) (k k' : κ) (v : ν) :
    (m.set k v).lookup k' = if k' = k then some v else m.lookup k' :=
  find?_assign_eq k k' v m.entries

@[simp] theorem lookup_remove_eq (m : OrdMap κ ν (· < ·)) (k k' : κ) :
    (m.remove k).lookup k' = if k' = k then none else m.lookup k' := by
  rw [lookup_remove]
  simp only [same_iff_eq]

theorem mem_entries_iff (m : OrdMap κ ν (· < ·)) (k : κ) (v : ν) :
    (k, v) ∈ m.entries ↔ m.lookup k = some v :=
  mem_iff_find? m.sorted k v

/-- Maps over a linear order that answer every lookup alike are equal. -/
theorem ext_lookup {m₁ m₂ : OrdMap κ ν (· < ·)} (h : ∀ k, m₁.lookup k = m₂.lookup k) :
    m₁ = m₂ :=
  ext (eq_of_find?_eq m₁.sorted m₂.sorted h)

/-- A map after the assignments of a list, first to last. -/
def assignAll (m : OrdMap κ ν (· < ·)) (l : List (κ × ν)) : OrdMap κ ν (· < ·) :=
  l.foldl (fun m e => m.set e.1 e.2) m

/-- The map a list of assignments builds. -/
def ofList (l : List (κ × ν)) : OrdMap κ ν (· < ·) := assignAll empty l

/-- Assigning a sorted list of entries: each of its keys reads as the list has
it, every other key as before. The induction is from the right, so the last
assignment comes off first; no earlier entry can have its key. -/
theorem lookup_assignAll (m : OrdMap κ ν (· < ·)) {l : List (κ × ν)}
    (hl : Sorted (· < ·) l) (k : κ) :
    (m.assignAll l).lookup k = (find? (· < ·) k l).or (m.lookup k) := by
  induction l using List.reverseRecOn with
  | nil => rfl
  | append_singleton l e ih =>
    obtain ⟨a, x⟩ := e
    obtain ⟨hsl, -, hlt⟩ := List.pairwise_append.mp hl
    have hset : m.assignAll (l ++ [(a, x)]) = (m.assignAll l).set a x := by
      simp only [assignAll, List.foldl_append, List.foldl_cons, List.foldl_nil]
    rw [hset, lookup_set_eq, ih hsl, find?_append, find?_cons]
    simp only [same_iff_eq, find?_nil]
    by_cases hka : k = a
    · have hnone : find? (· < ·) k l = none := by
        rcases hf : find? (· < ·) k l with _ | v
        · rfl
        · have hmem := (mem_iff_find? hsl k v).mpr hf
          have hlt := hlt _ hmem _ (List.mem_singleton_self _)
          exact absurd hlt (by simp [hka])
      simp only [hnone, if_pos hka, Option.none_or, Option.some_or]
    · simp only [if_neg hka, Option.or_none]

theorem lookup_ofList {l : List (κ × ν)} (hl : Sorted (· < ·) l) (k : κ) :
    (ofList l).lookup k = find? (· < ·) k l := by
  rw [ofList, lookup_assignAll _ hl, lookup_empty, Option.or_none]

/-- The entries of a map build the map. -/
@[simp] theorem ofList_entries (m : OrdMap κ ν (· < ·)) : ofList m.entries = m :=
  ext_lookup (fun k => lookup_ofList m.sorted k)

end LinearMap

end OrdMap

/-
The names of headers under `ci_less`, and the maps ordered by it.

`std::map` asks two things of its comparator: that it is a strict weak order, and that names
neither of which comes first are the ones that should share an entry. For `ci_less` these
are the names of one length that agree byte by byte after `tolower`
(`ci_less_identifies`). Bytes from 128 on are no letters in the C locale and are compared as
they are.

The session fills neither `headers_` nor `url_` of a request: its callbacks for them are
commented out. They are kept here as the constructor of `request` makes them, for
`get_header`.
-/
import MyWarehouse.Decoding
import MyWarehouse.UrlObj

set_option autoImplicit false

namespace MyWarehouse

/-! ## Names that differ in case only -/

/-- Two names that differ in the case of letters only. -/
def SameName (s t : Bytes) : Prop :=
  s.length = t.length ∧ ∀ (i : ℕ) (hs : i < s.length) (ht : i < t.length),
    tolower s[i] = tolower t[i]

/-- They are the names that are equal when their letters are lowered. -/
theorem sameName_iff_lowered (s t : Bytes) : SameName s t ↔ lowered s = lowered t := by
  constructor
  -- lowering keeps the length and works byte by byte
  · rintro ⟨hlength, hbytes⟩
    apply List.ext_getElem
    · rw [lowered, lowered, List.length_map, List.length_map, hlength]
    · intro i hs ht
      rw [lowered, List.length_map] at hs ht
      simp only [lowered, List.getElem_map, hbytes i hs ht]
  · intro h
    have hlength : s.length = t.length := by
      have hlowered := congrArg List.length h
      rwa [lowered, lowered, List.length_map, List.length_map] at hlowered
    refine ⟨hlength, fun i hs ht => ?_⟩
    have hbyte : (lowered s)[i]? = (lowered t)[i]? := by rw [h]
    simp only [lowered, List.getElem?_map, List.getElem?_eq_getElem hs,
      List.getElem?_eq_getElem ht, Option.map_some, Option.some.injEq] at hbyte
    exact UInt8.toNat_inj.mp hbyte

instance (s t : Bytes) : Decidable (SameName s t) :=
  decidable_of_iff (lowered s = lowered t) (sameName_iff_lowered s t).symm

/-- The map takes two names for one exactly when they differ in case only. -/
theorem same_iff_sameName (s t : Bytes) :
    OrdMap.Same (fun s t => ci_less s t = true) s t ↔ SameName s t :=
  (same_iff_lowered s t).trans (sameName_iff_lowered s t).symm

/-! ## What a comparator must do -/

/-- Neither name comes first. -/
def Incomparable (less : Bytes → Bytes → Bool) (s t : Bytes) : Prop :=
  less s t = false ∧ less t s = false

/-- The comparator is a strict weak order under which the names that differ in case only,
and no others, are one key. -/
structure Identifies (less : Bytes → Bytes → Bool) : Prop where
  irrefl : ∀ a, less a a = false
  asymm : ∀ a b, less a b = true → less b a = false
  trans : ∀ a b c, less a b = true → less b c = true → less a c = true
  incomp_trans : ∀ a b c, Incomparable less a b → Incomparable less b c → Incomparable less a c
  incomp_iff : ∀ a b, Incomparable less a b ↔ SameName a b

theorem incomparable_iff (s t : Bytes) :
    Incomparable ci_less s t ↔ OrdMap.Same (fun s t => ci_less s t = true) s t := by
  unfold Incomparable OrdMap.Same
  rw [Bool.not_eq_true, Bool.not_eq_true]

theorem identifies_ci_less : Identifies ci_less where
  irrefl a := Bool.eq_false_iff.mpr (irrefl_of (fun s t => ci_less s t = true) a)
  asymm a b hab := Bool.eq_false_iff.mpr (asymm_of (fun s t => ci_less s t = true) hab)
  trans a b c hab hbc := trans_of (fun s t => ci_less s t = true) hab hbc
  incomp_trans a b c hab hbc := by
    rw [incomparable_iff] at hab hbc ⊢
    exact hab.trans hbc
  incomp_iff a b := (incomparable_iff a b).trans (same_iff_sameName a b)

/-! ## The header maps -/

/-- The entries of a map have different names. -/
theorem headers_distinct (m : Headers) : m.entries.Pairwise fun g h => ¬ SameName g.1 h.1 := by
  -- the keys go up, and of two names that are one key neither comes first
  apply m.sorted.imp
  intro g h hless hsame
  exact ((same_iff_sameName g.1 h.1).mpr hsame).1 hless

/-- An assignment is seen under the names that differ in case only, and under no others. -/
theorem lookup_assigned (m : Headers) (key value key' : Bytes) :
    (m.set key value).lookup key' = if SameName key' key then some value else m.lookup key' := by
  have hset := OrdMap.lookup_set m key key' value
  simp only [same_iff_sameName] at hset
  exact hset

/-- The value that was assigned last under a name that differs in case only. -/
def assigned_last (sets : List (Bytes × Bytes)) (key : Bytes) : Option Bytes :=
  ((sets.filter fun h => SameName key h.1).getLast?).map Prod.snd

theorem assigned_last_eq (sets : List (Bytes × Bytes)) (key : Bytes) :
    assigned_last sets key = last_set sets key := by
  unfold assigned_last last_set
  simp only [sameName_iff_lowered]

/-! ## The headers of a request -/

/-- The members of `request` that stay as the constructor makes them. -/
structure RequestHead where
  url_ : url_obj
  headers_ : Headers
  default_value_ : Bytes

namespace RequestHead

/-- `request::request`. -/
def ctor : RequestHead := ⟨.ctor, OrdMap.empty, []⟩

/-- `request::get_header`. -/
def get_header (r : RequestHead) (key : Bytes) : Bytes :=
  match r.headers_.lookup key with
  | some value => value
  | none => r.default_value_

/-- `request::get_header` with the value as a result parameter. -/
def get_header_into (r : RequestHead) (key value : Bytes) : Bool × Bytes :=
  match r.headers_.lookup key with
  | some found => (true, found)
  | none => (false, value)

end RequestHead

/-- A header is found under every name that differs in case only. -/
theorem lookup_of_sameName (m : Headers) {key key' : Bytes} (h : SameName key key') :
    m.lookup key = m.lookup key' :=
  OrdMap.find?_congr ((same_iff_sameName key key').mpr h) m.entries

/-- **`ci_less` identifies exactly the names that are equal up to letter case**, and so do
the maps of the request and of the response: no map holds two of them, a response holds
under a name what was assigned last to it or to one that differs in case only, and both
`get_header` of a request give the same for them. -/
theorem ci_less_identifies :
    Identifies ci_less ∧
    (∀ m : Headers, m.entries.Pairwise fun g h => ¬ SameName g.1 h.1) ∧
    (∀ (m : Headers) (key value key' : Bytes), (m.set key value).lookup key'
      = if SameName key' key then some value else m.lookup key') ∧
    (∀ (r : response) (sets : List (Bytes × Bytes)) (key : Bytes),
      (set_headers r sets).headers_.lookup key
        = (assigned_last sets key).or (r.headers_.lookup key)) ∧
    ∀ (r : RequestHead) (key key' : Bytes), SameName key key' →
      r.get_header key = r.get_header key' ∧
        ∀ value, r.get_header_into key value = r.get_header_into key' value := by
  refine ⟨identifies_ci_less, headers_distinct, lookup_assigned, fun r sets key => ?_,
    fun r key key' hsame => ?_⟩
  · rw [assigned_last_eq]
    exact lookup_set_headers r sets key
  · unfold RequestHead.get_header RequestHead.get_header_into
    rw [lookup_of_sameName r.headers_ hsame]
    exact ⟨rfl, fun _ => rfl⟩

/-- Bytes from 128 on have no case: a name in UTF-8 is another one when its letter is
capital. -/
example : SameName (bytes "Content-Type") (bytes "CONTENT-type") ∧
    ¬ SameName [195, 132] [195, 164] := by decide

end MyWarehouse

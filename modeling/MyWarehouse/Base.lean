/-
What every other module uses: byte strings, the clock, the error codes of
`error_code.h`, and the part of jsoncpp the program calls.

A `std::string` on the wire is a list of bytes. JSON texts (member names and
string values) are Lean strings whose characters stand for the bytes.

jsoncpp is not in the repository. Its value type is a plain inductive; the
reader, the writer and the two conversions the program uses are parameters,
bundled as `JsonCpp` with the one law the dispatch relies on.
-/
import MyWarehouse.Lib.OrdMap
import Mathlib.Data.String.Basic
import Mathlib.Data.Rat.Defs

set_option autoImplicit false

namespace MyWarehouse

/-! ## Bytes, time, errors -/

/-- A `std::string`, or a piece of a character buffer. -/
abbrev Bytes := List UInt8

/-- The bytes of a text in the source. -/
def bytes (s : String) : Bytes := s.toList.map (fun c => UInt8.ofNat c.toNat)

/-- A number as `operator<<` writes it to a stream. -/
def decimal (n : ℤ) : Bytes := bytes (toString n)

/-- `boost::posix_time::seconds(n)`. Times and durations are natural numbers of
microseconds, the resolution of `boost::posix_time`. -/
def seconds (n : ℕ) : ℕ := n * 1000000

/-- A `boost::system::error_code` by its value; zero is success. -/
abbrev error_code := ℤ

/-- `ERROR_CODE` of error_code.h. -/
inductive ERROR_CODE where
  | SUCCEEDED
  | USER_NOT_LOGIN
  | USER_NOT_EXIST
  | JSON_PARSER_ERROR
  | JSON_GETVALUE_EXCEPTION
  | TEST_ERROR_CODE
  | UNKNOWN_ERROR
  deriving DecidableEq, Repr

/-- The value of an enumerator; the last is `INT32_MAX`. -/
def ERROR_CODE.value : ERROR_CODE → ℤ
  | .SUCCEEDED => 0
  | .USER_NOT_LOGIN => 1
  | .USER_NOT_EXIST => 2
  | .JSON_PARSER_ERROR => 3
  | .JSON_GETVALUE_EXCEPTION => 4
  | .TEST_ERROR_CODE => 9527
  | .UNKNOWN_ERROR => 2147483647

theorem ERROR_CODE.value_injective : Function.Injective ERROR_CODE.value := by
  intro a b h
  cases a <;> cases b <;> simp [ERROR_CODE.value] at h ⊢

/-! ## jsoncpp -/

/-- A `std::exception` with its `what()`. -/
structure Exn where
  what : String
  deriving DecidableEq, Repr

/-- A `Json::Value`. The members of an object are kept in key order, as the
`std::map` inside jsoncpp keeps them. -/
inductive Value where
  | null
  | int (n : ℤ)
  | real (x : ℚ)
  | str (s : String)
  | bool (b : Bool)
  | arr (xs : List Value)
  | obj (ms : List (String × Value))

/-- The members of a JSON object. -/
abbrev Members := OrdMap String Value (· < ·)

namespace Value

/-- The members `operator[]` with a key works on: it turns a null into an empty
object and throws on anything that is not an object. -/
def members : Value → Except Exn Members
  | .null => .ok OrdMap.empty
  | .obj ms => .ok (OrdMap.ofList ms)
  | _ => .error ⟨"requires objectValue"⟩

/-- `root[key]` on a value that may be changed: the member, and the value after
the call, to which a missing member is added as null. -/
def index (root : Value) (key : String) : Except Exn (Value × Value) :=
  match root.members with
  | .error e => .error e
  | .ok ms => match ms.lookup key with
    | some v => .ok (v, .obj ms.entries)
    | none => .ok (.null, .obj (ms.set key .null).entries)

@[simp] theorem members_obj (ms : Members) : members (.obj ms.entries) = .ok ms := by
  rw [members, OrdMap.ofList_entries]

/-- Asking for a member again gives the member again and changes nothing. -/
theorem index_index {root root' v : Value} {key : String}
    (h : root.index key = .ok (v, root')) : root'.index key = .ok (v, root') := by
  unfold index at h
  cases hm : root.members with
  | error e => rw [hm] at h; cases h
  | ok ms =>
    rw [hm] at h
    dsimp only at h
    cases hl : ms.lookup key with
    | some x =>
      rw [hl] at h
      cases h
      simp only [index, members_obj, hl]
    | none =>
      rw [hl] at h
      cases h
      simp only [index, members_obj, OrdMap.lookup_set_eq, if_pos]

end Value

/-- What the program takes from jsoncpp: `Json::Reader::parse` (throws, returns
false, or returns true with the root it filled), `Json::FastWriter::write`, and
the conversions `asString` and `asInt`, which throw on a value of an unsuitable
type or range. An integer converts to its decimal digits. -/
structure JsonCpp where
  parse : Bytes → Except Exn (Option Value)
  write : Value → Bytes
  asString : Value → Except Exn String
  asInt : Value → Except Exn ℤ
  asString_int : ∀ n : ℤ, asString (.int n) = .ok (toString n)

/-! ### A jsoncpp to run the model on -/

mutual

/-- The text `Json::FastWriter` gives a value without reals and without
characters that need escaping. -/
def Value.text : Value → Bytes
  | .null => bytes "null"
  | .int n => decimal n
  | .real x => decimal x.num
  | .str s => bytes "\"" ++ bytes s ++ bytes "\""
  | .bool b => bytes (toString b)
  | .arr xs => bytes "[" ++ Value.elementsText xs ++ bytes "]"
  | .obj ms => bytes "\x7b" ++ Value.membersText ms ++ bytes "\x7d"

/-- The elements of an array, separated by commas. -/
def Value.elementsText : List Value → Bytes
  | [] => []
  | [v] => v.text
  | v :: w :: vs => v.text ++ bytes "," ++ Value.elementsText (w :: vs)

/-- The members of an object, separated by commas. -/
def Value.membersText : List (String × Value) → Bytes
  | [] => []
  | [(k, v)] => bytes "\"" ++ bytes k ++ bytes "\":" ++ v.text
  | (k, v) :: m :: ms =>
    bytes "\"" ++ bytes k ++ bytes "\":" ++ v.text ++ bytes "," ++ Value.membersText (m :: ms)

end

/-- jsoncpp on a list of documents: a listed text parses to its value, a text that
opens more than 1000 arrays makes the reader throw, every other is rejected. -/
def JsonCpp.reading (docs : List (Bytes × Value)) : JsonCpp where
  parse b :=
    if 1000 < (b.takeWhile (fun c => c = 91)).length then
      .error ⟨"Exceeded stackLimit in readValue()."⟩
    else .ok ((docs.find? (fun d => d.1 = b)).map Prod.snd)
  write v := v.text ++ bytes "\n"
  asString
    | .null => .ok ""
    | .int n => .ok (toString n)
    | .str s => .ok s
    | .bool b => .ok (toString b)
    | _ => .error ⟨"Type is not convertible to string"⟩
  asInt
    | .null => .ok 0
    | .int n =>
      if -2147483648 ≤ n ∧ n ≤ 2147483647 then .ok n
      else .error ⟨"LargestInt out of Int range"⟩
    | .bool b => .ok (if b then 1 else 0)
    | _ => .error ⟨"Value is not convertible to Int."⟩
  asString_int _ := rfl

end MyWarehouse

/-
`Base64.cpp`: a codec for binary data in printable characters.

Both loops collect bytes in a small array and write a block when it is full; what is left in
the array is written behind the loop. The encoder pads its last block with `=`, where the
decoder stops. The alphabet is in program memory, which `pgm_read_byte` of avr/pgmspace.h
reads; that header is not in the repository, so the function is a parameter here.

The two functions that foretell a length compute in `int`. An operation that overflows has no
value, and neither has a read in front of the buffer: both length functions are partial, and
`base64_round_trip` says exactly where `base64_dec_len` is defined.
-/
import MyWarehouse.HttpUrl

set_option autoImplicit false

namespace MyWarehouse

/-! ## Integers and program memory -/

/-- The largest `int`. -/
def INT_MAX : ℤ := 2147483647

/-- The value of an operation on `int`, which has none when it overflows. -/
def checked_int (n : ℤ) : Option ℤ := if -INT_MAX - 1 ≤ n ∧ n ≤ INT_MAX then some n else none

/-- An operation whose value is an `int` has that value. -/
theorem checked_int_eq {n : ℤ} (hlow : 0 ≤ n) (hhigh : n ≤ INT_MAX) : checked_int n = some n := by
  unfold checked_int
  rw [if_pos ⟨by unfold INT_MAX; omega, hhigh⟩]

/-- One whose value is too large overflows. -/
theorem checked_int_none {n : ℤ} (h : INT_MAX < n) : checked_int n = none := by
  unfold checked_int
  rw [if_neg (fun hn => absurd hn.2 (not_le.mpr h))]

/-- What the encoder relies on `pgm_read_byte` for: it reads a table that lies in program
memory as any other. -/
def ReadsTables (pgm_read_byte : Bytes → ℕ → UInt8) : Prop :=
  ∀ (table : Bytes) (i : ℕ) (h : i < table.length), pgm_read_byte table i = table.get ⟨i, h⟩

/-! ## The functions -/

/-- `b64_alphabet`, without the zero at its end, which is never read. -/
def b64_alphabet : Bytes :=
  bytes "ABCDEFGHIJKLMNOPQRSTUVWXYZabcdefghijklmnopqrstuvwxyz0123456789+/"

/-- `a3_to_a4`; an `unsigned char` has 8 bits. -/
def a3_to_a4 (a3 : UInt8 × UInt8 × UInt8) : Bytes :=
  [(a3.1 &&& 0xfc) >>> 2,
    ((a3.1 &&& 0x03) <<< 4) + ((a3.2.1 &&& 0xf0) >>> 4),
    ((a3.2.1 &&& 0x0f) <<< 2) + ((a3.2.2 &&& 0xc0) >>> 6),
    a3.2.2 &&& 0x3f]

/-- `a4_to_a3`. -/
def a4_to_a3 (a4 : UInt8 × UInt8 × UInt8 × UInt8) : Bytes :=
  [(a4.1 <<< 2) + ((a4.2.1 &&& 0x30) >>> 4),
    ((a4.2.1 &&& 0xf) <<< 4) + ((a4.2.2.1 &&& 0x3c) >>> 2),
    ((a4.2.2.1 &&& 0x3) <<< 6) + a4.2.2.2]

/-- `b64_lookup`. A `char` from 128 on is negative and no letter, digit or sign; `-1` is stored
in an `unsigned char`. -/
def b64_lookup (c : UInt8) : UInt8 :=
  if byte 'A' ≤ c ∧ c ≤ byte 'Z' then c - byte 'A'
  else if byte 'a' ≤ c ∧ c ≤ byte 'z' then c - 71
  else if byte '0' ≤ c ∧ c ≤ byte '9' then c + 4
  else if c = byte '+' then 62
  else if c = byte '/' then 63
  else 255

/-- The bytes in the array of a loop, and what has been written. -/
structure Codec where
  array : Bytes
  output : Bytes

/-- The array of the encoder, with zeros behind the bytes in it. -/
def filled_a3 (a3 : Bytes) : UInt8 × UInt8 × UInt8 := (a3.getD 0 0, a3.getD 1 0, a3.getD 2 0)

/-- The array of the decoder, every character looked up, zeros included. -/
def filled_a4 (a4 : Bytes) : UInt8 × UInt8 × UInt8 × UInt8 :=
  (b64_lookup (a4.getD 0 0), b64_lookup (a4.getD 1 0), b64_lookup (a4.getD 2 0),
    b64_lookup (a4.getD 3 0))

section Encode

variable (pgm_read_byte : Bytes → ℕ → UInt8)

/-- The character that is read from the alphabet. -/
def b64_char (n : UInt8) : UInt8 := pgm_read_byte b64_alphabet n.toNat

/-- One round of the loop of `base64_encode`. -/
def base64_encode.round (s : Codec) (b : UInt8) : Codec :=
  let a3 := s.array ++ [b]
  if a3.length = 3 then ⟨[], s.output ++ (a3_to_a4 (filled_a3 a3)).map (b64_char pgm_read_byte)⟩
  else ⟨a3, s.output⟩

/-- What is written behind the loop. -/
def base64_encode.rest (a3 : Bytes) : Bytes :=
  if a3 = [] then []
  else ((a3_to_a4 (filled_a3 a3)).take (a3.length + 1)).map (b64_char pgm_read_byte) ++
    List.replicate (3 - a3.length) (byte '=')

/-- `base64_encode`: what it writes in front of the final zero. It returns the length, counted
in an `int`. -/
def base64_encode (input : Bytes) : Bytes :=
  let s := input.foldl (base64_encode.round pgm_read_byte) ⟨[], []⟩
  s.output ++ base64_encode.rest pgm_read_byte s.array

end Encode

/-- One round of the loop of `base64_decode`. -/
def base64_decode.round (s : Codec) (c : UInt8) : Codec :=
  let a4 := s.array ++ [c]
  if a4.length = 4 then ⟨[], s.output ++ a4_to_a3 (filled_a4 a4)⟩
  else ⟨a4, s.output⟩

/-- What is written behind the loop. -/
def base64_decode.rest (a4 : Bytes) : Bytes :=
  if a4 = [] then [] else (a4_to_a3 (filled_a4 a4)).take (a4.length - 1)

/-- `base64_decode`: what it writes in front of the final zero. It returns the length. -/
def base64_decode (input : Bytes) : Bytes :=
  let s := (input.takeWhile (· ≠ byte '=')).foldl base64_decode.round ⟨[], []⟩
  s.output ++ base64_decode.rest s.array

/-- `base64_enc_len`; the remainder and the quotient are those of C, which cut towards zero. -/
def base64_enc_len (plainLen : ℤ) : Option ℤ := do
  let n ← checked_int (plainLen + 2)
  let m ← checked_int (n - n.tmod 3)
  checked_int (m.tdiv 3 * 4)

/-- The loop of `base64_dec_len`, which goes back from the last character. It has looked at all
but `i` of them; in front of the first it leaves the buffer. -/
def base64_dec_len.loop (input : Bytes) : ℕ → ℤ → Option ℤ
  | 0, _ => none
  | i + 1, numEq => do
    let c ← input[i]?
    if c = byte '=' then base64_dec_len.loop input i (numEq + 1) else some numEq

/-- `base64_dec_len`. -/
def base64_dec_len (input : Bytes) (inputLen : ℤ) : Option ℤ := do
  let numEq ← base64_dec_len.loop input inputLen.toNat 0
  let bits ← checked_int (6 * inputLen)
  checked_int (bits.tdiv 8 - numEq)

/-! ## Six bits and eight bits -/

/-- What is read for six bits is a character of the alphabet: the decoder finds the bits again,
and takes it for no padding. -/
theorem b64_alphabet_get {n : ℕ} (h : n < 64) :
    ∃ hn : n < b64_alphabet.length, b64_lookup (b64_alphabet.get ⟨n, hn⟩) = UInt8.ofNat n ∧
      b64_alphabet.get ⟨n, hn⟩ ≠ byte '=' := by
  have hall : ∀ n < 64, ∃ hn : n < b64_alphabet.length,
      b64_lookup (b64_alphabet.get ⟨n, hn⟩) = UInt8.ofNat n ∧
        b64_alphabet.get ⟨n, hn⟩ ≠ byte '=' := by decide +kernel
  exact hall n h

/-- The parts of a byte that `a3_to_a4` takes. -/
theorem a3_parts (x : UInt8) :
    (x &&& 0xfc) >>> 2 = UInt8.ofNat (x.toNat / 4) ∧
      (x &&& 0x03) <<< 4 = UInt8.ofNat (x.toNat % 4 * 16) ∧
      (x &&& 0xf0) >>> 4 = UInt8.ofNat (x.toNat / 16) ∧
      (x &&& 0x0f) <<< 2 = UInt8.ofNat (x.toNat % 16 * 4) ∧
      (x &&& 0xc0) >>> 6 = UInt8.ofNat (x.toNat / 64) ∧
      x &&& 0x3f = UInt8.ofNat (x.toNat % 64) := by
  have hall : ∀ n < 256, (UInt8.ofNat n &&& 0xfc) >>> 2 = UInt8.ofNat (n / 4) ∧
      (UInt8.ofNat n &&& 0x03) <<< 4 = UInt8.ofNat (n % 4 * 16) ∧
      (UInt8.ofNat n &&& 0xf0) >>> 4 = UInt8.ofNat (n / 16) ∧
      (UInt8.ofNat n &&& 0x0f) <<< 2 = UInt8.ofNat (n % 16 * 4) ∧
      (UInt8.ofNat n &&& 0xc0) >>> 6 = UInt8.ofNat (n / 64) ∧
      UInt8.ofNat n &&& 0x3f = UInt8.ofNat (n % 64) := by decide +kernel
  have hx := hall x.toNat x.toNat_lt
  rwa [UInt8.ofNat_toNat] at hx

/-- The parts of six bits that `a4_to_a3` takes. -/
theorem a4_parts {n : ℕ} (h : n < 64) :
    UInt8.ofNat n <<< 2 = UInt8.ofNat (n * 4) ∧
      (UInt8.ofNat n &&& 0x30) >>> 4 = UInt8.ofNat (n / 16) ∧
      (UInt8.ofNat n &&& 0xf) <<< 4 = UInt8.ofNat (n % 16 * 16) ∧
      (UInt8.ofNat n &&& 0x3c) >>> 2 = UInt8.ofNat (n / 4) ∧
      (UInt8.ofNat n &&& 0x3) <<< 6 = UInt8.ofNat (n % 4 * 64) := by
  have hall : ∀ n < 64, UInt8.ofNat n <<< 2 = UInt8.ofNat (n * 4) ∧
      (UInt8.ofNat n &&& 0x30) >>> 4 = UInt8.ofNat (n / 16) ∧
      (UInt8.ofNat n &&& 0xf) <<< 4 = UInt8.ofNat (n % 16 * 16) ∧
      (UInt8.ofNat n &&& 0x3c) >>> 2 = UInt8.ofNat (n / 4) ∧
      (UInt8.ofNat n &&& 0x3) <<< 6 = UInt8.ofNat (n % 4 * 64) := by decide +kernel
  exact hall n h

/-- The four numbers of six bits that three bytes make. -/
def sextets (x y z : UInt8) : List ℕ :=
  [x.toNat / 4, x.toNat % 4 * 16 + y.toNat / 16, y.toNat % 16 * 4 + z.toNat / 64, z.toNat % 64]

theorem sextets_lt {x y z : UInt8} : ∀ n ∈ sextets x y z, n < 64 := by
  have hx := x.toNat_lt
  have hy := y.toNat_lt
  have hz := z.toNat_lt
  simp only [sextets, List.mem_cons, List.not_mem_nil, or_false]
  rintro n (rfl | rfl | rfl | rfl) <;> omega

/-- What `a3_to_a4` makes of three bytes. -/
theorem a3_to_a4_eq (x y z : UInt8) : a3_to_a4 (x, y, z) = (sextets x y z).map UInt8.ofNat := by
  obtain ⟨hx, hx', -⟩ := a3_parts x
  obtain ⟨-, -, hy, hy', -⟩ := a3_parts y
  obtain ⟨-, -, -, -, hz, hz'⟩ := a3_parts z
  simp only [a3_to_a4, sextets, List.map_cons, List.map_nil]
  rw [hx, hx', hy, hy', hz, hz', UInt8.ofNat_add, UInt8.ofNat_add]

/-- What `a4_to_a3` makes of four numbers of six bits. -/
theorem a4_to_a3_eq {p q r : ℕ} (hp : p < 64) (hq : q < 64) (hr : r < 64) (s : ℕ) :
    a4_to_a3 (UInt8.ofNat p, UInt8.ofNat q, UInt8.ofNat r, UInt8.ofNat s) =
      [UInt8.ofNat (p * 4 + q / 16), UInt8.ofNat (q % 16 * 16 + r / 4),
        UInt8.ofNat (r % 4 * 64 + s)] := by
  obtain ⟨hp', -⟩ := a4_parts hp
  obtain ⟨-, hq', hq'', -⟩ := a4_parts hq
  obtain ⟨-, -, -, hr', hr''⟩ := a4_parts hr
  simp only [a4_to_a3]
  rw [hp', hq', hq'', hr', hr'', UInt8.ofNat_add, UInt8.ofNat_add, UInt8.ofNat_add]

/-- The two functions undo each other: the quotients and remainders that the one takes are put
together by the other. -/
theorem a4_to_a3_a3_to_a4 (x y z : UInt8) {p q r s : UInt8}
    (h : a3_to_a4 (x, y, z) = [p, q, r, s]) :
    a4_to_a3 (p, q, r, s) = [x, y, z] := by
  have hx := x.toNat_lt
  have hy := y.toNat_lt
  have hz := z.toNat_lt
  rw [a3_to_a4_eq] at h
  simp only [sextets, List.map_cons, List.map_nil, List.cons.injEq, and_true] at h
  obtain ⟨rfl, rfl, rfl, rfl⟩ := h
  rw [a4_to_a3_eq (by omega) (by omega) (by omega)]
  have hfirst : x.toNat / 4 * 4 + (x.toNat % 4 * 16 + y.toNat / 16) / 16 = x.toNat := by omega
  have hsecond : (x.toNat % 4 * 16 + y.toNat / 16) % 16 * 16 +
      (y.toNat % 16 * 4 + z.toNat / 64) / 4 = y.toNat := by omega
  have hthird : (y.toNat % 16 * 4 + z.toNat / 64) % 4 * 64 + z.toNat % 64 = z.toNat := by omega
  rw [hfirst, hsecond, hthird, UInt8.ofNat_toNat, UInt8.ofNat_toNat, UInt8.ofNat_toNat]

section RoundTrip

variable {pgm_read_byte : Bytes → ℕ → UInt8}

/-- Six bits that the alphabet has a character for, which is read back, and is no padding. -/
def Sextet (pgm_read_byte : Bytes → ℕ → UInt8) (n : UInt8) : Prop :=
  b64_lookup (b64_char pgm_read_byte n) = n ∧ b64_char pgm_read_byte n ≠ byte '='

theorem sextet_of_lt (hpgm : ReadsTables pgm_read_byte) {n : ℕ} (h : n < 64) :
    Sextet pgm_read_byte (UInt8.ofNat n) := by
  obtain ⟨hn, hlookup, hpadding⟩ := b64_alphabet_get h
  have hread : b64_char pgm_read_byte (UInt8.ofNat n) = b64_alphabet.get ⟨n, hn⟩ := by
    rw [b64_char, UInt8.toNat_ofNat_of_lt' (by rw [UInt8.size]; omega)]
    exact hpgm b64_alphabet n hn
  rw [Sextet, hread]
  exact ⟨hlookup, hpadding⟩

/-- The encoder turns three bytes into four characters that the decoder turns back. -/
theorem a3_to_a4_sextets (hpgm : ReadsTables pgm_read_byte) (x y z : UInt8) :
    ∃ p q r s, a3_to_a4 (x, y, z) = [p, q, r, s] ∧ a4_to_a3 (p, q, r, s) = [x, y, z] ∧
      Sextet pgm_read_byte p ∧ Sextet pgm_read_byte q ∧ Sextet pgm_read_byte r ∧
        Sextet pgm_read_byte s := by
  have heq := a3_to_a4_eq x y z
  have hlt := sextets_lt (x := x) (y := y) (z := z)
  simp only [sextets, List.mem_cons, List.not_mem_nil, or_false, forall_eq_or_imp,
    forall_eq] at hlt
  obtain ⟨hp, hq, hr, hs⟩ := hlt
  exact ⟨_, _, _, _, heq, a4_to_a3_a3_to_a4 x y z heq, sextet_of_lt hpgm hp,
    sextet_of_lt hpgm hq, sextet_of_lt hpgm hr, sextet_of_lt hpgm hs⟩

/-! ## The loops, a block at a time -/

/-- What the encoder writes, three bytes at a time. -/
def encoded (pgm_read_byte : Bytes → ℕ → UInt8) : Bytes → Bytes
  | x :: y :: z :: rest =>
    (a3_to_a4 (x, y, z)).map (b64_char pgm_read_byte) ++ encoded pgm_read_byte rest
  | a3 => base64_encode.rest pgm_read_byte a3

/-- The encoder's loop with any output so far. The induction is on the blocks of the input. -/
theorem encode_from (bs out : Bytes) :
    (bs.foldl (base64_encode.round pgm_read_byte) ⟨[], out⟩).output ++
        base64_encode.rest pgm_read_byte
          (bs.foldl (base64_encode.round pgm_read_byte) ⟨[], out⟩).array =
      out ++ encoded pgm_read_byte bs := by
  induction bs using encoded.induct generalizing out with
  | case1 x y z rest ih =>
    have hround : (x :: y :: z :: rest).foldl (base64_encode.round pgm_read_byte) ⟨[], out⟩ =
        rest.foldl (base64_encode.round pgm_read_byte)
          ⟨[], out ++ (a3_to_a4 (x, y, z)).map (b64_char pgm_read_byte)⟩ := rfl
    rw [hround, ih, encoded, List.append_assoc]
  | case2 a3 hshort =>
    rcases a3 with _ | ⟨x, _ | ⟨y, _ | ⟨z, rest⟩⟩⟩
    · rfl
    · rfl
    · rfl
    · exact absurd rfl (hshort x y z rest)

/-- The encoder writes block by block. -/
theorem base64_encode_eq (bs : Bytes) :
    base64_encode pgm_read_byte bs = encoded pgm_read_byte bs :=
  encode_from bs []

/-- Four characters are a block of the decoder. -/
theorem decode_block {p q r s : UInt8} (hp : Sextet pgm_read_byte p)
    (hq : Sextet pgm_read_byte q) (hr : Sextet pgm_read_byte r) (hs : Sextet pgm_read_byte s)
    (out : Bytes) :
    ([p, q, r, s].map (b64_char pgm_read_byte)).foldl base64_decode.round ⟨[], out⟩ =
      ⟨[], out ++ a4_to_a3 (p, q, r, s)⟩ := by
  have hround : ([p, q, r, s].map (b64_char pgm_read_byte)).foldl base64_decode.round ⟨[], out⟩ =
      ⟨[], out ++ a4_to_a3 (b64_lookup (b64_char pgm_read_byte p),
        b64_lookup (b64_char pgm_read_byte q), b64_lookup (b64_char pgm_read_byte r),
        b64_lookup (b64_char pgm_read_byte s))⟩ := rfl
  rw [hround, hp.1, hq.1, hr.1, hs.1]

/-- The decoder on what the encoder has written. The characters that are left in its array are
those of the last block. -/
theorem decode_from (hpgm : ReadsTables pgm_read_byte) (bs out : Bytes) :
    (((encoded pgm_read_byte bs).takeWhile (· ≠ byte '=')).foldl base64_decode.round
        ⟨[], out⟩).output ++
      base64_decode.rest
        (((encoded pgm_read_byte bs).takeWhile (· ≠ byte '=')).foldl base64_decode.round
          ⟨[], out⟩).array =
      out ++ bs := by
  induction bs using encoded.induct generalizing out with
  | case1 x y z rest ih =>
    obtain ⟨p, q, r, s, hblock, hback, hp, hq, hr, hs⟩ := a3_to_a4_sextets hpgm x y z
    have hchars : ∀ c ∈ [p, q, r, s].map (b64_char pgm_read_byte),
        decide (c ≠ byte '=') = true := by
      simp [hp.2, hq.2, hr.2, hs.2]
    rw [encoded, hblock, List.takeWhile_append_of_pos hchars, List.foldl_append,
      decode_block hp hq hr hs, ih, hback, List.append_assoc]
    rfl
  | case2 a3 hshort =>
    rcases a3 with _ | ⟨x, _ | ⟨y, _ | ⟨z, rest⟩⟩⟩
    · rfl
    · -- two characters; what the array holds behind them does not matter
      obtain ⟨p, q, r, s, hblock, hback, hp, hq, -, -⟩ := a3_to_a4_sextets hpgm x 0 0
      have hwritten : encoded pgm_read_byte [x] =
          [b64_char pgm_read_byte p, b64_char pgm_read_byte q, byte '=', byte '='] := by
        show ((a3_to_a4 (x, 0, 0)).take 2).map (b64_char pgm_read_byte) ++ _ = _
        rw [hblock]
        rfl
      have hread : base64_decode.rest [b64_char pgm_read_byte p, b64_char pgm_read_byte q] =
          [x] := by
        have htake := congrArg (List.take 1) hback
        show (a4_to_a3 (b64_lookup (b64_char pgm_read_byte p),
          b64_lookup (b64_char pgm_read_byte q), _, _)).take 1 = _
        rw [hp.1, hq.1]
        exact htake
      rw [hwritten]
      simp only [List.takeWhile_cons, hp.2, hq.2, ne_eq, not_false_eq_true, decide_true,
        not_true_eq_false, decide_false, Bool.false_eq_true, if_true, if_false]
      exact congrArg (out ++ ·) hread
    · obtain ⟨p, q, r, s, hblock, hback, hp, hq, hr, -⟩ := a3_to_a4_sextets hpgm x y 0
      have hwritten : encoded pgm_read_byte [x, y] = [b64_char pgm_read_byte p,
          b64_char pgm_read_byte q, b64_char pgm_read_byte r, byte '='] := by
        show ((a3_to_a4 (x, y, 0)).take 3).map (b64_char pgm_read_byte) ++ _ = _
        rw [hblock]
        rfl
      have hread : base64_decode.rest [b64_char pgm_read_byte p, b64_char pgm_read_byte q,
          b64_char pgm_read_byte r] = [x, y] := by
        have htake := congrArg (List.take 2) hback
        show (a4_to_a3 (b64_lookup (b64_char pgm_read_byte p),
          b64_lookup (b64_char pgm_read_byte q), b64_lookup (b64_char pgm_read_byte r),
          _)).take 2 = _
        rw [hp.1, hq.1, hr.1]
        exact htake
      rw [hwritten]
      simp only [List.takeWhile_cons, hp.2, hq.2, hr.2, ne_eq, not_false_eq_true, decide_true,
        not_true_eq_false, decide_false, Bool.false_eq_true, if_true, if_false]
      exact congrArg (out ++ ·) hread
    · exact absurd rfl (hshort x y z rest)

/-! ## The lengths -/

/-- The characters, and the padding of the last block. -/
theorem encoded_padding (hpgm : ReadsTables pgm_read_byte) (bs : Bytes) :
    ∃ chars : Bytes, (∀ c ∈ chars, c ≠ byte '=') ∧
      chars.length = bs.length + (bs.length + 2) / 3 ∧
      encoded pgm_read_byte bs = chars ++ List.replicate ((3 - bs.length % 3) % 3) (byte '=') := by
  induction bs using encoded.induct with
  | case1 x y z rest ih =>
    obtain ⟨chars, hchars, hlen, heq⟩ := ih
    obtain ⟨p, q, r, s, hblock, -, hp, hq, hr, hs⟩ := a3_to_a4_sextets hpgm x y z
    refine ⟨[p, q, r, s].map (b64_char pgm_read_byte) ++ chars, ?_, ?_, ?_⟩
    · intro c hc
      rcases List.mem_append.mp hc with hc | hc
      · simp only [List.map_cons, List.map_nil, List.mem_cons, List.not_mem_nil, or_false] at hc
        rcases hc with rfl | rfl | rfl | rfl
        · exact hp.2
        · exact hq.2
        · exact hr.2
        · exact hs.2
      · exact hchars c hc
    · simp only [List.length_append, List.map_cons, List.map_nil, List.length_cons,
        List.length_nil, hlen]
      omega
    · have hmod : (x :: y :: z :: rest).length % 3 = rest.length % 3 := by
        simp only [List.length_cons]
        omega
      rw [hmod, encoded, hblock, heq, List.append_assoc]
  | case2 a3 hshort =>
    rcases a3 with _ | ⟨x, _ | ⟨y, _ | ⟨z, rest⟩⟩⟩
    · exact ⟨[], by simp, rfl, rfl⟩
    · obtain ⟨p, q, r, s, hblock, -, hp, hq, -, -⟩ := a3_to_a4_sextets hpgm x 0 0
      refine ⟨[b64_char pgm_read_byte p, b64_char pgm_read_byte q], ?_, by simp, ?_⟩
      · simp [hp.2, hq.2]
      · show ((a3_to_a4 (x, 0, 0)).take 2).map (b64_char pgm_read_byte) ++ _ = _
        rw [hblock]
        rfl
    · obtain ⟨p, q, r, s, hblock, -, hp, hq, hr, -⟩ := a3_to_a4_sextets hpgm x y 0
      refine ⟨[b64_char pgm_read_byte p, b64_char pgm_read_byte q, b64_char pgm_read_byte r],
        ?_, by simp, ?_⟩
      · simp [hp.2, hq.2, hr.2]
      · show ((a3_to_a4 (x, y, 0)).take 3).map (b64_char pgm_read_byte) ++ _ = _
        rw [hblock]
        rfl
    · exact absurd rfl (hshort x y z rest)

/-- Blocks of four characters, the last of them filled up with padding. -/
theorem length_encoded (hpgm : ReadsTables pgm_read_byte) (bs : Bytes) :
    (encoded pgm_read_byte bs).length = (bs.length + 2) / 3 * 4 := by
  obtain ⟨chars, -, hlen, heq⟩ := encoded_padding hpgm bs
  rw [heq, List.length_append, hlen, List.length_replicate]
  have hdiv := Nat.div_add_mod bs.length 3
  have hmod : bs.length % 3 < 3 := Nat.mod_lt _ (by decide)
  rcases hr : bs.length % 3 with _ | _ | _ | r
  all_goals omega

/-- `base64_enc_len` is that number of blocks when it is an `int`. -/
theorem base64_enc_len_eq {n : ℕ} (h : (((n + 2) / 3 * 4 : ℕ) : ℤ) ≤ INT_MAX) :
    base64_enc_len n = some ((n + 2) / 3 * 4 : ℕ) := by
  unfold INT_MAX at h
  have hmod : ((n + 2 : ℤ)).tmod 3 = (n + 2 : ℤ) % 3 := Int.tmod_eq_emod_of_nonneg (by omega)
  have hfirst : checked_int (n + 2) = some (n + 2 : ℤ) :=
    checked_int_eq (by omega) (by unfold INT_MAX; omega)
  have hsecond : checked_int ((n + 2 : ℤ) - (n + 2 : ℤ) % 3) =
      some ((n + 2 : ℤ) - (n + 2 : ℤ) % 3) :=
    checked_int_eq (by omega) (by unfold INT_MAX; omega)
  have hdiv : ((n + 2 : ℤ) - (n + 2 : ℤ) % 3).tdiv 3 = (n + 2 : ℤ) / 3 := by
    rw [Int.tdiv_eq_ediv_of_nonneg (by omega)]
    omega
  have hthird : checked_int ((n + 2 : ℤ) / 3 * 4) = some ((n + 2 : ℤ) / 3 * 4) :=
    checked_int_eq (by omega) (by unfold INT_MAX; omega)
  -- no operation overflows, and the remainder and the quotient are those of `ℕ`
  unfold base64_enc_len
  simp only [hfirst, hmod, hsecond, hdiv, hthird, Option.bind_eq_bind, Option.bind_some]
  congr 1

/-- The loop counts the padding and stops at the last character in front of it. The induction is
on the padding that is left. -/
theorem dec_len_loop {chars : Bytes} (hne : chars ≠ []) (hchars : ∀ c ∈ chars, c ≠ byte '=')
    (pad : ℕ) : ∀ k ≤ pad, ∀ numEq,
      base64_dec_len.loop (chars ++ List.replicate pad (byte '=')) (chars.length + k) numEq =
        some (numEq + k) := by
  intro k
  induction k with
  | zero =>
    intro _ numEq
    obtain ⟨front, c, rfl⟩ := List.eq_nil_or_concat' chars |>.resolve_left hne
    have hget : (front ++ [c] ++ List.replicate pad (byte '='))[front.length]? = some c := by
      rw [List.append_assoc, List.getElem?_append_right (le_refl _), Nat.sub_self]
      rfl
    have hc : c ≠ byte '=' := hchars c (by simp)
    rw [Nat.add_zero, List.length_append, List.length_singleton, base64_dec_len.loop, hget]
    show (if c = byte '=' then _ else some numEq) = _
    rw [if_neg hc, Int.natCast_zero, Int.add_zero]
  | succ k ih =>
    intro hk numEq
    have hget : (chars ++ List.replicate pad (byte '='))[chars.length + k]? = some (byte '=') := by
      rw [List.getElem?_append_right (Nat.le_add_right _ _), Nat.add_sub_cancel_left]
      exact List.getElem?_replicate_of_lt (by omega)
    rw [← Nat.add_assoc, base64_dec_len.loop, hget]
    show (if byte '=' = byte '=' then _ else some numEq) = _
    rw [if_pos rfl, ih (by omega)]
    exact congrArg some (by push_cast; ring)

/-- **Behind the encoder**, `base64_dec_len` counts what the decoder will write, unless there is
no character to stop at or six times the length is no `int`. -/
theorem dec_len_encoded (hpgm : ReadsTables pgm_read_byte) (bs : Bytes) :
    base64_dec_len (encoded pgm_read_byte bs) (encoded pgm_read_byte bs).length =
      if bs ≠ [] ∧ bs.length < 2 ^ 28 then some (bs.length : ℤ) else none := by
  obtain ⟨chars, hchars, hlen, heq⟩ := encoded_padding hpgm bs
  by_cases hbs : bs = []
  · subst hbs
    rw [if_neg (fun h => h.1 rfl)]
    rfl
  · have hpos : 0 < bs.length := List.length_pos_iff.mpr hbs
    have hne : chars ≠ [] := by
      rintro rfl
      rw [List.length_nil] at hlen
      omega
    have htotal : (encoded pgm_read_byte bs).length = chars.length + (3 - bs.length % 3) % 3 := by
      rw [heq, List.length_append, List.length_replicate]
    -- the loop stops at the last character in front of the padding
    have hloop := dec_len_loop hne hchars ((3 - bs.length % 3) % 3) _ (le_refl _) 0
    rw [← heq, ← htotal, Int.zero_add] at hloop
    have hblocks := length_encoded hpgm bs
    unfold base64_dec_len
    rw [Int.toNat_natCast, hloop]
    simp only [Option.bind_eq_bind, Option.bind_some]
    by_cases hfit : bs.length < 2 ^ 28
    · have hbits : checked_int (6 * ((encoded pgm_read_byte bs).length : ℤ)) =
          some (6 * ((encoded pgm_read_byte bs).length : ℤ)) :=
        checked_int_eq (by omega) (by unfold INT_MAX; omega)
      have hdiv : (6 * ((encoded pgm_read_byte bs).length : ℤ)).tdiv 8 -
          (((3 - bs.length % 3) % 3 : ℕ) : ℤ) = bs.length := by
        rw [Int.tdiv_eq_ediv_of_nonneg (by omega), hblocks]
        omega
      rw [hbits, if_pos ⟨hbs, hfit⟩, Option.bind_some, hdiv]
      exact checked_int_eq (by omega) (by unfold INT_MAX; omega)
    · have hbits : checked_int (6 * ((encoded pgm_read_byte bs).length : ℤ)) = none :=
        checked_int_none (by unfold INT_MAX; omega)
      rw [hbits, if_neg (fun h => hfit h.2)]
      rfl

/-- **The decoder reads what the encoder writes**, as long as the length of that is an `int`, and
`base64_enc_len` foretells this length. `base64_dec_len` foretells the length of what the decoder
will write except in two cases: for an empty input it leaves the buffer, and from 2^28 bytes on
it overflows. -/
theorem base64_round_trip (pgm_read_byte : Bytes → ℕ → UInt8) (hpgm : ReadsTables pgm_read_byte)
    (bs : Bytes) (hint : ((base64_encode pgm_read_byte bs).length : ℤ) ≤ INT_MAX) :
    base64_decode (base64_encode pgm_read_byte bs) = bs ∧
      base64_enc_len bs.length = some ((base64_encode pgm_read_byte bs).length : ℤ) ∧
      base64_dec_len (base64_encode pgm_read_byte bs) (base64_encode pgm_read_byte bs).length =
        if bs ≠ [] ∧ bs.length < 2 ^ 28 then some (bs.length : ℤ) else none := by
  rw [base64_encode_eq] at hint ⊢
  refine ⟨decode_from hpgm bs [], ?_, dec_len_encoded hpgm bs⟩
  rw [length_encoded hpgm] at hint ⊢
  exact base64_enc_len_eq hint

/-- Two bytes, with a table that is a list. -/
theorem base64_round_trip_two :
    base64_encode (fun table i => table.getD i 0) [255, 0] = bytes "/wA=" ∧
      base64_decode (bytes "/wA=") = [255, 0] ∧ base64_enc_len 2 = some 4 ∧
      base64_dec_len (bytes "/wA=") 4 = some 2 := by
  have hpgm : ReadsTables fun table i => table.getD i 0 := by
    intro table i h
    exact (List.getD_eq_getElem table 0 h)
  have hencode : base64_encode (fun table i => table.getD i 0) [255, 0] = bytes "/wA=" := by
    decide +kernel
  have hround := base64_round_trip (fun table i => table.getD i 0) hpgm [255, 0]
    (by rw [hencode]; decide +kernel)
  rw [hencode] at hround
  exact ⟨hencode, hround⟩

end RoundTrip

end MyWarehouse

import Brainfuck.Text.Utf8

/-! Decoding the bytes of a text gives back its characters. -/
namespace Brainfuck.Text

/-- The bytes as which a text is stored. -/
def utf8 (s : String) : List UInt8 := s.toUTF8.data.toList

/-- Six bits of a code point in a byte that goes on with it. -/
def trail (k : Nat) : UInt8 := .ofNat (k % 64 + 128)

variable {a b : UInt8} {k n : Nat} {c : Char} {rest : List UInt8} {done : List Char}

theorem toNat_ofNat (h : k < 256) : (UInt8.ofNat k).toNat = k := by
  rw [UInt8.toNat_ofNat', Nat.mod_eq_of_lt h]

theorem toNat_trail (k : Nat) : (trail k).toNat = k % 64 + 128 := toNat_ofNat (by omega)

theorem isContinuation_trail (k : Nat) : isContinuation (trail k) = true := by
  have hk := toNat_trail k
  simp only [isContinuation, Bool.and_eq_true, decide_eq_true_eq, UInt8.le_iff_toNat_le,
    UInt8.lt_iff_toNat_lt, UInt8.reduceToNat]
  omega

theorem shift_trail (n k : Nat) : shift n (trail k) = 64 * n + k % 64 := by
  rw [shift, toNat_trail]
  omega

/-- No overlong form, no surrogate and nothing past the last code point. -/
theorem isSecond_trail (hE0 : a.toNat ≠ 0xE0 ∨ 0x20 ≤ k % 64) (hED : a.toNat ≠ 0xED ∨ k % 64 < 0x20)
    (hF0 : a.toNat ≠ 0xF0 ∨ 0x10 ≤ k % 64) (hF4 : a.toNat ≠ 0xF4 ∨ k % 64 < 0x10) :
    isSecond a (trail k) = true := by
  have hk := toNat_trail k
  simp only [isSecond, isContinuation_trail, Bool.and_eq_true, Bool.or_eq_true, bne_iff_ne, ne_eq,
    decide_eq_true_eq, UInt8.le_iff_toNat_le, UInt8.lt_iff_toNat_lt, ← UInt8.toNat_inj,
    UInt8.reduceToNat, true_and]
  omega

/-! One character with one byte, with two, with three and with four. -/

theorem decodeFrom_one (h : k < 0x80) :
    decodeFrom n (.ofNat k :: rest) done = decodeFrom (n + 1) rest (.ofNat k :: done) := by
  have ha : (UInt8.ofNat k).toNat = k := toNat_ofNat (by omega)
  generalize UInt8.ofNat k = a at ha
  rw [decodeFrom.eq_def]
  simp only [UInt8.lt_iff_toNat_lt, ha, UInt8.reduceToNat]
  rw [if_pos h]

theorem decodeFrom_two (h : k < 0x800) (hk : 0x80 ≤ k) :
    decodeFrom n (.ofNat (k / 64 % 32 + 192) :: trail k :: rest) done =
      decodeFrom (n + 2) rest (.ofNat k :: done) := by
  have ha : (UInt8.ofNat (k / 64 % 32 + 192)).toNat = k / 64 + 192 := by
    rw [toNat_ofNat (by omega)]
    omega
  generalize UInt8.ofNat (k / 64 % 32 + 192) = a at ha
  have hcode : shift ((k / 64 + 192) % 32) (trail k) = k := by
    rw [shift_trail]
    omega
  rw [decodeFrom.eq_def]
  simp only [UInt8.lt_iff_toNat_lt, ha, UInt8.reduceToNat, isContinuation_trail, hcode, if_true]
  rw [if_neg (by omega), if_neg (by omega), if_pos (by omega)]

theorem decodeFrom_three (h : k < 0x10000) (hk : 0x800 ≤ k) (hvalid : k < 0xD800 ∨ 0xDFFF < k) :
    decodeFrom n (.ofNat (k / 4096 % 16 + 224) :: trail (k / 64) :: trail k :: rest) done =
      decodeFrom (n + 3) rest (.ofNat k :: done) := by
  have ha : (UInt8.ofNat (k / 4096 % 16 + 224)).toNat = k / 4096 + 224 := by
    rw [toNat_ofNat (by omega)]
    omega
  generalize UInt8.ofNat (k / 4096 % 16 + 224) = a at ha
  have hcode : shift (shift ((k / 4096 + 224) % 16) (trail (k / 64))) (trail k) = k := by
    rw [shift_trail, shift_trail]
    omega
  have hsecond : isSecond a (trail (k / 64)) = true :=
    isSecond_trail (by omega) (by omega) (by omega) (by omega)
  rw [decodeFrom.eq_def]
  simp only [UInt8.lt_iff_toNat_lt, ha, UInt8.reduceToNat, isContinuation_trail, hsecond, hcode,
    if_true]
  rw [if_neg (by omega), if_neg (by omega), if_neg (by omega), if_pos (by omega)]

theorem decodeFrom_four (h : k < 0x110000) (hk : 0x10000 ≤ k) :
    decodeFrom n
      (.ofNat (k / 262144 % 8 + 240) :: trail (k / 4096) :: trail (k / 64) :: trail k :: rest) done =
      decodeFrom (n + 4) rest (.ofNat k :: done) := by
  have ha : (UInt8.ofNat (k / 262144 % 8 + 240)).toNat = k / 262144 + 240 := by
    rw [toNat_ofNat (by omega)]
    omega
  generalize UInt8.ofNat (k / 262144 % 8 + 240) = a at ha
  have hcode : shift (shift (shift ((k / 262144 + 240) % 8) (trail (k / 4096))) (trail (k / 64)))
      (trail k) = k := by
    rw [shift_trail, shift_trail, shift_trail]
    omega
  have hsecond : isSecond a (trail (k / 4096)) = true :=
    isSecond_trail (by omega) (by omega) (by omega) (by omega)
  rw [decodeFrom.eq_def]
  simp only [UInt8.lt_iff_toNat_lt, ha, UInt8.reduceToNat, isContinuation_trail, hsecond, hcode,
    if_true]
  rw [if_neg (by omega), if_neg (by omega), if_neg (by omega), if_neg (by omega), if_pos (by omega)]

/-- Decoding takes the bytes of a character together. -/
theorem decodeFrom_encode (c : Char) (n : Nat) (rest : List UInt8) (done : List Char) :
    ∃ m, decodeFrom n (String.utf8EncodeChar c ++ rest) done = decodeFrom m rest (c :: done) := by
  have hvalid : c.val.toNat < 0xD800 ∨ 0xDFFF < c.val.toNat ∧ c.val.toNat < 0x110000 := c.valid
  have hc : Char.ofNat c.val.toNat = c := Char.ofNat_toNat c
  unfold String.utf8EncodeChar
  generalize c.val.toNat = k at hvalid hc
  subst hc
  dsimp only
  split
  next hone => exact ⟨n + 1, decodeFrom_one (by omega)⟩
  next hone =>
    split
    next htwo => exact ⟨n + 2, decodeFrom_two (by omega) (by omega)⟩
    next htwo =>
      split
      next hthree => exact ⟨n + 3, decodeFrom_three (by omega) (by omega) (by omega)⟩
      next hthree => exact ⟨n + 4, decodeFrom_four (by omega) (by omega)⟩

theorem utf8_eq_flatMap (s : String) : utf8 s = s.toList.flatMap String.utf8EncodeChar := by
  rw [utf8, String.toUTF8, ← String.utf8Encode_toList, List.utf8Encode, List.toList_data_toByteArray]

theorem decodeFrom_flatMap (cs : List Char) (n : Nat) (done : List Char) :
    decodeFrom n (cs.flatMap String.utf8EncodeChar) done = .ok (done.reverse ++ cs) := by
  induction cs generalizing n done with
  | nil => rw [List.flatMap_nil, decodeFrom, List.append_nil]
  | cons c cs ih =>
    obtain ⟨m, hm⟩ := decodeFrom_encode c n (cs.flatMap String.utf8EncodeChar) done
    rw [List.flatMap_cons, hm, ih, List.reverse_cons, List.append_assoc, List.singleton_append]

/-- Decoding undoes encoding. -/
theorem decodeUtf8_utf8 (s : String) : decodeUtf8 (utf8 s) = .ok s.toList := by
  rw [decodeUtf8, utf8_eq_flatMap, decodeFrom_flatMap]
  rfl

end Brainfuck.Text

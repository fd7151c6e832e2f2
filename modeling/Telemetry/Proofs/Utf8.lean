import Telemetry.Payload

/-!
# UTF-8 and text slots

The characters of a text are read back from its bytes, and so is a text from its slot if it fits and
holds no zero character.

* `Utf8.next_encodeChar`: one character is read back, whatever follows it.
* `Utf8.decodeLossy_encode`: so is a text.
* `slotText_textSlot`: and a text in a slot that has room for it.
-/

namespace Telemetry

namespace Utf8

theorem toNat_ofNat_of_lt {n : Nat} (h : n < 256) : (UInt8.ofNat n).toNat = n := by
  rw [UInt8.toNat_ofNat']
  exact Nat.mod_eq_of_lt h

theorem within_ofNat {low high : UInt8} {n : Nat} (h : n < 256) :
    within low high (UInt8.ofNat n) = decide (low.toNat ≤ n ∧ n ≤ high.toNat) := by
  simp only [within, UInt8.le_iff_toNat_le, toNat_ofNat_of_lt h, Bool.decide_and]

theorem not_ascii {n : Nat} (h : n < 256) (hn : 128 ≤ n) : ¬ UInt8.ofNat n < 0x80 := by
  rw [UInt8.lt_iff_toNat_lt, toNat_ofNat_of_lt h]
  exact Nat.not_lt.2 hn

theorem ofNat_eq_iff {n : Nat} {b : UInt8} (h : n < 256) : UInt8.ofNat n = b ↔ n = b.toNat := by
  rw [← UInt8.toNat_inj, toNat_ofNat_of_lt h]

theorem isTail_ofNat {n : Nat} (h : n < 64) : isTail (UInt8.ofNat (n + 0x80)) = true := by
  rw [isTail, within_ofNat (by omega)]
  simp
  omega

/-- A second byte follows a lead byte, unless the character would be overlong, a surrogate or too
great. -/
theorem isSecond_ofNat {x n : Nat} (hx : x < 256) (hn : n < 64)
    (overlong : x = 0xE0 → 0x20 ≤ n) (overlong' : x = 0xF0 → 0x10 ≤ n)
    (surrogate : x = 0xED → n < 0x20) (great : x = 0xF4 → n < 0x10) :
    isSecond (UInt8.ofNat x) (UInt8.ofNat (n + 0x80)) = true := by
  rw [isSecond, within_ofNat (by omega)]
  refine decide_eq_true ⟨?_, ?_⟩
  · by_cases h0 : UInt8.ofNat x = 0xE0
    · have := overlong ((ofNat_eq_iff hx).1 h0)
      rw [if_pos h0]
      show 0xA0 ≤ n + 0x80
      omega
    by_cases h1 : UInt8.ofNat x = 0xF0
    · have := overlong' ((ofNat_eq_iff hx).1 h1)
      rw [if_neg h0, if_pos h1]
      show 0x90 ≤ n + 0x80
      omega
    · rw [if_neg h0, if_neg h1]
      exact Nat.le_add_left ..
  · by_cases h0 : UInt8.ofNat x = 0xED
    · have := surrogate ((ofNat_eq_iff hx).1 h0)
      rw [if_pos h0]
      show n + 0x80 ≤ 0x9F
      omega
    by_cases h1 : UInt8.ofNat x = 0xF4
    · have := great ((ofNat_eq_iff hx).1 h1)
      rw [if_neg h0, if_pos h1]
      show n + 0x80 ≤ 0x8F
      omega
    · rw [if_neg h0, if_neg h1]
      show n + 0x80 ≤ 0xBF
      omega

theorem extend_ofNat {m n : Nat} (h : n < 64) : extend m (UInt8.ofNat (n + 0x80)) = m * 64 + n := by
  rw [extend, toNat_ofNat_of_lt (by omega)]
  omega

/-! ## Characters -/

theorem next_one {x : Nat} (hx : x < 0x80) (rest : List UInt8) :
    next (UInt8.ofNat x) rest = (some (Char.ofNat x), 0) := by
  have ha : UInt8.ofNat x < 0x80 := by
    rw [UInt8.lt_iff_toNat_lt, toNat_ofNat_of_lt (by omega)]
    exact hx
  unfold next
  rw [if_pos ha, toNat_ofNat_of_lt (by omega)]

theorem next_two {x y : Nat} (hx : 0xC2 ≤ x) (hx' : x ≤ 0xDF) (hy : y < 64) (rest : List UInt8) :
    next (UInt8.ofNat x) (UInt8.ofNat (y + 0x80) :: rest) =
      (some (Char.ofNat (x % 32 * 64 + y)), 1) := by
  have hin : within 0xC2 0xDF (UInt8.ofNat x) = true := by
    rw [within_ofNat (by omega)]
    exact decide_eq_true ⟨hx, hx'⟩
  unfold next
  simp only [if_neg (not_ascii (show x < 256 by omega) (by omega)), if_pos hin, isTail_ofNat hy,
    if_true, toNat_ofNat_of_lt (show x < 256 by omega), extend_ofNat hy]

theorem next_three {x y z : Nat} (hx : 0xE0 ≤ x) (hx' : x ≤ 0xEF) (hy : y < 64) (hz : z < 64)
    (overlong : x = 0xE0 → 0x20 ≤ y) (surrogate : x = 0xED → y < 0x20) (rest : List UInt8) :
    next (UInt8.ofNat x) (UInt8.ofNat (y + 0x80) :: UInt8.ofNat (z + 0x80) :: rest) =
      (some (Char.ofNat ((x % 16 * 64 + y) * 64 + z)), 2) := by
  have hlt : x < 256 := by omega
  have hout : ¬ within 0xC2 0xDF (UInt8.ofNat x) = true := by
    rw [within_ofNat hlt, decide_eq_true_iff]
    exact fun h => absurd (Nat.le_trans hx h.2) (by decide)
  have hin : within 0xE0 0xEF (UInt8.ofNat x) = true := by
    rw [within_ofNat hlt]
    exact decide_eq_true ⟨hx, hx'⟩
  have hsecond : isSecond (UInt8.ofNat x) (UInt8.ofNat (y + 0x80)) = true := by
    apply isSecond_ofNat hlt hy overlong _ surrogate <;> omega
  unfold next
  simp only [if_neg (not_ascii hlt (by omega)), if_neg hout, if_pos hin, hsecond, isTail_ofNat hz,
    if_true, toNat_ofNat_of_lt hlt, extend_ofNat hy, extend_ofNat hz]

theorem next_four {x y z w : Nat} (hx : 0xF0 ≤ x) (hx' : x ≤ 0xF4) (hy : y < 64) (hz : z < 64)
    (hw : w < 64) (overlong : x = 0xF0 → 0x10 ≤ y) (great : x = 0xF4 → y < 0x10)
    (rest : List UInt8) :
    next (UInt8.ofNat x) (UInt8.ofNat (y + 0x80) :: UInt8.ofNat (z + 0x80) ::
      UInt8.ofNat (w + 0x80) :: rest) =
      (some (Char.ofNat (((x % 8 * 64 + y) * 64 + z) * 64 + w)), 3) := by
  have hlt : x < 256 := by omega
  have hout : ∀ low high : UInt8, high.toNat < 0xF0 →
      ¬ within low high (UInt8.ofNat x) = true := by
    intro low high hhigh
    rw [within_ofNat hlt, decide_eq_true_iff]
    omega
  have hin : within 0xF0 0xF4 (UInt8.ofNat x) = true := by
    rw [within_ofNat hlt]
    exact decide_eq_true ⟨hx, hx'⟩
  have hsecond : isSecond (UInt8.ofNat x) (UInt8.ofNat (y + 0x80)) = true := by
    apply isSecond_ofNat hlt hy _ overlong _ great <;> omega
  unfold next
  simp only [if_neg (not_ascii hlt (by omega)), if_neg (hout 0xC2 0xDF (by decide)),
    if_neg (hout 0xE0 0xEF (by decide)), if_pos hin, hsecond, isTail_ofNat hz, isTail_ofNat hw,
    if_true, toNat_ofNat_of_lt hlt, extend_ofNat hy, extend_ofNat hz, extend_ofNat hw]

/-- The bytes of a character are read back as that character, whatever follows them. -/
theorem next_encodeChar (c : Char) (rest : List UInt8) :
    ∃ a tail, String.utf8EncodeChar c = a :: tail ∧
      next a (tail ++ rest) = (some c, tail.length) := by
  have hc : Char.ofNat c.val.toNat = c := Char.ofNat_toNat c
  have hvalid : c.val.toNat < 0xD800 ∨ 0xDFFF < c.val.toNat ∧ c.val.toNat < 0x110000 := c.valid
  simp only [String.utf8EncodeChar]
  generalize c.val.toNat = v at hc hvalid
  -- One case for each length; the bits of the bytes together are those of the character.
  by_cases h1 : v ≤ 0x7F
  · rw [if_pos h1]
    refine ⟨_, _, rfl, ?_⟩
    rw [next_one (by omega), hc]
    rfl
  by_cases h2 : v ≤ 0x7FF
  · rw [if_neg h1, if_pos h2]
    refine ⟨_, _, rfl, ?_⟩
    have hbits : (v / 64 % 0x20 + 0xC0) % 32 * 64 + v % 0x40 = v := by omega
    rw [List.cons_append, next_two (by omega) (by omega) (by omega), hbits, hc]
    rfl
  by_cases h3 : v ≤ 0xFFFF
  · rw [if_neg h1, if_neg h2, if_pos h3]
    refine ⟨_, _, rfl, ?_⟩
    have hbits : ((v / 4096 % 0x10 + 0xE0) % 16 * 64 + v / 64 % 0x40) * 64 + v % 0x40 = v := by
      omega
    rw [List.cons_append, List.cons_append, next_three (by omega) (by omega) (by omega) (by omega)
      (by omega) (by omega), hbits, hc]
    rfl
  · rw [if_neg h1, if_neg h2, if_neg h3]
    refine ⟨_, _, rfl, ?_⟩
    have hbits : (((v / 262144 % 0x08 + 0xF0) % 8 * 64 + v / 4096 % 0x40) * 64 + v / 64 % 0x40) * 64
        + v % 0x40 = v := by omega
    rw [List.cons_append, List.cons_append, List.cons_append, next_four (by omega) (by omega)
      (by omega) (by omega) (by omega) (by omega) (by omega), hbits, hc]
    rfl

/-! ## Texts -/

theorem pieces_encodeChar (c : Char) (rest : List UInt8) :
    pieces (String.utf8EncodeChar c ++ rest) = some c :: pieces rest := by
  obtain ⟨a, tail, hbytes, hnext⟩ := next_encodeChar c rest
  rw [hbytes, List.cons_append, pieces, hnext, List.drop_left]

theorem pieces_flatMap (cs : List Char) (rest : List UInt8) :
    pieces (cs.flatMap String.utf8EncodeChar ++ rest) = cs.map some ++ pieces rest := by
  induction cs with
  | nil => rfl
  | cons c cs ih =>
    rw [List.flatMap_cons, List.append_assoc, pieces_encodeChar, ih]
    rfl

/-- A text is read back from its bytes. -/
theorem decodeLossy_encode (s : String) : decodeLossy (encode s) = s := by
  have hpieces : pieces (encode s) = s.toList.map some := by
    have h := pieces_flatMap s.toList []
    rwa [List.append_nil, pieces, List.append_nil] at h
  have hchars : (s.toList.map some).map (·.getD (Char.ofNat 0xFFFD)) = s.toList := by
    rw [List.map_map]
    exact List.map_id _
  rw [decodeLossy, hpieces, hchars, String.ofList_toList]

theorem zero_mem_encodeChar {c : Char} (h : 0 ∈ String.utf8EncodeChar c) : c = Char.ofNat 0 := by
  have hc : Char.ofNat c.val.toNat = c := Char.ofNat_toNat c
  simp only [String.utf8EncodeChar] at h
  generalize c.val.toNat = v at hc h
  by_cases h1 : v ≤ 0x7F
  · rw [if_pos h1, List.mem_singleton] at h
    obtain rfl : v = 0 := (ofNat_eq_iff (by omega)).1 h.symm
    exact hc.symm
  · -- Every byte of a longer character has its first bit set.
    have hne : ∀ n, 128 ≤ n → n < 256 → (0 : UInt8) ≠ UInt8.ofNat n := by
      intro n hn hlt h
      have := (ofNat_eq_iff hlt).1 h.symm
      exact absurd (this ▸ hn) (by decide)
    rw [if_neg h1] at h
    by_cases h2 : v ≤ 0x7FF
    · rw [if_pos h2, List.mem_cons, List.mem_singleton] at h
      rcases h with h | h <;> exact absurd h (hne _ (by omega) (by omega))
    by_cases h3 : v ≤ 0xFFFF
    · rw [if_neg h2, if_pos h3, List.mem_cons, List.mem_cons, List.mem_singleton] at h
      rcases h with h | h | h <;> exact absurd h (hne _ (by omega) (by omega))
    · rw [if_neg h2, if_neg h3, List.mem_cons, List.mem_cons, List.mem_cons,
        List.mem_singleton] at h
      rcases h with h | h | h | h <;> exact absurd h (hne _ (by omega) (by omega))

/-- Only the zero character has a zero byte. -/
theorem zero_notMem_encode {s : String} (h : Char.ofNat 0 ∉ s.toList) : 0 ∉ encode s := by
  intro hmem
  obtain ⟨c, hc, hb⟩ := List.mem_flatMap.1 hmem
  exact h (zero_mem_encodeChar hb ▸ hc)

end Utf8

/-! ## Slots -/

/-- A text is read back from its slot, if it fits and holds no zero character. -/
theorem slotText_textSlot {n : Nat} {s : String} (hzero : Char.ofNat 0 ∉ s.toList)
    (hfit : (Utf8.encode s).length ≤ n) : slotText (textSlot n s) = s := by
  have hbytes : (textSlot n s).takeWhile (· ≠ 0) = Utf8.encode s := by
    rw [textSlot, List.take_of_length_le hfit, List.takeWhile_append_of_pos]
    · rw [List.takeWhile_replicate]
      simp
    · intro b hb
      have := Utf8.zero_notMem_encode hzero
      exact decide_eq_true fun h => this (h ▸ hb)
  rw [slotText, hbytes, Utf8.decodeLossy_encode]

@[simp] theorem length_textSlot (n : Nat) (s : String) : (textSlot n s).length = n := by
  simp only [textSlot, List.length_append, List.length_take, List.length_replicate]
  omega

end Telemetry

import Mathlib.Data.Fintype.EquivFin
import Mathlib.Logic.Function.Iterate
import Telemetry.Proofs.Checksum

/-!
# The checksum bit by bit

A cyclic redundancy check is a division of polynomials over the two-element field, made by a
register that takes one bit after the other. The checksum folds in a byte with a few shifts instead.
Both give the same: the register is linear in its content, so the byte and the high half of the
register can be looked at apart from each other. The high half only moves down, and the byte has 256
values.

* `shiftOut`, `serialUpdate`: the register, for one bit and for the eight bits of a byte.
* `iterate_shiftOut_xor`, `iterate_shiftOut_high`: it is linear, and its high half moves down.
* `update_eq_serialUpdate`: folding in a byte is what the register does in eight steps.
* `ofBytes_serial`: the same for bytes in any number, and no content of the register is lost.
-/

namespace Telemetry.Checksum

/-- The polynomial `x¹⁶ + x¹² + x⁵ + 1` without its highest power, the lowest power in the highest
bit. -/
def generator : UInt16 := 0x8408

/-- One step of the register: it moves down by a place, and if the bit that falls out is set, the
polynomial is taken in. -/
def shiftOut (register : UInt16) : UInt16 :=
  if register &&& 1 = 1 then register >>> 1 ^^^ generator else register >>> 1

/-- A byte is combined with the low half of the register, which then makes a step for each bit. -/
def serialUpdate (register : UInt16) (byte : UInt8) : UInt16 :=
  shiftOut^[8] (register ^^^ byte.toUInt16)

/-! ## The register is linear -/

theorem toNat_and_one (a : UInt16) : (a &&& 1).toNat = a.toNat % 2 := by
  rw [UInt16.toNat_and]
  exact Nat.and_one_is_mod _

theorem and_one_cases (a : UInt16) : a &&& 1 = 0 ∨ a &&& 1 = 1 := by
  rcases Nat.mod_two_eq_zero_or_one a.toNat with h0 | h1
  · exact .inl (UInt16.toNat_inj.1 ((toNat_and_one a).trans h0))
  · exact .inr (UInt16.toNat_inj.1 ((toNat_and_one a).trans h1))

theorem shiftOut_xor (a b : UInt16) : shiftOut (a ^^^ b) = shiftOut a ^^^ shiftOut b := by
  have hlow : (a ^^^ b) &&& 1 = (a &&& 1) ^^^ (b &&& 1) := by
    apply UInt16.toNat_inj.1
    simp only [UInt16.toNat_and, UInt16.toNat_xor, Nat.and_xor_distrib_right]
  unfold shiftOut
  rw [hlow, UInt16.shiftRight_xor]
  rcases and_one_cases a with ha | ha <;> rcases and_one_cases b with hb | hb <;> rw [ha, hb]
  · rfl
  · exact UInt16.xor_assoc _ _ _
  · show a >>> 1 ^^^ b >>> 1 ^^^ generator = a >>> 1 ^^^ generator ^^^ b >>> 1
    rw [UInt16.xor_assoc, UInt16.xor_comm (b >>> 1), ← UInt16.xor_assoc]
  · -- The polynomial comes in twice, which is as good as not at all.
    show a >>> 1 ^^^ b >>> 1 = a >>> 1 ^^^ generator ^^^ (b >>> 1 ^^^ generator)
    rw [UInt16.xor_comm (b >>> 1), UInt16.xor_assoc (a >>> 1), ← UInt16.xor_assoc generator,
      UInt16.xor_self, UInt16.zero_xor]

theorem iterate_shiftOut_xor (n : Nat) (a b : UInt16) :
    shiftOut^[n] (a ^^^ b) = shiftOut^[n] a ^^^ shiftOut^[n] b := by
  induction n generalizing a b with
  | zero => rfl
  | succ n ih => rw [Function.iterate_succ_apply, shiftOut_xor, ih]; rfl

/-! ## What has no low bits moves down -/

theorem toNat_shiftOut_of_even {register : UInt16} {n : Nat} (h : register.toNat = 2 * n) :
    (shiftOut register).toNat = n := by
  have hbit : ¬ register &&& 1 = 1 := by
    intro hone
    have hmod := toNat_and_one register
    rw [hone, UInt16.toNat_one] at hmod
    omega
  rw [shiftOut, if_neg hbit, UInt16.toNat_shiftRight, h]
  show (2 * n) >>> 1 = n
  rw [Nat.shiftRight_eq_div_pow]
  omega

/-- As long as zeros fall out, the polynomial is not taken in. -/
theorem toNat_iterate_shiftOut {register : UInt16} {n k : Nat} (h : register.toNat = n <<< k) :
    (shiftOut^[k] register).toNat = n := by
  induction k generalizing register with
  | zero => exact h
  | succ k ih =>
    rw [Nat.shiftLeft_succ] at h
    exact ih (toNat_shiftOut_of_even h)

/-- The high half of a register moves down as a whole. -/
theorem iterate_shiftOut_high (register : UInt16) :
    shiftOut^[8] (register >>> 8 <<< 8) = register >>> 8 := by
  apply UInt16.toNat_inj.1
  apply toNat_iterate_shiftOut
  have hlt := register.toNat_lt
  rw [UInt16.toNat_shiftLeft, UInt16.toNat_shiftRight]
  show (register.toNat >>> 8) <<< 8 % 65536 = (register.toNat >>> 8) <<< 8
  rw [Nat.shiftLeft_eq, Nat.shiftRight_eq_div_pow]
  omega

/-! ## A byte -/

/-- The eight steps for a byte in an empty register leave what the byte adds to a checksum. -/
theorem iterate_shiftOut_byte (x : UInt8) : shiftOut^[8] x.toUInt16 = spread x := by
  obtain ⟨x⟩ := x
  revert x
  decide

theorem eq_high_xor_low (register : UInt16) :
    register = register >>> 8 <<< 8 ^^^ (low register).toUInt16 := by
  apply UInt16.toBitVec_inj.1
  show register.toBitVec =
    register.toBitVec >>> 8 <<< 8 ^^^ (register.toBitVec.setWidth 8).setWidth 16
  ext i hi
  by_cases h : i < 8
  · simp [h, BitVec.getLsbD_eq_getElem hi]
  · have hi' : 8 + (i - 8) = i := by omega
    simp [h, hi', BitVec.getLsbD_eq_getElem hi]

/-- Folding in a byte is what the register does in eight steps. -/
theorem update_eq_serialUpdate (sum : UInt16) (byte : UInt8) :
    update sum byte = serialUpdate sum byte := by
  have hsplit : sum ^^^ byte.toUInt16 = sum >>> 8 <<< 8 ^^^ (byte ^^^ low sum).toUInt16 := by
    rw [UInt8.toUInt16_xor, UInt16.xor_comm byte.toUInt16, ← UInt16.xor_assoc, ← eq_high_xor_low]
  rw [serialUpdate, hsplit, iterate_shiftOut_xor, iterate_shiftOut_high, iterate_shiftOut_byte,
    update_eq]

/-! ## Bytes in any number -/

theorem updateBytes_eq_foldl (sum : UInt16) (bytes : List UInt8) :
    updateBytes sum bytes = bytes.foldl serialUpdate sum := by
  induction bytes generalizing sum with
  | nil => rfl
  | cons b bytes ih => rw [updateBytes_cons, ih, update_eq_serialUpdate, List.foldl_cons]

/-- No two contents of the register become one, so, as there are finitely many, each is reached. -/
theorem updateBytes_bijective (bytes : List UInt8) : Function.Bijective (updateBytes · bytes) := by
  have : Finite UInt16 := Finite.of_injective UInt16.toFin fun _ _ h => UInt16.toFin_inj.1 h
  exact Finite.injective_iff_bijective.1 (updateBytes_injective bytes)

/-- **The checksum is the bit-serial one.** For bytes in any number, the checksum is what the
register holds that starts from all ones, combines each byte with its low half and makes eight steps
for it; nothing is done to it at the end. The same holds from any other content of the register, and
what the bytes do to its content is a bijection. -/
theorem ofBytes_serial (bytes : List UInt8) :
    ofBytes bytes = bytes.foldl serialUpdate 0xFFFF ∧
    (∀ sum, updateBytes sum bytes = bytes.foldl serialUpdate sum) ∧
    Function.Bijective (updateBytes · bytes) :=
  ⟨updateBytes_eq_foldl start bytes, (updateBytes_eq_foldl · bytes), updateBytes_bijective bytes⟩

/-- The checksum of the digits from 1 to 9. -/
example : ofBytes [0x31, 0x32, 0x33, 0x34, 0x35, 0x36, 0x37, 0x38, 0x39] = 0x6F91 := by decide

end Telemetry.Checksum

import Mathlib.Logic.Function.Basic
import Telemetry.Checksum

/-!
# What a checksum tells apart

Folding a byte into a checksum loses nothing: the new checksum and the byte give the old checksum
back, and two bytes folded in one after the other can be told from any other two. So a change of one
byte, or of two adjacent bytes, always changes the checksum, whatever comes before and behind.

* `update_eq_update_iff`: when two steps end alike.
* `updateBytes_injective`: bytes that follow keep a difference alive.
* `eq_of_updateBytes_eq`: bytes that differ in two adjacent places at most have checksums that
  differ.
-/

namespace Telemetry.Checksum

/-! ## One byte -/

/-- What a byte adds to a checksum, once it is combined with the low byte of it. -/
def spread (x : UInt8) : UInt16 :=
  let y := (x ^^^ (x <<< 4)).toUInt16
  (y <<< 8) ^^^ (y <<< 3) ^^^ (y >>> 4)

theorem update_eq (sum : UInt16) (byte : UInt8) :
    update sum byte = (sum >>> 8) ^^^ spread (byte ^^^ low sum) := by
  simp only [update, spread, low, UInt16.xor_assoc]

/-- A word combined with a shift of itself gives the word back when this is done once more, if
shifting twice leaves nothing. -/
theorem xor_involutive {f : UInt8 → UInt8} (hxor : ∀ a b, f (a ^^^ b) = f a ^^^ f b)
    (hnil : ∀ a, f (f a) = 0) : Function.Involutive fun x => x ^^^ f x := by
  intro x
  show x ^^^ f x ^^^ f (x ^^^ f x) = x
  rw [hxor, hnil, UInt8.xor_zero, UInt8.xor_assoc, UInt8.xor_self, UInt8.xor_zero]

theorem shiftLeft_twice (x : UInt8) : x <<< 4 <<< 4 = 0 := by
  obtain ⟨x⟩ := x
  revert x
  decide

theorem shiftRight_twice (x : UInt8) : x >>> 5 >>> 5 = 0 := by
  obtain ⟨x⟩ := x
  revert x
  decide

theorem high_spread (x : UInt8) :
    high (spread x) = (x ^^^ x <<< 4) ^^^ (x ^^^ x <<< 4) >>> 5 := by
  generalize hy : x ^^^ x <<< 4 = y
  simp only [spread, hy, high]
  obtain ⟨y⟩ := y
  clear hy
  revert y
  decide

/-- The high byte of what a byte adds tells the byte. -/
theorem eq_of_high_spread {x y : UInt8} (h : high (spread x) = high (spread y)) : x = y := by
  rw [high_spread, high_spread] at h
  have hright : Function.Involutive fun z : UInt8 => z ^^^ z >>> 5 :=
    xor_involutive (fun _ _ => UInt8.shiftRight_xor) shiftRight_twice
  have hleft : Function.Involutive fun z : UInt8 => z ^^^ z <<< 4 :=
    xor_involutive (fun _ _ => UInt8.shiftLeft_xor) shiftLeft_twice
  exact hleft.injective (hright.injective h)

theorem high_shiftRight (sum : UInt16) : high (sum >>> 8) = 0 := by
  have hlt := sum.toNat_lt
  have hzero : sum >>> 8 >>> 8 = 0 := by
    apply UInt16.toNat_inj.1
    simp only [UInt16.toNat_shiftRight, Nat.shiftRight_eq_div_pow]
    show sum.toNat / 256 / 256 = 0
    omega
  rw [high, hzero]
  rfl

/-- The old checksum reaches the high byte of the new one through its low byte only. -/
theorem high_update (sum : UInt16) (byte : UInt8) :
    high (update sum byte) = high (spread (byte ^^^ low sum)) := by
  have hxor : ∀ a b : UInt16, high (a ^^^ b) = high a ^^^ high b := by
    intro a b
    rw [high, UInt16.shiftRight_xor, UInt16.toUInt8_xor]
    rfl
  rw [update_eq, hxor, high_shiftRight, UInt8.zero_xor]

/-- Two steps end alike exactly if the byte with the low byte before it, and the high byte before
it, are the same. -/
theorem update_eq_update_iff {s t : UInt16} {b c : UInt8} :
    update s b = update t c ↔ b ^^^ low s = c ^^^ low t ∧ s >>> 8 = t >>> 8 := by
  constructor
  · intro h
    have hhigh : high (update s b) = high (update t c) := by rw [h]
    rw [high_update, high_update] at hhigh
    have hbyte := eq_of_high_spread hhigh
    rw [update_eq, update_eq, hbyte] at h
    exact ⟨hbyte, (UInt16.xor_left_inj _).1 h⟩
  · rintro ⟨hbyte, hhigh⟩
    rw [update_eq, update_eq, hbyte, hhigh]

theorem eq_of_low_of_shiftRight {s t : UInt16} (hlow : low s = low t) (hhigh : s >>> 8 = t >>> 8) :
    s = t := by
  have hl := congrArg UInt8.toNat hlow
  have hh := congrArg UInt16.toNat hhigh
  simp only [low, UInt16.toNat_toUInt8, UInt16.toNat_shiftRight, Nat.shiftRight_eq_div_pow] at hl hh
  replace hh : s.toNat / 256 = t.toNat / 256 := hh
  exact UInt16.toNat_inj.1 (by omega)

theorem update_left_injective (byte : UInt8) : Function.Injective (update · byte) := by
  intro s t h
  obtain ⟨hbyte, hhigh⟩ := update_eq_update_iff.1 h
  exact eq_of_low_of_shiftRight ((UInt8.xor_right_inj byte).1 hbyte) hhigh

theorem update_right_injective (sum : UInt16) : Function.Injective (update sum) := by
  intro b c h
  obtain ⟨hbyte, -⟩ := update_eq_update_iff.1 h
  exact (UInt8.xor_left_inj (low sum)).1 hbyte

/-- Two bytes folded in one after the other are told apart from any other two. -/
theorem update_update_injective {sum : UInt16} {a b a' b' : UInt8}
    (h : update (update sum a) b = update (update sum a') b') : a = a' ∧ b = b' := by
  obtain ⟨-, hhigh⟩ := update_eq_update_iff.1 h
  -- The high byte between the two steps already tells the first byte.
  have hspread : high (update sum a) = high (update sum a') := by rw [high, hhigh, ← high]
  rw [high_update, high_update] at hspread
  have ha : a = a' := (UInt8.xor_left_inj (low sum)).1 (eq_of_high_spread hspread)
  subst ha
  exact ⟨rfl, update_right_injective _ h⟩

/-! ## Many bytes -/

@[simp] theorem updateBytes_cons (sum : UInt16) (b : UInt8) (bytes : List UInt8) :
    updateBytes sum (b :: bytes) = updateBytes (update sum b) bytes := rfl

theorem updateBytes_injective (bytes : List UInt8) : Function.Injective (updateBytes · bytes) := by
  induction bytes with
  | nil => exact fun _ _ h => h
  | cons b bytes ih => exact fun _ _ h => update_left_injective b (ih h)

/-- Bytes that differ at most in one place or in two adjacent ones, and have the same checksum, are
the same. -/
theorem eq_of_updateBytes_eq {sum : UInt16} {bytes bytes' : List UInt8} {pos : Nat}
    (hlen : bytes'.length = bytes.length)
    (hagree : ∀ j, j ≠ pos → j ≠ pos + 1 → bytes'[j]? = bytes[j]?)
    (hsum : updateBytes sum bytes' = updateBytes sum bytes) : bytes' = bytes := by
  -- Up to the first place both folds agree; there the two bytes are told apart, and the rest of
  -- the bytes, which is the same, keeps the difference.
  induction pos generalizing sum bytes bytes' with
  | zero =>
    match bytes', bytes, hlen with
    | [], [], _ => rfl
    | [a'], [a], _ =>
      have ha : update sum a' = update sum a := hsum
      rw [update_right_injective sum ha]
    | a' :: b' :: rest', a :: b :: rest, _ =>
      have hrest : rest' = rest := by
        apply List.ext_getElem?
        intro j
        simpa using hagree (j + 2) (by omega) (by omega)
      subst hrest
      simp only [updateBytes_cons] at hsum
      obtain ⟨rfl, rfl⟩ := update_update_injective (updateBytes_injective rest' hsum)
      rfl
  | succ pos ih =>
    match bytes', bytes, hlen with
    | [], [], _ => rfl
    | a' :: rest', a :: rest, hlen =>
      have ha : a' = a := by simpa using hagree 0 (by omega) (by omega)
      subst ha
      simp only [updateBytes_cons] at hsum
      have hrest : rest' = rest := by
        refine ih (by simpa using hlen) ?_ hsum
        intro j h h'
        simpa using hagree (j + 1) (by omega) (by omega)
      rw [hrest]

end Telemetry.Checksum

/-!
# Kinds of integers

The integers that a field can hold: unsigned and signed words of 8 to 64 bits, and the raw byte of
a character.

* `IntKind.Holds`: the range of a kind, `IntKind.fit?` the conversion that checks it.
* `IntKind.wrap`: the integer of a kind with given last bytes.
* `IntKind.unwrap`: those bytes, as a number.
-/

namespace Telemetry

/-- The kinds of integers. -/
inductive IntKind where
  | u8 | u16 | u32 | u64 | i8 | i16 | i32 | i64
  /-- The raw byte of a character. -/
  | char
deriving DecidableEq, Inhabited

namespace IntKind

/-- The name of a kind. -/
def name : IntKind → String
  | u8 => "u8"
  | u16 => "u16"
  | u32 => "u32"
  | u64 => "u64"
  | i8 => "i8"
  | i16 => "i16"
  | i32 => "i32"
  | i64 => "i64"
  | char => "char"

/-- The number of bytes on the wire. -/
def width : IntKind → Nat
  | u8 | i8 | char => 1
  | u16 | i16 => 2
  | u32 | i32 => 4
  | u64 | i64 => 8

/-- Whether the kind has negative integers. -/
def isSigned : IntKind → Bool
  | i8 | i16 | i32 | i64 => true
  | _ => false

/-- The number of integers of a kind. -/
def modulus (k : IntKind) : Nat := Nat.pow 256 k.width

/-- The least integer of a kind. -/
def low (k : IntKind) : Int := if k.isSigned then -(k.modulus / 2 : Nat) else 0

/-- The greatest integer of a kind. -/
def high (k : IntKind) : Int := k.low + k.modulus - 1

/-- The range of a kind. -/
def Holds (k : IntKind) (n : Int) : Prop := k.low ≤ n ∧ n ≤ k.high

instance (k : IntKind) (n : Int) : Decidable (k.Holds n) := inferInstanceAs (Decidable (_ ∧ _))

/-- An integer in a kind, if it is in the range of the kind. -/
def fit? (k : IntKind) (n : Int) : Option Int := if k.Holds n then some n else none

/-- The integer of a kind that differs from `n` by a multiple of the modulus. -/
def wrap (k : IntKind) (n : Nat) : Int := (n - k.low) % k.modulus + k.low

theorem modulus_pos (k : IntKind) : 0 < k.modulus := Nat.pow_pos (by decide)

theorem holds_wrap (k : IntKind) (n : Nat) : k.Holds (k.wrap n) := by
  have hpos : (0 : Int) < k.modulus := Int.ofNat_lt.2 k.modulus_pos
  have h0 := Int.emod_nonneg (n - k.low) (Int.ne_of_gt hpos)
  have h1 := Int.emod_lt_of_pos (n - k.low) hpos
  unfold Holds high wrap
  omega

/-- The number whose last bytes stand for `n` on the wire. -/
def unwrap (k : IntKind) (n : Int) : Nat := (n % k.modulus).toNat

theorem wrap_unwrap (k : IntKind) {n : Int} (h : k.Holds n) : k.wrap (k.unwrap n) = n := by
  have hpos : (0 : Int) < k.modulus := Int.ofNat_lt.2 k.modulus_pos
  have h0 := Int.emod_nonneg n (Int.ne_of_gt hpos)
  obtain ⟨hl, hh⟩ := h
  unfold high at hh
  rw [wrap, unwrap, Int.toNat_of_nonneg h0, Int.sub_emod, Int.emod_emod, ← Int.sub_emod,
    Int.emod_eq_of_lt (by omega) (by omega)]
  omega

end IntKind

end Telemetry

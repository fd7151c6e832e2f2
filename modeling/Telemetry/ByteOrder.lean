/-!
# Byte order

Words as bytes, least or most significant byte first.

* `ByteOrder.bytes`: the bytes of a word of a given width.
* `ByteOrder.word`: the word that bytes stand for.
-/

namespace Telemetry

/-- Which byte of a word comes first. -/
inductive ByteOrder where
  /-- The least significant byte first. -/
  | little
  /-- The most significant byte first. -/
  | big
deriving DecidableEq, Inhabited

/-- The last `width` bytes of `n`, least significant first. -/
def bytesUp : (width : Nat) → (n : Nat) → List UInt8
  | 0, _ => []
  | width + 1, n => UInt8.ofNat n :: bytesUp width (n / 256)

/-- The number whose bytes are given, least significant first. -/
def wordUp : List UInt8 → Nat
  | [] => 0
  | b :: rest => b.toNat + 256 * wordUp rest

namespace ByteOrder

/-- The name of the order in dialect files and tables. -/
def name : ByteOrder → String
  | little => "little_endian"
  | big => "big_endian"

/-- The last `width` bytes of `n`. -/
def bytes (order : ByteOrder) (width n : Nat) : List UInt8 :=
  match order with
  | little => bytesUp width n
  | big => (bytesUp width n).reverse

/-- The number whose bytes are given. -/
def word (order : ByteOrder) (bytes : List UInt8) : Nat :=
  match order with
  | little => wordUp bytes
  | big => wordUp bytes.reverse

end ByteOrder

@[simp] theorem length_bytesUp (width n : Nat) : (bytesUp width n).length = width := by
  induction width generalizing n with
  | zero => rfl
  | succ width ih => simp [bytesUp, ih]

@[simp] theorem ByteOrder.length_bytes (order : ByteOrder) (width n : Nat) :
    (order.bytes width n).length = width := by
  cases order <;> simp [ByteOrder.bytes]

theorem wordUp_bytesUp (width n : Nat) : wordUp (bytesUp width n) = n % Nat.pow 256 width := by
  induction width generalizing n with
  | zero => exact (Nat.mod_one n).symm
  | succ width ih =>
    show (UInt8.ofNat n).toNat + 256 * wordUp (bytesUp width (n / 256)) =
      n % (Nat.pow 256 width * 256)
    rw [ih, Nat.mul_comm (Nat.pow 256 width), Nat.mod_mul, UInt8.toNat_ofNat']

theorem ByteOrder.word_bytes (order : ByteOrder) (width n : Nat) :
    order.word (order.bytes width n) = n % Nat.pow 256 width := by
  cases order <;> simp [ByteOrder.bytes, ByteOrder.word, wordUp_bytesUp]

theorem wordUp_lt (bytes : List UInt8) : wordUp bytes < Nat.pow 256 bytes.length := by
  induction bytes with
  | nil => exact Nat.one_pos
  | cons b rest ih =>
    have hb := b.toNat_lt
    show b.toNat + 256 * wordUp rest < Nat.pow 256 rest.length * 256
    omega

theorem bytesUp_wordUp (bytes : List UInt8) : bytesUp bytes.length (wordUp bytes) = bytes := by
  induction bytes with
  | nil => rfl
  | cons b rest ih =>
    have hb := b.toNat_lt
    have hlow : UInt8.ofNat (b.toNat + 256 * wordUp rest) = b :=
      UInt8.toNat_inj.1 (by rw [UInt8.toNat_ofNat']; omega)
    have hrest : (b.toNat + 256 * wordUp rest) / 256 = wordUp rest := by omega
    simp only [List.length_cons, wordUp, bytesUp, hlow, hrest, ih]

theorem ByteOrder.bytes_word (order : ByteOrder) (bytes : List UInt8) :
    order.bytes bytes.length (order.word bytes) = bytes := by
  cases order with
  | little => exact bytesUp_wordUp bytes
  | big =>
    have h := bytesUp_wordUp bytes.reverse
    rw [List.length_reverse] at h
    simp only [ByteOrder.bytes, ByteOrder.word, h, List.reverse_reverse]

end Telemetry

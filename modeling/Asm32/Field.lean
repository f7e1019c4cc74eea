import Asm32.Register

/-!
# Fields of a word

A word of thirty-two bits is written field by field, most significant bits first.  `Bits` is what
has been written so far; `Bits.write` adds a field and refuses a number that does not fit its
width, and `Bits.finish` gives the word when exactly thirty-two bits are there.

Reading is `bitsAt`: the bits of a word from a position on, as a number.  Positions count from the
most significant bit.
-/

namespace Asm32

/-- The width of a word. -/
def wordBits : Nat := 32

/-- A run of bits, most significant first, as their number and the number they spell. -/
structure Bits where
  width : Nat
  value : Nat
  value_lt : value < 1 <<< width

/-- A field of a word. -/
inductive Field
  | number (value width : Nat)
  | register (r : Reg)
  | zeros (width : Nat)
  | ones (width : Nat)
deriving DecidableEq, Repr

/-- Why fields make no word. -/
inductive FieldError
  | doesNotFit (value width : Nat)
  | notOneWord (width : Nat)
deriving DecidableEq, Repr

def FieldError.message : FieldError → String
  | .doesNotFit v w =>
    "field value 0x" ++ Numeral.hex v ++ " does not fit in " ++ Numeral.decimal w ++ " bits"
  | .notOneWord w =>
    "assertion `left == right` failed: opcode must be exactly 32 bits\n  left: "
      ++ Numeral.decimal w ++ "\n right: 32"

namespace Bits

def empty : Bits := ⟨0, 0, by decide⟩

/-- The bits `b`, followed by a number of the given width. -/
def append (b : Bits) (v w : Nat) (h : v < 1 <<< w) : Bits where
  width := b.width + w
  value := b.value <<< w + v
  value_lt := by
    have hb := b.value_lt
    rw [Nat.one_shiftLeft] at h hb ⊢
    have hm : (b.value + 1) * 2 ^ w ≤ 2 ^ b.width * 2 ^ w := Nat.mul_le_mul_right _ hb
    rw [Nat.add_mul, Nat.one_mul] at hm
    rw [Nat.shiftLeft_eq, Nat.pow_add]
    omega

@[simp] theorem width_append (b : Bits) (v w : Nat) (h : v < 1 <<< w) :
    (b.append v w h).width = b.width + w := rfl

@[simp] theorem value_append (b : Bits) (v w : Nat) (h : v < 1 <<< w) :
    (b.append v w h).value = b.value <<< w + v := rfl

theorem zero_lt_shift (w : Nat) : 0 < 1 <<< w := by
  rw [Nat.one_shiftLeft]
  exact Nat.two_pow_pos w

/-- Writes one field.  A number must be narrower than a word and fit its width. -/
def write (b : Bits) : Field → Except FieldError Bits
  | .number v w =>
    if h : w < wordBits ∧ v < 1 <<< w then .ok (b.append v w h.2) else .error (.doesNotFit v w)
  | .register r => .ok (b.append r.code registerBits r.code_lt)
  | .zeros w    => .ok (b.append 0 w (zero_lt_shift w))
  | .ones w     => .ok (b.append (1 <<< w - 1) w (Nat.sub_lt (zero_lt_shift w) Nat.one_pos))

/-- Writes fields in order, up to the first that is refused. -/
def writeAll (b : Bits) : List Field → Except FieldError Bits
  | []      => .ok b
  | f :: fs => (b.write f).bind fun b' => b'.writeAll fs

/-- The word, once all its bits are written. -/
def finish (b : Bits) : Except FieldError UInt32 :=
  if b.width = wordBits then .ok (UInt32.ofNat b.value) else .error (.notOneWord b.width)

end Bits

/-- The `width` bits of a word from position `start` on. -/
def bitsAt (raw : UInt32) (start width : Nat) : Nat :=
  (raw.toNat >>> (wordBits - (start + width))) % (1 <<< width)

/-- The `width` bits of a word from position `start` on, when there are any and the word has
them. -/
def bitsAt? (raw : UInt32) (start width : Nat) : Option Nat :=
  if 0 < width ∧ start + width ≤ wordBits then some (bitsAt raw start width) else none

end Asm32

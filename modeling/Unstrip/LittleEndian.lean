/-!
# Little-endian numbers

Every number of a function table is stored with its lowest byte first. `toNat` reads such a
number and `ofNat` writes one of a given width. Main statements: a number of `w` bytes is below
`limit w` (`toNat_lt`), and what is written reads back when it fits (`toNat_ofNat`).
-/

namespace Unstrip.LittleEndian

/-- The number whose base-256 digits, lowest first, are the given bytes. -/
def toNat : List UInt8 → Nat
  | [] => 0
  | b :: bs => b.toNat + 256 * toNat bs

/-- The lowest `width` base-256 digits of `n`, lowest first. -/
def ofNat : (width n : Nat) → List UInt8
  | 0, _ => []
  | width + 1, n => UInt8.ofNat n :: ofNat width (n / 256)

/-- One more than the greatest number of the given width: a power of 256. -/
def limit : (width : Nat) → Nat
  | 0 => 1
  | width + 1 => 256 * limit width

@[simp] theorem toNat_nil : toNat [] = 0 := rfl

@[simp] theorem toNat_cons (b : UInt8) (bs : List UInt8) :
    toNat (b :: bs) = b.toNat + 256 * toNat bs := rfl

@[simp] theorem length_ofNat (width n : Nat) : (ofNat width n).length = width := by
  induction width generalizing n with
  | zero => rfl
  | succ width ih => simp [ofNat, ih]

theorem limit_le_limit {width width' : Nat} (h : width ≤ width') : limit width ≤ limit width' := by
  induction h with
  | refl => exact Nat.le_refl _
  | step _ ih => rw [limit]; omega

theorem toNat_lt (bs : List UInt8) : toNat bs < limit bs.length := by
  induction bs with
  | nil => exact Nat.zero_lt_one
  | cons b bs ih =>
    have hb := b.toNat_lt
    rw [toNat_cons, List.length_cons, limit]
    omega

/-- Writing keeps the number modulo `limit width`. -/
theorem toNat_ofNat_mod (width n : Nat) : toNat (ofNat width n) = n % limit width := by
  induction width generalizing n with
  | zero => simp [ofNat, limit, Nat.mod_one]
  | succ width ih =>
    rw [ofNat, toNat_cons, ih, limit, Nat.mod_mul]
    simp [UInt8.toNat_ofNat']

theorem toNat_ofNat {width n : Nat} (h : n < limit width) : toNat (ofNat width n) = n := by
  rw [toNat_ofNat_mod, Nat.mod_eq_of_lt h]

end Unstrip.LittleEndian

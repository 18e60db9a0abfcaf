import Unstrip.Fault

/-!
# Images

An `Image` is the bytes that are scanned: a section of an executable, or all of a file. Positions
are natural numbers; one that does not fit in 64 bits counts as overflow. All checked reading goes
through `span`, which says exactly when a stretch of bytes lies inside the image
(`span_eq_ok_iff`); `number` is the little-endian number at a position, to be used where the
stretch is known to lie inside.
-/

namespace Unstrip

/-- The bytes that are scanned. -/
abbrev Image := Array UInt8

/-- One more than the greatest position and the greatest address: both have 64 bits. -/
def wordLimit : Nat := 1 <<< 64

namespace Image

variable (image : Image)

/-- The bytes from `offset` on, at most `length` of them. -/
def slice (offset length : Nat) : List UInt8 := (image.extract offset (offset + length)).toList

/-- The little-endian number in the `width` bytes at `offset`; bytes outside the image are
missing from it. -/
def number (offset width : Nat) : Nat := LittleEndian.toNat (image.slice offset width)

/-- Checks that the `length` bytes at `offset` lie inside the image. -/
def span (offset length : Nat) : Except Fault Unit :=
  if wordLimit ≤ offset + length then .error (.corrupt (.readOverflow offset length))
  else if image.size < offset + length then .error (.truncated offset length image.size)
  else .ok ()

def read (offset length : Nat) : Except Fault (List UInt8) := do
  image.span offset length
  return image.slice offset length

def readNumber (offset width : Nat) : Except Fault Nat := do
  image.span offset width
  return image.number offset width

/-- The number in the word at `offset`, whose width has to be four or eight bytes. -/
def readWord (offset width : Nat) : Except Fault Nat :=
  if width = 4 ∨ width = 8 then image.readNumber offset width
  else .error (.corrupt (.wordWidth width))

/-- Whether the image continues with `pattern` at `position`. -/
def hasAt : (pattern : List UInt8) → (position : Nat) → Bool
  | [], _ => true
  | b :: bs, position => image[position]? == some b && hasAt bs (position + 1)

/-- The first position that passes the test among the `count` positions from `start` on. -/
def firstFrom (test : Nat → Bool) : (count start : Nat) → Option Nat
  | 0, _ => none
  | count + 1, start => if test start then some start else firstFrom test count (start + 1)

/-- The first position at or after `start` where `pattern` stands. Nothing is found at the end of
the image, and an empty pattern is found nowhere. -/
def find? (pattern : List UInt8) (start : Nat) : Option Nat :=
  if pattern.isEmpty then none
  else firstFrom (image.hasAt pattern) (image.size - start) start

/-- The position of the first zero byte among the `count` bytes at `start`. -/
def zeroFrom? (count start : Nat) : Option Nat := firstFrom (fun i => image[i]? == some 0) count start

/-- The string at `offset` without the zero byte that ends it. At most `cap` bytes may stand
before the zero byte, so up to `cap + 1` bytes are looked at. -/
def cString (offset cap : Nat) : Except Fault (List UInt8) :=
  if image.size ≤ offset then .error (.truncated offset 1 image.size)
  else
    let available := image.size - offset
    let window := min (cap + 1) (wordLimit - 1)
    match image.zeroFrom? (min window available) offset with
    | some stop => .ok (image.slice offset (stop - offset))
    | none =>
      if available < window then .error (.truncated offset (available + 1) image.size)
      else .error (.corrupt (.unterminated offset cap))

end Image

def positionAfter (base relative : Nat) : Except Fault Nat :=
  if base + relative < wordLimit then .ok (base + relative)
  else .error (.corrupt (.offsetOverflow base relative))

namespace Image

variable {image : Image}

theorem slice_eq (image : Image) (offset length : Nat) :
    image.slice offset length = (image.toList.drop offset).take length := by
  simp [slice, List.take_drop]

@[simp] theorem length_slice (image : Image) (offset length : Nat) :
    (image.slice offset length).length = min length (image.size - offset) := by
  simp [slice_eq]

/-- A stretch that lies inside the image has all its bytes. -/
theorem length_slice_of_le {offset length : Nat} (h : offset + length ≤ image.size) :
    (image.slice offset length).length = length := by
  rw [length_slice]; omega

theorem span_eq_ok_iff {offset length : Nat} :
    image.span offset length = .ok () ↔
      offset + length < wordLimit ∧ offset + length ≤ image.size := by
  unfold span
  split
  · simp; omega
  · split <;> simp <;> omega

/-- A pattern stands at a position if the bytes there are the pattern. -/
theorem hasAt_iff {pattern : List UInt8} {position : Nat} :
    image.hasAt pattern position = true ↔ image.slice position pattern.length = pattern := by
  induction pattern generalizing position with
  | nil => simp [hasAt, slice]
  | cons b bs ih =>
    rw [hasAt, Bool.and_eq_true, ih, slice_eq, slice_eq, List.length_cons]
    by_cases h : position < image.size
    · have hd : image.toList.drop position = image[position] :: image.toList.drop (position + 1) := by
        rw [← Array.getElem_toList]
        exact List.drop_eq_getElem_cons (by simpa using h)
      simp [hd, h]
    · have hd : image.toList.drop position = [] := List.drop_eq_nil_of_le (by simpa using h)
      simp [hd, h]

theorem firstFrom_eq_none_iff {test : Nat → Bool} {count start : Nat} :
    firstFrom test count start = none ↔ ∀ i, start ≤ i → i < start + count → test i = false := by
  induction count generalizing start with
  | zero => simp only [firstFrom, true_iff]; omega
  | succ count ih =>
    rw [firstFrom]
    split
    · rename_i h
      simp only [reduceCtorEq, false_iff]
      intro hall
      simp [hall start (Nat.le_refl _) (by omega)] at h
    · rename_i h
      rw [ih]
      constructor
      · intro hall i hi hlt
        by_cases he : i = start
        · simpa [he] using h
        · exact hall i (by omega) (by omega)
      · exact fun hall i hi hlt => hall i (by omega) (by omega)

/-- The search finds the lowest position that passes the test. -/
theorem firstFrom_eq_some_iff {test : Nat → Bool} {count start i : Nat} :
    firstFrom test count start = some i ↔
      start ≤ i ∧ i < start + count ∧ test i = true ∧
        ∀ j, start ≤ j → j < i → test j = false := by
  induction count generalizing start with
  | zero => simp only [firstFrom, reduceCtorEq, false_iff]; omega
  | succ count ih =>
    rw [firstFrom]
    split
    · rename_i h
      simp only [Option.some.injEq]
      constructor
      · rintro rfl
        exact ⟨Nat.le_refl _, by omega, h, fun j hj hlt => by omega⟩
      · rintro ⟨hle, -, -, hlow⟩
        by_cases he : start = i
        · exact he
        · have := hlow start (Nat.le_refl _) (by omega)
          simp [h] at this
    · rename_i h
      rw [ih]
      constructor
      · rintro ⟨hle, hlt, ht, hlow⟩
        refine ⟨by omega, by omega, ht, fun j hj hji => ?_⟩
        by_cases he : j = start
        · simpa [he] using h
        · exact hlow j (by omega) hji
      · rintro ⟨hle, hlt, ht, hlow⟩
        have hne : start ≠ i := by rintro rfl; exact h ht
        exact ⟨by omega, by omega, ht, fun j hj hji => hlow j (by omega) hji⟩

end Image

end Unstrip

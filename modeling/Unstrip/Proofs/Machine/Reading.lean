import Unstrip.Proofs.Machine.Word

/-!
# Reading with words

Each function here is one of the reading functions with the operations of the machine, and is followed
by the lemma that it comes to the same. What keeps the unchecked operations in bounds is in every case a
check that has been passed before: after `bytes`, all positions of the stretch are words.
-/

namespace Unstrip.Machine

variable {image : Image}

def position (base relative : Nat) : Except Stop Nat :=
  match checkedAdd? base relative with
  | some position => .ok position
  | none => raise (.corrupt (.offsetOverflow base relative))

theorem position_comesTo (base relative : Nat) :
    ComesTo (position base relative) (positionAfter base relative) := by
  unfold position positionAfter checkedAdd?
  by_cases h : base + relative < wordLimit
  · rw [if_pos h, if_pos h]
    rfl
  · rw [if_neg h, if_neg h]
    rfl

def bytes (image : Image) (offset length : Nat) : Except Stop (List UInt8) :=
  match checkedAdd? offset length with
  | some stop =>
    if offset ≤ stop ∧ stop ≤ image.size then .ok (image.extract offset stop).toList
    else raise (.truncated offset length image.size)
  | none => raise (.corrupt (.readOverflow offset length))

/-- Behind a check for a stretch, its bytes are there. -/
theorem bytes_comesTo {β : Type} {offset length : Nat} {f : List UInt8 → Except Stop β}
    {g : Unit → Except Fault β}
    (h : offset + length < wordLimit → offset + length ≤ image.size →
      ComesTo (f (image.slice offset length)) (g ())) :
    ComesTo (bytes image offset length >>= f) (image.span offset length >>= g) := by
  unfold bytes checkedAdd? Image.span
  by_cases hlimit : offset + length < wordLimit
  · rw [if_pos hlimit, if_neg (by omega)]
    by_cases hin : offset + length ≤ image.size
    · simp only [Nat.le_add_right, hin, and_self, if_true, if_neg (Nat.not_lt.2 hin)]
      exact h hlimit hin
    · simp only [hin, and_false, if_false, if_pos (Nat.not_le.1 hin)]
      rfl
  · rw [if_neg hlimit, if_pos (by omega)]
    rfl

theorem bytes_eq_ok {offset length : Nat} (hsize : image.size < wordLimit)
    (h : offset + length ≤ image.size) : bytes image offset length = .ok (image.slice offset length) := by
  unfold bytes checkedAdd?
  rw [if_pos (by omega)]
  exact if_pos ⟨Nat.le_add_right _ _, h⟩

theorem bytes_eq_fault {offset length : Nat} (h : ¬ offset + length ≤ image.size) :
    ∃ fault, bytes image offset length = raise fault := by
  unfold bytes checkedAdd?
  by_cases hlimit : offset + length < wordLimit
  · rw [if_pos hlimit]
    exact ⟨_, if_neg fun hin => h hin.2⟩
  · rw [if_neg hlimit]
    exact ⟨_, rfl⟩

/-! ## Numbers -/

/-- Picks `count` bytes one by one, from the one with index `start` on. -/
def pick (raw : List UInt8) : (count start : Nat) → Except Stop (List UInt8)
  | 0, _ => return []
  | count + 1, start => do
    let first ← item raw start
    let rest ← pick raw count (start + 1)
    return first :: rest

theorem pick_eq_ok {raw : List UInt8} {count start : Nat} (h : start + count ≤ raw.length) :
    pick raw count start = .ok ((raw.drop start).take count) := by
  induction count generalizing start with
  | zero => rfl
  | succ count ih =>
    have hlt : start < raw.length := by omega
    rw [pick, item_eq_ok hlt, ih (by omega), List.drop_eq_getElem_cons hlt, List.take_succ_cons]
    rfl

def shortAt (image : Image) (offset width : Nat) : Except Stop Nat := do
  let raw ← bytes image offset width
  let digits ← pick raw width 0
  return LittleEndian.toNat digits

def longAt (image : Image) (offset : Nat) : Except Stop Nat := do
  let raw ← bytes image offset 8
  let digits ← copy raw 8
  return LittleEndian.toNat digits

def wordAt (image : Image) (offset width : Nat) : Except Stop Nat :=
  if width = 4 then shortAt image offset 4
  else if width = 8 then longAt image offset
  else raise (.corrupt (.wordWidth width))

theorem shortAt_comesTo (image : Image) (offset width : Nat) :
    ComesTo (shortAt image offset width) (image.readNumber offset width) := by
  unfold shortAt Image.readNumber
  refine bytes_comesTo fun _ hin => ?_
  have hlen := Image.length_slice_of_le hin
  refine .bind_ok (pick_eq_ok (by omega)) ?_
  rw [List.drop_zero, List.take_of_length_le (Nat.le_of_eq hlen)]
  exact .pure _

theorem longAt_comesTo (image : Image) (offset : Nat) :
    ComesTo (longAt image offset) (image.readNumber offset 8) := by
  unfold longAt Image.readNumber
  refine bytes_comesTo fun _ hin => ?_
  exact .bind_ok (if_pos (Image.length_slice_of_le hin)) (.pure _)

theorem wordAt_comesTo (image : Image) (offset width : Nat) :
    ComesTo (wordAt image offset width) (image.readWord offset width) := by
  unfold wordAt Image.readWord
  by_cases hfour : width = 4
  · subst hfour
    exact shortAt_comesTo image offset 4
  · by_cases height : width = 8
    · subst height
      exact longAt_comesTo image offset
    · rw [if_neg hfour, if_neg height, if_neg (by omega)]
      rfl

/-- A number whose stretch is known to lie inside. -/
theorem shortAt_eq_ok {offset width : Nat} (hsize : image.size < wordLimit)
    (h : offset + width ≤ image.size) :
    shortAt image offset width = .ok (image.number offset width) := by
  have hread : image.readNumber offset width = .ok (image.number offset width) :=
    Image.readNumber_eq_ok_iff.2 ⟨by omega, h, rfl⟩
  exact (hread ▸ shortAt_comesTo image offset width).eq_ok

theorem wordAt_eq_ok {offset width : Nat} (hsize : image.size < wordLimit) (hw : width = 4 ∨ width = 8)
    (h : offset + width ≤ image.size) : wordAt image offset width = .ok (image.number offset width) := by
  have hread : image.readWord offset width = .ok (image.number offset width) :=
    (Image.readWord_eq_ok_iff hw).2 ⟨by omega, h, rfl⟩
  exact (hread ▸ wordAt_comesTo image offset width).eq_ok

/-! ## Strings -/

def cString (image : Image) (offset cap : Nat) : Except Stop (List UInt8) := do
  if image.size ≤ offset then raise (.truncated offset 1 image.size)
  let window := saturatingAdd cap 1
  let available ← sub image.size offset
  let stop ← add offset (min window available)
  let scanned ← slice image.toList offset stop
  match scanned.findIdx? (· == 0) with
  | some length => slice scanned 0 length
  | none =>
    if available < window then
      let length ← add available 1
      raise (.truncated offset length image.size)
    else raise (.corrupt (.unterminated offset cap))

/-- The zero byte is looked for in the stretch itself, or at the positions of the image. -/
theorem zeroFrom?_eq_findIdx? {offset count : Nat} (h : offset + count ≤ image.size) :
    image.zeroFrom? count offset = ((image.slice offset count).findIdx? (· == 0)).map (offset + ·) := by
  have hlen := Image.length_slice_of_le h
  have hat : ∀ i (hi : i < (image.slice offset count).length),
      image[offset + i]? = some (image.slice offset count)[i] := by
    intro i hi
    rw [← List.getElem?_eq_getElem hi, Image.slice_eq, List.getElem?_take_of_lt (by omega),
      List.getElem?_drop, Array.getElem?_toList]
  cases hfind : (image.slice offset count).findIdx? (· == 0) with
  | none =>
    rw [List.findIdx?_eq_none_iff] at hfind
    rw [Option.map_none, Image.zeroFrom?, Image.firstFrom_eq_none_iff]
    intro i hle hlt
    have hi : i - offset < (image.slice offset count).length := by omega
    have := hat _ hi
    rw [Nat.add_sub_cancel' hle] at this
    rw [this]
    simpa using hfind _ (List.getElem_mem hi)
  | some length =>
    obtain ⟨hi, hzero, hlow⟩ := List.findIdx?_eq_some_iff_getElem.1 hfind
    rw [Option.map_some, Image.zeroFrom?_eq_some_iff]
    refine ⟨length, by omega, rfl, ?_, fun j hj => ?_⟩
    · rw [hat length hi]
      simpa using hzero
    · rw [hat j (by omega)]
      simpa using hlow j hj

theorem cString_comesTo (hsize : image.size + 1 < wordLimit) (offset cap : Nat) :
    ComesTo (cString image offset cap) (image.cString offset cap) := by
  unfold cString Image.cString saturatingAdd
  obtain ⟨window, hwindow⟩ : ∃ window, window = min (cap + 1) (wordLimit - 1) := ⟨_, rfl⟩
  obtain ⟨count, hcount⟩ : ∃ count, count = min window (image.size - offset) := ⟨_, rfl⟩
  simp only [← hwindow]
  by_cases hout : image.size ≤ offset
  · rw [if_pos hout, if_pos hout]
    rfl
  · rw [if_neg hout, if_neg hout]
    refine .bind_ok (sub_eq_ok (by omega)) ?_
    simp only [← hcount]
    have hin : offset + count ≤ image.size := by omega
    refine .bind_ok (add_eq_ok (by omega)) ?_
    refine .bind_ok (slice_eq_ok (by omega) (by simpa using hin)) ?_
    have hscanned : (image.toList.take (offset + count)).drop offset = image.slice offset count := by
      rw [Image.slice_eq, List.drop_take, Nat.add_sub_cancel_left]
    rw [hscanned]
    simp only [zeroFrom?_eq_findIdx? hin]
    cases hzero : (image.slice offset count).findIdx? (· == 0) with
    | some length =>
      obtain ⟨hlt, -⟩ := List.findIdx?_eq_some_iff_getElem.1 hzero
      have hlen := Image.length_slice_of_le hin
      have hstring : slice (image.slice offset count) 0 length = .ok (image.slice offset length) := by
        rw [slice_eq_ok (Nat.zero_le _) (Nat.le_of_lt hlt), List.drop_zero, Image.slice_eq, Image.slice_eq,
          List.take_take, Nat.min_eq_left (by omega)]
      simp only [Option.map_some, Nat.add_sub_cancel_left, hstring]
      rfl
    | none =>
      by_cases hcut : image.size - offset < window
      · simp only [Option.map_none, hcut, if_true]
        exact .bind_ok (add_eq_ok (by omega)) (.raise _)
      · simp only [Option.map_none, hcut, if_false]
        exact .raise _

/-! ## Searches -/

section
variable {test : Nat → Bool}

/-- Positions that fail the test make no difference at the end of a search. -/
theorem firstFrom_eq_of_le {count count' start : Nat} (hle : count ≤ count')
    (h : ∀ i, start + count ≤ i → i < start + count' → test i = false) :
    Image.firstFrom test count start = Image.firstFrom test count' start := by
  cases hfirst : Image.firstFrom test count' start with
  | none =>
    rw [Image.firstFrom_eq_none_iff] at hfirst ⊢
    exact fun i hi hlt => hfirst i hi (by omega)
  | some i =>
    rw [Image.firstFrom_eq_some_iff] at hfirst ⊢
    obtain ⟨hle', hlt, hi, hlow⟩ := hfirst
    refine ⟨hle', ?_, hi, hlow⟩
    rcases Nat.lt_or_ge i (start + count) with h' | h'
    · exact h'
    · rw [h i h' hlt] at hi
      cases hi

/-- Nor do they at its beginning. -/
theorem firstFrom_skip {skipped count start : Nat}
    (h : ∀ i, start ≤ i → i < start + skipped → test i = false) :
    Image.firstFrom test (skipped + count) start = Image.firstFrom test count (start + skipped) := by
  induction skipped generalizing start with
  | zero => rw [Nat.zero_add, Nat.add_zero]
  | succ skipped ih =>
    rw [Nat.succ_add, Image.firstFrom, h start (Nat.le_refl _) (by omega)]
    rw [if_neg (by simp), ih fun i hi hlt => h i (by omega) (by omega), Nat.succ_add_eq_add_succ]

theorem firstFrom_shift {count start distance : Nat} :
    Image.firstFrom test count (start + distance) =
      (Image.firstFrom (fun i => test (start + i)) count distance).map (start + ·) := by
  induction count generalizing distance with
  | zero => rfl
  | succ count ih =>
    rw [Image.firstFrom, Image.firstFrom]
    by_cases h : test (start + distance) = true
    · rw [if_pos h, if_pos h]
      rfl
    · rw [if_neg h, if_neg h]
      exact @ih (distance + 1)

end

/-! ## Patterns -/

/-- The first distance at which `needle` stands in `rest`. -/
def windowIn? (rest needle : List UInt8) : Option Nat :=
  Image.firstFrom (fun distance => (rest.drop distance).take needle.length == needle)
    (rest.length + 1 - needle.length) 0

def find (image : Image) (needle : List UInt8) (start : Nat) : Except Stop (Option Nat) := do
  if needle.isEmpty ∨ image.size ≤ start then return none
  let rest ← slice image.toList start image.size
  match windowIn? rest needle with
  | some distance => return some (← add distance start)
  | none => return none

/-- A pattern stands nowhere behind the last window. -/
theorem windowIn?_drop {needle : List UInt8} (hempty : ¬ needle.isEmpty = true) (start : Nat) :
    Image.firstFrom (image.hasAt needle) (image.size - start) start =
      (windowIn? (image.toList.drop start) needle).map (start + ·) := by
  have hpos : 0 < needle.length := by
    rw [List.isEmpty_iff] at hempty
    exact List.length_pos_iff.2 hempty
  have htest : (fun distance => ((image.toList.drop start).drop distance).take needle.length == needle) =
      fun distance => image.hasAt needle (start + distance) := by
    funext distance
    rw [Bool.eq_iff_iff, Image.hasAt_iff, Image.slice_eq, beq_iff_eq, List.drop_drop]
  have hlen : (image.toList.drop start).length = image.size - start := by simp
  rw [windowIn?, htest, hlen,
    firstFrom_eq_of_le (show image.size - start + 1 - needle.length ≤ image.size - start by omega)]
  · exact @firstFrom_shift _ _ start 0
  · intro i hi hlt
    rw [Bool.eq_false_iff, ne_eq, Image.hasAt_iff]
    intro h
    have := congrArg List.length h
    rw [Image.length_slice] at this
    omega

theorem find_eq_ok (hsize : image.size < wordLimit) (needle : List UInt8) (start : Nat) :
    find image needle start = .ok (image.find? needle start) := by
  unfold find Image.find?
  by_cases hempty : needle.isEmpty = true
  · simp only [hempty, true_or, if_true]
    rfl
  · by_cases hout : image.size ≤ start
    · have hcount : image.size - start = 0 := by omega
      simp only [hempty, hout, or_true, if_true, hcount, Image.firstFrom]
      rfl
    · have hrest : slice image.toList start image.size = .ok (image.toList.drop start) := by
        rw [slice_eq_ok (by omega) (by simp), List.take_of_length_le (by simp)]
      rw [if_neg (by simp only [hempty, hout]; decide), if_neg hempty, hrest, windowIn?_drop hempty]
      show (match windowIn? (image.toList.drop start) needle with
        | some distance => _
        | none => _) = _
      cases hwindow : windowIn? (image.toList.drop start) needle with
      | none => rfl
      | some distance =>
        have hlt := (Image.firstFrom_eq_some_iff.1 hwindow).2.1
        have hend : distance + start < wordLimit := by
          simp only [List.length_drop, Array.length_toList] at hlt
          omega
        simp only [add_eq_ok hend, Option.map_some, Nat.add_comm distance]
        rfl

end Unstrip.Machine

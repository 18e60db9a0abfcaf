import Unstrip.Records

/-!
# What checked reading accepts, and how it fails

One lemma for each reading function says exactly when it succeeds and with which value
(`…_eq_ok_iff`); later modules use these and do not unfold the functions. `Fault.OfRecord` collects
the faults that the reading of a record can have, and `symbolAt_failsOnlyWith` shows that there is no other.
-/

namespace Unstrip

/-! ## Checks in sequence -/

section
variable {ε α β : Type}

theorem bind_eq_ok_iff {x : Except ε α} {f : α → Except ε β} {b : β} :
    (x >>= f) = .ok b ↔ ∃ a, x = .ok a ∧ f a = .ok b := by
  cases x with
  | error e => simp [bind, Except.bind]
  | ok a => simp [bind, Except.bind]

theorem bind_eq_error_iff {x : Except ε α} {f : α → Except ε β} {e : ε} :
    (x >>= f) = .error e ↔ x = .error e ∨ ∃ a, x = .ok a ∧ f a = .error e := by
  cases x with
  | error e' => simp [bind, Except.bind]
  | ok a => simp [bind, Except.bind]

theorem pure_eq_ok_iff {a b : α} : (pure a : Except ε α) = .ok b ↔ b = a := by
  simp [pure, Except.pure, eq_comm]

theorem pure_ne_error {a : α} {e : ε} : (pure a : Except ε α) ≠ .error e := by
  simp [pure, Except.pure]

/-- A check that throws lets the rest run if its condition does not hold. -/
theorem guard_eq_ok_iff {c : Prop} [Decidable c] {e : ε} {f : α → Except ε β} {x : Except ε β} {b : β} :
    (if c then throw e >>= f else x) = .ok b ↔ ¬ c ∧ x = .ok b := by
  by_cases h : c <;> simp [h, throw, throwThe, MonadExceptOf.throw, bind, Except.bind]

theorem guard_eq_error_iff {c : Prop} [Decidable c] {e e' : ε} {f : α → Except ε β}
    {x : Except ε β} :
    (if c then throw e >>= f else x) = .error e' ↔ c ∧ e = e' ∨ ¬ c ∧ x = .error e' := by
  by_cases h : c <;> simp [h, throw, throwThe, MonadExceptOf.throw, bind, Except.bind]

/-- Every failure of a computation is of the given kind. -/
def FailsOnlyWith (kind : ε → Prop) (x : Except ε α) : Prop := ∀ e, x = .error e → kind e

theorem FailsOnlyWith.mono {kind kind' : ε → Prop} {x : Except ε α} (hx : FailsOnlyWith kind x)
    (h : ∀ e, kind e → kind' e) : FailsOnlyWith kind' x :=
  fun e he => h e (hx e he)

theorem FailsOnlyWith.bind {kind : ε → Prop} {x : Except ε α} {f : α → Except ε β}
    (hx : FailsOnlyWith kind x) (hf : ∀ a, x = .ok a → FailsOnlyWith kind (f a)) :
    FailsOnlyWith kind (x >>= f) := by
  intro e he
  rcases bind_eq_error_iff.1 he with h | ⟨a, ha, h⟩
  · exact hx e h
  · exact hf a ha e h

theorem FailsOnlyWith.guard {kind : ε → Prop} {c : Prop} [Decidable c] {e : ε} {f : α → Except ε β}
    {x : Except ε β} (he : c → kind e) (hx : ¬ c → FailsOnlyWith kind x) :
    FailsOnlyWith kind (if c then throw e >>= f else x) := by
  intro e' h
  rcases guard_eq_error_iff.1 h with ⟨hc, rfl⟩ | ⟨hc, h⟩
  · exact he hc
  · exact hx hc e' h

theorem FailsOnlyWith.pure {kind : ε → Prop} {a : α} :
    FailsOnlyWith kind (pure a : Except ε α) :=
  fun _ h => absurd h pure_ne_error

end

/-! ## Positions and numbers -/

namespace Image

variable {image : Image}

theorem number_lt (image : Image) (offset width : Nat) :
    image.number offset width < LittleEndian.limit width := by
  have hlen : (image.slice offset width).length ≤ width := by rw [length_slice]; omega
  exact Nat.lt_of_lt_of_le (LittleEndian.toNat_lt _) (LittleEndian.limit_le_limit hlen)

/-- A word of a record is a word of the machine. -/
theorem number_lt_wordLimit {width : Nat} (hw : width = 4 ∨ width = 8) (offset : Nat) :
    image.number offset width < wordLimit := by
  refine Nat.lt_of_lt_of_le (number_lt image offset width) ?_
  rcases hw with rfl | rfl <;> decide

/-- `span_eq_ok_iff` for the value that a sequence of checks has bound. -/
@[simp] theorem span_eq_ok_unit_iff {offset length : Nat} {u : Unit} :
    image.span offset length = .ok u ↔
      offset + length < wordLimit ∧ offset + length ≤ image.size :=
  span_eq_ok_iff

/-- A stretch that does not fit in the image is refused as it is. -/
theorem span_of_cut {offset length : Nat} (hend : offset + length < wordLimit)
    (hcut : image.size < offset + length) :
    image.span offset length = .error (.truncated offset length image.size) := by
  rw [span, if_neg (Nat.not_le.2 hend), if_pos hcut]

@[simp] theorem readNumber_eq_ok_iff {offset width n : Nat} :
    image.readNumber offset width = .ok n ↔
      offset + width < wordLimit ∧ offset + width ≤ image.size ∧ n = image.number offset width := by
  simp only [readNumber, bind_eq_ok_iff, span_eq_ok_unit_iff, exists_const, pure_eq_ok_iff, and_assoc]

theorem readWord_eq_ok_iff {offset width n : Nat} (hw : width = 4 ∨ width = 8) :
    image.readWord offset width = .ok n ↔
      offset + width < wordLimit ∧ offset + width ≤ image.size ∧ n = image.number offset width := by
  rw [readWord, if_pos hw, readNumber_eq_ok_iff]

end Image

@[simp] theorem positionAfter_eq_ok_iff {base relative position : Nat} :
    positionAfter base relative = .ok position ↔
      base + relative < wordLimit ∧ position = base + relative := by
  unfold positionAfter
  split <;> rename_i h <;> simp [h, eq_comm]

/-- Addresses count from the start of the code, or from zero. -/
theorem absoluteAddress_eq_ok_iff {textStart : Option Nat} {entry address : Nat}
    (h : entry < wordLimit) :
    absoluteAddress textStart entry = .ok address ↔
      textStart.getD 0 + entry < wordLimit ∧ address = textStart.getD 0 + entry := by
  cases textStart with
  | none => simp [absoluteAddress, h, eq_comm]
  | some text =>
    simp only [absoluteAddress, Option.getD_some]
    split <;> rename_i hlt <;> simp [hlt, eq_comm]

/-! ## Searches -/

namespace Image

variable {image : Image} {pattern : List UInt8} {start offset : Nat}

/-- A pattern that is not empty stands inside the image. -/
theorem lt_size_of_slice (hpattern : pattern ≠ []) (h : image.slice offset pattern.length = pattern) :
    offset < image.size := by
  have hlength := congrArg List.length h
  have hpos := List.length_pos_iff.2 hpattern
  rw [length_slice] at hlength
  omega

theorem find?_eq_none_iff (hpattern : pattern ≠ []) :
    image.find? pattern start = none ↔ ∀ i, start ≤ i → image.slice i pattern.length ≠ pattern := by
  rw [find?, if_neg (by simpa using hpattern), firstFrom_eq_none_iff]
  simp only [Bool.eq_false_iff, ne_eq, hasAt_iff]
  constructor
  · intro h i hi hat
    exact h i hi (by have := lt_size_of_slice hpattern hat; omega) hat
  · intro h i hi _
    exact h i hi

/-- A search finds the lowest place of a pattern at or behind `start`. -/
theorem find?_eq_some_iff (hpattern : pattern ≠ []) :
    image.find? pattern start = some offset ↔ start ≤ offset ∧
      image.slice offset pattern.length = pattern ∧
      ∀ i, start ≤ i → i < offset → image.slice i pattern.length ≠ pattern := by
  rw [find?, if_neg (by simpa using hpattern), firstFrom_eq_some_iff]
  simp only [Bool.eq_false_iff, ne_eq, hasAt_iff]
  constructor
  · rintro ⟨hle, -, hat, hlow⟩
    exact ⟨hle, hat, hlow⟩
  · rintro ⟨hle, hat, hlow⟩
    have := lt_size_of_slice hpattern hat
    exact ⟨hle, by omega, hat, hlow⟩

end Image

/-! ## Strings -/

namespace Image

variable {image : Image}

/-- The first zero byte at or after `offset` has `length` bytes before it. -/
def ZeroAfter (image : Image) (offset length : Nat) : Prop :=
  image[offset + length]? = some 0 ∧ ∀ j, j < length → image[offset + j]? ≠ some 0

theorem ZeroAfter.lt_size {offset length : Nat} (h : image.ZeroAfter offset length) :
    offset + length < image.size := by
  rcases Nat.lt_or_ge (offset + length) image.size with hlt | hge
  · exact hlt
  · rw [ZeroAfter, Array.getElem?_eq_none hge] at h
    simp at h

theorem zeroFrom?_eq_some_iff {count offset stop : Nat} :
    image.zeroFrom? count offset = some stop ↔
      ∃ length, length < count ∧ stop = offset + length ∧ image.ZeroAfter offset length := by
  simp only [zeroFrom?, firstFrom_eq_some_iff, beq_iff_eq, beq_eq_false_iff_ne, ZeroAfter]
  constructor
  · rintro ⟨hle, hlt, hzero, hlow⟩
    refine ⟨stop - offset, by omega, by omega, ?_, fun j hj => hlow _ (by omega) (by omega)⟩
    rwa [Nat.add_sub_cancel' hle]
  · rintro ⟨length, hlt, rfl, hzero, hlow⟩
    refine ⟨by omega, by omega, hzero, fun j hle hj => ?_⟩
    have := hlow (j - offset) (by omega)
    rwa [Nat.add_sub_cancel' hle] at this

theorem zeroFrom?_eq_none_iff {count offset : Nat} :
    image.zeroFrom? count offset = none ↔ ∀ j, j < count → image[offset + j]? ≠ some 0 := by
  simp only [zeroFrom?, firstFrom_eq_none_iff, beq_eq_false_iff_ne]
  constructor
  · exact fun h j hj => h (offset + j) (by omega) (by omega)
  · intro h i hi hlt
    have hnone := h (i - offset) (by omega)
    rwa [Nat.add_sub_cancel' hi] at hnone

/-- There is only one first zero byte. -/
theorem ZeroAfter.unique {offset length length' : Nat} (h : image.ZeroAfter offset length)
    (h' : image.ZeroAfter offset length') : length = length' := by
  rcases Nat.lt_trichotomy length length' with hlt | heq | hgt
  · exact absurd h.1 (h'.2 _ hlt)
  · exact heq
  · exact absurd h'.1 (h.2 _ hgt)

/-- What the reading of a string comes to, by the first zero byte and the bytes that are looked at. -/
inductive StringOutcome (image : Image) (offset cap : Nat) : Except Fault (List UInt8) → Prop where
  | found {length : Nat} (within : length < min (cap + 1) (wordLimit - 1))
      (zero : image.ZeroAfter offset length) :
      StringOutcome image offset cap (.ok (image.slice offset length))
  | cut (noZero : ∀ i, offset ≤ i → image[i]? ≠ some 0)
      (short : image.size - offset < min (cap + 1) (wordLimit - 1)) :
      StringOutcome image offset cap (.error (.truncated offset (image.size - offset + 1) image.size))
  | unterminated (inside : offset + min (cap + 1) (wordLimit - 1) ≤ image.size)
      (noZero : ∀ j, j < min (cap + 1) (wordLimit - 1) → image[offset + j]? ≠ some 0) :
      StringOutcome image offset cap (.error (.corrupt (.unterminated offset cap)))

theorem stringOutcome_cString (image : Image) (offset cap : Nat) :
    image.StringOutcome offset cap (image.cString offset cap) := by
  have hlooks : 0 < min (cap + 1) (wordLimit - 1) := Nat.lt_min.2 ⟨Nat.succ_pos cap, by decide⟩
  unfold cString
  by_cases hbehind : image.size ≤ offset
  · rw [if_pos hbehind]
    have hcut : image.StringOutcome offset cap
        (.error (.truncated offset (image.size - offset + 1) image.size)) := by
      refine .cut (fun i hi => ?_) (by omega)
      rw [Array.getElem?_eq_none (Nat.le_trans hbehind hi)]
      simp
    rwa [Nat.sub_eq_zero_of_le hbehind] at hcut
  rw [if_neg hbehind]
  dsimp only
  cases hzero : image.zeroFrom? (min (min (cap + 1) (wordLimit - 1)) (image.size - offset)) offset with
  | some stop =>
    obtain ⟨length, hlt, rfl, hafter⟩ := zeroFrom?_eq_some_iff.1 hzero
    simp only [Nat.add_sub_cancel_left]
    exact .found (by omega) hafter
  | none =>
    have hnone := zeroFrom?_eq_none_iff.1 hzero
    by_cases hends : image.size - offset < min (cap + 1) (wordLimit - 1)
    · rw [if_pos hends]
      refine .cut (fun i hi hbyte => ?_) hends
      have hin := (Array.getElem?_eq_some_iff.1 hbyte).1
      refine hnone (i - offset) (by omega) ?_
      rwa [Nat.add_sub_cancel' hi]
    · rw [if_neg hends]
      exact .unterminated (by omega) fun j hj => hnone j (by omega)

theorem StringOutcome.unique {offset cap : Nat} {x y : Except Fault (List UInt8)}
    (hx : image.StringOutcome offset cap x) (hy : image.StringOutcome offset cap y) : x = y := by
  cases hx with
  | found within zero =>
    cases hy with
    | found _ zero' => rw [zero.unique zero']
    | cut noZero => exact absurd zero.1 (noZero _ (Nat.le_add_right _ _))
    | unterminated _ noZero => exact absurd zero.1 (noZero _ within)
  | cut noZero short =>
    cases hy with
    | found _ zero => exact absurd zero.1 (noZero _ (Nat.le_add_right _ _))
    | cut => rfl
    | unterminated inside => omega
  | unterminated inside noZero =>
    cases hy with
    | found within zero => exact absurd zero.1 (noZero _ within)
    | cut _ short => omega
    | unterminated => rfl

theorem StringOutcome.cString_eq {offset cap : Nat} {x : Except Fault (List UInt8)}
    (h : image.StringOutcome offset cap x) : image.cString offset cap = x :=
  (image.stringOutcome_cString offset cap).unique h

/-- A string is read if its zero byte is among the bytes that are looked at. -/
theorem cString_eq_ok_iff_window {offset cap : Nat} {bytes : List UInt8} :
    image.cString offset cap = .ok bytes ↔
      ∃ length, length < min (cap + 1) (wordLimit - 1) ∧ image.ZeroAfter offset length ∧
        bytes = image.slice offset length := by
  constructor
  · intro h
    have houtcome := image.stringOutcome_cString offset cap
    rw [h] at houtcome
    cases houtcome with
    | found within zero => exact ⟨_, within, zero, rfl⟩
  · rintro ⟨length, hwithin, hzero, rfl⟩
    exact (StringOutcome.found hwithin hzero).cString_eq

/-- In an image that fits in memory, a string is read if its zero byte comes after at most `cap` bytes. -/
theorem cString_eq_ok_iff (hsize : image.size < wordLimit) {offset cap : Nat} {bytes : List UInt8} :
    image.cString offset cap = .ok bytes ↔
      ∃ length, length ≤ cap ∧ image.ZeroAfter offset length ∧ bytes = image.slice offset length := by
  rw [cString_eq_ok_iff_window]
  constructor
  · rintro ⟨length, hwindow, hzero, hbytes⟩
    exact ⟨length, by omega, hzero, hbytes⟩
  · rintro ⟨length, hcap, hzero, hbytes⟩
    have hin := hzero.lt_size
    exact ⟨length, by omega, hzero, hbytes⟩

end Image

/-! ## Records -/

/-- A descriptor is read if it lies inside the image and its address is representable. -/
theorem DescriptorTable.get_eq_ok_iff {table : DescriptorTable} {index : Nat} {descriptor : Descriptor}
    (hw : table.width = 4 ∨ table.width = 8) :
    table.get index = .ok descriptor ↔
      index < table.count ∧
      table.base + index * table.descriptorSize + table.descriptorSize < wordLimit ∧
      table.base + index * table.descriptorSize + table.descriptorSize ≤ table.image.size ∧
      table.textStart.getD 0
        + table.image.number (table.base + index * table.descriptorSize) table.width < wordLimit ∧
      descriptor =
        ⟨table.textStart.getD 0
            + table.image.number (table.base + index * table.descriptorSize) table.width,
          table.image.number (table.base + index * table.descriptorSize + table.width) table.width⟩ := by
  have hsize : table.descriptorSize = 2 * table.width := rfl
  simp only [get, guard_eq_ok_iff, bind_eq_ok_iff, positionAfter_eq_ok_iff, Image.span_eq_ok_unit_iff,
    exists_const, Image.readWord_eq_ok_iff hw, pure_eq_ok_iff]
  constructor
  · rintro ⟨hlt, -, offset, ⟨-, rfl⟩, ⟨h1, h2⟩, entry, ⟨-, -, rfl⟩, link, ⟨-, -, rfl⟩, address, ha, rfl⟩
    rw [absoluteAddress_eq_ok_iff (Image.number_lt_wordLimit hw _)] at ha
    obtain ⟨h3, rfl⟩ := ha
    exact ⟨by omega, h1, h2, h3, rfl⟩
  · rintro ⟨hlt, h1, h2, h3, rfl⟩
    refine ⟨by omega, by omega, _, ⟨by omega, rfl⟩, ⟨h1, h2⟩, _, ⟨by omega, by omega, rfl⟩, _,
      ⟨by omega, by omega, rfl⟩, _, ?_, rfl⟩
    exact (absoluteAddress_eq_ok_iff (Image.number_lt_wordLimit hw _)).2 ⟨h3, rfl⟩

/-- A metadata record is read if it lies inside the image and its address is representable. -/
theorem NameTable.metadata_eq_ok_iff {names : NameTable} {descriptor : Descriptor} {record : Metadata}
    (hw : names.width = 4 ∨ names.width = 8) :
    names.metadata descriptor = .ok record ↔
      names.recordBase + descriptor.metadataOffset + (names.width + 4) < wordLimit ∧
      names.recordBase + descriptor.metadataOffset + (names.width + 4) ≤ names.image.size ∧
      names.textStart.getD 0
        + names.image.number (names.recordBase + descriptor.metadataOffset) names.width < wordLimit ∧
      record =
        ⟨names.textStart.getD 0
            + names.image.number (names.recordBase + descriptor.metadataOffset) names.width,
          names.image.number (names.recordBase + descriptor.metadataOffset + names.width) 4⟩ := by
  simp only [metadata, bind_eq_ok_iff, positionAfter_eq_ok_iff, Image.span_eq_ok_unit_iff,
    exists_const, Image.readWord_eq_ok_iff hw, Image.readNumber_eq_ok_iff, pure_eq_ok_iff]
  constructor
  · rintro ⟨offset, ⟨-, rfl⟩, ⟨h1, h2⟩, entry, ⟨-, -, rfl⟩, index, ⟨-, -, rfl⟩, address, ha, rfl⟩
    rw [absoluteAddress_eq_ok_iff (Image.number_lt_wordLimit hw _)] at ha
    obtain ⟨h3, rfl⟩ := ha
    exact ⟨h1, h2, h3, rfl⟩
  · rintro ⟨h1, h2, h3, rfl⟩
    refine ⟨_, ⟨by omega, rfl⟩, ⟨h1, h2⟩, _, ⟨by omega, by omega, rfl⟩, _, ⟨by omega, by omega, rfl⟩,
      _, ?_, rfl⟩
    exact (absoluteAddress_eq_ok_iff (Image.number_lt_wordLimit hw _)).2 ⟨h3, rfl⟩

theorem NameTable.follow_eq_ok_iff {names : NameTable} {descriptor : Descriptor} {entry : NameEntry} :
    names.follow descriptor = .ok entry ↔
      ∃ metadata, names.metadata descriptor = .ok metadata ∧
        names.name metadata.nameIndex = .ok entry.name ∧ entry.metadataAddress = metadata.address := by
  simp only [follow, bind_eq_ok_iff, pure_eq_ok_iff]
  constructor
  · rintro ⟨metadata, hm, name, hn, rfl⟩; exact ⟨metadata, hm, hn, rfl⟩
  · rintro ⟨metadata, hm, hn, ha⟩; exact ⟨metadata, hm, entry.name, hn, by rw [← ha]⟩

theorem Records.symbolAt_eq_ok_iff {records : Records} {index : Nat} {symbol : Symbol} :
    records.symbolAt index = .ok symbol ↔
      ∃ descriptor entry, records.descriptors.get index = .ok descriptor ∧
        records.names.follow descriptor = .ok entry ∧ symbol = symbolFrom descriptor entry := by
  simp only [symbolAt, symbolOf, bind_eq_ok_iff, pure_eq_ok_iff, symbolFrom]
  constructor
  · rintro ⟨descriptor, hd, entry, he, rfl⟩; exact ⟨descriptor, entry, hd, he, rfl⟩
  · rintro ⟨descriptor, entry, hd, he, rfl⟩; exact ⟨descriptor, hd, entry, he, rfl⟩

theorem Records.symbolAt_eq_error_iff {records : Records} {index : Nat} {fault : Fault} :
    records.symbolAt index = .error fault ↔
      records.descriptors.get index = .error fault ∨
      ∃ descriptor, records.descriptors.get index = .ok descriptor ∧
        records.names.follow descriptor = .error fault := by
  simp only [symbolAt, symbolOf, bind_eq_error_iff, pure_ne_error, and_false, exists_false, or_false]

/-! ## The faults of a record -/

namespace Fault

/-- The faults that a read of bytes can have, and what is made of the bytes. -/
def OfBytes : Fault → Prop
  | .truncated .. => True
  | .corrupt cause =>
    match cause with
    | .offsetOverflow .. | .readOverflow .. | .unterminated .. | .addressOverflow .. | .badName .. => True
    | .wordWidth _ | .noRecord .. | .recordOverflow | .wrongMagic .. | .padding _ | .pointerWidth _
    | .outside .. | .tooManyFunctions _ | .unresolved _ | .stated _ => False
  | .notFound | .unsupported _ => False

/-- The faults that the reading of one record can have. -/
def OfRecord : Fault → Prop
  | .truncated .. => True
  | .corrupt cause =>
    match cause with
    | .offsetOverflow .. | .readOverflow .. | .wordWidth _ | .unterminated .. | .noRecord ..
    | .recordOverflow | .addressOverflow .. | .badName .. => True
    | .wrongMagic .. | .padding _ | .pointerWidth _ | .outside .. | .tooManyFunctions _
    | .unresolved _ | .stated _ => False
  | .notFound | .unsupported _ => False

theorem OfBytes.ofRecord (fault : Fault) (h : fault.OfBytes) : fault.OfRecord := by
  cases fault with
  | truncated => trivial
  | corrupt cause => cases cause <;> trivial
  | notFound | unsupported => exact h

end Fault

namespace Image

variable (image : Image)

theorem span_failsOnlyWith (offset length : Nat) :
    FailsOnlyWith Fault.OfBytes (image.span offset length) := by
  intro e h
  unfold span at h
  split at h
  · cases h; trivial
  · split at h <;> cases h
    trivial

theorem readNumber_failsOnlyWith (offset width : Nat) :
    FailsOnlyWith Fault.OfBytes (image.readNumber offset width) :=
  .bind (span_failsOnlyWith image offset width) fun _ _ => .pure

theorem readWord_failsOnlyWith {kind : Fault → Prop} (hbytes : ∀ fault, fault.OfBytes → kind fault)
    {width : Nat} (hwidth : ¬ (width = 4 ∨ width = 8) → kind (.corrupt (.wordWidth width)))
    (offset : Nat) : FailsOnlyWith kind (image.readWord offset width) := by
  intro e h
  unfold readWord at h
  split at h
  · exact hbytes e (readNumber_failsOnlyWith image offset width e h)
  · rename_i hw
    cases h
    exact hwidth hw

theorem cString_failsOnlyWith (offset cap : Nat) :
    FailsOnlyWith Fault.OfBytes (image.cString offset cap) := by
  intro e h
  have houtcome := image.stringOutcome_cString offset cap
  rw [h] at houtcome
  cases houtcome <;> trivial

end Image

theorem positionAfter_failsOnlyWith (base relative : Nat) :
    FailsOnlyWith Fault.OfBytes (positionAfter base relative) := by
  intro e h
  unfold positionAfter at h
  split at h <;> cases h
  trivial

theorem absoluteAddress_failsOnlyWith (textStart : Option Nat) (entry : Nat) :
    FailsOnlyWith Fault.OfBytes (absoluteAddress textStart entry) := by
  intro e h
  unfold absoluteAddress at h
  split at h
  · cases h
  · split at h <;> cases h
    trivial

section
variable {kind : Fault → Prop} (hbytes : ∀ fault, fault.OfBytes → kind fault)
include hbytes

/-- Besides the faults of its reads, a descriptor has three of its own. -/
theorem DescriptorTable.get_failsOnlyWith {table : DescriptorTable} {index : Nat}
    (hwidth : ¬ (table.width = 4 ∨ table.width = 8) → kind (.corrupt (.wordWidth table.width)))
    (hrecord : table.count ≤ index → kind (.corrupt (.noRecord index table.count)))
    (hoverflow : index < table.count → wordLimit ≤ index * table.descriptorSize →
      kind (.corrupt .recordOverflow)) :
    FailsOnlyWith kind (table.get index) := by
  unfold get
  refine .guard hrecord fun hlt => .guard (fun h => hoverflow (Nat.not_le.1 hlt) h) fun _ => ?_
  refine .bind ((positionAfter_failsOnlyWith _ _).mono hbytes) fun offset _ => ?_
  refine .bind ((Image.span_failsOnlyWith _ _ _).mono hbytes) fun _ _ => ?_
  refine .bind (Image.readWord_failsOnlyWith _ hbytes hwidth _) fun entry _ => ?_
  refine .bind (Image.readWord_failsOnlyWith _ hbytes hwidth _) fun link _ => ?_
  exact .bind ((absoluteAddress_failsOnlyWith _ _).mono hbytes) fun _ _ => .pure

theorem NameTable.metadata_failsOnlyWith {names : NameTable}
    (hwidth : ¬ (names.width = 4 ∨ names.width = 8) → kind (.corrupt (.wordWidth names.width)))
    (descriptor : Descriptor) : FailsOnlyWith kind (names.metadata descriptor) := by
  unfold metadata
  refine .bind ((positionAfter_failsOnlyWith _ _).mono hbytes) fun offset _ => ?_
  refine .bind ((Image.span_failsOnlyWith _ _ _).mono hbytes) fun _ _ => ?_
  refine .bind (Image.readWord_failsOnlyWith _ hbytes hwidth _) fun entry _ => ?_
  refine .bind ((Image.readNumber_failsOnlyWith _ _ _).mono hbytes) fun index _ => ?_
  exact .bind ((absoluteAddress_failsOnlyWith _ _).mono hbytes) fun _ _ => .pure

end

theorem NameTable.name_failsOnlyWith (names : NameTable) (nameIndex : Nat) :
    FailsOnlyWith Fault.OfBytes (names.name nameIndex) := by
  unfold name
  refine .bind (positionAfter_failsOnlyWith _ _) fun offset _ => ?_
  refine .bind (Image.cString_failsOnlyWith _ _ _) fun bytes _ => ?_
  intro e h
  split at h
  · exact absurd h pure_ne_error
  · cases h; trivial

/-- The faults of a record are those of its descriptor and those of its name. -/
theorem Records.symbolAt_failsOnlyWith_of {kind : Fault → Prop} {records : Records} {index : Nat}
    (hget : FailsOnlyWith kind (records.descriptors.get index))
    (hmetadata : ∀ descriptor, FailsOnlyWith kind (records.names.metadata descriptor))
    (hbytes : ∀ fault, fault.OfBytes → kind fault) : FailsOnlyWith kind (records.symbolAt index) := by
  intro e h
  rcases symbolAt_eq_error_iff.1 h with h | ⟨descriptor, -, h⟩
  · exact hget e h
  · refine FailsOnlyWith.bind (hmetadata descriptor) ?_ e h
    exact fun record _ => .bind ((records.names.name_failsOnlyWith _).mono hbytes) fun _ _ => .pure

theorem Records.symbolAt_failsOnlyWith (records : Records) (index : Nat) :
    FailsOnlyWith Fault.OfRecord (records.symbolAt index) := by
  have hbytes := Fault.OfBytes.ofRecord
  refine symbolAt_failsOnlyWith_of ?_ (fun descriptor => ?_) hbytes
  · exact DescriptorTable.get_failsOnlyWith hbytes (fun _ => trivial) (fun _ => trivial) fun _ _ => trivial
  · exact NameTable.metadata_failsOnlyWith hbytes (fun _ => trivial) descriptor

end Unstrip

import Unstrip.Proofs.Machine.Search

/-!
# Headers with words

The machine reads a header field by field and stores each word where its field is kept, and it checks the
positions that the header names one after the other. This comes to what `Header.decode` says
(`decode_comesTo`), at any position.
-/

namespace Unstrip.Machine

variable {image : Image}

/-! ## The fields -/

def store (header : Header) (value : Nat) : Field → Header
  | .functionCount => { header with functionCount := value }
  | .fileCount => { header with fileCount := value }
  | .textStart => { header with textStart := some value }
  | .nameOffset => { header with nameOffset := value }
  | .unitOffset => { header with unitOffset := value }
  | .fileTableOffset => { header with fileTableOffset := value }
  | .pcTableOffset => { header with pcTableOffset := value }
  | .recordOffset => { header with recordOffset := value }

@[simp] theorem store_anchor (header : Header) (value : Nat) (field : Field) :
    (store header value field).anchor = header.anchor := by
  cases field <;> rfl

@[simp] theorem store_pointerWidth (header : Header) (value : Nat) (field : Field) :
    (store header value field).pointerWidth = header.pointerWidth := by
  cases field <;> rfl

/-- A header of which only the opening has been read. -/
def opened (anchor : Anchor) (quantum pointerWidth : Nat) : Header where
  anchor := anchor.offset
  release := anchor.release
  quantum := quantum
  pointerWidth := pointerWidth
  functionCount := 0
  fileCount := 0
  textStart := none
  nameOffset := 0
  unitOffset := 0
  fileTableOffset := 0
  pcTableOffset := 0
  recordOffset := 0

/-- Reads the given fields, from the word with the given index on. -/
def readFields (image : Image) : (fields : List Field) → (index : Nat) → Header → Except Stop Header
  | [], _, header => return header
  | field :: rest, index, header => do
    let behind ← add header.anchor Release.openingSize
    let distance ← mul index header.pointerWidth
    let offset ← add behind distance
    let value ← wordAt image offset header.pointerWidth
    readFields image rest (index + 1) (store header value field)

/-- The header with the words at `base` as the values of the given fields. -/
def stored (image : Image) (base width : Nat) : (fields : List Field) → (index : Nat) → Header → Header
  | [], _, header => header
  | field :: rest, index, header =>
    stored image base width rest (index + 1) (store header (image.number (base + index * width) width) field)

theorem readFields_eq_ok (hsize : image.size < wordLimit) {fields : List Field} {index : Nat}
    {header : Header} (hwidth : header.pointerWidth = 4 ∨ header.pointerWidth = 8)
    (hin : header.anchor + Release.openingSize + (index + fields.length) * header.pointerWidth ≤
      image.size) :
    readFields image fields index header =
      .ok (stored image (header.anchor + Release.openingSize) header.pointerWidth fields index header) := by
  induction fields generalizing index header with
  | nil => rfl
  | cons field rest ih =>
    rw [List.length_cons, ← Nat.add_assoc, Nat.add_right_comm index, Nat.add_mul,
      Nat.succ_mul] at hin
    have hword := wordAt_eq_ok hsize hwidth
      (show header.anchor + Release.openingSize + index * header.pointerWidth + header.pointerWidth ≤
        image.size by omega)
    rw [readFields, add_eq_ok (by omega)]
    refine ComesTo.eq_ok (.bind_ok rfl (.bind_ok (mul_eq_ok (by omega)) (.bind_ok (add_eq_ok (by omega))
      (.bind_ok hword ?_))))
    -- storing a word changes neither where the fields are nor how wide they are
    have hrest := @ih (index + 1)
      (store header
        (image.number (header.anchor + Release.openingSize + index * header.pointerWidth)
          header.pointerWidth) field)
    simp only [store_anchor, store_pointerWidth] at hrest
    exact hrest hwidth (by rw [Nat.add_mul, Nat.succ_mul]; omega)

/-- What the words of a header stand for depends on its release alone. -/
theorem readFields_opened (hsize : image.size < wordLimit) {anchor : Anchor} {pointerWidth : Nat}
    (hwidth : pointerWidth = 4 ∨ pointerWidth = 8)
    (hin : anchor.offset + Release.openingSize + anchor.release.fields.length * pointerWidth ≤
      image.size) :
    readFields image anchor.release.fields 0
        (opened anchor (image.number (anchor.offset + 6) 1) pointerWidth) =
      .ok (Header.readAt image anchor.offset anchor.release pointerWidth) := by
  rw [readFields_eq_ok hsize hwidth (by rwa [Nat.zero_add])]
  rcases anchor with ⟨offset, _ | _ | _⟩ <;> rfl

/-! ## The checks -/

def checkOffsets (image : Image) (header : Header) : List Field → Except Stop Unit
  | [] => return ()
  | field :: rest => do
    match ← attempt (position header.anchor (header.offset field)) with
    | .ok place =>
      if place ≤ image.size then checkOffsets image header rest
      else raise (.corrupt (.outside field (header.offset field) header.anchor))
    | .error _ => raise (.corrupt (.outside field (header.offset field) header.anchor))

theorem checkOffsets_eq (image : Image) (header : Header) (fields : List Field) :
    checkOffsets image header fields =
      match fields.find? fun field => ¬ header.IsInside image.size field with
      | some field => raise (.corrupt (.outside field (header.offset field) header.anchor))
      | none => .ok () := by
  induction fields with
  | nil => rfl
  | cons field rest ih =>
    unfold checkOffsets position checkedAdd?
    rw [List.find?_cons]
    by_cases hword : header.anchor + header.offset field < wordLimit
    · by_cases hle : header.anchor + header.offset field ≤ image.size
      · have hinside : header.IsInside image.size field := ⟨hword, hle⟩
        simp only [hword, hinside, if_true, not_true_eq_false, decide_false]
        exact (if_pos hle).trans ih
      · have houtside : ¬ header.IsInside image.size field := fun h => hle h.2
        simp only [hword, houtside, if_true, not_false_eq_true, decide_true]
        exact if_neg hle
    · have houtside : ¬ header.IsInside image.size field := fun h => hword h.1
      simp only [hword, houtside, if_false, not_false_eq_true, decide_true]
      rfl

def validate (image : Image) (header : Header) : Except Stop Unit := do
  checkOffsets image header Field.offsets
  let descriptorSize ← mul 2 header.wordWidth
  match checkedMul? header.functionCount descriptorSize with
  | some size =>
    if size ≤ image.size then return ()
    else raise (.corrupt (.tooManyFunctions header.functionCount))
  | none => raise (.corrupt (.tooManyFunctions header.functionCount))

theorem validate_comesTo {header : Header} (hwidth : header.pointerWidth = 4 ∨ header.pointerWidth = 8) :
    ComesTo (validate image header) (header.validate image.size) := by
  have hword : header.wordWidth ≤ 8 := by
    have hword := header.wordWidth_eq_or_eq_four
    omega
  unfold validate Header.validate
  rw [checkOffsets_eq]
  cases Field.offsets.find? fun field => ¬ header.IsInside image.size field with
  | some field => rfl
  | none =>
    refine .bind_ok rfl (.bind_ok (mul_eq_ok (Nat.lt_of_le_of_lt (Nat.mul_le_mul_left 2 hword) (by decide))) ?_)
    show ComesTo (match checkedMul? header.functionCount header.descriptorSize with
      | some size => _
      | none => _) _
    unfold checkedMul? Header.HasRoom
    by_cases hlimit : header.functionCount * header.descriptorSize < wordLimit
    · by_cases hle : header.functionCount * header.descriptorSize ≤ image.size
      · simp only [hlimit, hle, if_true, and_self, not_true_eq_false, if_false]
        exact .pure ()
      · simp only [hlimit, hle, if_true, if_false, and_false, not_false_eq_true]
        exact .raise _
    · simp only [hlimit, if_false, false_and, not_false_eq_true, if_true]
      exact .raise _

/-! ## The header -/

def decode (image : Image) (anchor : Anchor) : Except Stop Header := do
  let _ ← bytes image anchor.offset Release.openingSize
  let magic ← shortAt image anchor.offset 4
  if Release.ofMagic? magic ≠ some anchor.release then
    raise (.corrupt (.wrongMagic magic anchor.offset anchor.release))
  let padding ← shortAt image (← add anchor.offset 4) 2
  if padding ≠ 0 then raise (.corrupt (.padding padding))
  let quantum ← shortAt image (← add anchor.offset 6) 1
  let pointerWidth ← shortAt image (← add anchor.offset 7) 1
  if pointerWidth ≠ 4 ∧ pointerWidth ≠ 8 then raise (.corrupt (.pointerWidth pointerWidth))
  let size ← add Release.openingSize (← mul anchor.release.fields.length pointerWidth)
  let _ ← bytes image anchor.offset size
  let header ← readFields image anchor.release.fields 0 (opened anchor quantum pointerWidth)
  validate image header
  return header

theorem headerSize_lt (release : Release) {pointerWidth : Nat}
    (hwidth : pointerWidth = 4 ∨ pointerWidth = 8) :
    release.fields.length * pointerWidth < wordLimit ∧
      Release.openingSize + release.fields.length * pointerWidth < wordLimit := by
  cases release <;> rcases hwidth with rfl | rfl <;> decide

theorem decode_comesTo (hsize : image.size < wordLimit) (anchor : Anchor) :
    ComesTo (decode image anchor) (Header.decode image anchor) := by
  unfold decode Header.decode Header.decodeOpening
  rw [bind_assoc]
  -- all reads of the opening stay in the stretch that is checked first
  refine bytes_comesTo fun hlimit hin => ?_
  simp only [Release.openingSize] at hlimit hin
  refine .bind_ok (shortAt_eq_ok hsize (by omega)) (.guard_bind fun _ => ?_)
  refine .bind_ok (add_eq_ok (by omega)) (.bind_ok (shortAt_eq_ok hsize (by omega)) (.guard_bind fun _ => ?_))
  refine .bind_ok (add_eq_ok (by omega)) (.bind_ok (shortAt_eq_ok hsize (by omega)) ?_)
  refine .bind_ok (add_eq_ok (by omega)) (.bind_ok (shortAt_eq_ok hsize (by omega)) (.guard_bind fun hw => ?_))
  have hwidth : image.number (anchor.offset + 7) 1 = 4 ∨ image.number (anchor.offset + 7) 1 = 8 := by omega
  obtain ⟨hfields, hheaderSize⟩ := headerSize_lt anchor.release hwidth
  rw [pure_bind]
  refine .bind_ok (mul_eq_ok hfields) (.bind_ok (add_eq_ok hheaderSize) (bytes_comesTo fun _ hheader => ?_))
  rw [← Nat.add_assoc] at hheader
  refine .bind_ok (readFields_opened hsize hwidth hheader) ?_
  exact .bind (validate_comesTo hwidth) fun _ _ => .pure _

end Unstrip.Machine

import Unstrip.Proofs.Machine.Header

/-!
# Records with words

A header that has been decoded is `Sound`: its positions and the size of its descriptors are words, which
is what the readings of descriptors, metadata records and names rely on without a check of their own.
With a sound header no reading traps, and none fails but for the bytes of the image (`Fault.OfTable`).
-/

namespace Unstrip

/-! ## Sound headers -/

namespace Header

variable {image : Image} {header : Header}

/-- What `decode` has checked. -/
structure Sound (header : Header) (size : Nat) : Prop where
  fourOrEight : header.pointerWidth = 4 ∨ header.pointerWidth = 8
  inside : ∀ field ∈ Field.offsets, header.IsInside size field
  room : header.HasRoom size

/-- Every header that is decoded is sound, whatever the anchor. -/
theorem sound_of_decode {anchor : Anchor} (h : decode image anchor = .ok header) :
    header.Sound image.size := by
  obtain ⟨pointerWidth, hopening, -, -, hvalid, rfl⟩ := exists_of_decode h
  obtain ⟨hinside, hroom⟩ := validate_eq_ok_iff.1 hvalid
  simp only [decodeOpening, bind_eq_ok_iff, guard_eq_ok_iff, pure_eq_ok_iff] at hopening
  obtain ⟨-, -, -, -, hwidth, rfl⟩ := hopening
  refine ⟨?_, hinside, hroom⟩
  show image.number (anchor.offset + 7) 1 = 4 ∨ image.number (anchor.offset + 7) 1 = 8
  omega

namespace Sound

variable {size : Nat}

theorem wordWidth (h : header.Sound size) : header.wordWidth = 4 ∨ header.wordWidth = 8 := by
  have hpointer := h.fourOrEight
  have hword := header.wordWidth_eq_or_eq_four
  omega

theorem nameBase (h : header.Sound size) : header.anchor + header.nameOffset < wordLimit :=
  (h.inside .nameOffset (by decide)).1

theorem recordBase (h : header.Sound size) : header.anchor + header.recordOffset < wordLimit :=
  (h.inside .recordOffset (by decide)).1

/-! Names and descriptors begin inside the image. -/

theorem nameBase_le (h : header.Sound size) : header.nameBase ≤ size :=
  (h.inside .nameOffset (by decide)).2

theorem recordBase_le (h : header.Sound size) : header.recordBase ≤ size :=
  (h.inside .recordOffset (by decide)).2

/-- There are far fewer records than there are bytes. -/
theorem functionCount (h : header.Sound size) : header.functionCount * 8 ≤ size := by
  have hsize : 8 ≤ header.descriptorSize := by
    have := h.wordWidth
    unfold descriptorSize
    omega
  exact Nat.le_trans (Nat.mul_le_mul_left _ hsize) h.room.2

/-- The distance of a record from the first one is a word. -/
theorem distance (h : header.Sound size) {index : Nat} (hindex : index < header.functionCount) :
    index * header.descriptorSize < wordLimit :=
  Nat.lt_of_le_of_lt (Nat.mul_le_mul_right _ (Nat.le_of_lt hindex)) h.room.1

/-! Only the bytes of the image can make the reading of a record fail. -/

theorem get_failsOnlyWith (h : header.Sound image.size) {index : Nat}
    (hindex : index < header.functionCount) :
    FailsOnlyWith Fault.OfTable ((DescriptorTable.ofHeader image header).get index) := by
  refine DescriptorTable.get_failsOnlyWith Fault.OfBytes.ofTable ?_ ?_ ?_
  · intro hwidth
    exact absurd h.wordWidth hwidth
  · intro hle
    exact absurd hindex (Nat.not_lt.2 hle)
  · intro _ hlimit
    exact absurd (h.distance hindex) (Nat.not_lt.2 hlimit)

/-- Behind the last record, that is the only fault. -/
theorem get_eq_noRecord {index : Nat} (hindex : header.functionCount ≤ index) :
    (DescriptorTable.ofHeader image header).get index =
      .error (.corrupt (.noRecord index header.functionCount)) :=
  if_pos hindex

theorem metadata_failsOnlyWith (h : header.Sound image.size) (nameCap : Nat) (descriptor : Descriptor) :
    FailsOnlyWith Fault.OfTable ((NameTable.ofHeader image header nameCap).metadata descriptor) :=
  NameTable.metadata_failsOnlyWith Fault.OfBytes.ofTable (fun hwidth => absurd h.wordWidth hwidth) _

theorem symbolAt_failsOnlyWith (h : header.Sound image.size) (nameCap : Nat) {index : Nat}
    (hindex : index < header.functionCount) :
    FailsOnlyWith Fault.OfTable ((Records.ofHeader image header nameCap).symbolAt index) :=
  Records.symbolAt_failsOnlyWith_of (h.get_failsOnlyWith hindex) (h.metadata_failsOnlyWith nameCap)
    Fault.OfBytes.ofTable

end Sound

end Header

namespace Machine

/-! ## Tables -/

def descriptorTable (image : Image) (header : Header) : Except Stop DescriptorTable := do
  let base ← add header.anchor header.recordOffset
  return ⟨image, base, header.functionCount, header.wordWidth, header.textStart⟩

def nameTable (image : Image) (header : Header) (nameCap : Nat) : Except Stop NameTable := do
  let recordBase ← add header.anchor header.recordOffset
  let nameBase ← add header.anchor header.nameOffset
  return ⟨image, recordBase, nameBase, header.wordWidth, header.textStart, nameCap⟩

section
variable {image : Image} {header : Header}

theorem descriptorTable_eq_ok (h : header.Sound image.size) :
    descriptorTable image header = .ok (.ofHeader image header) := by
  rw [descriptorTable, add_eq_ok h.recordBase]
  rfl

/-- A header that is not sound leads behind the last word. -/
example : descriptorTable #[] { Header.readAt #[] (wordLimit - 1) .go116 8 with recordOffset := 1 } =
    .error (.trap .overflow) :=
  rfl

theorem nameTable_eq_ok (h : header.Sound image.size) (nameCap : Nat) :
    nameTable image header nameCap = .ok (.ofHeader image header nameCap) := by
  rw [nameTable, add_eq_ok h.recordBase, add_eq_ok h.nameBase]
  rfl

end

/-! ## Readings -/

def address (textStart : Option Nat) (entry : Nat) : Except Stop Nat :=
  match textStart with
  | none => return entry
  | some text =>
    match checkedAdd? text entry with
    | some address => return address
    | none => raise (.corrupt (.addressOverflow entry text))

theorem address_comesTo (textStart : Option Nat) (entry : Nat) :
    ComesTo (address textStart entry) (absoluteAddress textStart entry) := by
  unfold address absoluteAddress checkedAdd?
  cases textStart with
  | none => exact .pure entry
  | some text =>
    by_cases h : text + entry < wordLimit
    · simp only [h, if_true]
      exact .pure _
    · simp only [h, if_false]
      exact .raise _

def get (table : DescriptorTable) (index : Nat) : Except Stop Descriptor := do
  if table.count ≤ index then raise (.corrupt (.noRecord index table.count))
  let size ← mul 2 table.width
  match checkedMul? index size with
  | none => raise (.corrupt .recordOverflow)
  | some distance =>
    let offset ← position table.base distance
    let _ ← bytes table.image offset size
    let entry ← wordAt table.image offset table.width
    let second ← add offset table.width
    let metadataOffset ← wordAt table.image second table.width
    let address ← address table.textStart entry
    return ⟨address, metadataOffset⟩

theorem get_comesTo {table : DescriptorTable} (hwidth : table.width = 4 ∨ table.width = 8)
    (index : Nat) : ComesTo (get table index) (table.get index) := by
  have hsize : table.descriptorSize = 2 * table.width := rfl
  have hdouble : 2 * table.width < wordLimit := by
    have : 16 < wordLimit := by decide
    omega
  unfold get DescriptorTable.get
  refine .guard fun _ => .bind_ok (mul_eq_ok hdouble) ?_
  rw [← hsize]
  unfold checkedMul?
  by_cases hdistance : index * table.descriptorSize < wordLimit
  · rw [if_pos hdistance, if_neg (Nat.not_le.2 hdistance)]
    refine .bind (position_comesTo _ _) fun offset _ => bytes_comesTo fun hlimit _ => ?_
    refine .bind (wordAt_comesTo _ _ _) fun entry _ => .bind_ok (add_eq_ok (by omega)) ?_
    refine .bind (wordAt_comesTo _ _ _) fun metadataOffset _ => ?_
    exact .bind (address_comesTo _ _) fun _ _ => .pure _
  · rw [if_neg hdistance, if_pos (Nat.not_lt.1 hdistance)]
    exact .raise _

def metadata (names : NameTable) (descriptor : Descriptor) : Except Stop Metadata := do
  let offset ← position names.recordBase descriptor.metadataOffset
  let size ← add names.width 4
  let _ ← bytes names.image offset size
  let entry ← wordAt names.image offset names.width
  let second ← add offset names.width
  let nameIndex ← shortAt names.image second 4
  let address ← address names.textStart entry
  return ⟨address, nameIndex⟩

theorem metadata_comesTo {names : NameTable} (hwidth : names.width = 4 ∨ names.width = 8)
    (descriptor : Descriptor) : ComesTo (metadata names descriptor) (names.metadata descriptor) := by
  have hsize : names.width + 4 < wordLimit := by
    have : 12 < wordLimit := by decide
    omega
  unfold metadata NameTable.metadata
  refine .bind (position_comesTo _ _) fun offset _ => .bind_ok (add_eq_ok hsize) ?_
  refine bytes_comesTo fun hlimit _ => .bind (wordAt_comesTo _ _ _) fun entry _ => ?_
  refine .bind_ok (add_eq_ok (by omega)) (.bind (shortAt_comesTo _ _ _) fun nameIndex _ => ?_)
  exact .bind (address_comesTo _ _) fun _ _ => .pure _

def name (names : NameTable) (nameIndex : Nat) : Except Stop String := do
  let offset ← position names.nameBase nameIndex
  let bytes ← cString names.image offset names.nameCap
  match Utf8.decode bytes with
  | .ok characters => return String.ofList characters
  | .error fault => raise (.corrupt (.badName offset fault))

theorem name_comesTo {names : NameTable} (hsize : names.image.size + 1 < wordLimit) (nameIndex : Nat) :
    ComesTo (name names nameIndex) (names.name nameIndex) := by
  unfold name NameTable.name
  refine .bind (position_comesTo _ _) fun offset _ => .bind (cString_comesTo hsize _ _) fun bytes _ => ?_
  cases Utf8.decode bytes with
  | ok characters => exact .pure _
  | error fault => exact .raise _

def symbolOf (names : NameTable) (descriptor : Descriptor) : Except Stop Symbol := do
  let record ← metadata names descriptor
  let name ← name names record.nameIndex
  let differs := record.address ≠ descriptor.address
  let metadataAddress := if differs then some record.address else none
  return ⟨name, descriptor.address, metadataAddress⟩

def symbolAt (records : Records) (index : Nat) : Except Stop Symbol := do
  let descriptor ← get records.descriptors index
  symbolOf records.names descriptor

theorem symbolAt_comesTo {image : Image} {header : Header} (hsize : image.size + 1 < wordLimit)
    (h : header.Sound image.size) (nameCap index : Nat) :
    ComesTo (symbolAt (.ofHeader image header nameCap) index)
      ((Records.ofHeader image header nameCap).symbolAt index) := by
  unfold symbolAt symbolOf Records.symbolAt Records.symbolOf NameTable.follow
  refine .bind (get_comesTo h.wordWidth index) fun descriptor _ => ?_
  simp only [bind_assoc, pure_bind]
  refine .bind (metadata_comesTo h.wordWidth descriptor) fun record _ => ?_
  exact .bind (name_comesTo hsize _) fun _ _ => .pure _

/-! ## Cursors -/

def next (cursor : DescriptorTable.Cursor) :
    Except Stop (Option (Except Fault Descriptor) × DescriptorTable.Cursor) := do
  if cursor.isDone ∨ cursor.table.count ≤ cursor.next then return (none, cursor)
  else
    let item ← attempt (get cursor.table cursor.next)
    let index ← add cursor.next 1
    return (some item, ⟨cursor.table, index, item matches .error _⟩)

def remaining (cursor : DescriptorTable.Cursor) : Except Stop (Nat × Nat) := do
  if cursor.isDone then return (0, 0)
  else return (0, ← sub cursor.table.count cursor.next)

end Machine

/-- The cursors that a reading of the table in order goes through. -/
inductive DescriptorTable.Reaches (table : DescriptorTable) : Cursor → Prop
  | start : Reaches table table.cursor
  | step {cursor : Cursor} : Reaches table cursor → Reaches table cursor.step.2

namespace Machine

/-- A cursor never gets past the end of its table. -/
theorem next_le_of_reaches {table : DescriptorTable} {cursor : DescriptorTable.Cursor}
    (h : table.Reaches cursor) : cursor.table = table ∧ cursor.next ≤ table.count := by
  induction h with
  | start => exact ⟨rfl, Nat.zero_le _⟩
  | @step cursor _ ih =>
    obtain ⟨htable, hle⟩ := ih
    unfold DescriptorTable.Cursor.step
    by_cases hend : cursor.isDone ∨ cursor.table.count ≤ cursor.next
    · rw [if_pos hend]
      exact ⟨htable, hle⟩
    · rw [if_neg hend]
      rw [htable] at hend ⊢
      exact ⟨rfl, by simp only; omega⟩

theorem next_eq_ok {table : DescriptorTable} (hwidth : table.width = 4 ∨ table.width = 8)
    (hcount : table.count < wordLimit) {cursor : DescriptorTable.Cursor} (h : table.Reaches cursor) :
    next cursor = .ok cursor.step := by
  obtain ⟨rfl, hle⟩ := next_le_of_reaches h
  unfold next DescriptorTable.Cursor.step
  by_cases hend : cursor.isDone ∨ cursor.table.count ≤ cursor.next
  · rw [if_pos hend, if_pos hend]
    rfl
  · rw [if_neg hend, if_neg hend, (get_comesTo hwidth cursor.next).attempt, add_eq_ok (by omega)]
    rfl

theorem remaining_eq_ok {table : DescriptorTable} {cursor : DescriptorTable.Cursor}
    (h : table.Reaches cursor) : remaining cursor = .ok cursor.remaining := by
  obtain ⟨rfl, hle⟩ := next_le_of_reaches h
  unfold remaining DescriptorTable.Cursor.remaining
  by_cases hdone : cursor.isDone = true
  · rw [if_pos hdone, if_pos hdone]
    rfl
  · rw [if_neg hdone, if_neg hdone, sub_eq_ok hle]
    rfl

end Machine

end Unstrip

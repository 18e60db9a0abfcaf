import Unstrip.Proofs.Failure
import Unstrip.Proofs.Machine.Header

/-!
# Valid headers

`Header.Opens` and `Header.IsValidAt` say in plain numbers what a valid header is, and `Header.Carries`
what a decoded one holds. Decoding accepts exactly the valid headers at any anchor, in the image or not,
and of what it refuses, it tells apart the headers that the image cuts short (`decode_accepts_valid_headers`).

An image has fewer than `2 ^ 63` bytes here, so no header that opens inside it can end behind the last
position of 64 bits.
-/

namespace Unstrip

/-! ## Bytes and numbers -/

/-- The bytes of a number are the bytes that it was read from. -/
theorem LittleEndian.ofNat_toNat (bs : List UInt8) : ofNat bs.length (toNat bs) = bs := by
  induction bs with
  | nil => rfl
  | cons b bs ih =>
    have hb := b.toNat_lt
    have hlow : UInt8.ofNat (b.toNat + 256 * toNat bs) = b := by
      rw [← UInt8.toNat_inj, UInt8.toNat_ofNat']
      omega
    have hrest : (b.toNat + 256 * toNat bs) / 256 = toNat bs := by omega
    rw [List.length_cons, toNat_cons, ofNat, hlow, hrest, ih]

namespace Image

variable {image : Image}

theorem slice_add (image : Image) (offset length length' : Nat) :
    image.slice offset (length + length') =
      image.slice offset length ++ image.slice (offset + length) length' := by
  simp [slice_eq, List.take_add]

/-- Inside the image, a number stands where its bytes stand. -/
theorem number_eq_iff {offset width n : Nat} (hin : offset + width ≤ image.size)
    (hn : n < LittleEndian.limit width) :
    image.number offset width = n ↔ image.slice offset width = LittleEndian.ofNat width n := by
  constructor
  · rintro rfl
    have hbytes := LittleEndian.ofNat_toNat (image.slice offset width)
    rw [length_slice_of_le hin] at hbytes
    exact hbytes.symm
  · intro h
    rw [number, h, LittleEndian.toNat_ofNat hn]

theorem byte_eq_some_iff {offset n : Nat} :
    image[offset]?.map UInt8.toNat = some n ↔ offset < image.size ∧ image.number offset 1 = n := by
  by_cases h : offset < image.size
  · have hbyte : image.slice offset 1 = [image[offset]] := by simp [slice_eq, List.take_one, h]
    simp [number, hbyte, h]
  · simp [h]

/-- A signature is a magic number with two zero bytes behind it. -/
theorem slice_eq_signature_iff {offset : Nat} {release : Release} :
    image.slice offset 6 = release.signature ↔
      image.slice offset 4 = LittleEndian.ofNat 4 release.magic ∧ image.slice (offset + 4) 2 = [0, 0] := by
  rw [Release.signature, show 6 = 4 + 2 from rfl, slice_add]
  constructor
  · intro h
    have hlength := congrArg List.length h
    simp only [List.length_append, length_slice, LittleEndian.length_ofNat] at hlength
    refine List.append_inj h ?_
    rw [length_slice, LittleEndian.length_ofNat]
    simp at hlength
    omega
  · rintro ⟨hmagic, hzeros⟩
    rw [hmagic, hzeros]

end Image

/-! ## Images that end too early -/

/-- The computation fails because the image ends too early. -/
def EndsEarly {α : Type} (x : Except Fault α) : Prop :=
  ∃ offset length available, x = .error (.truncated offset length available)

namespace EndsEarly

variable {α β : Type}

theorem bind_iff {x : Except Fault α} {f : α → Except Fault β} :
    EndsEarly (x >>= f) ↔ EndsEarly x ∨ ∃ a, x = .ok a ∧ EndsEarly (f a) := by
  cases x <;> simp [EndsEarly, bind, Except.bind]

theorem guard_iff {c : Prop} [Decidable c] {cause : Cause} {f : β → Except Fault α}
    {x : Except Fault α} :
    EndsEarly (if c then throw (.corrupt cause) >>= f else x) ↔ ¬ c ∧ EndsEarly x := by
  by_cases h : c <;> simp [EndsEarly, h, throw, throwThe, MonadExceptOf.throw, bind, Except.bind]

theorem not_pure (a : α) : ¬ EndsEarly (pure a : Except Fault α) := by
  simp [EndsEarly, pure, Except.pure]

theorem span_iff {image : Image} {offset length : Nat} :
    EndsEarly (image.span offset length) ↔
      offset + length < wordLimit ∧ image.size < offset + length := by
  unfold EndsEarly Image.span
  by_cases hlimit : wordLimit ≤ offset + length
  · simp [hlimit, Nat.not_lt.2 hlimit]
  · by_cases hcut : image.size < offset + length
    · simp [hlimit, hcut, Nat.not_le.1 hlimit]
    · simp [hlimit, hcut]

end EndsEarly

/-! ## What makes a header valid -/

namespace Header

/-- The number in the place of a field: behind the opening, fields stand in the order of the release. -/
def fieldAt (image : Image) (anchor : Anchor) (pointerWidth : Nat) (field : Field) : Nat :=
  image.number (anchor.offset + 8 + pointerWidth * anchor.release.fields.idxOf field) pointerWidth

/-- The first eight bytes at an anchor are in order, and name the given pointer width. -/
structure Opens (image : Image) (anchor : Anchor) (pointerWidth : Nat) : Prop where
  inside : anchor.offset + 8 ≤ image.size
  magic : image.slice anchor.offset 4 = LittleEndian.ofNat 4 anchor.release.magic
  zeros : image.slice (anchor.offset + 4) 2 = [0, 0]
  pointer : image[anchor.offset + 7]?.map UInt8.toNat = some pointerWidth
  width : pointerWidth = 4 ∨ pointerWidth = 8

/-- The header at an anchor lies inside the image, and so does all that it names. -/
structure IsValidAt (image : Image) (anchor : Anchor) (pointerWidth : Nat) : Prop
    extends Opens image anchor pointerWidth where
  whole : anchor.offset + anchor.release.headerSize pointerWidth ≤ image.size
  offsets : ∀ field ∈ Field.offsets,
    anchor.offset + fieldAt image anchor pointerWidth field ≤ image.size
  room : fieldAt image anchor pointerWidth .functionCount *
    (2 * anchor.release.wordWidth pointerWidth) ≤ image.size

/-- The number that a header holds for a field. -/
def held? (header : Header) : Field → Option Nat
  | .functionCount => some header.functionCount
  | .fileCount => some header.fileCount
  | .textStart => header.textStart
  | .nameOffset => some header.nameOffset
  | .unitOffset => some header.unitOffset
  | .fileTableOffset => some header.fileTableOffset
  | .pcTableOffset => some header.pcTableOffset
  | .recordOffset => some header.recordOffset

/-- The header holds what stands at an anchor. -/
structure Carries (header : Header) (image : Image) (anchor : Anchor) (pointerWidth : Nat) : Prop where
  base : header.anchor = anchor.offset
  format : header.release = anchor.release
  quantum : image[anchor.offset + 6]?.map UInt8.toNat = some header.quantum
  pointer : header.pointerWidth = pointerWidth
  fields : ∀ field ∈ anchor.release.fields,
    header.held? field = some (fieldAt image anchor pointerWidth field)
  textStart : header.textStart.isSome = true ↔ anchor.release = .go118 ∨ anchor.release = .go120

variable {image : Image} {anchor : Anchor} {header : Header} {pointerWidth : Nat}

/-! ## The opening -/

theorem decodeOpening_eq_ok_iff_opens (hsize : image.size < wordLimit) :
    decodeOpening image anchor = .ok pointerWidth ↔ Opens image anchor pointerWidth := by
  have hmagic : anchor.release.magic < LittleEndian.limit 4 := by cases anchor.release <;> decide
  simp only [decodeOpening, bind_eq_ok_iff, Image.span_eq_ok_unit_iff, exists_const, guard_eq_ok_iff,
    pure_eq_ok_iff, Release.openingSize, Decidable.not_not, Release.ofMagic?_eq_some_iff]
  constructor
  · rintro ⟨⟨-, hin⟩, hnumber, hzero, hwidth, rfl⟩
    have hpointer := Image.byte_eq_some_iff.2 ⟨show anchor.offset + 7 < image.size by omega, rfl⟩
    refine ⟨hin, (Image.number_eq_iff (by omega) hmagic).1 hnumber, ?_, hpointer, by omega⟩
    exact (Image.number_eq_iff (by omega) (by decide)).1 hzero
  · rintro ⟨hin, hnumber, hzeros, hpointer, hwidth⟩
    obtain ⟨-, rfl⟩ := Image.byte_eq_some_iff.1 hpointer
    refine ⟨⟨by omega, hin⟩, (Image.number_eq_iff (by omega) hmagic).2 hnumber, ?_, by omega, rfl⟩
    exact (Image.number_eq_iff (by omega) (by decide)).2 hzeros

theorem endsEarly_decodeOpening :
    EndsEarly (decodeOpening image anchor) ↔
      anchor.offset + 8 < wordLimit ∧ image.size < anchor.offset + 8 := by
  simp only [decodeOpening, EndsEarly.bind_iff, EndsEarly.span_iff, EndsEarly.guard_iff,
    EndsEarly.not_pure, Release.openingSize, and_false, exists_false, or_false]

theorem Opens.signature (h : Opens image anchor pointerWidth) :
    image.slice anchor.offset 6 = anchor.release.signature :=
  Image.slice_eq_signature_iff.2 ⟨h.magic, h.zeros⟩

/-! ## What is carried -/

/-- A header that is read without any check holds what stands at its fields. -/
theorem held?_readAt (base : Nat) (release : Release) (field : Field) :
    (readAt image base release pointerWidth).held? field =
      fieldValue? image base release pointerWidth field := by
  cases release <;> cases field <;> rfl

theorem fieldValue?_of_mem {field : Field} (hmem : field ∈ anchor.release.fields) :
    fieldValue? image anchor.offset anchor.release pointerWidth field =
      some (fieldAt image anchor pointerWidth field) := by
  have hindex : anchor.release.fields.idxOf? field = some (anchor.release.fields.idxOf field) := by
    refine List.idxOf?_eq_some_iff.2 ⟨List.idxOf_lt_length_of_mem hmem, List.getElem_idxOf _, ?_⟩
    intro j hj
    simpa using List.not_of_lt_findIdx hj
  rw [fieldValue?, hindex, Option.map_some, fieldAt, Release.openingSize, Nat.mul_comm]

theorem carries_readAt (hin : anchor.offset + 8 ≤ image.size) :
    (readAt image anchor.offset anchor.release pointerWidth).Carries image anchor pointerWidth where
  base := rfl
  format := rfl
  quantum := Image.byte_eq_some_iff.2 ⟨by omega, rfl⟩
  pointer := rfl
  fields field hmem := by rw [held?_readAt, fieldValue?_of_mem hmem]
  textStart := by
    rcases anchor with ⟨offset, _ | _ | _⟩ <;> simp [readAt, fieldValue?, Release.fields]

/-- Only the start of the code is missing from some headers. -/
theorem Carries.held?_eq_none {field : Field} (h : header.Carries image anchor pointerWidth)
    (hmem : field ∉ anchor.release.fields) : header.held? field = none := by
  have hlate : ¬ (anchor.release = .go118 ∨ anchor.release = .go120) := by
    rintro (hlate | hlate) <;> rw [hlate] at hmem <;> exact hmem (by cases field <;> decide)
  have hfield : field = .textStart := by
    cases hrelease : anchor.release <;> cases field <;> simp_all [Release.fields]
  subst hfield
  exact Option.not_isSome_iff_eq_none.1 fun hsome => hlate (h.textStart.1 hsome)

/-- There is only one header that holds what stands at an anchor. -/
theorem Carries.unique {header' : Header} (h : header.Carries image anchor pointerWidth)
    (h' : header'.Carries image anchor pointerWidth) : header = header' := by
  have hheld : ∀ field, header.held? field = header'.held? field := by
    intro field
    by_cases hmem : field ∈ anchor.release.fields
    · rw [h.fields field hmem, h'.fields field hmem]
    · rw [h.held?_eq_none hmem, h'.held?_eq_none hmem]
  have hquantum := Option.some.inj (h.quantum.symm.trans h'.quantum)
  obtain ⟨⟩ := header
  obtain ⟨⟩ := header'
  simp only [mk.injEq]
  exact ⟨h.base.trans h'.base.symm, h.format.trans h'.format.symm, hquantum,
    h.pointer.trans h'.pointer.symm, Option.some.inj (hheld .functionCount),
    Option.some.inj (hheld .fileCount), hheld .textStart, Option.some.inj (hheld .nameOffset),
    Option.some.inj (hheld .unitOffset), Option.some.inj (hheld .fileTableOffset),
    Option.some.inj (hheld .pcTableOffset), Option.some.inj (hheld .recordOffset)⟩

/-! ## Acceptance and refusal -/

/-- The positions and the count that are checked are those that stand in the fields. -/
theorem Carries.offset_eq {field : Field} (h : header.Carries image anchor pointerWidth)
    (hmem : field ∈ Field.offsets) : header.offset field = fieldAt image anchor pointerWidth field := by
  have hin : field ∈ anchor.release.fields := by
    cases anchor.release <;> cases field <;> simp_all [Field.offsets, Release.fields]
  have hheld := h.fields field hin
  cases field <;> simp_all [Field.offsets, held?, offset]

theorem Carries.functionCount_eq (h : header.Carries image anchor pointerWidth) :
    header.functionCount = fieldAt image anchor pointerWidth .functionCount := by
  have hin : Field.functionCount ∈ anchor.release.fields := by cases anchor.release <;> decide
  exact Option.some.inj (h.fields .functionCount hin)

theorem Carries.descriptorSize_eq (h : header.Carries image anchor pointerWidth) :
    header.descriptorSize = 2 * anchor.release.wordWidth pointerWidth := by
  rw [descriptorSize, wordWidth, h.format, h.pointer]

theorem decode_eq_ok_iff_valid (hsize : image.size < wordLimit) :
    decode image anchor = .ok header ↔
      ∃ pointerWidth, IsValidAt image anchor pointerWidth ∧ header.Carries image anchor pointerWidth := by
  constructor
  · intro h
    obtain ⟨pointerWidth, hopening, -⟩ := bind_eq_ok_iff.1 h
    have hopens := (decodeOpening_eq_ok_iff_opens hsize).1 hopening
    obtain ⟨p, hp, -, hwhole, hoffsets, hroom, rfl⟩ := (decode_eq_ok_iff hsize hopens.signature).1 h
    obtain rfl : p = pointerWidth := hp.trans (Image.byte_eq_some_iff.1 hopens.pointer).2
    have hcarries : (readAt image anchor.offset anchor.release p).Carries image anchor p :=
      carries_readAt hopens.inside
    refine ⟨p, ⟨hopens, hwhole, fun field hmem => ?_, ?_⟩, hcarries⟩
    · rw [← hcarries.offset_eq hmem]
      exact hoffsets field hmem
    · rw [← hcarries.functionCount_eq, ← hcarries.descriptorSize_eq]
      exact hroom
  · rintro ⟨pointerWidth, hvalid, hcarries⟩
    refine (decode_eq_ok_iff hsize hvalid.signature).2 ⟨pointerWidth, ?_, hvalid.width, hvalid.whole,
      fun field hmem => ?_, ?_, hcarries.unique (carries_readAt hvalid.inside)⟩
    · exact (Image.byte_eq_some_iff.1 hvalid.pointer).2.symm
    · rw [hcarries.offset_eq hmem]
      exact hvalid.offsets field hmem
    · rw [hcarries.functionCount_eq, hcarries.descriptorSize_eq]
      exact hvalid.room

theorem not_endsEarly_validate (header : Header) (size : Nat) : ¬ EndsEarly (header.validate size) := by
  have hkind : FailsOnlyWith (fun fault => ∃ cause, fault = .corrupt cause) (header.validate size) :=
    validate_failsOnlyWith (fun _ => ⟨_, rfl⟩) ⟨_, rfl⟩ size
  rintro ⟨offset, length, available, h⟩
  obtain ⟨cause, hcause⟩ := hkind _ h
  cases hcause

theorem headerSize_le (release : Release) (hwidth : pointerWidth = 4 ∨ pointerWidth = 8) :
    release.headerSize pointerWidth ≤ 72 := by
  cases release <;> rcases hwidth with rfl | rfl <;> decide

/-- A header is cut short behind its opening, or in it. -/
theorem endsEarly_decode (hsize : image.size < 1 <<< 63) :
    EndsEarly (decode image anchor) ↔ anchor.offset + 8 < wordLimit ∧
      (image.size < anchor.offset + 8 ∨ ∃ pointerWidth, Opens image anchor pointerWidth ∧
        image.size < anchor.offset + anchor.release.headerSize pointerWidth) := by
  have hsize' : image.size < wordLimit := Nat.lt_trans hsize (by decide)
  have hfit : ∀ p, Opens image anchor p → anchor.offset + anchor.release.headerSize p < wordLimit := by
    intro p hopens
    have hle := headerSize_le anchor.release hopens.width
    have hin := hopens.inside
    have hlimit : 1 <<< 63 + 72 < wordLimit := by decide
    omega
  simp only [decode, EndsEarly.bind_iff, endsEarly_decodeOpening, decodeOpening_eq_ok_iff_opens hsize',
    EndsEarly.span_iff, not_endsEarly_validate, EndsEarly.not_pure, and_false, exists_false, or_false]
  constructor
  · rintro (⟨hlimit, hcut⟩ | ⟨p, hopens, -, hcut⟩)
    · exact ⟨hlimit, .inl hcut⟩
    · exact ⟨Nat.lt_of_le_of_lt hopens.inside hsize', .inr ⟨p, hopens, hcut⟩⟩
  · rintro ⟨hlimit, hcut | ⟨p, hopens, hcut⟩⟩
    · exact .inl ⟨hlimit, hcut⟩
    · exact .inr ⟨p, hopens, hfit p hopens, hcut⟩

end Header

/-- **Decoding accepts exactly the valid headers.** It reads off all that stands at an anchor, wherever
that is; what it refuses is cut short, in the opening or behind a good one, or corrupt; and checked
arithmetic on words of 64 bits comes to the same. -/
theorem decode_accepts_valid_headers {image : Image} (hsize : image.size < 1 <<< 63) (anchor : Anchor) :
    (∀ header, Header.decode image anchor = .ok header ↔
      ∃ pointerWidth, Header.IsValidAt image anchor pointerWidth ∧
        header.Carries image anchor pointerWidth) ∧
    (EndsEarly (Header.decode image anchor) ↔ anchor.offset + 8 < wordLimit ∧
      (image.size < anchor.offset + 8 ∨ ∃ pointerWidth, Header.Opens image anchor pointerWidth ∧
        image.size < anchor.offset + anchor.release.headerSize pointerWidth)) ∧
    (∀ fault, Header.decode image anchor = .error fault → ¬ EndsEarly (Header.decode image anchor) →
      ∃ cause, fault = .corrupt cause) ∧
    Machine.ComesTo (Machine.decode image anchor) (Header.decode image anchor) := by
  have hsize' : image.size < wordLimit := Nat.lt_trans hsize (by decide)
  refine ⟨fun header => Header.decode_eq_ok_iff_valid hsize', Header.endsEarly_decode hsize, ?_,
    Machine.decode_comesTo hsize' anchor⟩
  intro fault h hearly
  have hkind := Header.decode_failsOnlyWith image anchor fault h
  cases fault with
  | corrupt cause => exact ⟨cause, rfl⟩
  | truncated offset length available => exact absurd ⟨offset, length, available, h⟩ hearly
  | notFound | unsupported => exact hkind.elim

/-- The header of two functions, the same cut short, and a place where there is none. -/
theorem decode_accepts_valid_headers_two_functions :
    let header := Header.readAt twoFunctions 1 .go116 4
    let cut : Image := twoFunctions.extract 0 20
    let fault : Fault := .corrupt (.wrongMagic 0xfffffa00 0 .go116)
    twoFunctions.size < 1 <<< 63 ∧ Header.decode twoFunctions ⟨1, .go116⟩ = .ok header ∧
    (∃ pointerWidth, Header.IsValidAt twoFunctions ⟨1, .go116⟩ pointerWidth ∧
      header.Carries twoFunctions ⟨1, .go116⟩ pointerWidth) ∧
    cut.size < 1 <<< 63 ∧ Header.decode cut ⟨1, .go116⟩ = .error (.truncated 1 36 20) ∧
    (1 + 8 < wordLimit ∧ (cut.size < 1 + 8 ∨ ∃ pointerWidth,
      Header.Opens cut ⟨1, .go116⟩ pointerWidth ∧ cut.size < 1 + Release.go116.headerSize pointerWidth)) ∧
    Header.decode twoFunctions ⟨0, .go116⟩ = .error fault ∧ (∃ cause, fault = .corrupt cause) := by
  intro header cut fault
  have hsize : twoFunctions.size < 1 <<< 63 := by decide
  have hcutSize : cut.size < 1 <<< 63 := by decide
  have hdecode : Header.decode twoFunctions ⟨1, .go116⟩ = .ok header := rfl
  have hcut : Header.decode cut ⟨1, .go116⟩ = .error (.truncated 1 36 20) := by decide +kernel
  have hbad : Header.decode twoFunctions ⟨0, .go116⟩ = .error fault := by decide +kernel
  have hwhole : ¬ EndsEarly (Header.decode twoFunctions ⟨0, .go116⟩) := by
    rintro ⟨offset, length, available, h⟩
    simp [hbad, fault] at h
  exact ⟨hsize, hdecode, ((decode_accepts_valid_headers hsize ⟨1, .go116⟩).1 header).1 hdecode,
    hcutSize, hcut, (decode_accepts_valid_headers hcutSize ⟨1, .go116⟩).2.1.1 ⟨1, 36, 20, hcut⟩, hbad,
    (decode_accepts_valid_headers hsize ⟨0, .go116⟩).2.2.1 fault hbad hwhole⟩

end Unstrip

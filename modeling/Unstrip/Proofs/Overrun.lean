import Unstrip.Proofs.Build
import Unstrip.Proofs.Machine.Records
import Unstrip.Proofs.ValidHeader

/-!
# Records behind the end of the image

A header is accepted if all of its descriptors would fit in the image, but they begin at a place of their
own, and may run over the end from there. How many fit is a matter of division: `Header.fitting` counts
the whole descriptors between the first one and the end. Those are read, but for addresses that are not
representable, and all others are refused as a read behind the end (`overrunning_records_come_last`).
-/

namespace Unstrip

namespace Header

variable {image : Image} {anchor : Anchor} {header : Header} {index : Nat}

/-- How many descriptors fit between the first one and the end of an image of the given size. -/
def fitting (header : Header) (size : Nat) : Nat := (size - header.recordBase) / (2 * header.wordWidth)

/-- Only the headers of later releases say where the code starts. -/
theorem textStart_isSome_iff (hsize : image.size < wordLimit) (h : decode image anchor = .ok header) :
    header.textStart.isSome = true ↔ header.release = .go118 ∨ header.release = .go120 := by
  obtain ⟨pointerWidth, -, hcarries⟩ := (decode_eq_ok_iff_valid hsize).1 h
  rw [hcarries.format]
  exact hcarries.textStart

namespace Sound

theorem descriptorSize_pos {size : Nat} (h : header.Sound size) : 0 < 2 * header.wordWidth := by
  have := h.wordWidth
  omega

/-- The descriptors that do not fit are those that end behind the image. -/
theorem fitting_le_iff {size : Nat} (h : header.Sound size) :
    header.fitting size ≤ index ↔
      size < header.recordBase + 2 * header.wordWidth * index + 2 * header.wordWidth := by
  have hbase := h.recordBase_le
  calc header.fitting size ≤ index
    _ ↔ header.fitting size < index + 1 := Nat.lt_succ_iff.symm
    _ ↔ size - header.recordBase < (index + 1) * (2 * header.wordWidth) :=
      Nat.div_lt_iff_lt_mul h.descriptorSize_pos
    _ ↔ _ := by rw [Nat.succ_mul, Nat.mul_comm index]; omega

/-- All descriptors fit if the last one does. -/
theorem le_fitting_iff {size count : Nat} (h : header.Sound size) :
    count ≤ header.fitting size ↔ header.recordBase + 2 * header.wordWidth * count ≤ size := by
  have hbase := h.recordBase_le
  rw [fitting, Nat.le_div_iff_mul_le h.descriptorSize_pos, Nat.mul_comm count]
  omega

/-- No announced descriptor ends behind the last position: each of them starts inside the image, and none
is longer than the image. -/
theorem descriptorEnd_lt (h : header.Sound image.size) (hsize : image.size < 1 <<< 63)
    (hindex : index < header.functionCount) :
    header.recordBase + 2 * header.wordWidth * index + 2 * header.wordWidth < wordLimit := by
  have hbase := h.recordBase_le
  have hroom : (index + 1) * (2 * header.wordWidth) ≤ image.size :=
    Nat.le_trans (Nat.mul_le_mul_right _ hindex) h.room.2
  rw [Nat.succ_mul, Nat.mul_comm index] at hroom
  have hlimit : wordLimit = 2 * (1 <<< 63) := by decide
  omega

/-- Of the checks on an announced descriptor, only that of its stretch is left. -/
theorem get_eq (h : header.Sound image.size) (hsize : image.size < 1 <<< 63)
    (hindex : index < header.functionCount) :
    let table := DescriptorTable.ofHeader image header
    let offset := header.recordBase + 2 * header.wordWidth * index
    table.get index = (do
      image.span offset (2 * header.wordWidth)
      let entry ← image.readWord offset header.wordWidth
      let metadataOffset ← image.readWord (offset + header.wordWidth) header.wordWidth
      let address ← absoluteAddress header.textStart entry
      return ⟨address, metadataOffset⟩) := by
  intro table offset
  have hend := h.descriptorEnd_lt hsize hindex
  have hcount : ¬ table.count ≤ index := Nat.not_le.2 hindex
  have hdistance : ¬ wordLimit ≤ index * table.descriptorSize := Nat.not_le.2 (h.distance hindex)
  have hposition : positionAfter table.base (index * table.descriptorSize) = .ok offset := by
    rw [Nat.mul_comm index]
    exact positionAfter_eq_ok_iff.2 ⟨Nat.lt_of_le_of_lt (Nat.le_add_right _ _) hend, rfl⟩
  rw [DescriptorTable.get, if_neg hcount]
  dsimp only
  rw [if_neg hdistance, hposition]
  rfl

/-- A descriptor that does not fit is refused as the read that it is. -/
theorem get_of_overruns (h : header.Sound image.size) (hsize : image.size < 1 <<< 63)
    (hindex : index < header.functionCount) (hcut : header.fitting image.size ≤ index) :
    (DescriptorTable.ofHeader image header).get index =
      .error (.truncated (header.recordBase + 2 * header.wordWidth * index) (2 * header.wordWidth)
        image.size) := by
  have hend := h.descriptorEnd_lt hsize hindex
  rw [h.get_eq hsize hindex, Image.span_of_cut hend (h.fitting_le_iff.1 hcut)]
  rfl

/-- A descriptor that fits is read, and only its address can be bad. -/
theorem get_of_fits (h : header.Sound image.size) (hsize : image.size < 1 <<< 63)
    (hindex : index < header.functionCount) (hfits : index < header.fitting image.size) :
    let offset := header.recordBase + 2 * header.wordWidth * index
    (DescriptorTable.ofHeader image header).get index =
      (absoluteAddress header.textStart (image.number offset header.wordWidth)).map
        fun address => ⟨address, image.number (offset + header.wordWidth) header.wordWidth⟩ := by
  intro offset
  have hend := h.descriptorEnd_lt hsize hindex
  have hin : offset + 2 * header.wordWidth ≤ image.size :=
    Nat.not_lt.1 fun hcut => Nat.not_le.2 hfits (h.fitting_le_iff.2 hcut)
  have hspan : image.span offset (2 * header.wordWidth) = .ok () := Image.span_eq_ok_iff.2 ⟨hend, hin⟩
  have hword (place : Nat) (hplace : place + header.wordWidth ≤ offset + 2 * header.wordWidth) :
      image.readWord place header.wordWidth = .ok (image.number place header.wordWidth) :=
    (Image.readWord_eq_ok_iff h.wordWidth).2 ⟨by omega, by omega, rfl⟩
  rw [h.get_eq hsize hindex, hspan, hword offset (by omega), hword (offset + header.wordWidth) (by omega)]
  rfl

/-- A descriptor that fits is read, unless it counts from a place so high that its address has more than
64 bits. -/
theorem get_ok_or_overflow (h : header.Sound image.size) (hsize : image.size < 1 <<< 63)
    (hindex : index < header.functionCount) (hfits : index < header.fitting image.size) :
    let table := DescriptorTable.ofHeader image header
    let entry := image.number (header.recordBase + 2 * header.wordWidth * index) header.wordWidth
    (∃ descriptor, table.get index = .ok descriptor) ∨
      ∃ text, header.textStart = some text ∧ wordLimit ≤ text + entry ∧
        table.get index = .error (.corrupt (.addressOverflow entry text)) := by
  intro table entry
  have hget : table.get index = (absoluteAddress header.textStart entry).map _ :=
    h.get_of_fits hsize hindex hfits
  cases htext : header.textStart with
  | none =>
    rw [htext] at hget
    exact .inl ⟨_, hget⟩
  | some text =>
    by_cases hlimit : text + entry < wordLimit
    · rw [htext, absoluteAddress, if_pos hlimit] at hget
      exact .inl ⟨_, hget⟩
    · rw [htext, absoluteAddress, if_neg hlimit] at hget
      exact .inr ⟨text, rfl, Nat.not_lt.1 hlimit, hget⟩

theorem endsEarly_get_iff (h : header.Sound image.size) (hsize : image.size < 1 <<< 63)
    (hindex : index < header.functionCount) :
    EndsEarly ((DescriptorTable.ofHeader image header).get index) ↔
      header.fitting image.size ≤ index := by
  constructor
  · rintro ⟨offset, length, available, hearly⟩
    by_contra hfits
    obtain ⟨descriptor, hok⟩ | ⟨text, -, -, hover⟩ := h.get_ok_or_overflow hsize hindex (Nat.not_le.1 hfits)
    · rw [hearly] at hok
      cases hok
    · rw [hearly] at hover
      cases hover
  · exact fun hcut => ⟨_, _, _, h.get_of_overruns hsize hindex hcut⟩

/-- With absolute addresses, a reading in order takes all descriptors that fit. -/
theorem collect_of_absolute (h : header.Sound image.size) (hsize : image.size < 1 <<< 63)
    (habsolute : header.textStart = none) :
    let table := DescriptorTable.ofHeader image header
    let fitting := header.fitting image.size
    ∃ read : Array Descriptor, read.size = min header.functionCount fitting ∧
      (∀ i (hi : i < read.size), table.get i = .ok read[i]) ∧
      table.collect = if header.functionCount ≤ fitting then .ok read
        else .error ⟨read, header.functionCount, .truncated
          (header.recordBase + 2 * header.wordWidth * fitting) (2 * header.wordWidth) image.size⟩ := by
  intro table fitting
  have hfits (i : Nat) (hi : i < min header.functionCount fitting) :
      ∃ descriptor, table.get i = .ok descriptor := by
    obtain hok | ⟨text, htext, -⟩ := h.get_ok_or_overflow hsize (by omega) (show i < fitting by omega)
    · exact hok
    · rw [habsolute] at htext
      cases htext
  obtain ⟨read, hread, hall⟩ := DescriptorTable.exists_read hfits
  refine ⟨read, hread, hall, ?_⟩
  by_cases hroom : header.functionCount ≤ fitting
  · rw [Nat.min_eq_left hroom] at hread
    rw [if_pos hroom]
    exact DescriptorTable.collect_eq_ok_iff.2 ⟨hread, hall⟩
  · have hlt := Nat.not_le.1 hroom
    rw [Nat.min_eq_right (Nat.le_of_lt hlt)] at hread
    rw [if_neg hroom]
    refine DescriptorTable.collect_eq_error_iff.2 ⟨rfl, by rw [hread]; exact hlt, hall, ?_⟩
    rw [hread]
    exact h.get_of_overruns hsize hlt (Nat.le_refl _)

end Sound

end Header

section
variable {image : Image} {anchor : Anchor} {header : Header}

/-- **Descriptors that run over the end come last.** Those that fit in the image behind the first one are
read, or have an address that is not representable; all others are reads behind the end. So all can be
read if the last one ends inside the image, and a reading in order stops at the first that does not. -/
theorem overrunning_records_come_last (hsize : image.size < 1 <<< 63)
    (h : Header.decode image anchor = .ok header) :
    let table := DescriptorTable.ofHeader image header
    let width := header.wordWidth
    let base := header.recordBase
    let fitting := (image.size - base) / (2 * width)
    (∀ i, i < header.functionCount →
      (EndsEarly (table.get i) ↔ fitting ≤ i) ∧
      (fitting ≤ i →
        table.get i = .error (.truncated (base + 2 * width * i) (2 * width) image.size)) ∧
      (i < fitting → (∃ descriptor, table.get i = .ok descriptor) ∨
        (header.release = .go118 ∨ header.release = .go120) ∧
        ∃ text, header.textStart = some text ∧
          wordLimit ≤ text + image.number (base + 2 * width * i) width ∧
          table.get i = .error (.corrupt
            (.addressOverflow (image.number (base + 2 * width * i) width) text)))) ∧
    (header.release = .go116 → ∃ read : Array Descriptor,
      read.size = min header.functionCount fitting ∧
      (∀ i (hi : i < read.size), table.get i = .ok read[i]) ∧
      table.collect = if header.functionCount ≤ fitting then .ok read
        else .error ⟨read, header.functionCount,
          .truncated (base + 2 * width * fitting) (2 * width) image.size⟩) ∧
    ((∀ i, i < header.functionCount → ¬ EndsEarly (table.get i)) ↔
      base + 2 * width * header.functionCount ≤ image.size) := by
  intro table width base fitting
  have hsound := Header.sound_of_decode h
  have hlater := Header.textStart_isSome_iff (Nat.lt_trans hsize (by decide)) h
  refine ⟨fun i hi => ⟨hsound.endsEarly_get_iff hsize hi, hsound.get_of_overruns hsize hi, fun hfit => ?_⟩,
    fun hearly => hsound.collect_of_absolute hsize ?_, ?_⟩
  · obtain hok | ⟨text, htext, hoverflow⟩ := hsound.get_ok_or_overflow hsize hi hfit
    · exact .inl hok
    · exact .inr ⟨hlater.1 (by rw [htext]; rfl), text, htext, hoverflow⟩
  · rw [hearly] at hlater
    simpa using hlater
  · rw [← hsound.le_fitting_iff]
    constructor
    · intro hall
      by_contra hshort
      have hfirst : header.fitting image.size < header.functionCount := Nat.not_le.1 hshort
      exact hall _ hfirst ((hsound.endsEarly_get_iff hsize hfirst).2 (Nat.le_refl _))
    · intro hall i hi hearly
      have := (hsound.endsEarly_get_iff hsize hi).1 hearly
      omega

end

/-- A table of one function in an image where the code starts at the greatest address; the descriptor
leads beyond it. -/
def highText : Image :=
  (Release.go118.signature ++ [1, 8] ++
    [1, 0, wordLimit - 1, 0, 0, 0, 0, 72].flatMap (LittleEndian.ofNat 8) ++
    [1, 0].flatMap (LittleEndian.ofNat 4)).toArray

/-- The image of two functions, cut inside the second descriptor, has room for the first one alone; and a
descriptor that fits can have an address that is not representable. -/
theorem overrunning_records_come_last_two_functions :
    let cut : Image := twoFunctions.extract 0 60
    let header := Header.readAt cut 1 .go116 4
    let table := DescriptorTable.ofHeader cut header
    let fault : Fault := .truncated 57 8 60
    let highHeader := Header.readAt highText 0 .go118 8
    let highTable := DescriptorTable.ofHeader highText highHeader
    cut.size < 1 <<< 63 ∧ Header.decode cut ⟨1, .go116⟩ = .ok header ∧ table.get 1 = .error fault ∧
    (∃ read : Array Descriptor, read.size = 1 ∧ (∀ i (hi : i < read.size), table.get i = .ok read[i]) ∧
      table.collect = .error ⟨read, 2, fault⟩) ∧
    highText.size < 1 <<< 63 ∧ Header.decode highText ⟨0, .go118⟩ = .ok highHeader ∧
    highTable.get 0 = .error (.corrupt (.addressOverflow 1 (wordLimit - 1))) ∧
    ∀ i, i < 1 → ¬ EndsEarly (highTable.get i) := by
  intro cut header table fault highHeader highTable
  have hsize : cut.size < 1 <<< 63 := by decide
  have hdecode : Header.decode cut ⟨1, .go116⟩ = .ok header := by decide +kernel
  obtain ⟨hrecords, hearly, -⟩ := overrunning_records_come_last hsize hdecode
  have hover := (hrecords 1 (by decide +kernel)).2.1 (by decide +kernel)
  obtain ⟨read, hread, hall, hcollect⟩ := hearly rfl
  have hhighSize : highText.size < 1 <<< 63 := by decide
  have hhighDecode : Header.decode highText ⟨0, .go118⟩ = .ok highHeader := by decide +kernel
  have hinside := (overrunning_records_come_last hhighSize hhighDecode).2.2
  refine ⟨hsize, hdecode, hover.trans (by decide +kernel), ⟨read, hread.trans (by decide +kernel), hall, ?_⟩,
    hhighSize, hhighDecode, by decide +kernel, ?_⟩
  · have hcount : header.functionCount = 2 := by decide +kernel
    have hfitting : (cut.size - header.recordBase) / (2 * header.wordWidth) = 1 := by decide +kernel
    have hplace : Fault.truncated (header.recordBase + 2 * header.wordWidth * 1) (2 * header.wordWidth)
        cut.size = fault := by decide +kernel
    rw [hfitting, hcount, hplace] at hcollect
    exact hcollect
  · have hcount : highHeader.functionCount = 1 := by decide +kernel
    rw [hcount] at hinside
    exact hinside.2 (by decide +kernel)

end Unstrip

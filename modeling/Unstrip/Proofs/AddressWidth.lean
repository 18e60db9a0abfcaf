import Unstrip.Proofs.Extension
import Unstrip.Proofs.Mismatch
import Unstrip.Proofs.Overrun

/-!
# The width of addresses

A header says how wide a pointer is, and an address is meant to be a pointer. If addresses are absolute, a
stored word is one; if they count from the start of the code, the sum of two words is checked. It is
checked against 64 bits, whatever a pointer has, so pointers of eight bytes are safe and those of four are
not (`Header.AddsNarrowWords`): there the sum of two words is never refused, and may have 33 bits.

`addresses_fit_unless_narrow` is what holds, and `address_beyond_narrow_pointer` a table that shows the gap.
-/

namespace Unstrip

variable {image : Image} {anchor : Anchor} {header : Header}

namespace Header

/-- One more than the greatest address that a pointer can hold. -/
def addressLimit (header : Header) : Nat := 1 <<< (8 * header.pointerWidth)

/-- Addresses are sums of two words of four bytes, which nobody checks against the width of a pointer. -/
def AddsNarrowWords (header : Header) : Prop :=
  header.pointerWidth = 4 ∧ header.textStart.isSome = true

instance (header : Header) : Decidable header.AddsNarrowWords := by
  unfold AddsNarrowWords
  infer_instance

/-- The address has the width of a pointer, or one bit more in a table that adds narrow words. -/
def Fits (header : Header) (address : Nat) : Prop :=
  address < header.addressLimit ∨ header.AddsNarrowWords ∧ address < 2 * header.addressLimit

/-- The address that a word stands for when it is counted from the start of the code. -/
def countedAddress (header : Header) (text entry : Nat) : Except Fault Nat :=
  if ¬ header.AddsNarrowWords ∧ header.addressLimit ≤ text + entry then
    .error (.corrupt (.addressOverflow entry text))
  else .ok (text + entry)

theorem Sound.addressLimit_eq {size : Nat} (h : header.Sound size) :
    header.addressLimit = LittleEndian.limit header.pointerWidth := by
  rw [addressLimit]
  obtain hp | hp := h.fourOrEight
  all_goals
    rw [hp]
    rfl

/-- The start of the code is a pointer. -/
theorem textStart_lt_addressLimit (h : decode image anchor = .ok header) {text : Nat}
    (htext : header.textStart = some text) : text < header.addressLimit := by
  rw [(sound_of_decode h).addressLimit_eq]
  obtain ⟨pointerWidth, -, -, -, -, rfl⟩ := exists_of_decode h
  obtain ⟨index, -, rfl⟩ := Option.map_eq_some_iff.1 htext
  exact Image.number_lt image _ pointerWidth

namespace Sound

variable {size : Nat}

/-- A word of a record is no wider than a pointer. -/
theorem number_lt_addressLimit (h : header.Sound size) (image : Image) (offset : Nat) :
    image.number offset header.wordWidth < header.addressLimit := by
  rw [h.addressLimit_eq]
  refine Nat.lt_of_lt_of_le (Image.number_lt image offset _) (LittleEndian.limit_le_limit ?_)
  have hpointer := h.fourOrEight
  have hword := header.wordWidth_eq_or_eq_four
  omega

/-- The check against 64 bits comes to one against the width of a pointer where pointers have 64 bits, and
to none at all where they have 32. -/
theorem absoluteAddress_eq (h : header.Sound size) {text entry : Nat} (htext : header.textStart = some text)
    (hstart : text < header.addressLimit) (hentry : entry < header.addressLimit) :
    absoluteAddress header.textStart entry = header.countedAddress text entry := by
  rw [htext]
  unfold absoluteAddress countedAddress
  obtain hp | hp := h.fourOrEight
  · have hnarrow : header.AddsNarrowWords := ⟨hp, by rw [htext]; rfl⟩
    have hlimit : header.addressLimit = 1 <<< 32 := by rw [addressLimit, hp]
    -- The sum has 33 bits at most, so a check against 64 bits lets it pass.
    have hsum : text + entry < wordLimit := by
      have : 1 <<< 32 + 1 <<< 32 ≤ wordLimit := by decide
      omega
    rw [if_neg fun hover => hover.1 hnarrow]
    exact if_pos hsum
  · have hwide : ¬ header.AddsNarrowWords := fun hnarrow => by
      have := hnarrow.1
      omega
    have hlimit : header.addressLimit = wordLimit := by
      rw [addressLimit, hp]
      rfl
    by_cases hsum : text + entry < wordLimit
    · rw [if_neg fun hover => by omega]
      exact if_pos hsum
    · rw [if_pos ⟨hwide, by omega⟩]
      exact if_neg hsum

/-- So an address fits, but for the one bit that the sum of two narrow words can carry. -/
theorem fits_of_absoluteAddress (h : header.Sound size)
    (hstart : ∀ text, header.textStart = some text → text < header.addressLimit) {entry address : Nat}
    (hentry : entry < header.addressLimit)
    (haddress : absoluteAddress header.textStart entry = .ok address) : header.Fits address := by
  cases htext : header.textStart with
  | none =>
    rw [htext] at haddress
    cases haddress
    exact .inl hentry
  | some text =>
    have hlow := hstart text htext
    rw [h.absoluteAddress_eq htext hlow hentry, countedAddress] at haddress
    split at haddress
    · cases haddress
    · rename_i hgood
      cases haddress
      by_cases hnarrow : header.AddsNarrowWords
      · exact .inr ⟨hnarrow, by omega⟩
      · exact .inl (Nat.not_le.1 fun hover => hgood ⟨hnarrow, hover⟩)

end Sound

end Header

/-! ## Records -/

namespace Header

namespace Sound

/-- A descriptor inside the image is read, and only its address can be bad. -/
theorem get_of_inside (h : header.Sound image.size) (hsize : image.size < 1 <<< 63) {index : Nat}
    (hindex : index < header.functionCount)
    (hin : header.descriptorAt index + header.descriptorSize ≤ image.size) :
    (DescriptorTable.ofHeader image header).get index =
      (absoluteAddress header.textStart (image.number (header.descriptorAt index) header.wordWidth)).map
        fun address =>
          ⟨address, image.number (header.descriptorAt index + header.wordWidth) header.wordWidth⟩ := by
  have hplace : header.descriptorAt index = header.recordBase + 2 * header.wordWidth * index := by
    rw [descriptorAt, descriptorSize, Nat.mul_comm index]
  rw [hplace] at hin ⊢
  exact h.get_of_fits hsize hindex (Nat.not_le.1 fun hcut => Nat.not_le.2 (h.fitting_le_iff.1 hcut) hin)

/-- A metadata record inside the image is read, and only its address can be bad. -/
theorem metadata_of_inside (h : header.Sound image.size) (hsize : image.size < wordLimit)
    (nameCap : Nat) {descriptor : Descriptor} {place : Nat}
    (hplace : place = header.recordBase + descriptor.metadataOffset)
    (hin : place + header.metadataSize ≤ image.size) :
    (NameTable.ofHeader image header nameCap).metadata descriptor =
      (absoluteAddress header.textStart (image.number place header.wordWidth)).map
        fun address => ⟨address, image.number (place + header.wordWidth) 4⟩ := by
  have hin' : place + (header.wordWidth + 4) ≤ image.size := hin
  have hposition : positionAfter header.recordBase descriptor.metadataOffset = .ok place :=
    positionAfter_eq_ok_iff.2 ⟨by omega, hplace⟩
  have hspan : image.span place (header.wordWidth + 4) = .ok () :=
    Image.span_eq_ok_iff.2 ⟨by omega, hin'⟩
  have hentry : image.readWord place header.wordWidth = .ok (image.number place header.wordWidth) :=
    (Image.readWord_eq_ok_iff h.wordWidth).2 ⟨by omega, by omega, rfl⟩
  have hname : image.readNumber (place + header.wordWidth) 4 =
      .ok (image.number (place + header.wordWidth) 4) :=
    Image.readNumber_eq_ok_iff.2 ⟨by omega, by omega, rfl⟩
  rw [NameTable.metadata]
  dsimp only [NameTable.ofHeader]
  simp only [hposition, bind, Except.bind, hspan, hentry, hname]
  rfl

end Sound

/-- What a word of a record comes to fits. -/
theorem fits_of_decode (h : decode image anchor = .ok header) {place : Nat}
    (haddress : header.textStart.getD 0 + image.number place header.wordWidth < wordLimit) :
    header.Fits (header.textStart.getD 0 + image.number place header.wordWidth) := by
  have hsound := sound_of_decode h
  refine hsound.fits_of_absoluteAddress (fun text htext => textStart_lt_addressLimit h htext)
    (hsound.number_lt_addressLimit image place) ?_
  exact (absoluteAddress_eq_ok_iff (Image.number_lt_wordLimit hsound.wordWidth place)).2 ⟨haddress, rfl⟩

theorem get_fits (h : decode image anchor = .ok header) {index : Nat} {descriptor : Descriptor}
    (hget : (DescriptorTable.ofHeader image header).get index = .ok descriptor) :
    header.Fits descriptor.address := by
  obtain ⟨-, -, -, haddress, rfl⟩ := (DescriptorTable.get_eq_ok_iff (sound_of_decode h).wordWidth).1 hget
  exact fits_of_decode h haddress

theorem metadata_fits (h : decode image anchor = .ok header) {nameCap : Nat} {descriptor : Descriptor}
    {metadata : Metadata}
    (hread : (NameTable.ofHeader image header nameCap).metadata descriptor = .ok metadata) :
    header.Fits metadata.address := by
  obtain ⟨-, -, haddress, rfl⟩ := (NameTable.metadata_eq_ok_iff (sound_of_decode h).wordWidth).1 hread
  exact fits_of_decode h haddress

end Header

/-! ## Symbols -/

section
variable {options : Options} {cores : Nat}

/-- An extraction keeps no symbol but those that its build has resolved. -/
theorem Extraction.recovered_build_isPrefix (image : Image) (options : Options) (cores : Nat)
    (header : Header) :
    recovered (build image options cores header) <+:
      resolved (buildTable image header options cores).value := by
  unfold build
  cases (buildTable image header options cores).value with
  | ok table => exact List.prefix_rfl
  | error stop => exact kept_isPrefix stop

/-- Every symbol of an extraction tells the addresses of one of the records. -/
theorem exists_of_recovered (hfind : Anchor.find image = .ok anchor)
    (h : Header.decode image anchor = .ok header) {symbol : Symbol}
    (hsymbol : symbol ∈ recovered (extract image options cores).value) :
    ∃ i, symbol.TellsAddresses (Records.ofHeader image header options.nameCap) header image i := by
  rw [extract_of_decode_ok hfind h] at hsymbol
  have hresolved := (Extraction.recovered_build_isPrefix image options cores header).mem hsymbol
  obtain ⟨i, hi⟩ := List.getElem?_of_mem hresolved
  exact ⟨i, (Header.sound_of_decode h).tellsAddresses (symbolAt_of_resolved hi)⟩

end

/-- **Addresses fit, unless narrow words are added.** The addresses of descriptors, of metadata records and
of symbols are below the limit of a pointer, and below twice the limit if they are sums of two words of four
bytes. Such a sum is never refused; any other sum that a pointer cannot hold is refused, and reported with
both its words. -/
theorem addresses_fit_unless_narrow (hsize : image.size < 1 <<< 63)
    (h : Header.decode image anchor = .ok header) (nameCap : Nat) :
    let table := DescriptorTable.ofHeader image header
    let names := NameTable.ofHeader image header nameCap
    let width := header.wordWidth
    (∀ i descriptor, table.get i = .ok descriptor → header.Fits descriptor.address) ∧
    (∀ descriptor metadata, names.metadata descriptor = .ok metadata → header.Fits metadata.address) ∧
    (Anchor.find image = .ok anchor → ∀ options cores,
      ∀ symbol ∈ recovered (extract image options cores).value, header.Fits symbol.address ∧
        ∀ address, symbol.metadataAddress = some address → header.Fits address) ∧
    (∀ text, header.textStart = some text →
      (∀ i, i < header.functionCount → header.descriptorAt i + header.descriptorSize ≤ image.size →
        table.get i = (header.countedAddress text (image.number (header.descriptorAt i) width)).map
          fun address => ⟨address, image.number (header.descriptorAt i + width) width⟩) ∧
      (∀ descriptor : Descriptor, let place := header.recordBase + descriptor.metadataOffset
        place + header.metadataSize ≤ image.size →
        names.metadata descriptor = (header.countedAddress text (image.number place width)).map
          fun address => ⟨address, image.number (place + width) 4⟩)) := by
  intro table names width
  have hsound := Header.sound_of_decode h
  have hstart (text : Nat) (htext : header.textStart = some text) : text < header.addressLimit :=
    Header.textStart_lt_addressLimit h htext
  have hword (place : Nat) : image.number place width < header.addressLimit :=
    hsound.number_lt_addressLimit image place
  refine ⟨fun i descriptor hget => Header.get_fits h hget,
    fun descriptor metadata hread => Header.metadata_fits h hread,
    fun hfind options cores symbol hsymbol => ?_, fun text htext => ⟨fun i hi hin => ?_, ?_⟩⟩
  · obtain ⟨i, htells⟩ := exists_of_recovered hfind h hsymbol
    obtain ⟨descriptor, metadata, hget, hread, hsame, hother⟩ := htells.decoded
    refine ⟨hsame ▸ Header.get_fits h hget, fun address haddress => ?_⟩
    rw [(hother address haddress).1]
    exact Header.metadata_fits h hread
  · rw [hsound.get_of_inside hsize hi hin, hsound.absoluteAddress_eq htext (hstart text htext) (hword _)]
  · intro descriptor place hin
    rw [hsound.metadata_of_inside (Nat.lt_trans hsize (by decide)) nameCap rfl hin,
      hsound.absoluteAddress_eq htext (hstart text htext) (hword _)]

/-- A table of one function with pointers of four bytes, where the code starts at the greatest address; the
descriptor leads one byte beyond it, and the metadata record two. -/
def narrowText : Image :=
  (Release.go118.signature ++ [1, 4] ++
    [1, 0, 0xffffffff, 40, 42, 42, 42, 42].flatMap (LittleEndian.ofNat 4) ++ [97, 0] ++
    [1, 8, 2, 0].flatMap (LittleEndian.ofNat 4)).toArray

/-- The sums of narrow words are returned, though a pointer cannot hold them; in the image where pointers
are wide, the sum is refused. -/
theorem addresses_fit_unless_narrow_both :
    let header := Header.readAt narrowText 0 .go118 4
    let symbol : Symbol := ⟨"a", 1 <<< 32, some (1 <<< 32 + 1)⟩
    let wide := Header.readAt highText 0 .go118 8
    narrowText.size < 1 <<< 63 ∧ Header.decode narrowText ⟨0, .go118⟩ = .ok header ∧
    Anchor.find narrowText = .ok ⟨0, .go118⟩ ∧
    symbol ∈ recovered (extract narrowText {} 1).value ∧ header.Fits symbol.address ∧
    header.Fits (1 <<< 32 + 1) ∧
    (DescriptorTable.ofHeader narrowText header).get 0 = .ok ⟨1 <<< 32, 8⟩ ∧
    (NameTable.ofHeader narrowText header 0).metadata ⟨0, 8⟩ = .ok ⟨1 <<< 32 + 1, 0⟩ ∧
    highText.size < 1 <<< 63 ∧ Header.decode highText ⟨0, .go118⟩ = .ok wide ∧
    (DescriptorTable.ofHeader highText wide).get 0 =
      .error (.corrupt (.addressOverflow 1 (wordLimit - 1))) := by
  intro header symbol wide
  have hsize : narrowText.size < 1 <<< 63 := by decide
  have hdecode : Header.decode narrowText ⟨0, .go118⟩ = .ok header := by decide +kernel
  have hfind : Anchor.find narrowText = .ok ⟨0, .go118⟩ := by decide +kernel
  have hsymbol : symbol ∈ recovered (extract narrowText {} 1).value := by decide +kernel
  obtain ⟨-, -, hsymbols, hsums⟩ := addresses_fit_unless_narrow hsize hdecode 0
  obtain ⟨haddress, hother⟩ := hsymbols hfind {} 1 symbol hsymbol
  obtain ⟨hget, hread⟩ := hsums 0xffffffff (by decide +kernel)
  have hwideSize : highText.size < 1 <<< 63 := by decide
  have hwide : Header.decode highText ⟨0, .go118⟩ = .ok wide := by decide +kernel
  have hrefused := ((addresses_fit_unless_narrow hwideSize hwide 0).2.2.2 (wordLimit - 1)
    (by decide +kernel)).1 0 (by decide +kernel) (by decide +kernel)
  exact ⟨hsize, hdecode, hfind, hsymbol, haddress, hother _ rfl,
    (hget 0 (by decide +kernel) (by decide +kernel)).trans (by decide +kernel),
    (hread ⟨0, 8⟩ (by decide +kernel)).trans (by decide +kernel),
    hwideSize, hwide, hrefused.trans (by decide +kernel)⟩

/-- The address of the one function needs 33 bits, in a table whose pointers have 32. -/
theorem address_beyond_narrow_pointer :
    let header := Header.readAt narrowText 0 .go118 4
    Anchor.find narrowText = .ok ⟨0, .go118⟩ ∧ Header.decode narrowText ⟨0, .go118⟩ = .ok header ∧
    (DescriptorTable.ofHeader narrowText header).get 0 = .ok ⟨1 <<< 32, 8⟩ ∧
    (extract narrowText {} 1).value =
      .ok (SymbolTable.ofList [⟨"a", 1 <<< 32, some (1 <<< 32 + 1)⟩]) ∧
    ¬ 1 <<< 32 < 1 <<< (8 * header.pointerWidth) := by
  decide +kernel

end Unstrip

import Unstrip.Proofs.Format

/-!
# Bytes in front of a table

A table stores offsets from its header, but every check is made on positions in the image. So a table
that stands somewhere else is read through other numbers, and comes to the same symbols all the same
(`same_table_behind_anchor`). `SameFrom` relates two places with the same bytes behind them; it passes on
to places equally far behind, and so from the header to every part of the table. The images are those
that have an address for each of their bytes: behind the last address nothing could be read.
-/

namespace Unstrip

/-! ## Places with the same bytes behind them -/

/-- The two images go on in the same way from the two places. -/
structure SameFrom (image₁ image₂ : Image) (place₁ place₂ : Nat) : Prop where
  bytes : image₁.toList.drop place₁ = image₂.toList.drop place₂
  fits_iff : ∀ length, place₁ + length ≤ image₁.size ↔ place₂ + length ≤ image₂.size

namespace SameFrom

variable {image₁ image₂ : Image} {place₁ place₂ : Nat}

theorem of_bytes (h₁ : place₁ ≤ image₁.size) (h₂ : place₂ ≤ image₂.size)
    (h : image₁.toList.drop place₁ = image₂.toList.drop place₂) :
    SameFrom image₁ image₂ place₁ place₂ := by
  refine ⟨h, fun length => ?_⟩
  have hlen := congrArg List.length h
  simp only [List.length_drop, Array.length_toList] at hlen
  omega

theorem symm (h : SameFrom image₁ image₂ place₁ place₂) : SameFrom image₂ image₁ place₂ place₁ :=
  ⟨h.bytes.symm, fun length => (h.fits_iff length).symm⟩

theorem add (h : SameFrom image₁ image₂ place₁ place₂) (offset : Nat) :
    SameFrom image₁ image₂ (place₁ + offset) (place₂ + offset) := by
  refine ⟨?_, fun length => ?_⟩
  · rw [← List.drop_drop, ← List.drop_drop, h.bytes]
  · rw [Nat.add_assoc, Nat.add_assoc]
    exact h.fits_iff (offset + length)

theorem slice_eq (h : SameFrom image₁ image₂ place₁ place₂) (length : Nat) :
    image₁.slice place₁ length = image₂.slice place₂ length := by
  rw [Image.slice_eq, Image.slice_eq, h.bytes]

theorem number_eq (h : SameFrom image₁ image₂ place₁ place₂) (width : Nat) :
    image₁.number place₁ width = image₂.number place₂ width := by
  rw [Image.number, Image.number, h.slice_eq]

theorem getElem?_eq (h : SameFrom image₁ image₂ place₁ place₂) (offset : Nat) :
    image₁[place₁ + offset]? = image₂[place₂ + offset]? := by
  rw [← Array.getElem?_toList, ← Array.getElem?_toList, ← List.getElem?_drop, ← List.getElem?_drop,
    h.bytes]

theorem zeroAfter (h : SameFrom image₁ image₂ place₁ place₂) {length : Nat}
    (hzero : image₁.ZeroAfter place₁ length) : image₂.ZeroAfter place₂ length := by
  refine ⟨?_, fun j hj => ?_⟩
  · rw [← h.getElem?_eq]
    exact hzero.1
  · rw [← h.getElem?_eq]
    exact hzero.2 j hj

end SameFrom

/-! ## Tables in two places -/

namespace Site

variable {image₁ image₂ : Image} {site₁ : Site image₁} {site₂ : Site image₂}

/-- One table in two places. -/
structure SameTable (site₁ : Site image₁) (site₂ : Site image₂) : Prop where
  release : site₁.release = site₂.release
  pointerWidth : site₁.pointerWidth = site₂.pointerWidth
  from_anchor : SameFrom image₁ image₂ site₁.anchor site₂.anchor

namespace SameTable

theorem symm (h : SameTable site₁ site₂) : SameTable site₂ site₁ :=
  ⟨h.release.symm, h.pointerWidth.symm, h.from_anchor.symm⟩

theorem word_eq (h : SameTable site₁ site₂) (index : Nat) : site₁.word index = site₂.word index := by
  unfold word
  rw [h.pointerWidth]
  exact ((h.from_anchor.add 8).add _).number_eq _

theorem extra_eq (h : SameTable site₁ site₂) : site₁.extra = site₂.extra := by
  unfold extra
  rw [h.release]

theorem width_eq (h : SameTable site₁ site₂) : site₁.width = site₂.width := by
  unfold width
  rw [h.release, h.pointerWidth]

theorem textStart_eq (h : SameTable site₁ site₂) : site₁.textStart = site₂.textStart := by
  unfold textStart
  rw [h.release, h.word_eq]

theorem functionCount_eq (h : SameTable site₁ site₂) : site₁.functionCount = site₂.functionCount :=
  h.word_eq 0

/-- The offsets in the header are the same. -/
theorem offset_eq (h : SameTable site₁ site₂) (index : Nat) :
    site₁.word (index + site₁.extra) = site₂.word (index + site₂.extra) := by
  rw [h.extra_eq, h.word_eq]

theorem offset_inside (h : SameTable site₁ site₂) (index : Nat)
    (hin : site₁.anchor + site₁.word (index + site₁.extra) ≤ image₁.size) :
    site₂.anchor + site₂.word (index + site₂.extra) ≤ image₂.size := by
  rw [← h.offset_eq]
  exact (h.from_anchor.fits_iff _).1 hin

theorem from_base (h : SameTable site₁ site₂) : SameFrom image₁ image₂ site₁.base site₂.base := by
  unfold base recordOffset
  rw [h.offset_eq]
  exact h.from_anchor.add _

theorem from_descriptor (h : SameTable site₁ site₂) (index : Nat) :
    SameFrom image₁ image₂ (site₁.descriptorAt index) (site₂.descriptorAt index) := by
  unfold descriptorAt
  rw [h.width_eq]
  exact h.from_base.add _

theorem entry_eq (h : SameTable site₁ site₂) (index : Nat) : site₁.entry index = site₂.entry index := by
  unfold entry
  rw [h.width_eq]
  exact (h.from_descriptor index).number_eq _

theorem from_metadata (h : SameTable site₁ site₂) (index : Nat) :
    SameFrom image₁ image₂ (site₁.metadataAt index) (site₂.metadataAt index) := by
  unfold metadataAt
  rw [h.width_eq, ((h.from_descriptor index).add _).number_eq]
  exact h.from_base.add _

theorem metadataEntry_eq (h : SameTable site₁ site₂) (index : Nat) :
    site₁.metadataEntry index = site₂.metadataEntry index := by
  unfold metadataEntry
  rw [h.width_eq]
  exact (h.from_metadata index).number_eq _

theorem from_name (h : SameTable site₁ site₂) (index : Nat) :
    SameFrom image₁ image₂ (site₁.nameAt index) (site₂.nameAt index) := by
  unfold nameAt nameOffset
  rw [h.offset_eq, h.width_eq, ((h.from_metadata index).add _).number_eq]
  exact (h.from_anchor.add _).add _

theorem isRecord (h : SameTable site₁ site₂) {cap index : Nat} {symbol : Symbol}
    (hrecord : site₁.IsRecord cap index symbol) : site₂.IsRecord cap index symbol := by
  constructor
  case descriptor =>
    rw [← h.width_eq]
    exact ((h.from_descriptor index).fits_iff _).1 hrecord.descriptor
  case metadata =>
    rw [← h.width_eq]
    exact ((h.from_metadata index).fits_iff _).1 hrecord.metadata
  case name =>
    obtain ⟨length, hcap, hzero, hname⟩ := hrecord.name
    refine ⟨length, hcap, (h.from_name index).zeroAfter hzero, ?_⟩
    rw [← (h.from_name index).slice_eq]
    exact hname
  all_goals simp only [← h.textStart_eq, ← h.entry_eq, ← h.metadataEntry_eq]
  case representable => exact hrecord.representable
  case metadataRepresentable => exact hrecord.metadataRepresentable
  case address => exact hrecord.address
  case metadataAddress => exact hrecord.metadataAddress

/-- Where all records are good, the last of them shows that there is room for all: the room that is
asked of the whole image is there behind the header. -/
theorem room_of_isRecord (h : SameTable site₁ site₂) {cap : Nat}
    (hrecord : ∀ i, i < site₁.functionCount → ∃ symbol, site₁.IsRecord cap i symbol) :
    site₂.functionCount * (2 * site₂.width) ≤ image₂.size := by
  rw [← h.functionCount_eq]
  cases hcount : site₁.functionCount with
  | zero => simp
  | succ last =>
    obtain ⟨symbol, hsymbol⟩ := hrecord last (by omega)
    have hlast := (h.isRecord hsymbol).descriptor
    unfold descriptorAt at hlast
    rw [Nat.succ_mul]
    omega

/-- Only the room for the records is asked of the image as a whole. -/
theorem isTable (h : SameTable site₁ site₂) (htable : site₁.IsTable)
    (hlow : ∀ j, j < site₂.anchor → ∀ release : Release, image₂.slice j 6 ≠ release.signature)
    (hroom : site₂.functionCount * (2 * site₂.width) ≤ image₂.size) : site₂.IsTable := by
  constructor
  case signature =>
    rw [← h.from_anchor.slice_eq, ← h.release]
    exact htable.signature
  case lowest => exact hlow
  case pointer =>
    rw [← (h.from_anchor.add 7).number_eq, ← h.pointerWidth]
    exact htable.pointer
  case fourOrEight => exact h.pointerWidth ▸ htable.fourOrEight
  case header =>
    rw [← h.pointerWidth, ← h.extra_eq, Nat.add_assoc]
    exact (h.from_anchor.fits_iff _).1 (by rw [← Nat.add_assoc]; exact htable.header)
  case names => exact h.offset_inside 2 htable.names
  case units => exact h.offset_inside 3 htable.units
  case fileTable => exact h.offset_inside 4 htable.fileTable
  case pcTable => exact h.offset_inside 5 htable.pcTable
  case records => exact h.offset_inside 6 htable.records
  case room => exact hroom

end SameTable

/-- A header that has been found and decoded is that of a table. -/
theorem exists_of_decode {image : Image} (hsize : image.size < wordLimit) {anchor : Anchor} {header : Header}
    (hfind : Anchor.find image = .ok anchor) (hdecode : Header.decode image anchor = .ok header) :
    ∃ pointerWidth, pointerWidth = image.number (anchor.offset + 7) 1 ∧
      let site : Site image := ⟨anchor.offset, anchor.release, pointerWidth⟩
      site.IsTable ∧ header = site.read := by
  obtain ⟨hsig, -⟩ := Anchor.find_eq_ok_iff.1 hfind
  obtain ⟨pointerWidth, hp, -, -, -, -, rfl⟩ := (Header.decode_eq_ok_iff hsize hsig).1 hdecode
  exact ⟨pointerWidth, hp, (isTable_iff hsize).2 ⟨hfind, hdecode⟩, rfl⟩

/-- One table is read in two places in the same way. -/
theorem SameTable.symbolAt (h : SameTable site₁ site₂) (hsize₁ : image₁.size < wordLimit)
    (hsize₂ : image₂.size < wordLimit) (htable₁ : site₁.IsTable) (htable₂ : site₂.IsTable)
    {cap index : Nat} {symbol : Symbol}
    (hsymbol : (Records.ofHeader image₁ site₁.read cap).symbolAt index = .ok symbol) :
    (Records.ofHeader image₂ site₂.read cap).symbolAt index = .ok symbol := by
  obtain ⟨hlt, hrecord⟩ := (symbolAt_eq_ok_iff hsize₁ htable₁).1 hsymbol
  exact (symbolAt_eq_ok_iff hsize₂ htable₂).2 ⟨h.functionCount_eq ▸ hlt, h.isRecord hrecord⟩

theorem SameTable.read_functionCount_eq (h : SameTable site₁ site₂) :
    site₁.read.functionCount = site₂.read.functionCount := by
  rw [read_functionCount, read_functionCount, h.functionCount_eq]

theorem SameTable.buildTable_ok (h : SameTable site₁ site₂) (hsize₁ : image₁.size < wordLimit)
    (hsize₂ : image₂.size < wordLimit) (htable₁ : site₁.IsTable) (htable₂ : site₂.IsTable)
    {options : Options} {cores : Nat} {table : SymbolTable}
    (hbuild : (buildTable image₁ site₁.read options cores).value = .ok table) :
    (buildTable image₂ site₂.read options cores).value = .ok table := by
  obtain ⟨symbols, hcount, hsymbols, rfl⟩ := buildTable_eq_ok_iff.1 hbuild
  refine buildTable_eq_ok_iff.2 ⟨symbols, hcount.trans h.read_functionCount_eq, fun i hi => ?_, rfl⟩
  exact h.symbolAt hsize₁ hsize₂ htable₁ htable₂ (hsymbols i hi)

theorem SameTable.resolved_isPrefix (h : SameTable site₁ site₂) (hsize₁ : image₁.size < wordLimit)
    (hsize₂ : image₂.size < wordLimit) (htable₁ : site₁.IsTable) (htable₂ : site₂.IsTable)
    (options : Options) (cores : Nat) :
    resolved (buildTable image₁ site₁.read options cores).value <+:
      resolved (buildTable image₂ site₂.read options cores).value := by
  refine Unstrip.resolved_isPrefix (Nat.le_of_eq h.read_functionCount_eq) fun i symbol hsymbol => ?_
  exact h.symbolAt hsize₁ hsize₂ htable₁ htable₂ hsymbol

end Site

/-! ## Extractions -/

section
variable {image₁ image₂ : Image} {anchor₁ anchor₂ : Anchor}

/-- The same bytes begin with the same signature. -/
theorem Anchor.release_eq_of_sameFrom (hfind₁ : Anchor.find image₁ = .ok anchor₁)
    (hfind₂ : Anchor.find image₂ = .ok anchor₂)
    (hsame : SameFrom image₁ image₂ anchor₁.offset anchor₂.offset) :
    anchor₁.release = anchor₂.release := by
  apply Release.signature_injective
  rw [← (find_eq_ok_iff.1 hfind₁).1, ← (find_eq_ok_iff.1 hfind₂).1]
  exact hsame.slice_eq 6

theorem Anchor.offset_le_size (hfind₁ : Anchor.find image₁ = .ok anchor₁) :
    anchor₁.offset ≤ image₁.size := by
  have := Image.lt_size_of_signature (find_eq_ok_iff.1 hfind₁).1
  omega

theorem extract_ok_of_sameFrom (hsize₁ : image₁.size < wordLimit) (hsize₂ : image₂.size < wordLimit)
    (hfind₁ : Anchor.find image₁ = .ok anchor₁) (hfind₂ : Anchor.find image₂ = .ok anchor₂)
    (hsame : SameFrom image₁ image₂ anchor₁.offset anchor₂.offset) {options : Options} {cores : Nat}
    {table : SymbolTable} (h : (extract image₁ options cores).value = .ok table) :
    (extract image₂ options cores).value = .ok table := by
  obtain ⟨anchor, header, hfind, hdecode, hbuild⟩ := extract_eq_ok_iff.1 h
  obtain rfl : anchor = anchor₁ := Except.ok.inj (hfind.symm.trans hfind₁)
  obtain ⟨pointerWidth, -, htable₁, rfl⟩ := Site.exists_of_decode hsize₁ hfind₁ hdecode
  have htwo : Site.SameTable (⟨anchor.offset, anchor.release, pointerWidth⟩ : Site image₁)
      (⟨anchor₂.offset, anchor₂.release, pointerWidth⟩ : Site image₂) :=
    ⟨Anchor.release_eq_of_sameFrom hfind₁ hfind₂ hsame, rfl, hsame⟩
  have hroom := htwo.room_of_isRecord fun i hi => by
    obtain ⟨symbols, hcount, hsymbols, -⟩ := buildTable_eq_ok_iff.1 hbuild
    rw [Site.read_functionCount] at hcount
    have hi : i < symbols.size := by omega
    exact ⟨symbols[i], ((Site.symbolAt_eq_ok_iff hsize₁ htable₁).1 (hsymbols i hi)).2⟩
  have htable₂ := htwo.isTable htable₁ (Anchor.find_eq_ok_iff.1 hfind₂).2 hroom
  obtain ⟨-, hdecode₂⟩ := (Site.isTable_iff hsize₂).1 htable₂
  exact extract_eq_ok_iff.2 ⟨anchor₂, _, hfind₂, hdecode₂,
    htwo.buildTable_ok hsize₁ hsize₂ htable₁ htable₂ hbuild⟩

/-- **What stands in front of a table does not matter.** Take two images with the same bytes from
their anchors on. A table that is recovered from one is recovered from the other. If both headers are
accepted, the two builds get equally far and resolve the same symbols, also where they stop for
different reasons. -/
theorem same_table_behind_anchor (hsize₁ : image₁.size < wordLimit) (hsize₂ : image₂.size < wordLimit)
    (hfind₁ : Anchor.find image₁ = .ok anchor₁) (hfind₂ : Anchor.find image₂ = .ok anchor₂)
    (hbytes : image₁.toList.drop anchor₁.offset = image₂.toList.drop anchor₂.offset)
    (options : Options) (cores : Nat) :
    (∀ table, (extract image₁ options cores).value = .ok table ↔
      (extract image₂ options cores).value = .ok table) ∧
    (∀ header₁ header₂, Header.decode image₁ anchor₁ = .ok header₁ →
      Header.decode image₂ anchor₂ = .ok header₂ →
      header₁.functionCount = header₂.functionCount ∧
      resolved (buildTable image₁ header₁ options cores).value =
        resolved (buildTable image₂ header₂ options cores).value ∧
      ∀ table, (buildTable image₁ header₁ options cores).value = .ok table ↔
        (buildTable image₂ header₂ options cores).value = .ok table) := by
  have hsame : SameFrom image₁ image₂ anchor₁.offset anchor₂.offset :=
    .of_bytes (Anchor.offset_le_size hfind₁) (Anchor.offset_le_size hfind₂) hbytes
  have hextract : ∀ table, (extract image₁ options cores).value = .ok table ↔
      (extract image₂ options cores).value = .ok table := fun table =>
    ⟨extract_ok_of_sameFrom hsize₁ hsize₂ hfind₁ hfind₂ hsame,
      extract_ok_of_sameFrom hsize₂ hsize₁ hfind₂ hfind₁ hsame.symm⟩
  refine ⟨hextract, ?_⟩
  intro header₁ header₂ hdecode₁ hdecode₂
  obtain ⟨width₁, hwidth₁, htable₁, rfl⟩ := Site.exists_of_decode hsize₁ hfind₁ hdecode₁
  obtain ⟨width₂, hwidth₂, htable₂, rfl⟩ := Site.exists_of_decode hsize₂ hfind₂ hdecode₂
  have htwo : Site.SameTable (⟨anchor₁.offset, anchor₁.release, width₁⟩ : Site image₁)
      (⟨anchor₂.offset, anchor₂.release, width₂⟩ : Site image₂) := by
    refine ⟨Anchor.release_eq_of_sameFrom hfind₁ hfind₂ hsame, ?_, hsame⟩
    show width₁ = width₂
    rw [hwidth₁, hwidth₂, (hsame.add 7).number_eq]
  refine ⟨htwo.read_functionCount_eq, ?_, fun table => ⟨?_, ?_⟩⟩
  · have hone := htwo.resolved_isPrefix hsize₁ hsize₂ htable₁ htable₂ options cores
    have hother := htwo.symm.resolved_isPrefix hsize₂ hsize₁ htable₂ htable₁ options cores
    exact hone.eq_of_length_le hother.length_le
  · exact htwo.buildTable_ok hsize₁ hsize₂ htable₁ htable₂
  · exact htwo.symm.buildTable_ok hsize₂ hsize₁ htable₂ htable₁

end

/-- The two functions behind three other bytes; with a cap of two bytes only the first is resolved. -/
theorem same_table_behind_anchor_two_functions :
    let moved : Image := #[1, 2, 3] ++ twoFunctions.extract 1 81
    let options : Options := { nameCap := 2 }
    let header₁ := Header.readAt twoFunctions 1 .go116 4
    let header₂ := Header.readAt moved 3 .go116 4
    twoFunctions.size < wordLimit ∧ moved.size < wordLimit ∧
    Anchor.find twoFunctions = .ok ⟨1, .go116⟩ ∧ Anchor.find moved = .ok ⟨3, .go116⟩ ∧
    twoFunctions.toList.drop 1 = moved.toList.drop 3 ∧
    Header.decode twoFunctions ⟨1, .go116⟩ = .ok header₁ ∧ Header.decode moved ⟨3, .go116⟩ = .ok header₂ ∧
    resolved (buildTable twoFunctions header₁ options 1).value = [⟨"a", 4096, none⟩] ∧
    resolved (buildTable twoFunctions header₁ options 1).value =
      resolved (buildTable moved header₂ options 1).value := by
  intro moved options header₁ header₂
  have hsize₁ : twoFunctions.size < wordLimit := by decide
  have hsize₂ : moved.size < wordLimit := by decide +kernel
  have hfind₁ : Anchor.find twoFunctions = .ok ⟨1, .go116⟩ := rfl
  have hfind₂ : Anchor.find moved = .ok ⟨3, .go116⟩ := by decide +kernel
  have hbytes : twoFunctions.toList.drop 1 = moved.toList.drop 3 := by decide +kernel
  have hdecode₁ : Header.decode twoFunctions ⟨1, .go116⟩ = .ok header₁ := rfl
  have hdecode₂ : Header.decode moved ⟨3, .go116⟩ = .ok header₂ := by decide +kernel
  have hboth := same_table_behind_anchor hsize₁ hsize₂ hfind₁ hfind₂ hbytes options 1
  exact ⟨hsize₁, hsize₂, hfind₁, hfind₂, hbytes, hdecode₁, hdecode₂, by decide +kernel,
    (hboth.2 _ _ hdecode₁ hdecode₂).2.1⟩

end Unstrip

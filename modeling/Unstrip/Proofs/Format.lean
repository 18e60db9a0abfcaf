import Unstrip.Proofs.Extraction
import Unstrip.Proofs.Utf8

/-!
# The format that is read

A `Site` is a place where a table may stand. It gives the positions of the table's parts in plain
numbers: `Site.IsTable` says when a table stands there, and `Site.IsRecord` which symbol a record of
it stands for. The stages of an extraction come to the same thing (`succeeds_on_described_tables`).

Bytes in memory have positions of 64 bits, so the images here have fewer than `wordLimit` bytes.
-/

namespace Unstrip

/-! ## Signatures -/

/-- A stretch of a stretch. -/
theorem Image.slice_slice (image : Image) (offset length inner count : Nat) (h : inner + count ≤ length) :
    ((image.slice offset length).drop inner).take count = image.slice (offset + inner) count := by
  rw [slice_eq, slice_eq, List.drop_take, List.take_take, List.drop_drop,
    Nat.min_eq_left (by omega)]

theorem Release.signature_injective {release release' : Release}
    (h : release.signature = release'.signature) : release = release' := by
  cases release <;> cases release' <;> first | rfl | exact absurd h (by decide)

theorem Release.signature_ne_nil (release : Release) : release.signature ≠ [] := by cases release <;> decide

/-- A signature is the magic number and the two zero bytes after it. -/
theorem Image.numbers_of_signature {image : Image} {offset : Nat} {release : Release}
    (h : image.slice offset 6 = release.signature) :
    image.number offset 4 = release.magic ∧ image.number (offset + 4) 2 = 0 := by
  have hmagic := slice_slice image offset 6 0 4 (by decide)
  have hzeros := slice_slice image offset 6 4 2 (by decide)
  rw [h] at hmagic hzeros
  rw [number, number, ← hzeros, show image.slice offset 4 = image.slice (offset + 0) 4 from rfl, ← hmagic]
  cases release <;> decide

/-- A signature is not empty, so it stands inside the image. -/
theorem Image.lt_size_of_signature {image : Image} {offset : Nat} {release : Release}
    (h : image.slice offset 6 = release.signature) : offset + 6 ≤ image.size := by
  have hlen := congrArg List.length h
  rw [length_slice, Release.length_signature] at hlen
  omega

namespace Anchor

variable {image : Image}

theorem releaseAt?_eq_some_iff {offset : Nat} {release : Release} :
    releaseAt? image offset = some release ↔ image.slice offset 6 = release.signature := by
  have hhas : ∀ release : Release,
      image.hasAt release.signature offset = true ↔ image.slice offset 6 = release.signature :=
    fun release => by rw [Image.hasAt_iff, Release.length_signature]
  unfold releaseAt?
  constructor
  · intro h
    obtain ⟨⟨found, signature⟩, hfind, rfl⟩ := Option.map_eq_some_iff.1 h
    obtain ⟨release, -, hpair⟩ := List.mem_map.1 (List.mem_of_find?_eq_some hfind)
    cases hpair
    have hfound : image.hasAt found.signature offset = true := by simpa using List.find?_some hfind
    exact (hhas _).1 hfound
  · intro h
    have honly : ∀ other : Release, image.hasAt other.signature offset = decide (other = release) := by
      intro other
      rw [Bool.eq_iff_iff, hhas, decide_eq_true_iff, h]
      exact ⟨fun heq => (Release.signature_injective heq).symm, fun heq => heq ▸ rfl⟩
    simp only [signatures, Release.all, List.map_cons, List.map_nil, List.find?_cons, honly]
    cases release <;> rfl

/-- The anchor is the lowest position with a supported signature. -/
theorem find_eq_ok_iff {anchor : Anchor} :
    find image = .ok anchor ↔
      image.slice anchor.offset 6 = anchor.release.signature ∧
        ∀ j, j < anchor.offset → ∀ release : Release, image.slice j 6 ≠ release.signature := by
  have hfirst : find image = .ok anchor ↔ first? image = some anchor := by
    unfold find
    split
    · rename_i h; simp [h]
    · rename_i h; split <;> simp [h]
  have hnone : ∀ j, (releaseAt? image j).isSome = false ↔
      ∀ release : Release, image.slice j 6 ≠ release.signature := by
    intro j
    simp only [Option.isSome_eq_false_iff, Option.isNone_iff_eq_none, Option.eq_none_iff_forall_ne_some,
      ne_eq, releaseAt?_eq_some_iff]
  rw [hfirst, first?]
  simp only [bind, Option.bind_eq_some_iff, Image.firstFrom_eq_some_iff, hnone, releaseAt?_eq_some_iff,
    pure, Option.some.injEq]
  constructor
  · rintro ⟨offset, ⟨-, -, -, hlow⟩, release, hsig, rfl⟩
    exact ⟨hsig, fun j hj => hlow j (Nat.zero_le _) hj⟩
  · rintro ⟨hsig, hlow⟩
    have hin := Image.lt_size_of_signature hsig
    refine ⟨anchor.offset, ⟨Nat.zero_le _, by omega, ?_, fun j _ hj => hlow j hj⟩, _, hsig, rfl⟩
    rw [releaseAt?_eq_some_iff.2 hsig]
    rfl

end Anchor

/-! ## Headers -/

namespace Header

variable {image : Image} {header : Header}

theorem validate_eq_ok_iff {size : Nat} {u : Unit} :
    header.validate size = .ok u ↔
      (∀ field ∈ Field.offsets, header.IsInside size field) ∧ header.HasRoom size := by
  unfold validate
  cases hfind : Field.offsets.find? fun field => ¬ header.IsInside size field with
  | some field =>
    have hout := List.find?_some hfind
    have hmem := List.mem_of_find?_eq_some hfind
    simp only [decide_not, Bool.not_eq_true', decide_eq_false_iff_not] at hout
    constructor
    · intro h
      obtain ⟨-, h, -⟩ := bind_eq_ok_iff.1 h
      cases h
    · exact fun h => absurd (h.1 field hmem) hout
  | none =>
    simp only [List.find?_eq_none, decide_not, Bool.not_eq_true', decide_eq_false_iff_not,
      Decidable.not_not] at hfind
    by_cases hroom : header.HasRoom size
    · simpa [hroom, pure, Except.pure] using hfind
    · simp [hroom, throw, throwThe, MonadExceptOf.throw]

/-- Behind the signature of its release, a header opens with a pointer width of four or eight. -/
theorem decodeOpening_eq_ok_iff (hsize : image.size < wordLimit) {anchor : Anchor} {pointerWidth : Nat}
    (hsig : image.slice anchor.offset 6 = anchor.release.signature) :
    decodeOpening image anchor = .ok pointerWidth ↔
      anchor.offset + 8 ≤ image.size ∧ pointerWidth = image.number (anchor.offset + 7) 1 ∧
        (pointerWidth = 4 ∨ pointerWidth = 8) := by
  obtain ⟨hmagic, hzeros⟩ := Image.numbers_of_signature hsig
  have hknown : ¬ Release.ofMagic? (image.number anchor.offset 4) ≠ some anchor.release := by
    rw [hmagic, Release.ofMagic?_magic]
    simp
  simp only [decodeOpening, bind_eq_ok_iff, Image.span_eq_ok_unit_iff, exists_const, guard_eq_ok_iff,
    pure_eq_ok_iff, hknown, hzeros, Release.openingSize]
  constructor
  · rintro ⟨⟨-, hle⟩, -, -, hwidth, rfl⟩
    exact ⟨hle, rfl, by omega⟩
  · rintro ⟨hle, rfl, hwidth⟩
    exact ⟨⟨by omega, hle⟩, by simp, by simp, by omega, rfl⟩

/-- Behind a good opening, the header has to fit and to be valid. -/
theorem decode_of_opening {anchor : Anchor} {pointerWidth : Nat}
    (h : decodeOpening image anchor = .ok pointerWidth) :
    decode image anchor = (do
      image.span anchor.offset (anchor.release.headerSize pointerWidth)
      let header := readAt image anchor.offset anchor.release pointerWidth
      header.validate image.size
      return header) := by
  rw [decode, h]
  rfl

/-- What the decoding of a header has read and checked. -/
theorem exists_of_decode {anchor : Anchor} (h : decode image anchor = .ok header) :
    ∃ pointerWidth, decodeOpening image anchor = .ok pointerWidth ∧
      header.size = anchor.release.headerSize pointerWidth ∧ anchor.offset + header.size < wordLimit ∧
      header.validate image.size = .ok () ∧
      header = readAt image anchor.offset anchor.release pointerWidth := by
  obtain ⟨pointerWidth, hopening, -⟩ := bind_eq_ok_iff.1 h
  rw [decode_of_opening hopening] at h
  simp only [bind_eq_ok_iff, Image.span_eq_ok_unit_iff, pure_eq_ok_iff] at h
  obtain ⟨-, ⟨hend, -⟩, _, hvalid, rfl⟩ := h
  exact ⟨pointerWidth, hopening, rfl, hend, hvalid, rfl⟩

theorem decode_eq_ok_iff (hsize : image.size < wordLimit) {anchor : Anchor}
    (hsig : image.slice anchor.offset 6 = anchor.release.signature) :
    decode image anchor = .ok header ↔
      ∃ pointerWidth, pointerWidth = image.number (anchor.offset + 7) 1 ∧
        (pointerWidth = 4 ∨ pointerWidth = 8) ∧
        anchor.offset + anchor.release.headerSize pointerWidth ≤ image.size ∧
        (∀ field ∈ Field.offsets, anchor.offset + header.offset field ≤ image.size) ∧
        header.functionCount * header.descriptorSize ≤ image.size ∧
        header = readAt image anchor.offset anchor.release pointerWidth := by
  simp only [decode, bind_eq_ok_iff, decodeOpening_eq_ok_iff hsize hsig, Image.span_eq_ok_unit_iff,
    exists_const, validate_eq_ok_iff, pure_eq_ok_iff, IsInside, HasRoom]
  constructor
  · rintro ⟨pointerWidth, ⟨-, hp, hwidth⟩, ⟨-, hle⟩, ⟨hin, -, hroom⟩, rfl⟩
    exact ⟨pointerWidth, hp, hwidth, hle, fun field hmem => (hin field hmem).2, hroom, rfl⟩
  · rintro ⟨pointerWidth, hp, hwidth, hle, hin, hroom, rfl⟩
    have hopening : 8 ≤ anchor.release.headerSize pointerWidth := Nat.le_add_right _ _
    refine ⟨pointerWidth, ⟨by omega, hp, hwidth⟩, ⟨by omega, hle⟩,
      ⟨fun field hmem => ?_, by omega, hroom⟩, rfl⟩
    have := hin field hmem
    exact ⟨Nat.lt_of_le_of_lt this hsize, this⟩

end Header

/-! ## Places of tables -/

/-- A place where a table may stand: the position of its header, and what fixes the layout. -/
structure Site (image : Image) where
  anchor : Nat
  release : Release
  pointerWidth : Nat

namespace Site

variable {image : Image} (site : Site image)

/-- The word of the header with the given index, behind the first eight bytes. -/
def word (index : Nat) : Nat :=
  image.number (site.anchor + 8 + index * site.pointerWidth) site.pointerWidth

/-- The later releases have one word more, in front of the offsets: the start of the code. -/
def extra : Nat :=
  match site.release with
  | .go116 => 0
  | .go118 | .go120 => 1

/-- Where the code starts; zero if addresses are absolute. -/
def textStart : Nat :=
  match site.release with
  | .go116 => 0
  | .go118 | .go120 => site.word 2

def functionCount : Nat := site.word 0

def nameOffset : Nat := site.word (2 + site.extra)

def unitOffset : Nat := site.word (3 + site.extra)

def fileTableOffset : Nat := site.word (4 + site.extra)

def pcTableOffset : Nat := site.word (5 + site.extra)

def recordOffset : Nat := site.word (6 + site.extra)

def width : Nat :=
  match site.release with
  | .go116 => site.pointerWidth
  | .go118 | .go120 => 4

/-- **A table stands here**: the lowest supported signature, and behind it a header that leads
nowhere outside the image. -/
structure IsTable : Prop where
  signature : image.slice site.anchor 6 = site.release.signature
  lowest : ∀ j, j < site.anchor → ∀ release : Release, image.slice j 6 ≠ release.signature
  pointer : image.number (site.anchor + 7) 1 = site.pointerWidth
  fourOrEight : site.pointerWidth = 4 ∨ site.pointerWidth = 8
  header : site.anchor + 8 + site.pointerWidth * (7 + site.extra) ≤ image.size
  names : site.anchor + site.nameOffset ≤ image.size
  units : site.anchor + site.unitOffset ≤ image.size
  fileTable : site.anchor + site.fileTableOffset ≤ image.size
  pcTable : site.anchor + site.pcTableOffset ≤ image.size
  records : site.anchor + site.recordOffset ≤ image.size
  room : site.functionCount * (2 * site.width) ≤ image.size

def base : Nat := site.anchor + site.recordOffset

def descriptorAt (index : Nat) : Nat := site.base + index * (2 * site.width)

def entry (index : Nat) : Nat := image.number (site.descriptorAt index) site.width

/-- The position of the metadata record that a descriptor leads to. -/
def metadataAt (index : Nat) : Nat :=
  site.base + image.number (site.descriptorAt index + site.width) site.width

def metadataEntry (index : Nat) : Nat := image.number (site.metadataAt index) site.width

/-- The position of the name that a metadata record leads to. -/
def nameAt (index : Nat) : Nat :=
  site.anchor + site.nameOffset + image.number (site.metadataAt index + site.width) 4

/-- **A record stands for a symbol**: its parts lie inside the image, its name ends within the cap
and is the symbol's, and so are its addresses. -/
structure IsRecord (cap index : Nat) (symbol : Symbol) : Prop where
  descriptor : site.descriptorAt index + 2 * site.width ≤ image.size
  metadata : site.metadataAt index + (site.width + 4) ≤ image.size
  name : ∃ length, length ≤ cap ∧ image.ZeroAfter (site.nameAt index) length ∧
    symbol.name.toUTF8.toList = image.slice (site.nameAt index) length
  representable : site.textStart + site.entry index < wordLimit
  metadataRepresentable : site.textStart + site.metadataEntry index < wordLimit
  address : symbol.address = site.textStart + site.entry index
  metadataAddress : symbol.metadataAddress =
    if site.metadataEntry index = site.entry index then none
    else some (site.textStart + site.metadataEntry index)

/-! ## What the stages come to -/

def read : Header := Header.readAt image site.anchor site.release site.pointerWidth

@[simp] theorem read_functionCount : site.read.functionCount = site.functionCount := by
  rcases site with ⟨anchor, _ | _ | _, pointerWidth⟩ <;> rfl

@[simp] theorem read_textStart : site.read.textStart.getD 0 = site.textStart := by
  rcases site with ⟨anchor, _ | _ | _, pointerWidth⟩ <;> rfl

@[simp] theorem read_nameBase : site.read.nameBase = site.anchor + site.nameOffset := by
  rcases site with ⟨anchor, _ | _ | _, pointerWidth⟩ <;> rfl

@[simp] theorem read_recordBase : site.read.recordBase = site.base := by
  rcases site with ⟨anchor, _ | _ | _, pointerWidth⟩ <;> rfl

@[simp] theorem read_wordWidth : site.read.wordWidth = site.width := by
  rcases site with ⟨anchor, _ | _ | _, pointerWidth⟩ <;> rfl

theorem headerSize_eq :
    site.release.headerSize site.pointerWidth = 8 + site.pointerWidth * (7 + site.extra) := by
  rw [Nat.mul_comm]
  rcases site with ⟨anchor, _ | _ | _, pointerWidth⟩ <;> rfl

theorem forall_offsets_iff {size : Nat} :
    (∀ field ∈ Field.offsets, site.anchor + site.read.offset field ≤ size) ↔
      site.anchor + site.nameOffset ≤ size ∧ site.anchor + site.unitOffset ≤ size ∧
        site.anchor + site.fileTableOffset ≤ size ∧ site.anchor + site.pcTableOffset ≤ size ∧
        site.anchor + site.recordOffset ≤ size := by
  simp only [Field.offsets, List.forall_mem_cons, List.not_mem_nil, false_implies, implies_true, and_true]
  rcases site with ⟨anchor, _ | _ | _, pointerWidth⟩ <;> rfl

variable {site}

/-- A table is found and its header decoded exactly where one stands. -/
theorem isTable_iff (hsize : image.size < wordLimit) :
    site.IsTable ↔
      Anchor.find image = .ok ⟨site.anchor, site.release⟩ ∧
        Header.decode image ⟨site.anchor, site.release⟩ = .ok site.read := by
  have hroom : site.read.functionCount * site.read.descriptorSize =
      site.functionCount * (2 * site.width) := by
    rw [read_functionCount, Header.descriptorSize, read_wordWidth]
  constructor
  · intro h
    refine ⟨Anchor.find_eq_ok_iff.2 ⟨h.signature, h.lowest⟩, ?_⟩
    refine (Header.decode_eq_ok_iff hsize h.signature).2
      ⟨site.pointerWidth, h.pointer.symm, h.fourOrEight, ?_, ?_, hroom ▸ h.room, rfl⟩
    · rw [headerSize_eq, ← Nat.add_assoc]
      exact h.header
    · exact (forall_offsets_iff site).2 ⟨h.names, h.units, h.fileTable, h.pcTable, h.records⟩
  · rintro ⟨hfind, hdecode⟩
    obtain ⟨hsig, hlow⟩ := Anchor.find_eq_ok_iff.1 hfind
    obtain ⟨pointerWidth, hp, hwidth, hheader, hin, hroom', hread⟩ :=
      (Header.decode_eq_ok_iff hsize hsig).1 hdecode
    obtain rfl : site.pointerWidth = pointerWidth := congrArg Header.pointerWidth hread
    obtain ⟨hnames, hunits, hfiles, hpcs, hrecords⟩ := (forall_offsets_iff site).1 hin
    rw [headerSize_eq, ← Nat.add_assoc] at hheader
    exact ⟨hsig, hlow, hp.symm, hwidth, hheader, hnames, hunits, hfiles, hpcs, hrecords, hroom ▸ hroom'⟩

end Site

/-- A name is read if its bytes end within the cap and are UTF-8. -/
theorem NameTable.name_eq_ok_iff {names : NameTable} (hsize : names.image.size < wordLimit)
    {nameIndex : Nat} {name : String} :
    names.name nameIndex = .ok name ↔
      ∃ length, length ≤ names.nameCap ∧ names.image.ZeroAfter (names.nameBase + nameIndex) length ∧
        name.toUTF8.toList = names.image.slice (names.nameBase + nameIndex) length := by
  simp only [NameTable.name, bind_eq_ok_iff, positionAfter_eq_ok_iff, Image.cString_eq_ok_iff hsize]
  constructor
  · rintro ⟨_, ⟨-, rfl⟩, bytes, ⟨length, hcap, hzero, rfl⟩, hname⟩
    refine ⟨length, hcap, hzero, Utf8.decode_eq_ok_toList_iff.1 ?_⟩
    split at hname
    · rename_i characters hdecode
      obtain rfl := pure_eq_ok_iff.1 hname
      rw [hdecode, String.toList_ofList]
    · cases hname
  · rintro ⟨length, hcap, hzero, hname⟩
    have hin := hzero.lt_size
    refine ⟨_, ⟨by omega, rfl⟩, _, ⟨length, hcap, hzero, rfl⟩, ?_⟩
    rw [Utf8.decode_eq_ok_toList_iff.2 hname]
    exact pure_eq_ok_iff.2 String.ofList_toList.symm

namespace Site

variable {image : Image} {site : Site image}

theorem width_eq (h : site.IsTable) : site.width = 4 ∨ site.width = 8 := by
  have hp := h.fourOrEight
  unfold width
  split
  · exact hp
  all_goals exact .inl rfl

theorem get_eq_ok_iff (hsize : image.size < wordLimit) (h : site.IsTable) {index : Nat}
    {descriptor : Descriptor} :
    (DescriptorTable.ofHeader image site.read).get index = .ok descriptor ↔
      index < site.functionCount ∧ site.descriptorAt index + 2 * site.width ≤ image.size ∧
        site.textStart + site.entry index < wordLimit ∧
        descriptor = ⟨site.textStart + site.entry index,
          image.number (site.descriptorAt index + site.width) site.width⟩ := by
  have hw : site.read.wordWidth = 4 ∨ site.read.wordWidth = 8 := by
    rw [read_wordWidth]; exact width_eq h
  rw [DescriptorTable.get_eq_ok_iff hw]
  -- what lies inside the image has a position, so that check is implied
  simp [DescriptorTable.descriptorSize, entry, descriptorAt]
  omega

theorem metadata_eq_ok_iff (hsize : image.size < wordLimit) (h : site.IsTable) {cap index address : Nat}
    {metadata : Metadata} :
    (NameTable.ofHeader image site.read cap).metadata
        ⟨address, image.number (site.descriptorAt index + site.width) site.width⟩ = .ok metadata ↔
      site.metadataAt index + (site.width + 4) ≤ image.size ∧
        site.textStart + site.metadataEntry index < wordLimit ∧
        metadata = ⟨site.textStart + site.metadataEntry index,
          image.number (site.metadataAt index + site.width) 4⟩ := by
  have hw : site.read.wordWidth = 4 ∨ site.read.wordWidth = 8 := by
    rw [read_wordWidth]; exact width_eq h
  rw [NameTable.metadata_eq_ok_iff hw]
  simp [metadataEntry, metadataAt]
  omega

theorem name_eq_ok_iff (hsize : image.size < wordLimit) {cap index : Nat} {name : String} :
    (NameTable.ofHeader image site.read cap).name
        (image.number (site.metadataAt index + site.width) 4) = .ok name ↔
      ∃ length, length ≤ cap ∧ image.ZeroAfter (site.nameAt index) length ∧
        name.toUTF8.toList = image.slice (site.nameAt index) length := by
  rw [NameTable.name_eq_ok_iff hsize]
  simp [nameAt]

/-- A record is read as the symbol that it stands for. -/
theorem symbolAt_eq_ok_iff (hsize : image.size < wordLimit) (h : site.IsTable) {cap index : Nat}
    {symbol : Symbol} :
    (Records.ofHeader image site.read cap).symbolAt index = .ok symbol ↔
      index < site.functionCount ∧ site.IsRecord cap index symbol := by
  simp only [Records.symbolAt_eq_ok_iff, Records.descriptors_ofHeader, Records.names_ofHeader,
    NameTable.follow_eq_ok_iff, get_eq_ok_iff hsize h]
  constructor
  · rintro ⟨descriptor, entry, ⟨hlt, hin, haddress, rfl⟩, ⟨metadata, hmetadata, hname, hentry⟩, rfl⟩
    obtain ⟨hin', haddress', rfl⟩ := (metadata_eq_ok_iff hsize h).1 hmetadata
    refine ⟨hlt, hin, hin', (name_eq_ok_iff hsize).1 hname, haddress, haddress', rfl, ?_⟩
    simp only [symbolFrom, hentry, ne_eq, Nat.add_left_cancel_iff, ite_not]
  · rintro ⟨hlt, hrecord⟩
    refine ⟨_, ⟨symbol.name, site.textStart + site.metadataEntry index⟩,
      ⟨hlt, hrecord.descriptor, hrecord.representable, rfl⟩, ⟨_, (metadata_eq_ok_iff hsize h).2
        ⟨hrecord.metadata, hrecord.metadataRepresentable, rfl⟩, (name_eq_ok_iff hsize).2 hrecord.name, rfl⟩, ?_⟩
    obtain ⟨name, address, metadataAddress⟩ := symbol
    simp only [symbolFrom, ne_eq, Nat.add_left_cancel_iff, ite_not]
    rw [← hrecord.address, ← hrecord.metadataAddress]

end Site

/-- **An extraction succeeds on the tables that the bytes describe, and on nothing else.** There is
a table `T` if the lowest supported signature opens a header that leads nowhere outside the image,
and each of the announced records stands for a symbol; `T` holds these symbols in the order of the
records, and its flag says whether their addresses ascend. -/
theorem succeeds_on_described_tables {image : Image} (hsize : image.size < wordLimit)
    (options : Options) (cores : Nat) (table : SymbolTable) :
    (extract image options cores).value = .ok table ↔
      ∃ site : Site image, site.IsTable ∧ table.toList.length = site.functionCount ∧
        (∀ i symbol, table.toList[i]? = some symbol → site.IsRecord options.nameCap i symbol) ∧
        (table.isSorted = true ↔ table.Ascends) := by
  simp only [extract_eq_ok_iff, buildTable_eq_ok_iff]
  constructor
  · rintro ⟨anchor, header, hfind, hdecode, symbols, hcount, hsymbols, rfl⟩
    obtain ⟨hsig, -⟩ := Anchor.find_eq_ok_iff.1 hfind
    obtain ⟨pointerWidth, -, -, -, -, -, rfl⟩ := (Header.decode_eq_ok_iff hsize hsig).1 hdecode
    let site : Site image := ⟨anchor.offset, anchor.release, pointerWidth⟩
    have hsite : site.IsTable := (Site.isTable_iff hsize).2 ⟨hfind, hdecode⟩
    refine ⟨site, hsite, hcount.trans site.read_functionCount, ?_, SymbolTable.isSorted_ofArray⟩
    intro i symbol hi
    rw [SymbolTable.toList_ofArray, Array.getElem?_toList] at hi
    obtain ⟨hlt, rfl⟩ := Array.getElem?_eq_some_iff.1 hi
    exact ((Site.symbolAt_eq_ok_iff hsize hsite).1 (hsymbols i hlt)).2
  · rintro ⟨site, hsite, hcount, hsymbols, hsorted⟩
    obtain ⟨hfind, hdecode⟩ := (Site.isTable_iff hsize).1 hsite
    rw [SymbolTable.length_toList] at hcount
    refine ⟨_, _, hfind, hdecode, table.symbols, hcount.trans site.read_functionCount.symm, ?_,
      SymbolTable.eq_ofArray_iff.2 ⟨rfl, hsorted⟩⟩
    intro i hi
    refine (Site.symbolAt_eq_ok_iff hsize hsite).2 ⟨hcount ▸ hi, hsymbols i _ ?_⟩
    exact Array.getElem?_toList.trans (Array.getElem?_eq_getElem hi)

/-- The bytes of `twoFunctions` describe its table, and it is read from them. -/
theorem succeeds_on_described_tables_two_functions :
    let table : SymbolTable := ⟨#[⟨"a", 4096, none⟩, ⟨"main", 4112, none⟩], true⟩
    twoFunctions.size < wordLimit ∧ (extract twoFunctions {} 1).value = .ok table ∧
    ∃ site : Site twoFunctions, site.IsTable ∧ table.toList.length = site.functionCount ∧
      (∀ i symbol, table.toList[i]? = some symbol → site.IsRecord 4096 i symbol) ∧
      (table.isSorted = true ↔ table.Ascends) := by
  intro table
  have hsize : twoFunctions.size < wordLimit := by decide
  have hextract : (extract twoFunctions {} 1).value = .ok table := by decide +kernel
  exact ⟨hsize, hextract, (succeeds_on_described_tables hsize {} 1 table).1 hextract⟩

end Unstrip

import Unstrip.Encoding
import Unstrip.Proofs.Format

/-!
# Extraction undoes encoding

`TableSource.encode` writes a table part after part. Each part is found where it was put
(`hasAt_encode`), and so are the words of the header, the descriptors, the metadata records and the
names inside their parts. What stands there is a table in the sense of `Site.IsTable`, with the
records of the functions that it was written from (`extract_encode`).
-/

namespace Unstrip

/-! ## Bytes in place -/

namespace Image

variable {image : Image} {bytes : List UInt8} {offset : Nat}

theorem hasAt_toList (image : Image) : image.hasAt image.toList 0 := by
  rw [hasAt_iff, slice_eq, List.drop_zero, List.take_length]

theorem hasAt_append {xs ys : List UInt8} :
    image.hasAt (xs ++ ys) offset ↔ image.hasAt xs offset ∧ image.hasAt ys (offset + xs.length) := by
  induction xs generalizing offset with
  | nil => simp [hasAt]
  | cons x xs ih =>
    simp only [List.cons_append, hasAt, Bool.and_eq_true, ih, List.length_cons, and_assoc]
    rw [Nat.add_right_comm offset 1, Nat.add_assoc offset]

theorem getElem?_of_hasAt (h : image.hasAt bytes offset) {i : Nat} (hi : i < bytes.length) :
    image[offset + i]? = bytes[i]? := by
  induction bytes generalizing offset i with
  | nil => cases hi
  | cons b bs ih =>
    simp only [hasAt, Bool.and_eq_true, beq_iff_eq] at h
    cases i with
    | zero => exact h.1
    | succ i =>
      have := ih h.2 (Nat.lt_of_succ_lt_succ hi)
      rwa [Nat.add_right_comm, Nat.add_assoc] at this

/-- A number that was written is read. -/
theorem number_of_hasAt {width n : Nat} (h : image.hasAt (LittleEndian.ofNat width n) offset)
    (hn : n < LittleEndian.limit width) : image.number offset width = n := by
  rw [hasAt_iff, LittleEndian.length_ofNat] at h
  rw [number, h, LittleEndian.toNat_ofNat hn]

/-- A string is found by the zero byte behind it. -/
theorem zeroAfter_of_hasAt (h : image.hasAt (bytes ++ [0]) offset) (hfree : 0 ∉ bytes) :
    image.ZeroAfter offset bytes.length ∧ image.slice offset bytes.length = bytes := by
  refine ⟨⟨?_, fun j hj hzero => ?_⟩, hasAt_iff.1 (hasAt_append.1 h).1⟩
  · rw [getElem?_of_hasAt h (by simp), List.getElem?_concat_length]
  · rw [getElem?_of_hasAt (hasAt_append.1 h).1 hj] at hzero
    exact hfree (List.mem_of_getElem? hzero)

section
variable {α : Type} {f : α → List UInt8} {xs : List α} {x : α} {i : Nat}

/-- An item follows the items before it. -/
theorem hasAt_flatMap (h : image.hasAt (xs.flatMap f) offset) (hi : xs[i]? = some x) :
    image.hasAt (f x) (offset + ((xs.take i).flatMap f).length) := by
  induction xs generalizing offset i with
  | nil => cases hi
  | cons y ys ih =>
    rw [List.flatMap_cons, hasAt_append] at h
    cases i with
    | zero =>
      obtain rfl : y = x := by simpa using hi
      exact h.1
    | succ i =>
      have := ih h.2 (by simpa using hi)
      rwa [Nat.add_assoc, ← List.length_append, ← List.flatMap_cons, ← List.take_succ_cons] at this

theorem length_flatMap_of_width {width : Nat} (hf : ∀ x, (f x).length = width) :
    (xs.flatMap f).length = xs.length * width := by
  induction xs with
  | nil => rw [List.flatMap_nil, List.length_nil, List.length_nil, Nat.zero_mul]
  | cons y ys ih =>
    rw [List.flatMap_cons, List.length_append, hf, ih, List.length_cons, Nat.succ_mul, Nat.add_comm]

/-- Items of one width stand at its multiples. -/
theorem hasAt_flatMap_of_width {width : Nat} (hf : ∀ x, (f x).length = width)
    (h : image.hasAt (xs.flatMap f) offset) (hi : xs[i]? = some x) :
    image.hasAt (f x) (offset + i * width) := by
  have hlt : i < xs.length := (List.getElem?_eq_some_iff.1 hi).1
  have := hasAt_flatMap h hi
  rwa [length_flatMap_of_width hf, List.length_take, Nat.min_eq_left (Nat.le_of_lt hlt)] at this

end

end Image

namespace TableSource

variable (source : TableSource)

/-! ## Parts in place -/

/-- The names of the functions in front of the given index take this many bytes. -/
def nameIndex (index : Nat) : Nat :=
  ((source.functions.take index).flatMap fun function => storedName function.name).length

theorem length_fieldBytes (field : Field) :
    (LittleEndian.ofNat source.pointerWidth (source.fieldValue field)).length = source.pointerWidth :=
  LittleEndian.length_ofNat _ _

@[simp] theorem length_headerBytes : source.headerBytes.length = source.headerSize := by
  rw [headerBytes, List.length_append, List.length_append, Release.length_signature,
    Image.length_flatMap_of_width source.length_fieldBytes]
  rfl

@[simp] theorem length_descriptorBytes (metadataOffset : Nat) (functions : List FunctionSource) :
    (source.descriptorBytes metadataOffset functions).length = functions.length * source.descriptorSize := by
  induction functions generalizing metadataOffset with
  | nil => rw [descriptorBytes, List.length_nil, List.length_nil, Nat.zero_mul]
  | cons function functions ih =>
    simp only [descriptorBytes, List.length_append, LittleEndian.length_ofNat, ih, List.length_cons,
      Nat.succ_mul, descriptorSize]
    omega

@[simp] theorem length_metadataBytes (nameIndex : Nat) (functions : List FunctionSource) :
    (source.metadataBytes nameIndex functions).length = functions.length * source.metadataSize := by
  induction functions generalizing nameIndex with
  | nil => rw [metadataBytes, List.length_nil, List.length_nil, Nat.zero_mul]
  | cons function functions ih =>
    simp only [metadataBytes, List.length_append, LittleEndian.length_ofNat, ih, List.length_cons,
      Nat.succ_mul, metadataSize]
    omega

theorem nameEnd_le : source.nameEnd ≤ source.recordOffset := by
  unfold recordOffset
  omega

/-- Every part stands where it was put. -/
theorem hasAt_encode :
    source.encode.hasAt (List.replicate source.leading 0) 0 ∧
      source.encode.hasAt source.headerBytes source.leading ∧
      source.encode.hasAt source.nameArea (source.leading + source.headerSize) ∧
      source.encode.hasAt (source.descriptorBytes source.metadataOffset source.functions)
        (source.leading + source.recordOffset) ∧
      source.encode.hasAt (source.metadataBytes 0 source.functions)
        (source.leading + source.recordOffset + source.metadataOffset) := by
  have hall := Image.hasAt_toList source.encode
  have hend := source.nameEnd_le
  have hpad : source.leading + source.headerSize + source.nameArea.length
      + (source.recordOffset - source.nameEnd) = source.leading + source.recordOffset := by
    unfold nameEnd at hend ⊢
    omega
  simp only [encode, Image.hasAt_append, List.length_append, List.length_replicate, Nat.zero_add,
    length_headerBytes, length_descriptorBytes, ← Nat.add_assoc] at hall
  rw [hpad] at hall
  obtain ⟨⟨⟨⟨⟨hzeros, hheader⟩, hnames⟩, -⟩, hdescriptors⟩, hmetadata⟩ := hall
  exact ⟨hzeros, hheader, hnames, hdescriptors, hmetadata⟩

theorem size_encode :
    source.encode.size = source.leading + source.recordOffset + source.metadataOffset
      + source.functions.length * source.metadataSize := by
  have hend := source.nameEnd_le
  simp only [encode, List.size_toArray, List.length_append, List.length_replicate, length_headerBytes,
    length_descriptorBytes, length_metadataBytes, metadataOffset]
  unfold nameEnd at hend ⊢
  omega

section
variable {source} {image : Image} {offset index : Nat} {functions : List FunctionSource}
  {function : FunctionSource}

/-- A descriptor leads to the metadata record with the same index. -/
theorem hasAt_descriptor {metadataOffset : Nat}
    (h : image.hasAt (source.descriptorBytes metadataOffset functions) offset)
    (hi : functions[index]? = some function) :
    image.hasAt (LittleEndian.ofNat source.wordWidth (source.storedAddress function.address))
        (offset + index * source.descriptorSize) ∧
      image.hasAt (LittleEndian.ofNat source.wordWidth (metadataOffset + index * source.metadataSize))
        (offset + index * source.descriptorSize + source.wordWidth) := by
  induction functions generalizing offset index metadataOffset with
  | nil => cases hi
  | cons first functions ih =>
    simp only [descriptorBytes, Image.hasAt_append, List.length_append, LittleEndian.length_ofNat] at h
    obtain ⟨⟨haddress, hlink⟩, hrest⟩ := h
    cases index with
    | zero =>
      obtain rfl : first = function := by simpa using hi
      simp only [Nat.zero_mul, Nat.add_zero]
      exact ⟨haddress, hlink⟩
    | succ index =>
      have hplace : offset + (index + 1) * source.descriptorSize =
          offset + (source.wordWidth + source.wordWidth) + index * source.descriptorSize := by
        rw [Nat.succ_mul, ← Nat.two_mul, ← descriptorSize]
        omega
      have hlinked : metadataOffset + (index + 1) * source.metadataSize =
          metadataOffset + source.metadataSize + index * source.metadataSize := by
        rw [Nat.succ_mul]
        omega
      rw [hplace, hlinked]
      exact ih hrest (by simpa using hi)

/-- A metadata record leads to the name behind the names of the functions in front of it. -/
theorem hasAt_metadata {nameIndex : Nat}
    (h : image.hasAt (source.metadataBytes nameIndex functions) offset)
    (hi : functions[index]? = some function) :
    image.hasAt (LittleEndian.ofNat source.wordWidth (source.storedAddress function.metadataAddress))
        (offset + index * source.metadataSize) ∧
      image.hasAt
        (LittleEndian.ofNat 4 (nameIndex
          + ((functions.take index).flatMap fun function => storedName function.name).length))
        (offset + index * source.metadataSize + source.wordWidth) := by
  induction functions generalizing offset index nameIndex with
  | nil => cases hi
  | cons first functions ih =>
    simp only [metadataBytes, Image.hasAt_append, List.length_append, LittleEndian.length_ofNat] at h
    obtain ⟨⟨haddress, hlink⟩, hrest⟩ := h
    cases index with
    | zero =>
      obtain rfl : first = function := by simpa using hi
      simp only [Nat.zero_mul, Nat.add_zero, List.take_zero, List.flatMap_nil, List.length_nil]
      exact ⟨haddress, hlink⟩
    | succ index =>
      have hplace : offset + (index + 1) * source.metadataSize =
          offset + (source.wordWidth + 4) + index * source.metadataSize := by
        rw [Nat.succ_mul, ← metadataSize]
        omega
      rw [hplace, List.take_succ_cons, List.flatMap_cons, List.length_append, ← Nat.add_assoc nameIndex]
      exact ih hrest (by simpa using hi)

end

/-! ## Values that fit -/

/-- An address has 64 bits, does not lie in front of the code it is counted from, and fits in a
word of a record. -/
def FitsAddress (address : Nat) : Prop :=
  address < wordLimit ∧ (source.release.isTextRelative = true → source.textStart ≤ address) ∧
    source.storedAddress address < LittleEndian.limit source.wordWidth

instance (address : Nat) : Decidable (source.FitsAddress address) := by
  unfold FitsAddress; infer_instance

/-- **Every value fits in its field**, and names can be ended by a zero byte. -/
structure Fits : Prop where
  pointerWidth : source.pointerWidth = 4 ∨ source.pointerWidth = 8
  size : source.encode.size < wordLimit
  header : ∀ field ∈ source.release.fields,
    source.fieldValue field < LittleEndian.limit source.pointerWidth
  addresses : ∀ function ∈ source.functions, source.FitsAddress function.address
  metadataAddresses : ∀ function ∈ source.functions, source.FitsAddress function.metadataAddress
  metadataOffsets : ∀ index, index < source.functions.length →
    source.metadataOffset + index * source.metadataSize < LittleEndian.limit source.wordWidth
  nameIndices : ∀ index, index < source.functions.length →
    source.nameIndex index < LittleEndian.limit 4
  names : ∀ function ∈ source.functions, '\x00' ∉ function.name.toList

/-! ## The table that is written -/

def site : Site source.encode := ⟨source.leading, source.release, source.pointerWidth⟩

@[simp] theorem site_width : source.site.width = source.wordWidth := by
  unfold site Site.width wordWidth Release.wordWidth
  rfl

/-- The later releases name the start of the code in their header. -/
theorem site_textStart :
    source.site.textStart = if source.release.isTextRelative then source.site.word 2 else 0 := by
  unfold Site.textStart site
  cases source.release <;> rfl

/-- No signature begins with the zero byte that stands in front of the header. -/
theorem no_signature_before {j : Nat} (hj : j < source.leading) (release : Release) :
    source.encode.slice j 6 ≠ release.signature := by
  intro h
  obtain ⟨hzeros, -⟩ := source.hasAt_encode
  have hsig : source.encode.hasAt release.signature j := by
    rw [Image.hasAt_iff, Release.length_signature]
    exact h
  have hfirst := Image.getElem?_of_hasAt hsig (i := 0) (by simp)
  have hzero := Image.getElem?_of_hasAt hzeros (by simpa using hj)
  rw [Nat.zero_add, List.getElem?_replicate, if_pos hj] at hzero
  rw [Nat.add_zero, hzero] at hfirst
  revert hfirst
  cases release <;> decide

variable {source} (fits : source.Fits)
include fits

theorem word_eq {field : Field} {index : Nat} (hi : source.release.fields[index]? = some field) :
    source.site.word index = source.fieldValue field := by
  obtain ⟨-, hheader, -⟩ := source.hasAt_encode
  simp only [headerBytes, Image.hasAt_append, List.length_append, Release.length_signature] at hheader
  have hfield := Image.hasAt_flatMap_of_width source.length_fieldBytes hheader.2 hi
  exact Image.number_of_hasAt hfield (fits.header field (List.mem_of_getElem? hi))

theorem site_functionCount : source.site.functionCount = source.functions.length := by
  have hi : source.release.fields[0]? = some .functionCount := by cases source.release <;> rfl
  exact word_eq fits hi

theorem site_offsets :
    source.site.nameOffset = source.headerSize ∧ source.site.unitOffset = source.nameEnd ∧
      source.site.fileTableOffset = source.nameEnd ∧ source.site.pcTableOffset = source.nameEnd ∧
      source.site.recordOffset = source.recordOffset := by
  have hfields : source.release.fields.drop (2 + source.site.extra) = Field.offsets := by
    unfold site Site.extra
    cases source.release <;> rfl
  have hword : ∀ index field, Field.offsets[index]? = some field →
      source.site.word (2 + source.site.extra + index) = source.fieldValue field := by
    intro index field hi
    refine word_eq fits ?_
    rwa [← hfields, List.getElem?_drop] at hi
  have hplace : ∀ index, 2 + source.site.extra + index = 2 + index + source.site.extra := by omega
  simp only [hplace] at hword
  exact ⟨hword 0 .nameOffset rfl, hword 1 .unitOffset rfl, hword 2 .fileTableOffset rfl,
    hword 3 .pcTableOffset rfl, hword 4 .recordOffset rfl⟩

theorem site_base : source.site.base = source.leading + source.recordOffset := by
  obtain ⟨-, -, -, -, hrecord⟩ := site_offsets fits
  rw [Site.base, hrecord]
  rfl

/-- The address that was stored is recovered. -/
theorem textStart_add_storedAddress {address : Nat} (h : source.FitsAddress address) :
    source.site.textStart + source.storedAddress address = address := by
  rw [site_textStart, storedAddress]
  split
  · rename_i hrelative
    have hi : source.release.fields[2]? = some .textStart := by
      revert hrelative
      cases source.release <;> first | exact fun _ => rfl | exact fun h => nomatch h
    have hword : source.site.word 2 = source.textStart := word_eq fits hi
    have hle := h.2.1 hrelative
    omega
  · exact Nat.zero_add _

theorem site_isTable : source.site.IsTable := by
  obtain ⟨-, hheader, -⟩ := source.hasAt_encode
  have hsize := source.size_encode
  have hend := source.nameEnd_le
  have hnames : source.headerSize ≤ source.nameEnd := Nat.le_add_right _ _
  have hroom : source.metadataOffset = source.functions.length * (2 * source.wordWidth) := rfl
  obtain ⟨hname, hunit, hfile, hpc, hrecord⟩ := site_offsets fits
  simp only [headerBytes, Image.hasAt_append, List.length_append, Release.length_signature] at hheader
  obtain ⟨⟨hsig, hopening⟩, -⟩ := hheader
  exact
    { signature := by
        rw [Image.hasAt_iff, Release.length_signature] at hsig
        exact hsig
      lowest := fun j hj release => no_signature_before source hj release
      pointer := by
        have hbyte : source.encode.hasAt (LittleEndian.ofNat 1 source.pointerWidth) (source.leading + 7) :=
          (Bool.and_eq_true_iff.1 hopening).2
        have hfits : source.pointerWidth < LittleEndian.limit 1 := by
          rcases fits.pointerWidth with h | h <;> rw [h] <;> decide
        exact Image.number_of_hasAt hbyte hfits
      fourOrEight := fits.pointerWidth
      header := by
        have hheader : 8 + source.pointerWidth * (7 + source.site.extra) = source.headerSize :=
          source.site.headerSize_eq.symm
        show source.leading + 8 + source.pointerWidth * _ ≤ _
        omega
      names := by rw [hname]; show source.leading + _ ≤ _; omega
      units := by rw [hunit]; show source.leading + _ ≤ _; omega
      fileTable := by rw [hfile]; show source.leading + _ ≤ _; omega
      pcTable := by rw [hpc]; show source.leading + _ ≤ _; omega
      records := by rw [hrecord]; show source.leading + _ ≤ _; omega
      room := by
        rw [site_functionCount fits, site_width]
        omega }

section
variable {index : Nat} {function : FunctionSource} (hi : source.functions[index]? = some function)
include hi

/-- A descriptor is read as it was written. -/
theorem descriptor_eq :
    source.site.entry index = source.storedAddress function.address ∧
      source.site.metadataAt index =
        source.leading + source.recordOffset + (source.metadataOffset + index * source.metadataSize) := by
  obtain ⟨-, -, -, hdescriptors, -⟩ := source.hasAt_encode
  obtain ⟨haddress, hlink⟩ := hasAt_descriptor hdescriptors hi
  obtain ⟨hlt, -⟩ := List.getElem?_eq_some_iff.1 hi
  have hstored := (fits.addresses function (List.mem_of_getElem? hi)).2.2
  rw [Site.entry, Site.metadataAt, Site.descriptorAt, site_base fits, site_width]
  exact ⟨Image.number_of_hasAt haddress hstored,
    congrArg (_ + ·) (Image.number_of_hasAt hlink (fits.metadataOffsets index hlt))⟩

/-- A metadata record is read as it was written. -/
theorem metadata_eq :
    source.site.metadataEntry index = source.storedAddress function.metadataAddress ∧
      source.site.nameAt index = source.leading + source.headerSize + source.nameIndex index := by
  obtain ⟨-, -, -, -, hmetadata⟩ := source.hasAt_encode
  obtain ⟨haddress, hlink⟩ := hasAt_metadata hmetadata hi
  obtain ⟨hlt, -⟩ := List.getElem?_eq_some_iff.1 hi
  have hstored := (fits.metadataAddresses function (List.mem_of_getElem? hi)).2.2
  rw [Nat.add_assoc (source.leading + source.recordOffset)] at haddress hlink
  rw [Nat.zero_add] at hlink
  rw [Site.metadataEntry, Site.nameAt, (descriptor_eq fits hi).2, site_width, (site_offsets fits).1]
  exact ⟨Image.number_of_hasAt haddress hstored,
    congrArg (_ + ·) (Image.number_of_hasAt hlink (fits.nameIndices index hlt))⟩

/-- A name is found where its index says. -/
theorem name_eq :
    source.encode.ZeroAfter (source.site.nameAt index) function.name.utf8ByteSize ∧
      source.encode.slice (source.site.nameAt index) function.name.utf8ByteSize =
        function.name.toUTF8.toList := by
  obtain ⟨-, -, hnames, -⟩ := source.hasAt_encode
  have hname : source.encode.hasAt (storedName function.name) (source.site.nameAt index) := by
    rw [(metadata_eq fits hi).2]
    exact Image.hasAt_flatMap hnames hi
  have hfree : 0 ∉ function.name.toUTF8.toList := by
    rw [Utf8.toList_toUTF8]
    intro hmem
    obtain ⟨c, hc, hzero⟩ := List.mem_flatMap.1 hmem
    have hnul : c = '\x00' := Char.toNat_inj.1 (Utf8.zero_mem_utf8EncodeChar_iff.1 hzero)
    exact fits.names function (List.mem_of_getElem? hi) (hnul ▸ hc)
  rw [← Utf8.length_toUTF8]
  exact Image.zeroAfter_of_hasAt hname hfree

/-- **A record stands for the function that it was written for.** -/
theorem site_isRecord {cap : Nat} (hcap : function.name.utf8ByteSize ≤ cap) :
    source.site.IsRecord cap index
      { name := function.name
        address := function.address
        metadataAddress :=
          if function.metadataAddress = function.address then none
          else some function.metadataAddress } := by
  have hmem := List.mem_of_getElem? hi
  obtain ⟨hlt, -⟩ := List.getElem?_eq_some_iff.1 hi
  have hsize := source.size_encode
  have hdescriptors : index * source.descriptorSize + source.descriptorSize ≤ source.metadataOffset := by
    rw [← Nat.succ_mul]
    exact Nat.mul_le_mul_right _ hlt
  have hrecords : index * source.metadataSize + source.metadataSize ≤
      source.functions.length * source.metadataSize := by
    rw [← Nat.succ_mul]
    exact Nat.mul_le_mul_right _ hlt
  have hentry := textStart_add_storedAddress fits (fits.addresses function hmem)
  have hmetadataEntry := textStart_add_storedAddress fits (fits.metadataAddresses function hmem)
  obtain ⟨hzero, hslice⟩ := name_eq fits hi
  rw [← (descriptor_eq fits hi).1] at hentry
  rw [← (metadata_eq fits hi).1] at hmetadataEntry
  exact
    { descriptor := by
        rw [Site.descriptorAt, site_base fits, site_width]
        show _ + index * source.descriptorSize + source.descriptorSize ≤ _
        omega
      metadata := by
        rw [(descriptor_eq fits hi).2, site_width]
        show _ + source.metadataSize ≤ _
        omega
      name := ⟨function.name.utf8ByteSize, hcap, hzero, hslice.symm⟩
      representable := hentry ▸ (fits.addresses function hmem).1
      metadataRepresentable := hmetadataEntry ▸ (fits.metadataAddresses function hmem).1
      address := hentry.symm
      metadataAddress := by
        have hagree : function.metadataAddress = function.address ↔
            source.site.metadataEntry index = source.site.entry index := by omega
        simp only [hagree, hmetadataEntry] }

end

theorem read_functionCount : source.site.read.functionCount = source.symbols.length := by
  rw [Site.read_functionCount, site_functionCount fits, length_symbols]

/-- Every record is resolved as the symbol that it was written for. -/
theorem symbolAt_encode {cap : Nat} (hcap : ∀ function ∈ source.functions, function.name.utf8ByteSize ≤ cap)
    {i : Nat} (hi : i < source.symbols.length) :
    (Records.ofHeader source.encode source.site.read cap).symbolAt i = .ok source.symbols[i] := by
  have hlt : i < source.functions.length := by rwa [length_symbols] at hi
  refine (Site.symbolAt_eq_ok_iff fits.size (site_isTable fits)).2 ⟨by rwa [site_functionCount fits], ?_⟩
  have hrecord := site_isRecord fits (List.getElem?_eq_getElem hlt) (hcap _ (List.getElem_mem hlt))
  simpa [symbols] using hrecord

end TableSource

/-- **Extraction undoes encoding.** If every value fits in its field, and the cap admits every name,
the table that was written is read, whatever the other options are: its functions in order, the
address of a metadata record wherever it is another one, and whether the addresses ascend. -/
theorem extract_encode {source : TableSource} (fits : source.Fits) (options : Options) (cores : Nat)
    (hcap : ∀ function ∈ source.functions, function.name.utf8ByteSize ≤ options.nameCap) :
    ∃ table, (extract source.encode options cores).value = .ok table ∧ table.toList = source.symbols ∧
      (table.isSorted = true ↔ table.Ascends) := by
  obtain ⟨hfind, hdecode⟩ := (Site.isTable_iff fits.size).1 (source.site_isTable fits)
  refine ⟨SymbolTable.ofArray source.symbols.toArray, extract_eq_ok_iff.2 ⟨_, _, hfind, hdecode, ?_⟩, rfl,
    SymbolTable.isSorted_ofArray⟩
  refine buildTable_eq_ok_iff.2 ⟨_, ?_, fun i hi => ?_, rfl⟩
  · rw [List.size_toArray, TableSource.read_functionCount fits]
  · rw [List.getElem_toArray]
    exact TableSource.symbolAt_encode fits hcap _

/-- Two functions, one without a name and one whose metadata record disagrees, behind three zero
bytes. -/
def twoSources : TableSource where
  release := .go118
  pointerWidth := 8
  quantum := 1
  leading := 3
  textStart := 4096
  functions := [⟨"", 4096, 4096⟩, ⟨"é", 4112, 4116⟩]

theorem extract_encode_two_sources :
    twoSources.Fits ∧ (∀ function ∈ twoSources.functions, function.name.utf8ByteSize ≤ 2) ∧
      ∃ table, (extract twoSources.encode { nameCap := 2, workers := 3 } 1).value = .ok table ∧
        table.toList = [⟨"", 4096, none⟩, ⟨"é", 4112, some 4116⟩] ∧
        (table.isSorted = true ↔ table.Ascends) := by
  have hfits : twoSources.Fits :=
    { pointerWidth := .inr rfl
      size := by decide +kernel
      header := by decide +kernel
      addresses := by decide +kernel
      metadataAddresses := by decide +kernel
      metadataOffsets := by decide +kernel
      nameIndices := by decide +kernel
      names := by decide +kernel }
  have hcap : ∀ function ∈ twoSources.functions, function.name.utf8ByteSize ≤ 2 := by decide +kernel
  exact ⟨hfits, hcap, extract_encode hfits _ 1 hcap⟩

end Unstrip

import Mathlib.Data.List.Induction
import Unstrip.Proofs.Build
import Unstrip.Proofs.Machine.Records
import Unstrip.Proofs.ValidHeader

/-!
# Records that disagree

The address of a function is stored twice, in its descriptor and in its metadata record. The two words are
read at different places, both are counted from the start of the code, and what becomes of the comparison is
an optional field of a symbol. All of this comes down to the stored bytes: `Header.Disagrees` compares them
and nothing else, and a symbol shows a second address if and only if the bytes of its record differ
(`mismatch_shows_unequal_bytes`). Nothing is asked about where the record lies; it may be the descriptor itself.
-/

namespace Unstrip

/-! ## Bytes of equal numbers -/

/-- Inside the image, numbers of one width are equal if and only if their bytes are. -/
theorem Image.number_eq_number_iff {image : Image} {offset offset' width : Nat}
    (hin : offset + width ≤ image.size) (hin' : offset' + width ≤ image.size) :
    image.number offset width = image.number offset' width ↔
      image.slice offset width = image.slice offset' width := by
  have hbytes := LittleEndian.ofNat_toNat (image.slice offset' width)
  rw [length_slice_of_le hin'] at hbytes
  rw [number_eq_iff hin (number_lt image offset' width)]
  exact Eq.congr_right hbytes

/-! ## The stored words -/

namespace Header

variable (header : Header) (image : Image) (index : Nat)

def descriptorAt : Nat := header.recordBase + index * header.descriptorSize

def metadataAt : Nat :=
  header.recordBase + image.number (header.descriptorAt index + header.wordWidth) header.wordWidth

/-- The address words of a descriptor and of its metadata record have different bytes. -/
def Disagrees : Prop :=
  image.slice (header.descriptorAt index) header.wordWidth ≠
    image.slice (header.metadataAt image index) header.wordWidth

instance : Decidable (header.Disagrees image index) := by
  unfold Disagrees
  infer_instance

end Header

/-- What a symbol tells about the two addresses of its record. -/
structure Symbol.TellsAddresses (symbol : Symbol) (records : Records) (header : Header) (image : Image)
    (index : Nat) : Prop where
  mismatch_iff : symbol.metadataAddress.isSome = true ↔ header.Disagrees image index
  decoded : ∃ descriptor metadata, records.descriptors.get index = .ok descriptor ∧
    records.names.metadata descriptor = .ok metadata ∧ symbol.address = descriptor.address ∧
    ∀ address, symbol.metadataAddress = some address →
      address = metadata.address ∧ address ≠ symbol.address

section
variable {image : Image} {header : Header} {nameCap index : Nat} {symbol : Symbol}

theorem symbolFrom_metadataAddress_eq_some_iff {descriptor : Descriptor} {entry : NameEntry} {address : Nat} :
    (symbolFrom descriptor entry).metadataAddress = some address ↔
      address = entry.metadataAddress ∧ address ≠ descriptor.address := by
  unfold symbolFrom
  by_cases hsame : entry.metadataAddress = descriptor.address
  · simp only [hsame, ne_eq, not_true_eq_false, if_false, reduceCtorEq, false_iff]
    exact fun h => h.2 h.1
  · simp only [hsame, ne_eq, not_false_eq_true, if_true, Option.some.injEq]
    constructor
    · rintro rfl
      exact ⟨rfl, hsame⟩
    · exact fun h => h.1.symm

theorem symbolFrom_metadataAddress_isSome_iff {descriptor : Descriptor} {entry : NameEntry} :
    (symbolFrom descriptor entry).metadataAddress.isSome = true ↔
      descriptor.address ≠ entry.metadataAddress := by
  simp only [Option.isSome_iff_exists, symbolFrom_metadataAddress_eq_some_iff, exists_eq_left]
  exact ne_comm

/-- Both words are counted from the same place, so they are equal if the addresses are. -/
theorem Header.Sound.disagrees_iff (h : header.Sound image.size) {descriptor : Descriptor}
    {metadata : Metadata} (hget : (DescriptorTable.ofHeader image header).get index = .ok descriptor)
    (hmetadata : (NameTable.ofHeader image header nameCap).metadata descriptor = .ok metadata) :
    descriptor.address ≠ metadata.address ↔ header.Disagrees image index := by
  obtain ⟨-, -, hin, -, rfl⟩ := (DescriptorTable.get_eq_ok_iff h.wordWidth).1 hget
  obtain ⟨-, hin', -, rfl⟩ := (NameTable.metadata_eq_ok_iff h.wordWidth).1 hmetadata
  have hword : header.descriptorAt index + header.wordWidth ≤ image.size := by
    refine Nat.le_trans (Nat.add_le_add_left ?_ _) hin
    exact Nat.le_mul_of_pos_left header.wordWidth (by decide)
  have hword' : header.metadataAt image index + header.wordWidth ≤ image.size :=
    Nat.le_trans (Nat.add_le_add_left (Nat.le_add_right _ _) _) hin'
  rw [Header.Disagrees, ne_eq, ne_eq, ← Image.number_eq_number_iff hword hword']
  exact not_congr Nat.add_left_cancel_iff

theorem Header.Sound.tellsAddresses (h : header.Sound image.size)
    (hsymbol : (Records.ofHeader image header nameCap).symbolAt index = .ok symbol) :
    symbol.TellsAddresses (Records.ofHeader image header nameCap) header image index := by
  obtain ⟨descriptor, entry, hget, hfollow, rfl⟩ := Records.symbolAt_eq_ok_iff.1 hsymbol
  obtain ⟨metadata, hmetadata, -, hentry⟩ := NameTable.follow_eq_ok_iff.1 hfollow
  refine ⟨?_, descriptor, metadata, hget, hmetadata, rfl, fun address haddress => ?_⟩
  · rw [symbolFrom_metadataAddress_isSome_iff, hentry]
    exact h.disagrees_iff hget hmetadata
  · obtain ⟨rfl, hne⟩ := symbolFrom_metadataAddress_eq_some_iff.1 haddress
    exact ⟨hentry, hne⟩

end

/-! ## Lists of symbols -/

section
variable {α : Type}

/-- A list is made of what stands at its places. -/
theorem filterMap_range_getElem? (items : List α) :
    (List.range items.length).filterMap (items[·]?) = items := by
  induction items using List.reverseRecOn with
  | nil => rfl
  | append_singleton front item ih =>
    rw [List.length_append, List.length_singleton, List.range_succ, List.filterMap_append]
    have hfront : (List.range front.length).filterMap ((front ++ [item])[·]?) = front := by
      rw [List.filterMap_congr fun i hi => List.getElem?_append_left (List.mem_range.1 hi)]
      exact ih
    rw [hfront]
    simp

/-- The items that pass a test are those at the places that pass another test, if the tests agree. -/
theorem filter_eq_filterMap_range {items : List α} {test : α → Bool} {place : Nat → Bool}
    (h : ∀ i item, items[i]? = some item → test item = place i) :
    items.filter test = ((List.range items.length).filter place).filterMap (items[·]?) := by
  conv_lhs => rw [← filterMap_range_getElem? items]
  rw [List.filter_filterMap, List.filterMap_filter]
  refine List.filterMap_congr fun i _ => ?_
  cases hitem : items[i]? with
  | none => simp
  | some item => simp [Option.filter, h i item hitem]

end

/-- **A second address is shown if and only if the stored bytes differ.** A build takes the address of a
symbol from its descriptor, and the second one, which then differs, from the metadata record. Any table of
the symbols that it comes to, whether a record stopped it or not, lists just the symbols of the records that
disagree, in order. -/
theorem mismatch_shows_unequal_bytes {image : Image} {anchor : Anchor} {header : Header}
    (h : Header.decode image anchor = .ok header) (options : Options) (cores : Nat) :
    let records := Records.ofHeader image header options.nameCap
    let symbols := resolved (buildTable image header options cores).value
    (∀ i (symbol : Symbol), symbols[i]? = some symbol →
      symbol.TellsAddresses records header image i) ∧
    (∀ table : SymbolTable, table.toList = symbols → table.inconsistent =
      ((List.range symbols.length).filter (header.Disagrees image ·)).filterMap (symbols[·]?)) := by
  intro records symbols
  have htells : ∀ i (symbol : Symbol), symbols[i]? = some symbol →
      symbol.TellsAddresses records header image i := by
    intro i symbol hsymbol
    exact (Header.sound_of_decode h).tellsAddresses (symbolAt_of_resolved hsymbol)
  refine ⟨htells, fun table htable => ?_⟩
  rw [SymbolTable.inconsistent, htable]
  refine filter_eq_filterMap_range fun i symbol hsymbol => ?_
  rw [Bool.eq_iff_iff, decide_eq_true_iff, ← (htells i symbol hsymbol).mismatch_iff, Symbol.agrees]
  cases symbol.metadataAddress <;> simp

/-- The second descriptor leads to the first one, which is also the metadata record of a function at another
address; the name that this record leads to is the byte behind the address of the first descriptor. -/
theorem mismatch_shows_unequal_bytes_overlapping :
    let image := twoFunctions.set! 61 0
    let header := Header.readAt image 1 .go116 4
    let symbols : List Symbol := [⟨"a", 4096, none⟩, ⟨"\x10", 4112, some 4096⟩]
    Header.decode image ⟨1, .go116⟩ = .ok header ∧
    resolved (buildTable image header {} 1).value = symbols ∧
    header.metadataAt image 1 = header.descriptorAt 0 ∧
    ¬ header.Disagrees image 0 ∧ header.Disagrees image 1 ∧
    (SymbolTable.ofList symbols).inconsistent = [⟨"\x10", 4112, some 4096⟩] := by
  intro image header symbols
  have hdecode : Header.decode image ⟨1, .go116⟩ = .ok header := by decide +kernel
  have hsymbols : resolved (buildTable image header {} 1).value = symbols := by decide +kernel
  obtain ⟨htells, hlist⟩ := mismatch_shows_unequal_bytes hdecode {} 1
  rw [hsymbols] at htells hlist
  have hagrees : ¬ header.Disagrees image 0 := fun h => by
    have hshown := (htells 0 _ rfl).mismatch_iff.2 h
    cases hshown
  have hdisagrees : header.Disagrees image 1 := (htells 1 _ rfl).mismatch_iff.1 rfl
  refine ⟨hdecode, hsymbols, by decide +kernel, hagrees, hdisagrees, ?_⟩
  rw [hlist _ rfl]
  decide +kernel

end Unstrip

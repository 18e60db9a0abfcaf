import Unstrip.Proofs.Failure

/-!
# Reads that do not fit

A fault that says that the image ends too early names a read: where it begins, how many bytes it wants,
and how many the image has. These numbers are filled in at several places, for whole records, for single
words and for strings, and they are always true: the image has that many bytes, and the read does not
fit in them. Main statement: no reading of an image reports anything else, and a read of a stretch fails
only if it does not fit (`truncated_names_missing_bytes`).
-/

namespace Unstrip

/-- A read that is said not to fit in the image does not fit in its `size` bytes. -/
def Fault.IsHonest (size : Nat) : Fault → Prop
  | .truncated offset length available => available = size ∧ size < offset + length
  | .notFound | .corrupt _ | .unsupported _ => True

/-- A computation on an image of the given size that never names a read which fits. -/
abbrev FailsHonestly {α : Type} (size : Nat) (x : Except Fault α) : Prop :=
  FailsOnlyWith (Fault.IsHonest size) x

/-! ## Stretches, numbers and strings -/

namespace Image

variable (image : Image)

theorem span_failsHonestly (offset length : Nat) :
    FailsHonestly image.size (image.span offset length) := by
  intro fault h
  unfold span at h
  split at h
  · cases h; trivial
  · split at h
    · rename_i hcut
      cases h
      exact ⟨rfl, hcut⟩
    · cases h

theorem read_failsHonestly (offset length : Nat) :
    FailsHonestly image.size (image.read offset length) :=
  .bind (span_failsHonestly image offset length) fun _ _ => .pure

theorem readNumber_failsHonestly (offset width : Nat) :
    FailsHonestly image.size (image.readNumber offset width) :=
  .bind (span_failsHonestly image offset width) fun _ _ => .pure

theorem readWord_failsHonestly (offset width : Nat) :
    FailsHonestly image.size (image.readWord offset width) := by
  intro fault h
  unfold readWord at h
  split at h
  · exact readNumber_failsHonestly image offset width fault h
  · cases h; trivial

/-- A string that is cut names one byte more than the image has behind its start: the zero byte. -/
theorem cString_failsHonestly (offset cap : Nat) :
    FailsHonestly image.size (image.cString offset cap) := by
  intro fault h
  have houtcome := image.stringOutcome_cString offset cap
  rw [h] at houtcome
  cases houtcome with
  | cut => exact ⟨rfl, by omega⟩
  | unterminated => trivial

/-- The three outcomes of a read, told apart by where its stretch ends. -/
structure Settles {α : Type} (offset length : Nat) (value : α) (x : Except Fault α) : Prop where
  ok_iff : ∀ a, x = .ok a ↔ a = value ∧ offset + length ≤ image.size
  truncated_iff : ∀ offset' length' available, x = .error (.truncated offset' length' available) ↔
    (offset' = offset ∧ length' = length ∧ available = image.size) ∧
      image.size < offset + length ∧ offset + length < wordLimit
  corrupt_iff : (∃ cause, x = .error (.corrupt cause)) ↔ wordLimit ≤ offset + length

variable {image}

/-- A read that checks its stretch and nothing else. -/
theorem settles_of_span {α : Type} (hsize : image.size < wordLimit) (offset length : Nat) (value : α) :
    image.Settles offset length value (image.span offset length >>= fun _ => pure value) := by
  unfold span
  by_cases hlimit : wordLimit ≤ offset + length
  · rw [if_pos hlimit]
    constructor <;> simp [bind, Except.bind] <;> omega
  · rw [if_neg hlimit]
    by_cases hcut : image.size < offset + length
    · rw [if_pos hcut]
      constructor <;> simp [bind, Except.bind] <;> omega
    · rw [if_neg hcut]
      have hin : offset + length ≤ image.size := Nat.not_lt.1 hcut
      have hrepresentable : offset + length < wordLimit := Nat.not_le.1 hlimit
      constructor <;> simp [bind, Except.bind, pure, Except.pure, hin, hrepresentable, eq_comm]

end Image

theorem positionAfter_failsHonestly (size base relative : Nat) :
    FailsHonestly size (positionAfter base relative) := by
  intro fault h
  unfold positionAfter at h
  split at h <;> cases h
  trivial

theorem absoluteAddress_failsHonestly (size : Nat) (textStart : Option Nat) (entry : Nat) :
    FailsHonestly size (absoluteAddress textStart entry) := by
  intro fault h
  unfold absoluteAddress at h
  split at h
  · cases h
  · split at h <;> cases h
    trivial

/-! ## Headers -/

namespace Header

theorem decodeOpening_failsHonestly (image : Image) (anchor : Anchor) :
    FailsHonestly image.size (decodeOpening image anchor) := by
  unfold decodeOpening
  refine .bind (Image.span_failsHonestly _ _ _) fun _ _ => ?_
  refine .guard (fun _ => trivial) fun _ => .guard (fun _ => trivial) fun _ => ?_
  exact .guard (fun _ => trivial) fun _ => .pure

theorem decode_failsHonestly (image : Image) (anchor : Anchor) :
    FailsHonestly image.size (decode image anchor) := by
  unfold decode
  refine .bind (decodeOpening_failsHonestly image anchor) fun pointerWidth _ => ?_
  refine .bind (Image.span_failsHonestly _ _ _) fun _ _ => ?_
  exact .bind (validate_failsOnlyWith (fun _ => trivial) trivial _) fun _ _ => .pure

end Header

/-! ## Records -/

theorem DescriptorTable.get_failsHonestly (table : DescriptorTable) (index : Nat) :
    FailsHonestly table.image.size (table.get index) := by
  unfold get
  refine .guard (fun _ => trivial) fun _ => .guard (fun _ => trivial) fun _ => ?_
  refine .bind (positionAfter_failsHonestly _ _ _) fun offset _ => ?_
  refine .bind (Image.span_failsHonestly _ _ _) fun _ _ => ?_
  refine .bind (Image.readWord_failsHonestly _ _ _) fun entry _ => ?_
  refine .bind (Image.readWord_failsHonestly _ _ _) fun link _ => ?_
  exact .bind (absoluteAddress_failsHonestly _ _ _) fun _ _ => .pure

/-- A reading of all descriptors stops with the fault of one of them. -/
theorem DescriptorTable.collect_failsHonestly (table : DescriptorTable) :
    FailsOnlyWith (fun stop => stop.fault.IsHonest table.image.size) table.collect := by
  intro stop h
  exact get_failsHonestly table _ _ (collect_eq_error_iff.1 h).2.2.2

namespace NameTable

variable (names : NameTable)

theorem metadata_failsHonestly (descriptor : Descriptor) :
    FailsHonestly names.image.size (names.metadata descriptor) := by
  unfold metadata
  refine .bind (positionAfter_failsHonestly _ _ _) fun offset _ => ?_
  refine .bind (Image.span_failsHonestly _ _ _) fun _ _ => ?_
  refine .bind (Image.readWord_failsHonestly _ _ _) fun entry _ => ?_
  refine .bind (Image.readNumber_failsHonestly _ _ _) fun index _ => ?_
  exact .bind (absoluteAddress_failsHonestly _ _ _) fun _ _ => .pure

theorem name_failsHonestly (nameIndex : Nat) :
    FailsHonestly names.image.size (names.name nameIndex) := by
  unfold name
  refine .bind (positionAfter_failsHonestly _ _ _) fun offset _ => ?_
  refine .bind (Image.cString_failsHonestly _ _ _) fun bytes _ => ?_
  intro fault h
  split at h
  · exact absurd h pure_ne_error
  · cases h; trivial

theorem follow_failsHonestly (descriptor : Descriptor) :
    FailsHonestly names.image.size (names.follow descriptor) := by
  unfold follow
  refine .bind (metadata_failsHonestly names descriptor) fun metadata _ => ?_
  exact .bind (name_failsHonestly names metadata.nameIndex) fun name _ => .pure

end NameTable

section
variable (image : Image) (header : Header)

theorem Records.symbolAt_failsHonestly (cap index : Nat) :
    FailsHonestly image.size ((ofHeader image header cap).symbolAt index) := by
  intro fault h
  rcases symbolAt_eq_error_iff.1 h with h | ⟨descriptor, -, h⟩
  · exact DescriptorTable.get_failsHonestly _ _ _ h
  · exact NameTable.follow_failsHonestly _ _ _ h

/-! ## Builds and extractions -/

theorem buildTable_failsHonestly (options : Options) (cores : Nat) :
    FailsOnlyWith (fun stop => stop.fault.IsHonest image.size)
      (buildTable image header options cores).value := by
  intro stop h
  exact Records.symbolAt_failsHonestly image header _ _ _ (buildTable_eq_error_iff.1 h).2.2

theorem extract_failsHonestly (options : Options) (cores : Nat) :
    FailsOnlyWith (fun failure => failure.fault.IsHonest image.size)
      (extract image options cores).value := by
  intro failure h
  obtain ⟨fault, hfind, rfl⟩ | ⟨anchor, fault, -, hdecode, rfl⟩ | ⟨anchor, header, stop, -, -, hbuild, rfl⟩ :=
    extract_error_cases h
  · have hkind := Anchor.find_failsOnlyWith image fault hfind
    cases fault with
    | truncated => exact hkind.elim
    | notFound | corrupt | unsupported => trivial
  · exact Header.decode_failsHonestly image anchor fault hdecode
  · exact buildTable_failsHonestly image header options cores stop hbuild

end

/-- **A read that is said not to fit does not fit.** Whatever reads an image (a stretch, a number, a string,
a header at any place, descriptors, metadata records and names of any table, a build, an extraction):
a fault that names a read gives the size of the image, and the read ends behind it. Conversely, a read
of a stretch or of a number succeeds if it ends inside the image, names itself if it ends behind it,
and is corrupt if its end is not representable. -/
theorem truncated_names_missing_bytes (image : Image) (hsize : image.size < wordLimit) :
    (∀ offset length, FailsHonestly image.size (image.read offset length)) ∧
    (∀ offset width, FailsHonestly image.size (image.readNumber offset width) ∧
      FailsHonestly image.size (image.readWord offset width)) ∧
    (∀ offset cap, FailsHonestly image.size (image.cString offset cap)) ∧
    (∀ anchor, FailsHonestly image.size (Header.decode image anchor)) ∧
    (∀ table : DescriptorTable, table.image = image →
      (∀ index, FailsHonestly image.size (table.get index)) ∧
      ∀ stop, table.collect = .error stop → stop.fault.IsHonest image.size) ∧
    (∀ names : NameTable, names.image = image →
      (∀ descriptor, FailsHonestly image.size (names.metadata descriptor) ∧
        FailsHonestly image.size (names.follow descriptor)) ∧
      ∀ nameIndex, FailsHonestly image.size (names.name nameIndex)) ∧
    (∀ header options cores stop, (buildTable image header options cores).value = .error stop →
      stop.fault.IsHonest image.size) ∧
    (∀ options cores failure, (extract image options cores).value = .error failure →
      failure.fault.IsHonest image.size) ∧
    (∀ offset length,
      image.Settles offset length (image.slice offset length) (image.read offset length) ∧
      image.Settles offset length (image.number offset length) (image.readNumber offset length)) := by
  refine ⟨image.read_failsHonestly, fun offset width => ?_, image.cString_failsHonestly,
    Header.decode_failsHonestly image, ?_, ?_, ?_, ?_, fun offset length => ?_⟩
  · exact ⟨image.readNumber_failsHonestly offset width, image.readWord_failsHonestly offset width⟩
  · rintro table rfl
    exact ⟨table.get_failsHonestly, table.collect_failsHonestly⟩
  · rintro names rfl
    exact ⟨fun descriptor => ⟨names.metadata_failsHonestly descriptor,
      names.follow_failsHonestly descriptor⟩, names.name_failsHonestly⟩
  · exact fun header options cores => buildTable_failsHonestly image header options cores
  · exact fun options cores => extract_failsHonestly image options cores
  · exact ⟨Image.settles_of_span hsize offset length _, Image.settles_of_span hsize offset length _⟩

/-- Without its last four bytes, the image of two functions cuts the second metadata record: eight bytes
at position 73, of which there are four. -/
theorem truncated_names_missing_bytes_two_functions :
    let cut : Image := twoFunctions.extract 0 77
    let options : Options := {}
    let failure : ExtractionFailure := ⟨.truncated 73 8 77, .readingFunctions, SymbolTable.blank⟩
    cut.size < wordLimit ∧ (extract cut options 1).value = .error failure ∧
    failure.fault.IsHonest cut.size ∧
    cut.Settles 73 8 (cut.number 73 8) (cut.readNumber 73 8) := by
  intro cut options failure
  have hsize : cut.size < wordLimit := by decide
  have hfail : (extract cut options 1).value = .error failure := by decide +kernel
  obtain ⟨-, -, -, -, -, -, -, hextract, hreads⟩ := truncated_names_missing_bytes cut hsize
  exact ⟨hsize, hfail, hextract _ _ _ hfail, (hreads 73 8).2⟩

end Unstrip

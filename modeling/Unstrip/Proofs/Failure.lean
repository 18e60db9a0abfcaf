import Mathlib.Data.Nat.Find
import Unstrip.Proofs.Format

/-!
# What a failure tells

A failed extraction names the stage that it had reached, a fault, and the symbols that were kept. The
three are set at different places, and still fit together: the stage tells which kind of fault there
is, and what the image looks like (`failure_fits_image`).
-/

namespace Unstrip

/-! ## Two kinds of faults -/

namespace Fault

/-- There is nothing to read. -/
def OfSearch : Fault → Prop
  | .notFound | .unsupported _ => True
  | .truncated .. | .corrupt _ => False

/-- Something that was read is wrong. -/
def OfReading : Fault → Prop
  | .truncated .. | .corrupt _ => True
  | .notFound | .unsupported _ => False

theorem OfRecord.ofReading {fault : Fault} (h : fault.OfRecord) : fault.OfReading := by
  cases fault with
  | truncated | corrupt => trivial
  | notFound | unsupported => exact h.elim

/-- The faults that the bytes of a table can bring about. The causes that are left out would be a slip of
the reading itself. -/
def OfTable : Fault → Prop
  | .truncated .. => True
  | .corrupt cause =>
    match cause with
    | .offsetOverflow .. | .readOverflow .. | .unterminated .. | .addressOverflow .. | .badName ..
    | .wrongMagic .. | .padding _ | .pointerWidth _ | .outside .. | .tooManyFunctions _ => True
    | .wordWidth _ | .noRecord .. | .recordOverflow | .unresolved _ | .stated _ => False
  | .notFound | .unsupported _ => False

theorem OfBytes.ofTable (fault : Fault) (h : fault.OfBytes) : fault.OfTable := by
  cases fault with
  | truncated => trivial
  | corrupt cause => cases cause <;> trivial
  | notFound | unsupported => exact h

theorem OfTable.ofReading {fault : Fault} (h : fault.OfTable) : fault.OfReading := by
  cases fault with
  | truncated | corrupt => trivial
  | notFound | unsupported => exact h.elim

end Fault

/-! ## The search -/

namespace Anchor

variable {image : Image}

/-- No supported signature stands below this one. -/
def IsLowest (anchor : Anchor) (image : Image) : Prop :=
  image.slice anchor.offset 6 = anchor.release.signature ∧
    ∀ j, j < anchor.offset → ∀ release : Release, image.slice j 6 ≠ release.signature

theorem find_failsOnlyWith (image : Image) : FailsOnlyWith Fault.OfSearch (find image) := by
  intro fault h
  unfold find at h
  split at h
  · cases h
  · split at h <;> cases h <;> trivial

/-- Where there is a signature, there is a lowest one. -/
theorem exists_isLowest {offset : Nat} {release : Release}
    (h : image.slice offset 6 = release.signature) : ∃ anchor : Anchor, anchor.IsLowest image := by
  classical
  have hex : ∃ i, ∃ other : Release, image.slice i 6 = other.signature := ⟨offset, release, h⟩
  obtain ⟨lowest, hlowest⟩ := Nat.find_spec hex
  refine ⟨⟨Nat.find hex, lowest⟩, hlowest, ?_⟩
  intro j hj other hother
  exact Nat.find_min hex hj ⟨other, hother⟩

theorem find_eq_error_iff :
    (∃ fault, find image = .error fault) ↔
      ∀ offset (release : Release), image.slice offset 6 ≠ release.signature := by
  constructor
  · rintro ⟨fault, h⟩ offset release hsig
    obtain ⟨anchor, hanchor⟩ := exists_isLowest hsig
    rw [find_eq_ok_iff.2 hanchor] at h
    cases h
  · intro h
    cases hfind : find image with
    | error fault => exact ⟨fault, rfl⟩
    | ok anchor => exact absurd (find_eq_ok_iff.1 hfind).1 (h _ _)

end Anchor

/-! ## The header -/

namespace Header

theorem decodeOpening_failsOnlyWith (image : Image) (anchor : Anchor) :
    FailsOnlyWith Fault.OfTable (decodeOpening image anchor) := by
  unfold decodeOpening
  refine .bind ((Image.span_failsOnlyWith _ _ _).mono Fault.OfBytes.ofTable) fun _ _ => ?_
  refine .guard (fun _ => trivial) fun _ => .guard (fun _ => trivial) fun _ => ?_
  exact .guard (fun _ => trivial) fun _ => .pure

/-- A header is refused for two causes only. -/
theorem validate_failsOnlyWith {kind : Fault → Prop} {header : Header}
    (houtside : ∀ field, kind (.corrupt (.outside field (header.offset field) header.anchor)))
    (hmany : kind (.corrupt (.tooManyFunctions header.functionCount))) (size : Nat) :
    FailsOnlyWith kind (header.validate size) := by
  intro fault h
  unfold validate at h
  cases hfind : Field.offsets.find? fun field => ¬ header.IsInside size field with
  | some field =>
    rw [hfind] at h
    cases h
    exact houtside field
  | none =>
    rw [hfind] at h
    by_cases hroom : header.HasRoom size
    · simp [hroom, pure, Except.pure] at h
    · simp only [hroom, not_false_eq_true, if_true] at h
      cases h
      exact hmany

theorem decode_failsOnlyWith (image : Image) (anchor : Anchor) :
    FailsOnlyWith Fault.OfTable (decode image anchor) := by
  unfold decode
  refine .bind (decodeOpening_failsOnlyWith image anchor) fun pointerWidth _ => ?_
  refine .bind ((Image.span_failsOnlyWith _ _ _).mono Fault.OfBytes.ofTable) fun _ _ => ?_
  exact .bind (validate_failsOnlyWith (fun _ => trivial) trivial _) fun _ _ => .pure

end Header

/-! ## The extraction -/

section
variable {image : Image} {options : Options} {cores : Nat}

theorem extract_of_find_error {fault : Fault} (h : Anchor.find image = .error fault) :
    (extract image options cores).value = .error ⟨fault, .unstarted, SymbolTable.blank⟩ := by
  rw [extract_value, h]

theorem extract_of_decode_error {anchor : Anchor} {fault : Fault} (hfind : Anchor.find image = .ok anchor)
    (h : Header.decode image anchor = .error fault) :
    (extract image options cores).value = .error ⟨fault, .anchorFound, SymbolTable.blank⟩ := by
  rw [extract_value, hfind]
  simp only [h]

theorem extract_of_decode_ok {anchor : Anchor} {header : Header} (hfind : Anchor.find image = .ok anchor)
    (h : Header.decode image anchor = .ok header) :
    (extract image options cores).value = Extraction.build image options cores header := by
  rw [extract_value, hfind]
  simp only [h]

/-- The three ways in which an extraction can fail. -/
theorem extract_error_cases {failure : ExtractionFailure}
    (h : (extract image options cores).value = .error failure) :
    (∃ fault, Anchor.find image = .error fault ∧ failure = ⟨fault, .unstarted, SymbolTable.blank⟩) ∨
    (∃ anchor fault, Anchor.find image = .ok anchor ∧ Header.decode image anchor = .error fault ∧
      failure = ⟨fault, .anchorFound, SymbolTable.blank⟩) ∨
    (∃ anchor header stop, Anchor.find image = .ok anchor ∧ Header.decode image anchor = .ok header ∧
      (buildTable image header options cores).value = .error stop ∧
      failure = ⟨stop.fault, .readingFunctions, Extraction.kept options stop⟩) := by
  cases hfind : Anchor.find image with
  | error fault =>
    rw [extract_of_find_error hfind] at h
    exact .inl ⟨fault, rfl, (Except.error.inj h).symm⟩
  | ok anchor =>
    cases hdecode : Header.decode image anchor with
    | error fault =>
      rw [extract_of_decode_error hfind hdecode] at h
      exact .inr (.inl ⟨anchor, fault, rfl, hdecode, (Except.error.inj h).symm⟩)
    | ok header =>
      rw [extract_of_decode_ok hfind hdecode, Extraction.build] at h
      cases hbuild : (buildTable image header options cores).value with
      | ok table => simp [hbuild] at h
      | error stop =>
        simp only [hbuild, Except.error.injEq] at h
        exact .inr (.inr ⟨anchor, header, stop, rfl, hdecode, hbuild, h.symm⟩)

/-- A failed build keeps fewer symbols than there are records, and none unless it is asked to. -/
theorem Extraction.build_eq_error {header : Header} {failure : ExtractionFailure}
    (h : Extraction.build image options cores header = .error failure) :
    failure.stage = .readingFunctions ∧ failure.fault.OfReading ∧
      (failure.kept.size ≠ 0 → options.allowPartial = true ∧
        failure.kept.size < header.functionCount) := by
  unfold Extraction.build at h
  cases hbuild : (buildTable image header options cores).value with
  | ok table => simp [hbuild] at h
  | error stop =>
    obtain ⟨hlt, -, hfault⟩ := buildTable_eq_error_iff.1 hbuild
    simp only [hbuild, Except.error.injEq] at h
    subst h
    refine ⟨rfl, (Records.symbolAt_failsOnlyWith _ _ _ hfault).ofReading, ?_⟩
    intro hkept
    unfold Extraction.kept at hkept ⊢
    by_cases hpart : options.allowPartial = true
    · rw [if_pos hpart] at hkept ⊢
      exact ⟨hpart, hlt⟩
    · rw [if_neg hpart] at hkept
      exact absurd rfl hkept

end

/-- What the parts of a failure say about the image. -/
structure ExtractionFailure.FitsImage (failure : ExtractionFailure) (image : Image) (options : Options) :
    Prop where
  search_iff : failure.stage = .unstarted ↔
    failure.fault = .notFound ∨ ∃ magic, failure.fault = .unsupported magic
  no_signature_iff : failure.stage = .unstarted ↔
    ∀ offset (release : Release), image.slice offset 6 ≠ release.signature
  bad_header_iff : failure.stage = .anchorFound ↔
    ∃ anchor : Anchor, anchor.IsLowest image ∧ ∃ fault, Header.decode image anchor = .error fault
  header_iff : failure.stage = .readingFunctions ↔
    ∃ anchor : Anchor, anchor.IsLowest image ∧ ∃ header, Header.decode image anchor = .ok header
  reading : failure.stage = .anchorFound ∨ failure.stage = .readingFunctions →
    (∃ offset length available, failure.fault = .truncated offset length available) ∨
      ∃ cause, failure.fault = .corrupt cause
  between : failure.stage ≠ .headerDecoded
  finished : failure.stage ≠ .complete
  kept : failure.kept.size ≠ 0 → failure.stage = .readingFunctions ∧ options.allowPartial = true ∧
    ∃ anchor header, anchor.IsLowest image ∧ Header.decode image anchor = .ok header ∧
      failure.kept.size < header.functionCount

namespace ExtractionFailure

variable {image : Image} {options : Options} {fault : Fault}

theorem fitsImage_of_find_error (h : Anchor.find image = .error fault) :
    FitsImage ⟨fault, .unstarted, SymbolTable.blank⟩ image options := by
  have hnone := Anchor.find_eq_error_iff.1 ⟨fault, h⟩
  have hno : ∀ anchor : Anchor, ¬ anchor.IsLowest image := fun anchor ha => hnone _ _ ha.1
  have hkind := Anchor.find_failsOnlyWith image fault h
  constructor
  case search_iff => cases fault <;> simp_all [Fault.OfSearch]
  all_goals simp [hnone, hno]

/-- Behind the lowest signature, the stage tells whether the header could be decoded. -/
theorem fitsImage_of_find_ok {anchor : Anchor} {stage : Stage} {kept : SymbolTable}
    (hlow : anchor.IsLowest image) (hkind : fault.OfReading)
    (hbad : stage = .anchorFound ↔ ∃ fault, Header.decode image anchor = .error fault)
    (hgood : stage = .readingFunctions ↔ ∃ header, Header.decode image anchor = .ok header)
    (hkept : kept.size ≠ 0 → options.allowPartial = true ∧
      ∃ header, Header.decode image anchor = .ok header ∧ kept.size < header.functionCount) :
    FitsImage ⟨fault, stage, kept⟩ image options := by
  have honly : ∀ other : Anchor, other.IsLowest image → other = anchor := by
    intro other hother
    have := (Anchor.find_eq_ok_iff.2 hother).symm.trans (Anchor.find_eq_ok_iff.2 hlow)
    exact Except.ok.inj this
  have hreached : stage = .anchorFound ∨ stage = .readingFunctions := by
    cases hdecode : Header.decode image anchor with
    | error f => exact .inl (hbad.2 ⟨f, hdecode⟩)
    | ok header => exact .inr (hgood.2 ⟨header, hdecode⟩)
  have hstarted : stage ≠ .unstarted := by rintro rfl; simp at hreached
  constructor
  case search_iff =>
    simp only [hstarted, false_iff]
    rintro (h | ⟨magic, h⟩) <;> subst h <;> exact hkind
  case no_signature_iff =>
    simp only [hstarted, false_iff]
    exact fun h => h _ _ hlow.1
  case bad_header_iff =>
    refine hbad.trans ⟨fun h => ⟨anchor, hlow, h⟩, ?_⟩
    rintro ⟨other, hother, h⟩
    exact honly other hother ▸ h
  case header_iff =>
    refine hgood.trans ⟨fun h => ⟨anchor, hlow, h⟩, ?_⟩
    rintro ⟨other, hother, h⟩
    exact honly other hother ▸ h
  case reading =>
    intro _
    cases fault with
    | truncated offset length available => exact .inl ⟨_, _, _, rfl⟩
    | corrupt cause => exact .inr ⟨_, rfl⟩
    | notFound | unsupported => exact hkind.elim
  case between => rintro rfl; simp at hreached
  case finished => rintro rfl; simp at hreached
  case kept =>
    intro h
    obtain ⟨hpart, header, hdecode, hlt⟩ := hkept h
    exact ⟨hgood.2 ⟨header, hdecode⟩, hpart, anchor, header, hlow, hdecode, hlt⟩

end ExtractionFailure

/-- **Stage, fault and kept symbols of a failure fit together**, and fit the image. Without a
signature, or with a bad header behind the lowest one, there always is a failure. -/
theorem failure_fits_image (image : Image) (options : Options) (cores : Nat) :
    (∀ failure, (extract image options cores).value = .error failure →
      failure.FitsImage image options) ∧
    ((∀ offset (release : Release), image.slice offset 6 ≠ release.signature) →
      ∃ failure, (extract image options cores).value = .error failure) ∧
    (∀ anchor fault, anchor.IsLowest image → Header.decode image anchor = .error fault →
      ∃ failure, (extract image options cores).value = .error failure) := by
  refine ⟨?_, ?_, ?_⟩
  · intro failure h
    cases hfind : Anchor.find image with
    | error fault =>
      rw [extract_of_find_error hfind] at h
      cases h
      exact ExtractionFailure.fitsImage_of_find_error hfind
    | ok anchor =>
      have hlow : anchor.IsLowest image := Anchor.find_eq_ok_iff.1 hfind
      cases hdecode : Header.decode image anchor with
      | error fault =>
        rw [extract_of_decode_error hfind hdecode] at h
        cases h
        have hkind := (Header.decode_failsOnlyWith image anchor fault hdecode).ofReading
        exact ExtractionFailure.fitsImage_of_find_ok hlow hkind (by simp [hdecode]) (by simp [hdecode])
          (absurd rfl)
      | ok header =>
        rw [extract_of_decode_ok hfind hdecode] at h
        obtain ⟨hstage, hkind, hkept⟩ := Extraction.build_eq_error h
        obtain ⟨fault, stage, kept⟩ := failure
        obtain rfl : stage = .readingFunctions := hstage
        refine ExtractionFailure.fitsImage_of_find_ok hlow hkind (by simp [hdecode]) (by simp [hdecode]) ?_
        intro h
        exact ⟨(hkept h).1, header, hdecode, (hkept h).2⟩
  · intro hnone
    obtain ⟨fault, hfind⟩ := Anchor.find_eq_error_iff.2 hnone
    exact ⟨_, extract_of_find_error hfind⟩
  · intro anchor fault hlow hdecode
    exact ⟨_, extract_of_decode_error (Anchor.find_eq_ok_iff.2 hlow) hdecode⟩

/-- A name that is too long, an image without a table, and a header that is cut short. -/
theorem failure_fits_image_two_functions :
    let options : Options := { nameCap := 2, allowPartial := true }
    let failure : ExtractionFailure := ⟨.corrupt (.unterminated 39 2), .readingFunctions,
      SymbolTable.ofArray #[⟨"a", 4096, none⟩]⟩
    let cut : Image := twoFunctions.extract 0 20
    (extract twoFunctions options 1).value = .error failure ∧ failure.FitsImage twoFunctions options ∧
    (∀ offset (release : Release), Image.slice #[] offset 6 ≠ release.signature) ∧
    (∃ failure, (extract #[] options 1).value = .error failure) ∧
    Anchor.IsLowest ⟨1, .go116⟩ cut ∧
    Header.decode cut ⟨1, .go116⟩ = .error (.truncated 1 36 20) ∧
    (∃ failure, (extract cut options 1).value = .error failure) := by
  intro options failure cut
  have hfail : (extract twoFunctions options 1).value = .error failure := by decide +kernel
  have hnone : ∀ offset (release : Release), Image.slice #[] offset 6 ≠ release.signature := by
    intro offset release h
    have := Image.lt_size_of_signature h
    simp at this
  have hlow : Anchor.IsLowest ⟨1, .go116⟩ cut := Anchor.find_eq_ok_iff.1 rfl
  have hdecode : Header.decode cut ⟨1, .go116⟩ = .error (.truncated 1 36 20) := by decide +kernel
  exact ⟨hfail, (failure_fits_image twoFunctions options 1).1 _ hfail, hnone,
    (failure_fits_image #[] options 1).2.1 hnone, hlow, hdecode,
    (failure_fits_image cut options 1).2.2 _ _ hlow hdecode⟩

end Unstrip

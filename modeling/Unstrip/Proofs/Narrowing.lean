import Unstrip.Proofs.Failure
import Unstrip.Proofs.Outcome

/-!
# Narrowing to a section

A section that usually holds the table is scanned first, even if nobody has asked for it, and the whole file
is scanned only if nothing at all is found there. A header of another release counts as something: where
the section has one, a table elsewhere in the file stays hidden, and otherwise none does
(`narrowing_hides_behind_foreign_header`).
-/

namespace Unstrip

/-! ## Headers of other releases -/

namespace Anchor

variable {image : Image} {offset magic : Nat}

/-- A header of some release seems to open at the offset. -/
def LooksForeign (image : Image) (offset : Nat) : Prop :=
  ∃ low quantum pointer : UInt8,
    image.slice offset 8 = [low, 0xff, 0xff, 0xff, 0, 0, quantum, pointer] ∧
      0xf0 ≤ low ∧ quantum ∈ [1, 2, 4] ∧ pointer ∈ [4, 8]

theorem hasAt_commonTail_of_slice {low quantum pointer : UInt8}
    (h : image.slice offset 8 = [low, 0xff, 0xff, 0xff, 0, 0, quantum, pointer]) :
    image.hasAt commonTail (offset + 1) = true := by
  have htail := Image.slice_slice image offset 8 1 5 (by decide)
  rw [h] at htail
  rw [Image.hasAt_iff]
  exact htail.symm

theorem foreignMagic?_eq_some_iff :
    foreignMagic? image offset = some magic ↔
      LooksForeign image offset ∧ magic = image.number offset 4 := by
  unfold foreignMagic?
  constructor
  · intro h
    split at h
    · rename_i htail
      split at h
      · rename_i low b₁ b₂ b₃ b₄ b₅ quantum pointer hbytes
        split at h
        · rename_i hfits
          have hslice := Image.slice_slice image offset 8 1 5 (by decide)
          rw [show image.slice offset 8 = _ from hbytes] at hslice
          rw [Image.hasAt_iff] at htail
          have htail' : [b₁, b₂, b₃, b₄, b₅] = commonTail := hslice.trans htail
          simp only [commonTail, List.cons.injEq, and_true] at htail'
          obtain ⟨rfl, rfl, rfl, rfl, rfl⟩ := htail'
          exact ⟨⟨low, quantum, pointer, hbytes, hfits⟩, (Option.some.inj h).symm⟩
        · cases h
      · cases h
    · cases h
  · rintro ⟨⟨low, quantum, pointer, hbytes, hfits⟩, rfl⟩
    have hopening : image.slice offset Release.openingSize =
        [low, 0xff, 0xff, 0xff, 0, 0, quantum, pointer] := hbytes
    rw [if_pos (hasAt_commonTail_of_slice hbytes), hopening]
    simp only
    rw [if_pos hfits]

theorem LooksForeign.lt_size (h : LooksForeign image offset) : offset + 8 ≤ image.size := by
  obtain ⟨low, quantum, pointer, hbytes, -⟩ := h
  have hlen := congrArg List.length hbytes
  rw [Image.length_slice] at hlen
  simp only [List.length_cons, List.length_nil] at hlen
  omega

theorem isSome_foreignMagic?_iff : (foreignMagic? image offset).isSome = true ↔ LooksForeign image offset := by
  simp only [Option.isSome_iff_exists, foreignMagic?_eq_some_iff, exists_and_left, exists_eq, and_true]

/-- The lowest position where a header of some release seems to open. -/
def IsLowestForeign (image : Image) (offset : Nat) : Prop :=
  LooksForeign image offset ∧ ∀ j, j < offset → ¬ LooksForeign image j

theorem firstForeign?_eq_some_iff :
    firstForeign? image = some magic ↔
      ∃ offset, IsLowestForeign image offset ∧ magic = image.number offset 4 := by
  unfold firstForeign?
  simp only [bind, Option.bind_eq_some_iff, Image.firstFrom_eq_some_iff, Nat.zero_le, true_and,
    Nat.zero_add, true_implies, isSome_foreignMagic?_iff, foreignMagic?_eq_some_iff,
    ← Bool.not_eq_true]
  constructor
  · rintro ⟨offset, ⟨-, hforeign, hlow⟩, -, rfl⟩
    exact ⟨offset, ⟨hforeign, hlow⟩, rfl⟩
  · rintro ⟨offset, ⟨hforeign, hlow⟩, rfl⟩
    have := hforeign.lt_size
    exact ⟨offset, ⟨by omega, hforeign, hlow⟩, hforeign, rfl⟩

/-- Another release is reported if its header is the first that can be recognised, and there is no
signature. -/
theorem find_eq_unsupported_iff :
    find image = .error (.unsupported magic) ↔
      (∀ offset (release : Release), image.slice offset 6 ≠ release.signature) ∧
        ∃ offset, IsLowestForeign image offset ∧ magic = image.number offset 4 := by
  rw [← find_eq_error_iff, ← firstForeign?_eq_some_iff]
  unfold find
  cases first? image with
  | some anchor => simp
  | none => cases firstForeign? image <;> simp

theorem exists_isLowestForeign (h : LooksForeign image offset) :
    ∃ lowest, IsLowestForeign image lowest := by
  classical
  have hex : ∃ i, LooksForeign image i := ⟨offset, h⟩
  exact ⟨Nat.find hex, Nat.find_spec hex, fun j hj => Nat.find_min hex hj⟩

theorem firstForeign?_eq_none_iff : firstForeign? image = none ↔ ∀ offset, ¬ LooksForeign image offset := by
  simp only [Option.eq_none_iff_forall_ne_some, ne_eq, firstForeign?_eq_some_iff, not_exists, not_and]
  constructor
  · intro hnone offset hforeign
    obtain ⟨lowest, hlowest⟩ := exists_isLowestForeign hforeign
    exact hnone _ lowest hlowest rfl
  · exact fun hnone magic offset hlowest => absurd hlowest.1 (hnone offset)

/-- Nothing is found if there is neither a signature nor a header that can be recognised. -/
theorem find_eq_notFound_iff :
    find image = .error .notFound ↔
      (∀ offset (release : Release), image.slice offset 6 ≠ release.signature) ∧
        ∀ offset, ¬ LooksForeign image offset := by
  rw [← find_eq_error_iff, ← firstForeign?_eq_none_iff]
  unfold find
  cases first? image with
  | some anchor => simp
  | none => cases firstForeign? image <;> simp

end Anchor

/-! ## Runs -/

namespace Program

variable {arguments : Arguments} {directory : Directory} {file : Image} {region : Region} {cores : Nat}

/-- A default section without anything to find is given up for the whole file. -/
theorem counts_wholeFile (hdefault : arguments.sectionName = none) (hnarrow : region.sectionName ≠ none)
    (hfind : Anchor.find (region.bytes file) = .error .notFound) :
    Counts arguments file region cores (Region.whole file) (extract file arguments.options cores).value :=
  .wholeFile ⟨hdefault, hnarrow, _, extract_of_find_error hfind, rfl⟩

/-- A section with the header of another release is not given up, whoever has chosen it. -/
theorem counts_foreign {magic : Nat} (hfind : Anchor.find (region.bytes file) = .error (.unsupported magic)) :
    Counts arguments file region cores region
      (.error ⟨.unsupported magic, .unstarted, SymbolTable.blank⟩) := by
  have hextract : (extract (region.bytes file) arguments.options cores).value =
      .error ⟨.unsupported magic, .unstarted, SymbolTable.blank⟩ := extract_of_find_error hfind
  rw [← hextract]
  refine .chosen ?_
  rintro ⟨-, -, failure, hfailure, hfault⟩
  rw [hextract] at hfailure
  cases hfailure
  cases hfault

theorem failsWith_of_foreign {magic : Nat}
    (hload : load (directory.read arguments.input) arguments.sectionName = .ok (file, region))
    (hfind : Anchor.find (region.bytes file) = .error (.unsupported magic)) :
    FailsWith arguments directory
      (.extraction ⟨.unsupported magic, .unstarted, SymbolTable.blank⟩) (run arguments directory cores) := by
  have hrefused : reportOf arguments region
      (.error ⟨.unsupported magic, .unstarted, SymbolTable.blank⟩) = .error _ :=
    reportOf_eq_error_iff.2 ⟨rfl, fun haccepts => by cases haccepts.2⟩
  refine failsWith_of_respond ?_
  rw [respond_of_load_ok hload (counts_foreign hfind), hrefused]
  rfl

/-- A section is scanned that nobody has asked for, and the signature of a table stands in the file, but
none in the section. -/
structure TableIsElsewhere (arguments : Arguments) (directory : Directory) (file : Image)
    (region : Region) : Prop where
  loaded : load (directory.read arguments.input) arguments.sectionName = .ok (file, region)
  unasked : arguments.sectionName = none
  narrow : region.sectionName ≠ none
  missing : ∀ offset (release : Release), (region.bytes file).slice offset 6 ≠ release.signature
  present : ∃ offset, ∃ release : Release, file.slice offset 6 = release.signature

/-- Where there is a signature, no extraction stops at the search. -/
theorem stage_ne_unstarted {image : Image} {options : Options} {failure : ExtractionFailure}
    (h : ∃ offset, ∃ release : Release, image.slice offset 6 = release.signature)
    (hfail : (extract image options cores).value = .error failure) : failure.stage ≠ .unstarted := by
  obtain ⟨offset, release, hsig⟩ := h
  obtain ⟨fault, hfind, -⟩ | ⟨_, _, -, -, rfl⟩ | ⟨_, _, _, -, -, -, rfl⟩ := extract_error_cases hfail
  · exact absurd hsig (Anchor.find_eq_error_iff.1 ⟨fault, hfind⟩ offset release)
  · simp
  · simp

/-- **Narrowing to a default section hides a table behind the header of another release, and nowhere
else.** If the table is elsewhere, and the section has no such header, the run reports what the whole
file comes to, and that is not a failed search. If the section has one, the run fails with the magic number
of the first. -/
theorem narrowing_hides_behind_foreign_header (h : TableIsElsewhere arguments directory file region)
    (cores : Nat) :
    let outcome := run arguments directory cores
    let result := (extract file arguments.options cores).value
    (∀ failure, result = .error failure → failure.stage ≠ .unstarted) ∧
    ((∀ offset, ¬ Anchor.LooksForeign (region.bytes file) offset) →
      outcome = conclude arguments (Region.whole file) result directory) ∧
    (∀ offset, Anchor.IsLowestForeign (region.bytes file) offset →
      FailsWith arguments directory (.extraction
        ⟨.unsupported ((region.bytes file).number offset 4), .unstarted, SymbolTable.blank⟩) outcome) := by
  intro outcome result
  refine ⟨fun failure hfail => stage_ne_unstarted h.present hfail, fun hnone => ?_, ?_⟩
  · have hfind := Anchor.find_eq_notFound_iff.2 ⟨h.missing, hnone⟩
    exact run_of_load_ok h.loaded (counts_wholeFile h.unasked h.narrow hfind)
  · intro offset hlowest
    have hfind := Anchor.find_eq_unsupported_iff.2 ⟨h.missing, offset, hlowest, rfl⟩
    exact failsWith_of_foreign h.loaded hfind

/-- An object with one section, which holds the given eight bytes and is called `.rdata`. Behind the section
stands the table of two functions. -/
def objectAround (bytes : Image) : Image :=
  #[0x64, 0x86, 1, 0, 0, 0, 0, 0, 0, 0, 0, 0, 0, 0, 0, 0, 0, 0, 0, 0,
    0x2e, 0x72, 0x64, 0x61, 0x74, 0x61, 0, 0, 0, 0, 0, 0, 0, 0, 0, 0, 8, 0, 0, 0, 60, 0, 0, 0,
    0, 0, 0, 0, 0, 0, 0, 0, 0, 0, 0, 0, 0x40, 0, 0, 0x40]
    ++ bytes ++ twoFunctions

/-- The object if its section holds zeros. -/
def plainObject : Image := objectAround #[0, 0, 0, 0, 0, 0, 0, 0]

/-- The object if its section holds the header of a release that came before the supported ones. -/
def legacyObject : Image := objectAround #[0xfb, 0xff, 0xff, 0xff, 0, 0, 1, 8]

/-- A file on its own in the directory, of which a default section is chosen. -/
theorem tableIsElsewhere_alone {name : String} {fault : Fault} {offset : Nat} {release : Release}
    (hregion : Region.ofFile file none = .ok region) (hname : region.sectionName = some name)
    (hfind : Anchor.find (region.bytes file) = .error fault)
    (hsig : file.slice offset 6 = release.signature) :
    TableIsElsewhere { input := "input.bin" } ⟨[("input.bin", file)]⟩ file region where
  loaded := by
    have hread : (⟨[("input.bin", file)]⟩ : Directory).read "input.bin" = .ok file := rfl
    simp only [load, hread, hregion]
  unasked := rfl
  narrow := by simp [hname]
  missing := Anchor.find_eq_error_iff.1 ⟨fault, hfind⟩
  present := ⟨offset, release, hsig⟩

/-- The region of the section of such an object. -/
def rdata : Region := ⟨60, 8, some ".rdata"⟩

theorem find_legacyObject :
    Anchor.find (rdata.bytes legacyObject) = .error (.unsupported 0xfffffffb) := by decide +kernel

theorem legacyObject_elsewhere :
    TableIsElsewhere { input := "input.bin" } ⟨[("input.bin", legacyObject)]⟩ legacyObject rdata := by
  have hregion : Region.ofFile legacyObject none = .ok rdata := by decide +kernel
  have hsig : legacyObject.slice 69 6 = Release.go116.signature := by decide +kernel
  exact tableIsElsewhere_alone hregion rfl find_legacyObject hsig

/-- The table behind the plain section is found, and the table behind the old header is not. -/
theorem narrowing_hides_behind_foreign_header_two_functions :
    let arguments : Arguments := { input := "input.bin" }
    let plain : Directory := ⟨[("input.bin", plainObject)]⟩
    let legacy : Directory := ⟨[("input.bin", legacyObject)]⟩
    TableIsElsewhere arguments plain plainObject rdata ∧
    run arguments plain 1 = conclude arguments (Region.whole plainObject)
      (extract plainObject arguments.options 1).value plain ∧
    TableIsElsewhere arguments legacy legacyObject rdata ∧
    FailsWith arguments legacy (.extraction ⟨.unsupported 0xfffffffb, .unstarted, .blank⟩)
      (run arguments legacy 1) := by
  intro arguments plain legacy
  have hregion : Region.ofFile plainObject none = .ok rdata := by decide +kernel
  have hsig : plainObject.slice 69 6 = Release.go116.signature := by decide +kernel
  have hfind : Anchor.find (rdata.bytes plainObject) = .error .notFound := by decide +kernel
  have hplain : TableIsElsewhere arguments plain plainObject rdata :=
    tableIsElsewhere_alone hregion rfl hfind hsig
  have hnone := (Anchor.find_eq_notFound_iff.1 hfind).2
  obtain ⟨offset, hlowest, hmagic⟩ := (Anchor.find_eq_unsupported_iff.1 find_legacyObject).2
  have hfails := (narrowing_hides_behind_foreign_header legacyObject_elsewhere 1).2.2 offset hlowest
  rw [← hmagic] at hfails
  exact ⟨hplain, (narrowing_hides_behind_foreign_header hplain 1).2.1 hnone, legacyObject_elsewhere, hfails⟩

/-- The whole file has the table, and the run fails at the old header in the section. -/
theorem table_hidden_by_legacy_header :
    let arguments : Arguments := { input := "input.bin" }
    let directory : Directory := ⟨[("input.bin", legacyObject)]⟩
    let outcome := run arguments directory 1
    let outcome' := conclude arguments (Region.whole legacyObject)
      (extract legacyObject arguments.options 1).value directory
    TableIsElsewhere arguments directory legacyObject rdata ∧
    outcome.exit = .failure ∧ outcome'.exit = .success ∧ outcome ≠ outcome' := by
  intro arguments directory outcome outcome'
  have hfails : FailsWith arguments directory _ outcome :=
    failsWith_of_foreign legacyObject_elsewhere.loaded find_legacyObject
  have hfail : outcome.exit = .failure := by
    have hcode := hfails.code
    cases hexit : outcome.exit with
    | failure => rfl
    | success | partialTable => exact absurd (hexit ▸ hcode) (by decide)
  have hsucceed : outcome'.exit = .success := by decide +kernel
  refine ⟨legacyObject_elsewhere, hfail, hsucceed, fun hsame => ?_⟩
  rw [hsame, hsucceed] at hfail
  cases hfail

end Program

end Unstrip

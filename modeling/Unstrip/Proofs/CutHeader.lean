import Unstrip.Proofs.Extension
import Unstrip.Proofs.ValidHeader

/-!
# Headers that are cut short

An image that is cut keeps the bytes in front of the cut, and loses those behind it. So its table is found
as long as the signature is whole, and its header is decoded as long as the header is whole. In between, the
opening of eight bytes or the header that it announces is missing, and this is what the failure says
(`cut_header_is_truncated`).

`Unstrip.Proofs.Extension` goes from an image to a longer one; here the longer one is known, and it is asked
what the shorter one comes to.
-/

namespace Unstrip

variable {image suffix : Image} {anchor : Anchor} {header : Header}

/-! ## The search -/

namespace Anchor

/-- A signature that is whole is found again: the image has no other in front of it. -/
theorem find_of_append (h : find (image ++ suffix) = .ok anchor) (hin : anchor.offset + 6 ≤ image.size) :
    find image = .ok anchor := by
  obtain ⟨hsig, hlow⟩ := find_eq_ok_iff.1 h
  refine find_eq_ok_iff.2 ⟨?_, fun j hj release => ?_⟩
  · rw [← Image.slice_append image suffix hin]
    exact hsig
  · rw [← Image.slice_append image suffix (by omega)]
    exact hlow j hj release

/-- A cut in front of the end of the lowest signature leaves none. -/
theorem find_of_cut (h : find (image ++ suffix) = .ok anchor) (hcut : image.size < anchor.offset + 6) :
    ∃ fault, find image = .error fault := by
  obtain ⟨-, hlow⟩ := find_eq_ok_iff.1 h
  refine find_eq_error_iff.2 fun offset release hsig => ?_
  have hin := Image.lt_size_of_signature hsig
  rw [← Image.slice_append image suffix hin] at hsig
  exact hlow offset (by omega) release hsig

end Anchor

/-! ## The header -/

namespace Header

theorem decodeOpening_of_append {pointerWidth : Nat}
    (h : decodeOpening (image ++ suffix) anchor = .ok pointerWidth)
    (hin : anchor.offset + 8 ≤ image.size) : decodeOpening image anchor = .ok pointerWidth := by
  obtain hsame | hcut := decodeOpening_append image suffix anchor
  · rw [← hsame]
    exact h
  · exact absurd (endsEarly_decodeOpening.1 hcut).2 (Nat.not_lt.2 hin)

theorem openingSize_le_size (header : Header) : 8 ≤ header.size := Nat.le_add_right _ _

/-- A cut in the opening is reported as eight bytes that are missing. -/
theorem decode_of_cut_opening (h : decode (image ++ suffix) anchor = .ok header)
    (hcut : image.size < anchor.offset + 8) :
    decode image anchor = .error (.truncated anchor.offset 8 image.size) := by
  obtain ⟨-, -, -, hend, -⟩ := exists_of_decode h
  have hopening := header.openingSize_le_size
  have hspan : image.span anchor.offset Release.openingSize = _ :=
    Image.span_of_cut (show anchor.offset + 8 < wordLimit by omega) hcut
  rw [decode, decodeOpening, hspan]
  rfl

/-- A cut behind the opening is reported as a header that is missing. -/
theorem decode_of_cut_fields (h : decode (image ++ suffix) anchor = .ok header)
    (hin : anchor.offset + 8 ≤ image.size) (hcut : image.size < anchor.offset + header.size) :
    decode image anchor = .error (.truncated anchor.offset header.size image.size) := by
  obtain ⟨pointerWidth, hopening, hsize, hend, -, -⟩ := exists_of_decode h
  rw [hsize] at hend hcut ⊢
  rw [decode_of_opening (decodeOpening_of_append hopening hin), Image.span_of_cut hend hcut]
  rfl

/-- A header that is whole is read as before, and checked against the size of the image that is left. -/
theorem decode_of_whole (h : decode (image ++ suffix) anchor = .ok header)
    (hin : anchor.offset + header.size ≤ image.size) :
    decode image anchor = (do header.validate image.size; return header) := by
  obtain ⟨pointerWidth, hopening, hsize, hend, -, hheader⟩ := exists_of_decode h
  have hlarge := header.openingSize_le_size
  rw [hsize] at hend hin hlarge
  have hspan : image.span anchor.offset (anchor.release.headerSize pointerWidth) = .ok () :=
    Image.span_eq_ok_iff.2 ⟨hend, hin⟩
  rw [readAt_append suffix hin] at hheader
  rw [decode_of_opening (decodeOpening_of_append hopening (by omega)), hspan, ← hheader]
  rfl

/-- So it can still be refused, but not for being cut. -/
theorem not_endsEarly_of_whole (h : decode (image ++ suffix) anchor = .ok header)
    (hin : anchor.offset + header.size ≤ image.size) : ¬ EndsEarly (decode image anchor) := by
  rw [decode_of_whole h hin, EndsEarly.bind_iff]
  rintro (hearly | ⟨u, -, hearly⟩)
  · exact not_endsEarly_validate header image.size hearly
  · exact EndsEarly.not_pure header hearly

end Header

/-! ## The extraction -/

section
variable (options : Options) (cores : Nat)

theorem extract_of_cut_signature (hfind : Anchor.find (image ++ suffix) = .ok anchor)
    (hcut : image.size < anchor.offset + 6) :
    ∃ fault, (extract image options cores).value = .error ⟨fault, .unstarted, SymbolTable.blank⟩ ∧
      (fault = .notFound ∨ ∃ magic, fault = .unsupported magic) := by
  obtain ⟨fault, hfault⟩ := Anchor.find_of_cut hfind hcut
  refine ⟨fault, extract_of_find_error hfault, ?_⟩
  have hkind := Anchor.find_failsOnlyWith image fault hfault
  cases fault with
  | notFound => exact .inl rfl
  | unsupported magic => exact .inr ⟨magic, rfl⟩
  | truncated | corrupt => exact hkind.elim

theorem extract_of_cut_header (hfind : Anchor.find (image ++ suffix) = .ok anchor)
    (hdecode : Header.decode (image ++ suffix) anchor = .ok header)
    (hin : anchor.offset + 6 ≤ image.size) (hcut : image.size < anchor.offset + header.size) :
    (extract image options cores).value = .error
      ⟨.truncated anchor.offset (if image.size < anchor.offset + 8 then 8 else header.size) image.size,
        .anchorFound, SymbolTable.blank⟩ := by
  refine extract_of_decode_error (Anchor.find_of_append hfind hin) ?_
  by_cases hopening : image.size < anchor.offset + 8
  · rw [if_pos hopening]
    exact Header.decode_of_cut_opening hdecode hopening
  · rw [if_neg hopening]
    exact Header.decode_of_cut_fields hdecode (Nat.not_lt.1 hopening) hcut

/-- Behind the header, a cut can lead to a position outside the image or to a record that does not fit. -/
theorem extract_of_whole_header (hfind : Anchor.find (image ++ suffix) = .ok anchor)
    (hdecode : Header.decode (image ++ suffix) anchor = .ok header)
    (hin : anchor.offset + header.size ≤ image.size) {failure : ExtractionFailure}
    (h : (extract image options cores).value = .error failure) :
    failure.fault.OfReading ∧
      (failure.stage = .readingFunctions ∨
        failure.stage = .anchorFound ∧ ∃ cause, failure.fault = .corrupt cause) := by
  have hopening := header.openingSize_le_size
  have hfind' := Anchor.find_of_append hfind (show anchor.offset + 6 ≤ image.size by omega)
  cases hdecode' : Header.decode image anchor with
  | ok header' =>
    rw [extract_of_decode_ok hfind' hdecode'] at h
    obtain ⟨hstage, hkind, -⟩ := Extraction.build_eq_error h
    exact ⟨hkind, .inl hstage⟩
  | error fault =>
    rw [extract_of_decode_error hfind' hdecode'] at h
    cases h
    have hkind := (Header.decode_failsOnlyWith image anchor fault hdecode').ofReading
    refine ⟨hkind, .inr ⟨rfl, ?_⟩⟩
    cases fault with
    | corrupt cause => exact ⟨cause, rfl⟩
    | truncated offset length available =>
      exact absurd ⟨offset, length, available, hdecode'⟩ (Header.not_endsEarly_of_whole hdecode hin)
    | notFound | unsupported => exact hkind.elim

end

/-- **A header that is cut short is always reported as such.** An image has a table, and all but its first
`size` bytes are lost. If this cuts the signature, there is nothing to be found; if it cuts the header, the
missing read is that of the opening or of the header; and if the header is whole, nothing of this is ever
reported. -/
theorem cut_header_is_truncated (hfind : Anchor.find image = .ok anchor)
    (hdecode : Header.decode image anchor = .ok header) (size : Nat) (hsize : size ≤ image.size)
    (options : Options) (cores : Nat) :
    let result := (extract (image.extract 0 size) options cores).value
    (size < anchor.offset + 6 → ∃ fault, result = .error ⟨fault, .unstarted, SymbolTable.blank⟩ ∧
      (fault = .notFound ∨ ∃ magic, fault = .unsupported magic)) ∧
    (anchor.offset + 6 ≤ size → size < anchor.offset + header.size → result = .error
      ⟨.truncated anchor.offset (if size < anchor.offset + 8 then 8 else header.size) size, .anchorFound,
        SymbolTable.blank⟩) ∧
    (anchor.offset + header.size ≤ size → ∀ failure, result = .error failure →
      failure.fault ≠ .notFound ∧ (∀ magic, failure.fault ≠ .unsupported magic) ∧
      ¬ (failure.stage = .anchorFound ∧
        ∃ offset length available, failure.fault = .truncated offset length available)) := by
  intro result
  have hcut : (image.extract 0 size).size = size := by simp [hsize]
  have hwhole := image.extract_append_extract size
  rw [← hwhole] at hfind hdecode
  refine ⟨fun hlt => ?_, fun hin hlt => ?_, fun hin failure hfail => ?_⟩
  · exact extract_of_cut_signature options cores hfind (by rwa [hcut])
  · have hcuts := extract_of_cut_header options cores hfind hdecode (by rwa [hcut]) (by rwa [hcut])
    rwa [hcut] at hcuts
  · obtain ⟨hkind, hplace⟩ := extract_of_whole_header options cores hfind hdecode (by rwa [hcut]) hfail
    refine ⟨?_, fun magic hmagic => ?_, ?_⟩
    · intro hnone
      rw [hnone] at hkind
      exact hkind
    · rw [hmagic] at hkind
      exact hkind
    · rintro ⟨hstage, offset, length, available, hearly⟩
      obtain hreading | ⟨-, cause, hcause⟩ := hplace
      · rw [hstage] at hreading
        cases hreading
      · rw [hearly] at hcause
        cases hcause

/-- The image of two functions has a header of 36 bytes behind its first byte. It is cut in the signature, in
the opening, in the fields, and behind the header in the first descriptor. -/
theorem cut_header_is_truncated_two_functions :
    let header := Header.readAt twoFunctions 1 .go116 4
    let result (size : Nat) := (extract (twoFunctions.extract 0 size) {} 1).value
    let cut (length size : Nat) : ExtractionFailure :=
      ⟨.truncated 1 length size, .anchorFound, SymbolTable.blank⟩
    let failure : ExtractionFailure := ⟨.truncated 49 8 49, .readingFunctions, SymbolTable.blank⟩
    Anchor.find twoFunctions = .ok ⟨1, .go116⟩ ∧ Header.decode twoFunctions ⟨1, .go116⟩ = .ok header ∧
    (∃ fault, result 6 = .error ⟨fault, .unstarted, SymbolTable.blank⟩ ∧
      (fault = .notFound ∨ ∃ magic, fault = .unsupported magic)) ∧
    result 8 = .error (cut 8 8) ∧ result 36 = .error (cut 36 36) ∧ result 49 = .error failure ∧
    ¬ (failure.stage = .anchorFound ∧
      ∃ offset length available, failure.fault = .truncated offset length available) := by
  intro header result cut failure
  have hfind : Anchor.find twoFunctions = .ok ⟨1, .go116⟩ := rfl
  have hdecode : Header.decode twoFunctions ⟨1, .go116⟩ = .ok header := rfl
  have hbehind : result 49 = .error failure := by decide +kernel
  have hcut (size : Nat) (hsize : size ≤ 81) := cut_header_is_truncated hfind hdecode size hsize {} 1
  exact ⟨hfind, hdecode, (hcut 6 (by decide)).1 (by decide),
    (hcut 8 (by decide)).2.1 (by decide) (by decide), (hcut 36 (by decide)).2.1 (by decide) (by decide),
    hbehind, ((hcut 49 (by decide)).2.2 (by decide) _ hbehind).2.2⟩

end Unstrip

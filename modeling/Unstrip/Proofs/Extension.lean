import Unstrip.Proofs.Failure

/-!
# Bytes behind an image

What has been read stays as it is when bytes follow the image. Only a fault that says that the image
ends too early may give way to something else, so a check of an image and the same check of its
extension are related by `StaysUnlessCut`, which the steps of a reading inherit from each other.
Main statement: an extraction from the extension gets at least as far (`extract_append`).
-/

namespace Unstrip

/-! ## Outcomes that stay -/

section
variable {α β : Type}

/-- The second outcome is the first one, unless the first one ran into the end of the image. -/
def StaysUnlessCut (x y : Except Fault α) : Prop :=
  y = x ∨ ∃ offset length available, x = .error (.truncated offset length available)

namespace StaysUnlessCut

theorem refl (x : Except Fault α) : StaysUnlessCut x x := .inl rfl

theorem bind {x y : Except Fault α} {f g : α → Except Fault β} (h : StaysUnlessCut x y)
    (hfg : ∀ a, x = .ok a → StaysUnlessCut (f a) (g a)) : StaysUnlessCut (x >>= f) (y >>= g) := by
  rcases h with rfl | ⟨offset, length, available, rfl⟩
  · cases y with
    | error fault => exact .inl rfl
    | ok a => exact hfg a rfl
  · exact .inr ⟨offset, length, available, rfl⟩

theorem guard {c : Prop} [Decidable c] {fault : Fault} {f : α → Except Fault β} {x y : Except Fault β}
    (h : StaysUnlessCut x y) :
    StaysUnlessCut (if c then throw fault >>= f else x) (if c then throw fault >>= f else y) := by
  by_cases hc : c
  · rw [if_pos hc, if_pos hc]
    exact refl _
  · rw [if_neg hc, if_neg hc]
    exact h

theorem eq_ok {x y : Except Fault α} {a : α} (h : StaysUnlessCut x y) (hx : x = .ok a) : y = .ok a := by
  rcases h with rfl | ⟨_, _, _, h⟩
  · exact hx
  · rw [h] at hx; cases hx

theorem eq_corrupt {x y : Except Fault α} {cause : Cause} (h : StaysUnlessCut x y)
    (hx : x = .error (.corrupt cause)) : y = .error (.corrupt cause) := by
  rcases h with rfl | ⟨_, _, _, h⟩
  · exact hx
  · rw [h] at hx; cases hx

end StaysUnlessCut

end

/-! ## Reading -/

namespace Image

variable (image suffix : Image)

theorem slice_append {offset length : Nat} (h : offset + length ≤ image.size) :
    (image ++ suffix).slice offset length = image.slice offset length := by
  have hlen : length ≤ (image.toList.drop offset).length := by simp; omega
  rw [slice_eq, slice_eq, Array.toList_append, List.drop_append_of_le_length (by simp; omega),
    List.take_append_of_le_length hlen]

theorem number_append {offset width : Nat} (h : offset + width ≤ image.size) :
    (image ++ suffix).number offset width = image.number offset width := by
  rw [number, number, slice_append image suffix h]

theorem span_append (offset length : Nat) :
    StaysUnlessCut (image.span offset length) ((image ++ suffix).span offset length) := by
  unfold span
  by_cases hlimit : wordLimit ≤ offset + length
  · rw [if_pos hlimit, if_pos hlimit]
    exact .refl _
  · rw [if_neg hlimit, if_neg hlimit]
    by_cases hcut : image.size < offset + length
    · rw [if_pos hcut]
      exact .inr ⟨_, _, _, rfl⟩
    · rw [if_neg hcut, if_neg (by simp; omega)]
      exact .refl _

theorem readNumber_append (offset width : Nat) :
    StaysUnlessCut (image.readNumber offset width) ((image ++ suffix).readNumber offset width) := by
  unfold readNumber
  refine .bind (span_append image suffix offset width) fun u hspan => ?_
  rw [number_append image suffix (span_eq_ok_unit_iff.1 hspan).2]
  exact .refl _

theorem readWord_append (offset width : Nat) :
    StaysUnlessCut (image.readWord offset width) ((image ++ suffix).readWord offset width) := by
  unfold readWord
  by_cases hwidth : width = 4 ∨ width = 8
  · rw [if_pos hwidth, if_pos hwidth]
    exact readNumber_append image suffix offset width
  · rw [if_neg hwidth, if_neg hwidth]
    exact .refl _

theorem cString_append (offset cap : Nat) :
    StaysUnlessCut (image.cString offset cap) ((image ++ suffix).cString offset cap) := by
  have hsize : (image ++ suffix).size = image.size + suffix.size := Array.size_append
  have hat (i : Nat) (hi : i < image.size) : (image ++ suffix)[i]? = image[i]? :=
    Array.getElem?_append_left hi
  have houtcome := image.stringOutcome_cString offset cap
  generalize image.cString offset cap = outcome at houtcome ⊢
  cases houtcome with
  | found within zero =>
    have hin := zero.lt_size
    rw [← slice_append image suffix (Nat.le_of_lt hin)]
    refine .inl (StringOutcome.found within ⟨?_, fun j hj => ?_⟩).cString_eq
    · rw [hat _ hin]
      exact zero.1
    · rw [hat _ (by omega)]
      exact zero.2 j hj
  | cut => exact .inr ⟨_, _, _, rfl⟩
  | unterminated inside noZero =>
    refine .inl (StringOutcome.unterminated (by omega) fun j hj => ?_).cString_eq
    rw [hat _ (by omega)]
    exact noZero j hj

end Image

/-! ## Records -/

/-- The same table in another image. -/
def DescriptorTable.inImage (table : DescriptorTable) (image : Image) : DescriptorTable :=
  { table with image := image }

def NameTable.inImage (names : NameTable) (image : Image) : NameTable :=
  { names with image := image }

theorem DescriptorTable.get_append (table : DescriptorTable) (suffix : Image) (index : Nat) :
    StaysUnlessCut (table.get index) ((table.inImage (table.image ++ suffix)).get index) := by
  unfold get
  refine .guard (.guard (.bind (.refl _) fun offset _ => ?_))
  refine .bind (Image.span_append _ suffix _ _) fun _ _ => ?_
  refine .bind (Image.readWord_append _ suffix _ _) fun entry _ => ?_
  refine .bind (Image.readWord_append _ suffix _ _) fun link _ => ?_
  exact .refl _

theorem NameTable.metadata_append (names : NameTable) (suffix : Image) (descriptor : Descriptor) :
    StaysUnlessCut (names.metadata descriptor)
      ((names.inImage (names.image ++ suffix)).metadata descriptor) := by
  unfold metadata
  refine .bind (.refl _) fun offset _ => ?_
  refine .bind (Image.span_append _ suffix _ _) fun _ _ => ?_
  refine .bind (Image.readWord_append _ suffix _ _) fun entry _ => ?_
  refine .bind (Image.readNumber_append _ suffix _ _) fun index _ => ?_
  exact .refl _

theorem NameTable.name_append (names : NameTable) (suffix : Image) (nameIndex : Nat) :
    StaysUnlessCut (names.name nameIndex) ((names.inImage (names.image ++ suffix)).name nameIndex) := by
  unfold name
  refine .bind (.refl _) fun offset _ => ?_
  exact .bind (Image.cString_append _ suffix _ _) fun bytes _ => .refl _

theorem Records.symbolAt_append (image suffix : Image) (header : Header) (cap index : Nat) :
    StaysUnlessCut ((Records.ofHeader image header cap).symbolAt index)
      ((Records.ofHeader (image ++ suffix) header cap).symbolAt index) := by
  unfold symbolAt symbolOf NameTable.follow
  refine .bind (DescriptorTable.get_append _ suffix index) fun descriptor _ => ?_
  refine .bind (.bind (NameTable.metadata_append _ suffix descriptor) fun metadata _ => ?_) fun entry _ => ?_
  · exact .bind (NameTable.name_append _ suffix _) fun name _ => .refl _
  · exact .refl _

/-! ## Headers -/

theorem Anchor.find_append {image : Image} {anchor : Anchor} (suffix : Image)
    (h : Anchor.find image = .ok anchor) : Anchor.find (image ++ suffix) = .ok anchor := by
  obtain ⟨hsig, hlow⟩ := find_eq_ok_iff.1 h
  have hin := Image.lt_size_of_signature hsig
  refine find_eq_ok_iff.2 ⟨?_, fun j hj release => ?_⟩
  · rw [Image.slice_append image suffix hin]
    exact hsig
  · -- a signature that begins below the lowest one would end before it does
    rw [Image.slice_append image suffix (by omega)]
    exact hlow j hj release

namespace Header

variable {image : Image}

theorem decodeOpening_append (image suffix : Image) (anchor : Anchor) :
    StaysUnlessCut (decodeOpening image anchor) (decodeOpening (image ++ suffix) anchor) := by
  unfold decodeOpening
  refine .bind (Image.span_append image suffix _ _) fun u hspan => ?_
  have hin : anchor.offset + 8 ≤ image.size := (Image.span_eq_ok_unit_iff.1 hspan).2
  rw [Image.number_append image suffix (by omega), Image.number_append image suffix (by omega),
    Image.number_append image suffix (by omega)]
  exact .refl _

theorem fieldValue?_append (suffix : Image) {base width : Nat} {release : Release}
    (h : base + release.headerSize width ≤ image.size) (field : Field) :
    fieldValue? (image ++ suffix) base release width field = fieldValue? image base release width field := by
  unfold fieldValue?
  cases hfield : release.fields.idxOf? field with
  | none => rfl
  | some index =>
    obtain ⟨hindex, -⟩ := List.idxOf?_eq_some_iff.1 hfield
    have hend : (index + 1) * width ≤ release.fields.length * width :=
      Nat.mul_le_mul_right width hindex
    rw [Release.headerSize] at h
    rw [Nat.succ_mul] at hend
    rw [Option.map_some, Option.map_some, Image.number_append image suffix (by omega)]

theorem readAt_append (suffix : Image) {base width : Nat} {release : Release}
    (h : base + release.headerSize width ≤ image.size) :
    readAt (image ++ suffix) base release width = readAt image base release width := by
  have hopening : 8 ≤ release.headerSize width := Nat.le_add_right _ _
  simp only [readAt, fieldValue?_append suffix h,
    Image.number_append image suffix (show base + 6 + 1 ≤ image.size by omega)]

theorem validate_mono {header : Header} {size size' : Nat} (hle : size ≤ size')
    (h : header.validate size = .ok ()) : header.validate size' = .ok () := by
  obtain ⟨hin, hroom⟩ := validate_eq_ok_iff.1 h
  refine validate_eq_ok_iff.2 ⟨fun field hmem => ?_, hroom.1, ?_⟩
  · exact ⟨(hin field hmem).1, Nat.le_trans (hin field hmem).2 hle⟩
  · exact Nat.le_trans hroom.2 hle

/-- A header that has been decoded is decoded again; here the size of the image has a say, and a
header that is refused may be accepted later. -/
theorem decode_append {anchor : Anchor} {header : Header} (suffix : Image)
    (h : decode image anchor = .ok header) : decode (image ++ suffix) anchor = .ok header := by
  simp only [decode, bind_eq_ok_iff] at h ⊢
  obtain ⟨pointerWidth, hopening, u, hspan, v, hvalid, hheader⟩ := h
  have hin := (Image.span_eq_ok_unit_iff.1 hspan).2
  refine ⟨pointerWidth, (decodeOpening_append image suffix anchor).eq_ok hopening, u,
    (Image.span_append image suffix _ _).eq_ok hspan, v, ?_, ?_⟩
  · rw [readAt_append suffix hin]
    exact validate_mono (by simp) hvalid
  · rw [readAt_append suffix hin]
    exact hheader

end Header

/-! ## Builds and extractions -/

section
variable {image : Image} {options : Options} {cores : Nat}

theorem resolved_append (image suffix : Image) (header : Header) (options : Options) (cores : Nat) :
    resolved (buildTable image header options cores).value <+:
      resolved (buildTable (image ++ suffix) header options cores).value := by
  refine resolved_isPrefix (Nat.le_refl _) fun i symbol h => ?_
  exact (Records.symbolAt_append image suffix header options.nameCap i).eq_ok h

theorem buildTable_append_ok {header : Header} {table : SymbolTable} (suffix : Image)
    (h : (buildTable image header options cores).value = .ok table) :
    (buildTable (image ++ suffix) header options cores).value = .ok table := by
  obtain ⟨symbols, hsize, hall, htable⟩ := buildTable_eq_ok_iff.1 h
  refine buildTable_eq_ok_iff.2 ⟨symbols, hsize, fun i hi => ?_, htable⟩
  exact (Records.symbolAt_append image suffix header options.nameCap i).eq_ok (hall i hi)

theorem buildTable_append_corrupt {header : Header} {stop : InterruptedBuild} {cause : Cause}
    (suffix : Image) (hcause : stop.fault = .corrupt cause)
    (h : (buildTable image header options cores).value = .error stop) :
    (buildTable (image ++ suffix) header options cores).value = .error stop := by
  obtain ⟨hlt, hall, hbad⟩ := buildTable_eq_error_iff.1 h
  have hstays := Records.symbolAt_append image suffix header options.nameCap
  refine buildTable_eq_error_iff.2 ⟨hlt, fun i hi => (hstays i).eq_ok (hall i hi), ?_⟩
  rw [hcause] at hbad ⊢
  exact (hstays _).eq_corrupt hbad

/-- An extraction that stops at a record has found and decoded a header. -/
theorem extract_eq_stopped_iff {fault : Fault} {kept : SymbolTable} :
    (extract image options cores).value = .error ⟨fault, .readingFunctions, kept⟩ ↔
      ∃ anchor header stop, Anchor.find image = .ok anchor ∧ Header.decode image anchor = .ok header ∧
        (buildTable image header options cores).value = .error stop ∧
        fault = stop.fault ∧ kept = Extraction.kept options stop := by
  rw [extract_value]
  cases Anchor.find image with
  | error fault => simp
  | ok anchor =>
    cases hdecode : Header.decode image anchor with
    | error fault => simp [hdecode]
    | ok header =>
      cases hbuild : (buildTable image header options cores).value with
      | ok table => simp [hdecode, Extraction.build, hbuild]
      | error stop => simp [hdecode, Extraction.build, hbuild, eq_comm]

theorem Extraction.kept_isPrefix (stop : InterruptedBuild) :
    (kept options stop).toList <+: stop.symbols.toList := by
  unfold kept
  by_cases hpart : options.allowPartial = true
  · rw [if_pos hpart]
    exact List.prefix_rfl
  · rw [if_neg hpart]
    exact List.nil_prefix

theorem Extraction.kept_mono {stop stop' : InterruptedBuild}
    (h : stop.symbols.toList <+: stop'.symbols.toList) :
    (kept options stop).toList <+: (kept options stop').toList := by
  unfold kept
  by_cases hpart : options.allowPartial = true
  · rw [if_pos hpart, if_pos hpart]
    exact h
  · simp only [hpart, Bool.false_eq_true, if_false]
    exact List.prefix_rfl

theorem extract_append_ok {table : SymbolTable} (suffix : Image)
    (h : (extract image options cores).value = .ok table) :
    (extract (image ++ suffix) options cores).value = .ok table := by
  obtain ⟨anchor, header, hfind, hdecode, hbuild⟩ := extract_eq_ok_iff.1 h
  exact extract_eq_ok_iff.2 ⟨anchor, header, Anchor.find_append suffix hfind,
    Header.decode_append suffix hdecode, buildTable_append_ok suffix hbuild⟩

/-- The symbols that an extraction comes to, those of a failure included. -/
def recovered : Except ExtractionFailure SymbolTable → List Symbol
  | .ok table => table.toList
  | .error failure => failure.kept.toList

theorem Extraction.recovered_build_append (image suffix : Image) (options : Options) (cores : Nat)
    (header : Header) :
    recovered (build image options cores header) <+:
      recovered (build (image ++ suffix) options cores header) := by
  have hmore := resolved_append image suffix header options cores
  unfold build
  cases hbuild : (buildTable image header options cores).value with
  | ok table =>
    simp only [buildTable_append_ok suffix hbuild]
    exact List.prefix_rfl
  | error stop =>
    rw [hbuild] at hmore
    cases hbuild' : (buildTable (image ++ suffix) header options cores).value with
    | ok table =>
      rw [hbuild'] at hmore
      exact (kept_isPrefix stop).trans hmore
    | error stop' =>
      rw [hbuild'] at hmore
      exact kept_mono hmore

theorem recovered_append (image suffix : Image) (options : Options) (cores : Nat) :
    recovered (extract image options cores).value <+:
      recovered (extract (image ++ suffix) options cores).value := by
  cases hfind : Anchor.find image with
  | error fault =>
    rw [extract_of_find_error hfind]
    exact List.nil_prefix
  | ok anchor =>
    cases hdecode : Header.decode image anchor with
    | error fault =>
      rw [extract_of_decode_error hfind hdecode]
      exact List.nil_prefix
    | ok header =>
      rw [extract_of_decode_ok hfind hdecode,
        extract_of_decode_ok (Anchor.find_append suffix hfind) (Header.decode_append suffix hdecode)]
      exact Extraction.recovered_build_append image suffix options cores header

/-- What is cut off an image comes back when it is appended. -/
theorem Image.extract_append_extract (image : Image) (size : Nat) :
    image.extract 0 size ++ image.extract size image.size = image := by
  rw [Array.extract_append_extract, Nat.min_eq_left (Nat.zero_le _)]
  exact Array.extract_eq_self_of_le (Nat.le_max_right _ _)

end

/-- **Bytes behind an image do not change what has been recovered.** An image that has a table still
has it. A record that is corrupt remains so, and stops the extraction as before. An extraction that
ran into the end of the image may get further, but the symbols that it kept still come first. So an
image that is cut does not lead to another table, and what is recovered from it comes first in what
is recovered from the whole image. -/
theorem extract_append (image suffix : Image) (options : Options) (cores : Nat) :
    (∀ table, (extract image options cores).value = .ok table →
      (extract (image ++ suffix) options cores).value = .ok table) ∧
    (∀ cause kept,
      (extract image options cores).value = .error ⟨.corrupt cause, .readingFunctions, kept⟩ →
      (extract (image ++ suffix) options cores).value =
        .error ⟨.corrupt cause, .readingFunctions, kept⟩) ∧
    (∀ offset length available kept, (extract image options cores).value =
        .error ⟨.truncated offset length available, .readingFunctions, kept⟩ →
      (∃ table, (extract (image ++ suffix) options cores).value = .ok table ∧
        kept.toList <+: table.toList) ∨
      ∃ fault kept', (extract (image ++ suffix) options cores).value =
        .error ⟨fault, .readingFunctions, kept'⟩ ∧ kept.toList <+: kept'.toList) ∧
    (∀ size,
      (∀ table, (extract (image.extract 0 size) options cores).value = .ok table →
        (extract image options cores).value = .ok table) ∧
      recovered (extract (image.extract 0 size) options cores).value <+:
        recovered (extract image options cores).value) := by
  refine ⟨fun table h => extract_append_ok suffix h, ?_, ?_, ?_⟩
  · intro cause kept h
    obtain ⟨anchor, header, stop, hfind, hdecode, hbuild, hcause, hkept⟩ := extract_eq_stopped_iff.1 h
    exact extract_eq_stopped_iff.2 ⟨anchor, header, stop, Anchor.find_append suffix hfind,
      Header.decode_append suffix hdecode, buildTable_append_corrupt suffix hcause.symm hbuild,
      hcause, hkept⟩
  · intro offset length available kept h
    obtain ⟨anchor, header, stop, hfind, hdecode, -, -, -⟩ := extract_eq_stopped_iff.1 h
    have hmore := recovered_append image suffix options cores
    have hstage := @extract_of_decode_ok _ options cores _ _ (Anchor.find_append suffix hfind)
      (Header.decode_append suffix hdecode)
    rw [h] at hmore
    cases hvalue : (extract (image ++ suffix) options cores).value with
    | ok table =>
      rw [hvalue] at hmore
      exact .inl ⟨table, rfl, hmore⟩
    | error failure =>
      rw [hvalue] at hmore hstage
      obtain ⟨fault, stage, kept'⟩ := failure
      obtain rfl : stage = .readingFunctions := (Extraction.build_eq_error hstage.symm).1
      exact .inr ⟨fault, kept', rfl, hmore⟩
  · intro size
    have hwhole := image.extract_append_extract size
    refine ⟨fun table h => ?_, ?_⟩
    · have := extract_append_ok (image.extract size image.size) h
      rwa [hwhole] at this
    · have := recovered_append (image.extract 0 size) (image.extract size image.size) options cores
      rwa [hwhole] at this

/-- The bytes behind the two functions are another signature. Without its last four bytes, the second
metadata record is cut. -/
theorem extract_append_two_functions :
    let options : Options := { allowPartial := true }
    let short : Options := { nameCap := 2, allowPartial := true }
    let suffix : Image := #[250, 255, 255, 255, 0, 0]
    let cut : Image := twoFunctions.extract 0 77
    let table := SymbolTable.ofArray #[⟨"a", 4096, none⟩, ⟨"main", 4112, none⟩]
    let kept := SymbolTable.ofArray #[⟨"a", 4096, none⟩]
    let corrupt : ExtractionFailure := ⟨.corrupt (.unterminated 39 2), .readingFunctions, kept⟩
    let truncated : ExtractionFailure := ⟨.truncated 73 8 77, .readingFunctions, kept⟩
    ((extract twoFunctions options 1).value = .ok table ∧
      (extract (twoFunctions ++ suffix) options 1).value = .ok table) ∧
    ((extract twoFunctions short 1).value = .error corrupt ∧
      (extract (twoFunctions ++ suffix) short 1).value = .error corrupt) ∧
    ((extract cut options 1).value = .error truncated ∧
      ((∃ table, (extract (cut ++ suffix) options 1).value = .ok table ∧
          kept.toList <+: table.toList) ∨
        ∃ fault kept', (extract (cut ++ suffix) options 1).value =
          .error ⟨fault, .readingFunctions, kept'⟩ ∧ kept.toList <+: kept'.toList)) ∧
    recovered (extract cut options 1).value <+: recovered (extract twoFunctions options 1).value := by
  intro options short suffix cut table kept corrupt truncated
  have hok : (extract twoFunctions options 1).value = .ok table := by decide +kernel
  have hcorrupt : (extract twoFunctions short 1).value = .error corrupt := by decide +kernel
  have htruncated : (extract cut options 1).value = .error truncated := by decide +kernel
  exact ⟨⟨hok, (extract_append twoFunctions suffix options 1).1 _ hok⟩,
    ⟨hcorrupt, (extract_append twoFunctions suffix short 1).2.1 _ _ hcorrupt⟩,
    ⟨htruncated, (extract_append cut suffix options 1).2.2.1 _ _ _ _ htruncated⟩,
    ((extract_append twoFunctions suffix options 1).2.2.2 77).2⟩

end Unstrip

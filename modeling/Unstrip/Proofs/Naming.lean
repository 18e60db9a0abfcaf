import Unstrip.Proofs.Format
import Unstrip.Proofs.IllFormed
import Unstrip.Proofs.Machine.Records
import Unstrip.Proofs.ValidHeader

/-!
# Names

A name is read at an index of the name area: its bytes are those in front of the next zero byte, which
has to come after at most as many bytes as the cap allows (`Image.Spells`), and they have to be text.
Main statement: for every header that is decoded, this is what reading a name comes to, and if it fails,
the fault says whether the image ends first, no zero byte comes in time, or the bytes are no text, and
then from where and why (`name_is_capped_text`).
-/

namespace Unstrip

namespace Image

/-- The bytes at a position that end in front of a zero byte, at most `cap` of them. -/
def Spells (image : Image) (offset cap : Nat) (bytes : List UInt8) : Prop :=
  ∃ length, length ≤ cap ∧ image.ZeroAfter offset length ∧ bytes = image.slice offset length

variable {image : Image} {offset cap : Nat}

/-! ## Strings that are not read -/

/-- The image ends before a zero byte is found, be it at the position or behind it. -/
def Cuts (image : Image) (offset cap : Nat) : Prop :=
  image.size ≤ offset ∨ (∀ i, offset ≤ i → image[i]? ≠ some 0) ∧ image.size - offset ≤ cap

/-- There are `cap` bytes and one more at the position, and none of them is zero. -/
def Exceeds (image : Image) (offset cap : Nat) : Prop :=
  offset + cap < image.size ∧ ∀ j, j ≤ cap → image[offset + j]? ≠ some 0

theorem Spells.not_cuts {bytes : List UInt8} (h : image.Spells offset cap bytes) :
    ¬ image.Cuts offset cap := by
  obtain ⟨length, -, hzero, -⟩ := h
  have hin := hzero.lt_size
  rintro (hbehind | ⟨hnone, -⟩)
  · omega
  · exact hnone _ (Nat.le_add_right _ _) hzero.1

theorem Exceeds.not_spells (h : image.Exceeds offset cap) (bytes : List UInt8) :
    ¬ image.Spells offset cap bytes :=
  fun ⟨length, hcap, hzero, _⟩ => h.2 length hcap hzero.1

theorem Exceeds.not_cuts (h : image.Exceeds offset cap) : ¬ image.Cuts offset cap := by
  have hin := h.1
  rintro (hbehind | ⟨-, hshort⟩) <;> omega

/-- The reading of a string has three outcomes. -/
theorem cString_cases (hsize : image.size + 1 < wordLimit) (offset cap : Nat) :
    (∃ bytes, image.Spells offset cap bytes ∧ image.cString offset cap = .ok bytes) ∨
    (image.Cuts offset cap ∧ EndsEarly (image.cString offset cap)) ∨
    (image.Exceeds offset cap ∧
      image.cString offset cap = .error (.corrupt (.unterminated offset cap))) := by
  have houtcome := image.stringOutcome_cString offset cap
  generalize image.cString offset cap = outcome at houtcome ⊢
  cases houtcome with
  | found within zero => exact .inl ⟨_, ⟨_, by omega, zero, rfl⟩, rfl⟩
  | cut noZero short => exact .inr (.inl ⟨.inr ⟨noZero, by omega⟩, _, _, _, rfl⟩)
  | unterminated inside noZero => exact .inr (.inr ⟨⟨by omega, fun j hj => noZero j (by omega)⟩, rfl⟩)

end Image

/-! ## Names that are not read -/

namespace NameTable

variable {names : NameTable} {nameIndex : Nat}

/-- The position of a name that is a word. -/
theorem name_eq_bind (hposition : names.nameBase + nameIndex < wordLimit) :
    names.name nameIndex = names.image.cString (names.nameBase + nameIndex) names.nameCap >>=
      fun bytes => match Utf8.decode bytes with
        | .ok characters => .ok (String.ofList characters)
        | .error fault => .error (.corrupt (.badName (names.nameBase + nameIndex) fault)) := by
  unfold name
  rw [positionAfter_eq_ok_iff.2 ⟨hposition, rfl⟩]
  rfl

/-- The bytes of a string are decoded, and their fault is that of the name. -/
theorem name_of_spells (hsize : names.image.size < wordLimit)
    (hposition : names.nameBase + nameIndex < wordLimit) {bytes : List UInt8}
    (h : names.image.Spells (names.nameBase + nameIndex) names.nameCap bytes) :
    names.name nameIndex = match Utf8.decode bytes with
      | .ok characters => .ok (String.ofList characters)
      | .error fault => .error (.corrupt (.badName (names.nameBase + nameIndex) fault)) := by
  rw [name_eq_bind hposition, (Image.cString_eq_ok_iff hsize).2 h]
  rfl

/-- The fault of a string is that of the name. -/
theorem name_of_cString_eq_error (hposition : names.nameBase + nameIndex < wordLimit) {fault : Fault}
    (h : names.image.cString (names.nameBase + nameIndex) names.nameCap = .error fault) :
    names.name nameIndex = .error fault := by
  rw [name_eq_bind hposition, h]
  rfl

/-- The reading of a name has four outcomes. -/
theorem name_cases (hsize : names.image.size + 1 < wordLimit)
    (hposition : names.nameBase + nameIndex < wordLimit) :
    (∃ bytes, names.image.Spells (names.nameBase + nameIndex) names.nameCap bytes ∧
      ((∃ name, names.name nameIndex = .ok name) ∨ ∃ fault : Utf8.Fault, fault.Describes bytes ∧
        names.name nameIndex = .error (.corrupt (.badName (names.nameBase + nameIndex) fault)))) ∨
    (names.image.Cuts (names.nameBase + nameIndex) names.nameCap ∧ EndsEarly (names.name nameIndex)) ∨
    (names.image.Exceeds (names.nameBase + nameIndex) names.nameCap ∧ names.name nameIndex =
      .error (.corrupt (.unterminated (names.nameBase + nameIndex) names.nameCap))) := by
  rcases Image.cString_cases hsize (names.nameBase + nameIndex) names.nameCap with
    ⟨bytes, hspells, -⟩ | ⟨hcuts, _, _, _, hstring⟩ | ⟨hexceeds, hstring⟩
  · refine .inl ⟨bytes, hspells, ?_⟩
    rw [name_of_spells (Nat.lt_of_succ_lt hsize) hposition hspells]
    cases hdecode : Utf8.decode bytes with
    | ok characters => exact .inl ⟨_, rfl⟩
    | error fault => exact .inr ⟨fault, Utf8.decode_eq_error_iff.1 hdecode, rfl⟩
  · exact .inr (.inl ⟨hcuts, _, _, _, name_of_cString_eq_error hposition hstring⟩)
  · exact .inr (.inr ⟨hexceeds, name_of_cString_eq_error hposition hstring⟩)

theorem endsEarly_name_iff (hsize : names.image.size + 1 < wordLimit)
    (hposition : names.nameBase + nameIndex < wordLimit) :
    EndsEarly (names.name nameIndex) ↔
      names.image.Cuts (names.nameBase + nameIndex) names.nameCap := by
  rcases name_cases hsize hposition with ⟨bytes, hspells, ⟨name, hname⟩ | ⟨fault, -, hname⟩⟩ |
    ⟨hcuts, hearly⟩ | ⟨hexceeds, hname⟩
  · simp [EndsEarly, hname, hspells.not_cuts]
  · simp [EndsEarly, hname, hspells.not_cuts]
  · exact iff_of_true hearly hcuts
  · simp [EndsEarly, hname, hexceeds.not_cuts]

theorem name_eq_corrupt_iff (hsize : names.image.size + 1 < wordLimit)
    (hposition : names.nameBase + nameIndex < wordLimit) {cause : Cause} :
    names.name nameIndex = .error (.corrupt cause) ↔
      (names.image.Exceeds (names.nameBase + nameIndex) names.nameCap ∧
        cause = .unterminated (names.nameBase + nameIndex) names.nameCap) ∨
      ∃ bytes, names.image.Spells (names.nameBase + nameIndex) names.nameCap bytes ∧
        ∃ fault : Utf8.Fault, fault.Describes bytes ∧
          cause = .badName (names.nameBase + nameIndex) fault := by
  constructor
  · intro h
    rcases name_cases hsize hposition with ⟨bytes, hspells, ⟨name, hname⟩ | ⟨fault, hfault, hname⟩⟩ |
      ⟨-, _, _, _, hname⟩ | ⟨hexceeds, hname⟩ <;> rw [h] at hname <;> cases hname
    · exact .inr ⟨bytes, hspells, fault, hfault, rfl⟩
    · exact .inl ⟨hexceeds, rfl⟩
  · rintro (⟨hexceeds, rfl⟩ | ⟨bytes, hspells, fault, hfault, rfl⟩)
    · rcases name_cases hsize hposition with ⟨bytes, hspells, -⟩ | ⟨hcuts, -⟩ | ⟨-, hname⟩
      · exact absurd hspells (hexceeds.not_spells _)
      · exact absurd hcuts hexceeds.not_cuts
      · exact hname
    · rw [name_of_spells (Nat.lt_of_succ_lt hsize) hposition hspells, Utf8.decode_eq_error_iff.2 hfault]

/-- The wording of a fault of a name that is no text. -/
def notText (offset : Nat) (words : String) : String :=
  s!"Corrupt symbol table: function name at 0x{hex offset} is not UTF-8: {words}"

/-- What is said of bytes that are no text. -/
theorem message_of_spells (hsize : names.image.size < wordLimit)
    (hposition : names.nameBase + nameIndex < wordLimit) {bytes : List UInt8} {index : Nat}
    (h : names.image.Spells (names.nameBase + nameIndex) names.nameCap bytes)
    (hlongest : Utf8.IsLongestText bytes index) (hlt : index < bytes.length) :
    ∃ fault words, names.name nameIndex = .error fault ∧
      fault.message = notText (names.nameBase + nameIndex) words ∧
      ((Utf8.OpensCharacter (bytes.drop index) ∧
          words = s!"incomplete utf-8 byte sequence from index {index}") ∨
        (¬ Utf8.OpensCharacter (bytes.drop index) ∧ ∃ length, Utf8.IsBadPart (bytes.drop index) length ∧
          words = s!"invalid utf-8 sequence of {length} bytes from index {index}")) := by
  rw [name_of_spells hsize hposition h]
  rcases Utf8.decode_of_isLongestText hlongest hlt with
    ⟨hopens, hdecode⟩ | ⟨hopens, length, hpart, hdecode⟩ <;> rw [hdecode]
  · exact ⟨_, _, rfl, rfl, .inl ⟨hopens, rfl⟩⟩
  · exact ⟨_, _, rfl, rfl, .inr ⟨hopens, length, hpart, rfl⟩⟩

end NameTable

/-- **A name is the text in front of the next zero byte**, if that comes within the cap. Otherwise the
image ends first, or the bytes are more than the cap allows, or they are not text; of these it is said
where the longest text ends, and whether a character is cut short there or how long the bad part is.
Checked arithmetic on words of 64 bits comes to the same. -/
theorem name_is_capped_text {image : Image} (hsize : image.size < 1 <<< 63) {anchor : Anchor}
    {header : Header} (hdecode : Header.decode image anchor = .ok header) (cap : Nat) {nameIndex : Nat}
    (hindex : nameIndex < 1 <<< 32) :
    let names := NameTable.ofHeader image header cap
    let offset := header.nameBase + nameIndex
    (∀ name, names.name nameIndex = .ok name ↔ image.Spells offset cap name.toUTF8.toList) ∧
    (EndsEarly (names.name nameIndex) ↔ image.Cuts offset cap) ∧
    (∀ cause, names.name nameIndex = .error (.corrupt cause) ↔
      (image.Exceeds offset cap ∧ cause = .unterminated offset cap) ∨
      ∃ bytes, image.Spells offset cap bytes ∧ ∃ fault : Utf8.Fault, fault.Describes bytes ∧
        cause = .badName offset fault) ∧
    (∀ fault, names.name nameIndex = .error fault →
      EndsEarly (names.name nameIndex) ∨ ∃ cause, fault = .corrupt cause) ∧
    (∀ bytes index, image.Spells offset cap bytes → Utf8.IsLongestText bytes index →
      index < bytes.length → ∃ fault words, names.name nameIndex = .error fault ∧
        fault.message = NameTable.notText offset words ∧
        ((Utf8.OpensCharacter (bytes.drop index) ∧
            words = s!"incomplete utf-8 byte sequence from index {index}") ∨
          (¬ Utf8.OpensCharacter (bytes.drop index) ∧ ∃ length,
            Utf8.IsBadPart (bytes.drop index) length ∧
              words = s!"invalid utf-8 sequence of {length} bytes from index {index}"))) ∧
    Machine.ComesTo (Machine.name names nameIndex) (names.name nameIndex) := by
  intro names offset
  have hsize' : names.image.size + 1 < wordLimit := Machine.succ_lt_wordLimit hsize
  have hword : names.image.size < wordLimit := Nat.lt_of_succ_lt hsize'
  -- the name area begins inside the image, so an index of 32 bits leads to a position of 64
  have hposition : names.nameBase + nameIndex < wordLimit := by
    have hbase : names.nameBase ≤ image.size := (Header.sound_of_decode hdecode).nameBase_le
    have hlimit : 1 <<< 63 + 1 <<< 32 < wordLimit := by decide
    omega
  refine ⟨fun name => NameTable.name_eq_ok_iff hword, NameTable.endsEarly_name_iff hsize' hposition,
    fun cause => NameTable.name_eq_corrupt_iff hsize' hposition, fun fault hfault => ?_,
    fun bytes index => NameTable.message_of_spells hword hposition,
    Machine.name_comesTo hsize' nameIndex⟩
  rcases NameTable.name_cases hsize' hposition with ⟨_, -, ⟨_, hname⟩ | ⟨_, -, hname⟩⟩ | ⟨-, hearly⟩ |
    ⟨-, hname⟩
  · rw [hfault] at hname
    cases hname
  · exact .inr ⟨_, Except.error.inj (hfault.symm.trans hname)⟩
  · exact .inl hearly
  · exact .inr ⟨_, Except.error.inj (hfault.symm.trans hname)⟩

/-- The second name within four bytes and within three, a position behind the image, and the second
name with a last byte that a character could begin with. -/
theorem name_is_capped_text_two_functions :
    let header := Header.readAt twoFunctions 1 .go116 4
    let spoiled : Image := twoFunctions.set! 42 0xe2
    let header' := Header.readAt spoiled 1 .go116 4
    twoFunctions.size < 1 <<< 63 ∧ Header.decode twoFunctions ⟨1, .go116⟩ = .ok header ∧
    spoiled.size < 1 <<< 63 ∧ Header.decode spoiled ⟨1, .go116⟩ = .ok header' ∧
    (NameTable.ofHeader twoFunctions header 4).name 2 = .ok "main" ∧
    twoFunctions.Spells 39 4 "main".toUTF8.toList ∧
    EndsEarly ((NameTable.ofHeader twoFunctions header 4).name 44) ∧ twoFunctions.Cuts 81 4 ∧
    (NameTable.ofHeader twoFunctions header 3).name 2 = .error (.corrupt (.unterminated 39 3)) ∧
    (NameTable.ofHeader spoiled header' 4).name 2 = .error (.corrupt (.badName 39 (.incomplete 3))) ∧
    ((spoiled.Exceeds 39 4 ∧ Cause.badName 39 (.incomplete 3) = .unterminated 39 4) ∨
      ∃ bytes, spoiled.Spells 39 4 bytes ∧ ∃ fault : Utf8.Fault, fault.Describes bytes ∧
        Cause.badName 39 (.incomplete 3) = .badName 39 fault) := by
  intro header spoiled header'
  have hsize : twoFunctions.size < 1 <<< 63 := by decide
  have hsize' : spoiled.size < 1 <<< 63 := by decide
  have hdecode : Header.decode twoFunctions ⟨1, .go116⟩ = .ok header := rfl
  have hdecode' : Header.decode spoiled ⟨1, .go116⟩ = .ok header' := by decide +kernel
  have hname : (NameTable.ofHeader twoFunctions header 4).name 2 = .ok "main" := by decide +kernel
  have hbad : (NameTable.ofHeader spoiled header' 4).name 2 =
      .error (.corrupt (.badName 39 (.incomplete 3))) := by decide +kernel
  have hcuts : twoFunctions.Cuts 81 4 := .inl (by decide)
  exact ⟨hsize, hdecode, hsize', hdecode', hname,
    ((name_is_capped_text hsize hdecode 4 (by decide)).1 "main").1 hname,
    (name_is_capped_text hsize hdecode 4 (by decide)).2.1.2 hcuts, hcuts, by decide +kernel, hbad,
    ((name_is_capped_text hsize' hdecode' 4 (by decide)).2.2.1 _).1 hbad⟩

end Unstrip

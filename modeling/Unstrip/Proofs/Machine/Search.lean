import Unstrip.Proofs.Failure
import Unstrip.Proofs.Machine.Reading

/-!
# The search with words

The machine looks for each signature in turn and keeps the lowest find; if there is none, it jumps from
one pattern that all releases share to the next, until a header opens around it. Both come to what
`Anchor.find` says by looking at one position after the other (`locate_comesTo`).
-/

namespace Unstrip.Machine

variable {image : Image}

/-! ## The lowest signature -/

def firstOf (image : Image) (release : Release) : Except Stop (Option Anchor) := do
  return (← find image release.signature 0).map (⟨·, release⟩)

theorem firstOf_eq_ok (hsize : image.size < wordLimit) (release : Release) :
    firstOf image release = .ok ((image.find? release.signature 0).map (⟨·, release⟩)) := by
  rw [firstOf, find_eq_ok hsize]
  rfl

theorem find?_signature_eq_some_iff {release : Release} {offset : Nat} :
    image.find? release.signature 0 = some offset ↔
      image.slice offset 6 = release.signature ∧ ∀ j, j < offset → image.slice j 6 ≠ release.signature := by
  rw [Image.find?_eq_some_iff (Release.signature_ne_nil release), Release.length_signature]
  simp

/-- Where a signature stands, the search for it finds one that is not behind it. -/
theorem exists_find?_signature {release : Release} {offset : Nat}
    (h : image.slice offset 6 = release.signature) :
    ∃ first, first ≤ offset ∧ image.find? release.signature 0 = some first := by
  have hex : ∃ i, image.slice i 6 = release.signature := ⟨offset, h⟩
  refine ⟨Nat.find hex, Nat.find_min' hex h, find?_signature_eq_some_iff.2 ⟨Nat.find_spec hex, ?_⟩⟩
  intro j hj
  exact Nat.find_min hex hj

def firsts (image : Image) : List Anchor :=
  (Release.all.map fun release => (image.find? release.signature 0).map (⟨·, release⟩)).filterMap id

theorem mem_firsts_iff {anchor : Anchor} :
    anchor ∈ firsts image ↔ image.find? anchor.release.signature 0 = some anchor.offset := by
  obtain ⟨offset, release⟩ := anchor
  simp only [firsts, List.filterMap_map, List.mem_filterMap, Function.comp_apply, id_eq,
    Option.map_eq_some_iff, Anchor.mk.injEq]
  constructor
  · rintro ⟨other, -, first, hfirst, rfl, rfl⟩
    exact hfirst
  · intro h
    exact ⟨release, by cases release <;> decide, offset, h, rfl, rfl⟩

theorem isLowest_of_minOn? {anchor : Anchor} (h : (firsts image).minOn? (·.offset) = some anchor) :
    anchor.IsLowest image := by
  have hmem := mem_firsts_iff.1 (List.minOn?_mem h)
  refine ⟨(find?_signature_eq_some_iff.1 hmem).1, ?_⟩
  intro j hj release hsig
  obtain ⟨first, hle, hfirst⟩ := exists_find?_signature hsig
  have hother : (⟨first, release⟩ : Anchor) ∈ firsts image := mem_firsts_iff.2 hfirst
  have hmin : anchor.offset ≤ first := by
    rw [← List.minOn_eq_of_minOn?_eq_some h]
    exact List.apply_minOn_le_of_mem hother
  omega

theorem no_signature_of_minOn? (h : (firsts image).minOn? (·.offset) = none) (offset : Nat)
    (release : Release) : image.slice offset 6 ≠ release.signature := by
  intro hsig
  obtain ⟨first, -, hfirst⟩ := exists_find?_signature hsig
  have hmem : (⟨first, release⟩ : Anchor) ∈ firsts image := mem_firsts_iff.2 hfirst
  have hsome := List.isSome_minOn?_iff (f := Anchor.offset).2 (List.ne_nil_of_mem hmem)
  rw [h] at hsome
  cases hsome

/-! ## Headers of other releases -/

/-- Whether a header of some release opens with these values. -/
def seemsForeign (magic : Nat) (quantum pointer : UInt8) : Bool :=
  (magic = 0xfffffffb ∨ magic / 16 = 0x0fffffff) ∧ quantum ∈ [1, 2, 4] ∧ pointer ∈ [4, 8]

/-- Behind its first byte, the magic number of every release is the same. -/
theorem seemsForeign_iff {low quantum pointer : UInt8} :
    seemsForeign (LittleEndian.toNat [low, 0xff, 0xff, 0xff]) quantum pointer = true ↔
      0xf0 ≤ low ∧ quantum ∈ [1, 2, 4] ∧ pointer ∈ [4, 8] := by
  have hmagic : LittleEndian.toNat [low, 0xff, 0xff, 0xff] = low.toNat + 0xffffff00 := by
    simp [LittleEndian.toNat]
  have hle : 0xf0 ≤ low ↔ 0xf0 ≤ low.toNat := UInt8.le_iff_toNat_le
  have hlt := low.toNat_lt
  rw [seemsForeign, decide_eq_true_iff, hmagic, hle]
  refine and_congr_left fun _ => ?_
  omega

/-- The magic number in the first bytes of a header, if it seems to be one. -/
def foreignIn (raw : List UInt8) : Except Stop (Option Nat) := do
  let digits ← pick raw 4 0
  let magic := LittleEndian.toNat digits
  let quantum ← item raw 6
  let pointer ← item raw 7
  return if seemsForeign magic quantum pointer then some magic else none

theorem foreignIn_eq_ok (b₀ b₁ b₂ b₃ b₄ b₅ b₆ b₇ : UInt8) :
    foreignIn [b₀, b₁, b₂, b₃, b₄, b₅, b₆, b₇] =
      .ok (if seemsForeign (LittleEndian.toNat [b₀, b₁, b₂, b₃]) b₆ b₇ then
        some (LittleEndian.toNat [b₀, b₁, b₂, b₃]) else none) := rfl

/-- The magic number at `opening`, where a header of some release seems to open. -/
def foreignAt (image : Image) (opening : Nat) : Except Stop (Option Nat) := do
  match ← attempt (bytes image opening Release.openingSize) with
  | .error _ => return none
  | .ok raw => foreignIn raw

/-- Eight bytes, one by one. -/
theorem exists_eight {raw : List UInt8} (h : raw.length = 8) :
    ∃ b₀ b₁ b₂ b₃ b₄ b₅ b₆ b₇, raw = [b₀, b₁, b₂, b₃, b₄, b₅, b₆, b₇] := by
  match raw, h with
  | [b₀, b₁, b₂, b₃, b₄, b₅, b₆, b₇], _ => exact ⟨b₀, b₁, b₂, b₃, b₄, b₅, b₆, b₇, rfl⟩

theorem foreignAt_eq_ok (hsize : image.size < wordLimit) {opening : Nat}
    (htail : image.hasAt Anchor.commonTail (opening + 1) = true) :
    foreignAt image opening = .ok (Anchor.foreignMagic? image opening) := by
  unfold foreignAt Anchor.foreignMagic?
  rw [if_pos htail]
  by_cases hin : opening + Release.openingSize ≤ image.size
  · obtain ⟨b₀, b₁, b₂, b₃, b₄, b₅, b₆, b₇, height⟩ := exists_eight (Image.length_slice_of_le hin)
    have htail' : [b₁, b₂, b₃, b₄, b₅] = Anchor.commonTail := by
      have hslice := Image.slice_slice image opening 8 1 5 (by decide)
      rw [Image.hasAt_iff] at htail
      rw [height] at hslice
      exact hslice.trans htail
    have hnumber : image.number opening 4 = LittleEndian.toNat [b₀, b₁, b₂, b₃] := by
      have hslice := Image.slice_slice image opening 8 0 4 (by decide)
      rw [height] at hslice
      exact congrArg LittleEndian.toNat hslice.symm
    simp only [Anchor.commonTail, List.cons.injEq, and_true] at htail'
    obtain ⟨rfl, rfl, rfl, rfl, rfl⟩ := htail'
    have hraw : image.slice opening Release.openingSize = _ := height
    rw [bytes_eq_ok hsize hin, hraw, hnumber]
    refine ComesTo.eq_ok (.bind_ok rfl ?_)
    show ComesTo (foreignIn [b₀, 0xff, 0xff, 0xff, 0, 0, b₆, b₇]) _
    rw [foreignIn_eq_ok]
    simp only [seemsForeign_iff]
    rfl
  · obtain ⟨fault, hfault⟩ := bytes_eq_fault hin
    have hlen := Image.length_slice image opening Release.openingSize
    rw [hfault]
    show Except.ok none = _
    split
    · rename_i hraw
      rw [hraw] at hlen
      simp only [List.length_cons, List.length_nil, Release.openingSize] at hlen hin
      omega
    · rfl

/-- The magic number of the first header of an unknown release, behind `start`. Each round goes on
behind the pattern that it has found, so there are at most `rounds` of them. -/
def foreignFrom (image : Image) : (rounds start : Nat) → Except Stop (Option Nat)
  | 0, _ => return none
  | rounds + 1, start => do
    match ← find image Anchor.commonTail start with
    | none => return none
    | some tail =>
      let next ← add tail 1
      let opening ← sub tail 1
      match ← foreignAt image opening with
      | some magic => return some magic
      | none => foreignFrom image rounds next

theorem tail_of_foreignMagic? {opening : Nat}
    (h : image.hasAt Anchor.commonTail (opening + 1) = false) :
    (Anchor.foreignMagic? image opening).isSome = false := by
  rw [Anchor.foreignMagic?, if_neg (by simp [h])]
  rfl

theorem hasAt_commonTail_of_size_le {i : Nat} (h : image.size ≤ i) :
    image.hasAt Anchor.commonTail i = false := by
  rw [Bool.eq_false_iff, ne_eq, Image.hasAt_iff]
  intro htail
  have hlen := congrArg List.length htail
  rw [Image.length_slice] at hlen
  simp only [Anchor.commonTail, List.length_cons, List.length_nil] at hlen
  omega

/-- Jumping from one pattern to the next skips no header: an opening has the pattern behind its
first byte. -/
theorem foreignFrom_eq_ok (hsize : image.size < wordLimit) {rounds start : Nat} (hstart : 0 < start)
    (h : image.size < start + rounds) :
    foreignFrom image rounds start =
      .ok ((Image.firstFrom (fun i => (Anchor.foreignMagic? image i).isSome) (image.size - (start - 1))
        (start - 1)).bind (Anchor.foreignMagic? image)) := by
  induction rounds generalizing start with
  | zero =>
    have hcount : image.size - (start - 1) = 0 := by omega
    rw [hcount]
    rfl
  | succ rounds ih =>
    rw [foreignFrom, find_eq_ok hsize]
    cases hfind : image.find? Anchor.commonTail start with
    | none =>
      rw [Image.find?, if_neg (by decide), Image.firstFrom_eq_none_iff] at hfind
      have hnone : Image.firstFrom (fun i => (Anchor.foreignMagic? image i).isSome)
          (image.size - (start - 1)) (start - 1) = none := by
        rw [Image.firstFrom_eq_none_iff]
        intro i hi hlt
        refine tail_of_foreignMagic? ?_
        by_cases hin : i + 1 < image.size
        · exact hfind (i + 1) (by omega) (by omega)
        · exact hasAt_commonTail_of_size_le (by omega)
      rw [hnone]
      rfl
    | some tail =>
      rw [Image.find?, if_neg (by decide), Image.firstFrom_eq_some_iff] at hfind
      obtain ⟨hle, hlt, htail, hlow⟩ := hfind
      -- no header opens between `start - 1` and the byte in front of the pattern
      have hskip : Image.firstFrom (fun i => (Anchor.foreignMagic? image i).isSome)
          (image.size - (start - 1)) (start - 1) =
          Image.firstFrom (fun i => (Anchor.foreignMagic? image i).isSome)
            (image.size - tail + 1) (tail - 1) := by
        have hcount : image.size - (start - 1) = (tail - start) + (image.size - tail + 1) := by omega
        have hend : start - 1 + (tail - start) = tail - 1 := by omega
        rw [hcount, firstFrom_skip, hend]
        intro i hi hlt'
        exact tail_of_foreignMagic? (hlow (i + 1) (by omega) (by omega))
      have hback : tail - 1 + 1 = tail := by omega
      rw [hskip, Image.firstFrom, hback]
      refine ComesTo.eq_ok (.bind_ok rfl (.bind_ok (add_eq_ok (by omega)) (.bind_ok (sub_eq_ok (by omega))
        (.bind_ok (foreignAt_eq_ok hsize (by rwa [hback])) ?_))))
      cases hmagic : Anchor.foreignMagic? image (tail - 1) with
      | some magic =>
        simp only [Option.isSome_some, if_true, Option.bind_some, hmagic]
        rfl
      | none =>
        have hrest := @ih (tail + 1) (by omega) (by omega)
        simp only [Option.isSome_none, Bool.false_eq_true, if_false]
        exact hrest

/-! ## The search -/

def locate (image : Image) : Except Stop Anchor := do
  let found ← Release.all.mapM (firstOf image)
  match (found.filterMap id).minOn? (·.offset) with
  | some anchor => return anchor
  | none =>
    match ← foreignFrom image (image.size + 1) 1 with
    | some magic => raise (.unsupported magic)
    | none => raise .notFound

theorem locate_comesTo (hsize : image.size < wordLimit) :
    ComesTo (locate image) (Anchor.find image) := by
  refine .bind_ok (mapM_eq_ok fun release _ => firstOf_eq_ok hsize release) ?_
  show ComesTo (match (firsts image).minOn? (·.offset) with
    | some anchor => _
    | none => _) _
  cases hmin : (firsts image).minOn? (·.offset) with
  | some anchor =>
    rw [Anchor.find_eq_ok_iff.2 (isLowest_of_minOn? hmin)]
    exact .pure anchor
  | none =>
    have hfirst : Anchor.first? image = none := by
      obtain ⟨fault, hfault⟩ := Anchor.find_eq_error_iff.2 (no_signature_of_minOn? hmin)
      unfold Anchor.find at hfault
      cases hfirst : Anchor.first? image with
      | none => rfl
      | some anchor =>
        rw [hfirst] at hfault
        cases hfault
    rw [Anchor.find, hfirst]
    refine .bind_ok (foreignFrom_eq_ok hsize (by decide) (by omega)) ?_
    show ComesTo (match Anchor.firstForeign? image with
      | some magic => _
      | none => _) _
    cases Anchor.firstForeign? image with
    | some magic => exact .raise _
    | none => exact .raise _

end Unstrip.Machine

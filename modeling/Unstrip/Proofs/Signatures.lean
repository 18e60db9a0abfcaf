import Mathlib.Data.List.Nodup
import Unstrip.Proofs.Machine.Search
import Unstrip.Proofs.Narrowing

/-!
# Where signatures stand

A search has three outcomes, each of which says what the image holds (`find_tells_what_image_holds`).

All signatures are listed by `Anchor.occurrences`, which looks at one position after the other. They can
also be found by looking for the signature of each release in turn, again and again behind the last find;
`Scans` is such a scan. It ends, it misses nothing, and what the scans find, put in order, are the
occurrences (`occurrences_list_all_signatures`).
-/

namespace Unstrip

/-! ## Repeated searches -/

namespace Image

variable {image : Image} {pattern : List UInt8} {start offset : Nat}

/-- A scan from `start` on: search, go on behind what is found, and stop when nothing is. -/
inductive Scans (image : Image) (pattern : List UInt8) : Nat → List Nat → Prop
  | done {start : Nat} (h : image.find? pattern start = none) : Scans image pattern start []
  | hit {start offset : Nat} {rest : List Nat} (h : image.find? pattern start = some offset)
      (hrest : Scans image pattern (offset + 1) rest) : Scans image pattern start (offset :: rest)

/-- Each find leaves less of the image to be searched, so every scan ends. -/
theorem exists_scans (hpattern : pattern ≠ []) (start : Nat) :
    ∃ found, Scans image pattern start found := by
  induction hleft : image.size - start using Nat.strongRecOn generalizing start with
  | ind left ih =>
    cases hfind : image.find? pattern start with
    | none => exact ⟨[], .done hfind⟩
    | some offset =>
      obtain ⟨hle, hat, -⟩ := (find?_eq_some_iff hpattern).1 hfind
      have hlt := lt_size_of_slice hpattern hat
      obtain ⟨rest, hrest⟩ := ih (image.size - (offset + 1)) (by omega) (offset + 1) rfl
      exact ⟨offset :: rest, .hit hfind hrest⟩

namespace Scans

variable {found found' : List Nat}

theorem unique (h : Scans image pattern start found) (h' : Scans image pattern start found') :
    found = found' := by
  induction h generalizing found' with
  | done hnone =>
    cases h' with
    | done => rfl
    | hit hsome => rw [hnone] at hsome; cases hsome
  | hit hsome _ ih =>
    cases h' with
    | done hnone => rw [hnone] at hsome; cases hsome
    | hit hsome' hrest' =>
      rw [hsome] at hsome'
      cases hsome'
      rw [ih hrest']

/-- A scan finds every place of the pattern. -/
theorem mem_iff (hpattern : pattern ≠ []) (h : Scans image pattern start found) {i : Nat} :
    i ∈ found ↔ start ≤ i ∧ image.slice i pattern.length = pattern := by
  induction h with
  | done hnone =>
    simp only [List.not_mem_nil, false_iff, not_and]
    exact (find?_eq_none_iff hpattern).1 hnone i
  | @hit start offset rest hsome _ ih =>
    obtain ⟨hle, hat, hlow⟩ := (find?_eq_some_iff hpattern).1 hsome
    rw [List.mem_cons, ih]
    constructor
    · rintro (rfl | ⟨hlt, hi⟩)
      · exact ⟨hle, hat⟩
      · exact ⟨by omega, hi⟩
    · rintro ⟨hstart, hi⟩
      by_cases hlt : offset < i
      · exact .inr ⟨hlt, hi⟩
      · by_cases heq : i = offset
        · exact .inl heq
        · exact absurd hi (hlow i hstart (by omega))

theorem pairwise (hpattern : pattern ≠ []) (h : Scans image pattern start found) :
    found.Pairwise (· < ·) := by
  induction h with
  | done => exact List.Pairwise.nil
  | hit _ hrest ih =>
    refine List.pairwise_cons.2 ⟨?_, ih⟩
    intro i hi
    exact ((hrest.mem_iff hpattern).1 hi).1

end Scans

end Image

/-! ## All signatures -/

namespace Anchor

variable {image : Image} {anchor : Anchor}

/-- Only one signature can stand at a place. -/
theorem eq_of_signatures {other : Anchor} (h : image.slice anchor.offset 6 = anchor.release.signature)
    (hother : image.slice other.offset 6 = other.release.signature) (heq : anchor.offset = other.offset) :
    anchor = other := by
  obtain ⟨offset, release⟩ := anchor
  obtain ⟨offset', release'⟩ := other
  simp only at h hother heq
  subst heq
  rw [Release.signature_injective (h.symm.trans hother)]

theorem mem_occurrencesFrom_iff {count start : Nat} :
    anchor ∈ occurrencesFrom image count start ↔ start ≤ anchor.offset ∧ anchor.offset < start + count ∧
      image.slice anchor.offset 6 = anchor.release.signature := by
  induction count generalizing start with
  | zero =>
    simp only [occurrencesFrom, List.not_mem_nil, false_iff]
    omega
  | succ count ih =>
    rw [occurrencesFrom]
    cases hrelease : releaseAt? image start with
    | none =>
      have hno : image.slice start 6 ≠ anchor.release.signature := by
        intro hsig
        rw [releaseAt?_eq_some_iff.2 hsig] at hrelease
        cases hrelease
      rw [ih]
      constructor
      · rintro ⟨hle, hlt, hsig⟩
        exact ⟨by omega, by omega, hsig⟩
      · rintro ⟨hle, hlt, hsig⟩
        have hne : anchor.offset ≠ start := by
          intro heq
          exact hno (heq ▸ hsig)
        exact ⟨by omega, by omega, hsig⟩
    | some release =>
      have hstart : image.slice (⟨start, release⟩ : Anchor).offset 6 = release.signature :=
        releaseAt?_eq_some_iff.1 hrelease
      rw [List.mem_cons, ih]
      constructor
      · rintro (rfl | ⟨hle, hlt, hsig⟩)
        · exact ⟨Nat.le_refl _, Nat.lt_add_of_pos_right (Nat.succ_pos _), hstart⟩
        · exact ⟨by omega, by omega, hsig⟩
      · rintro ⟨hle, hlt, hsig⟩
        by_cases heq : anchor.offset = start
        · exact .inl (eq_of_signatures hsig hstart heq)
        · exact .inr ⟨by omega, by omega, hsig⟩

theorem occurrencesFrom_pairwise (count start : Nat) :
    (occurrencesFrom image count start).Pairwise fun a b => a.offset < b.offset := by
  induction count generalizing start with
  | zero => exact List.Pairwise.nil
  | succ count ih =>
    rw [occurrencesFrom]
    split
    · refine List.pairwise_cons.2 ⟨?_, ih _⟩
      intro other hother
      exact (mem_occurrencesFrom_iff.1 hother).1
    · exact ih _

/-- Every signature is listed, and nothing else. -/
theorem mem_occurrences_iff :
    anchor ∈ occurrences image ↔ image.slice anchor.offset 6 = anchor.release.signature := by
  rw [occurrences, mem_occurrencesFrom_iff]
  constructor
  · rintro ⟨-, -, hsig⟩
    exact hsig
  · intro hsig
    have := Image.lt_size_of_signature hsig
    exact ⟨Nat.zero_le _, by omega, hsig⟩

theorem occurrences_pairwise (image : Image) :
    (occurrences image).Pairwise fun a b => a.offset < b.offset :=
  occurrencesFrom_pairwise _ _

theorem occurrences_nodup (image : Image) : (occurrences image).Nodup := by
  refine (occurrences_pairwise image).imp fun {a b} hlt heq => ?_
  rw [heq] at hlt
  exact Nat.lt_irrefl _ hlt

/-- Sorting by position puts positions in order. -/
theorem mergeSort_pairwise (anchors : List Anchor) :
    (anchors.mergeSort fun a b => a.offset ≤ b.offset).Pairwise fun a b => a.offset ≤ b.offset := by
  have htrans : ∀ a b c : Anchor, decide (a.offset ≤ b.offset) = true →
      decide (b.offset ≤ c.offset) = true → decide (a.offset ≤ c.offset) = true := by
    intro a b c hab hbc
    simp only [decide_eq_true_iff] at hab hbc ⊢
    exact Nat.le_trans hab hbc
  have htotal : ∀ a b : Anchor,
      (decide (a.offset ≤ b.offset) || decide (b.offset ≤ a.offset)) = true := by
    intro a b
    simpa using Nat.le_total a.offset b.offset
  simpa using List.pairwise_mergeSort htrans htotal anchors

/-- What the scans for all releases have found. -/
def gathered (found : Release → List Nat) : List Anchor :=
  Release.all.flatMap fun release => (found release).map (⟨·, release⟩)

section
variable {found : Release → List Nat}

theorem mem_gathered_iff : anchor ∈ gathered found ↔ anchor.offset ∈ found anchor.release := by
  obtain ⟨offset, release⟩ := anchor
  simp only [gathered, List.mem_flatMap, List.mem_map, Anchor.mk.injEq]
  constructor
  · rintro ⟨other, -, i, hi, rfl, rfl⟩
    exact hi
  · intro hmem
    exact ⟨release, by cases release <;> decide, offset, hmem, rfl, rfl⟩

theorem gathered_nodup (h : ∀ release, (found release).Nodup) : (gathered found).Nodup := by
  have hreleases : Release.all.Nodup := by decide
  refine List.nodup_flatMap.2 ⟨fun release _ => (h release).map fun i j hij => (Anchor.mk.inj hij).1, ?_⟩
  refine hreleases.imp fun {release other} hne => ?_
  intro anchor hanchor hother
  obtain ⟨i, -, rfl⟩ := List.mem_map.1 hanchor
  obtain ⟨j, -, hj⟩ := List.mem_map.1 hother
  exact hne (Anchor.mk.inj hj).2.symm

/-- Put in order, the finds of the scans are the occurrences. -/
theorem occurrences_eq_mergeSort (h : ∀ release, image.Scans release.signature 0 (found release)) :
    occurrences image = (gathered found).mergeSort fun a b => a.offset ≤ b.offset := by
  have hmem : ∀ anchor, anchor ∈ occurrences image ↔ anchor ∈ gathered found := by
    intro anchor
    have hscan := (h anchor.release).mem_iff (Release.signature_ne_nil _) (i := anchor.offset)
    rw [mem_occurrences_iff, mem_gathered_iff, hscan, Release.length_signature]
    simp
  have hnodup : ∀ release, (found release).Nodup := fun release =>
    ((h release).pairwise (Release.signature_ne_nil _)).imp Nat.ne_of_lt
  have hperm : (occurrences image).Perm ((gathered found).mergeSort fun a b => a.offset ≤ b.offset) :=
    ((List.perm_ext_iff_of_nodup (occurrences_nodup image) (gathered_nodup hnodup)).2 hmem).trans
      (List.mergeSort_perm _ _).symm
  refine hperm.eq_of_pairwise ?_ ((occurrences_pairwise image).imp Nat.le_of_lt) (mergeSort_pairwise _)
  intro a b ha hb hab hba
  have hsig := mem_occurrences_iff.1 ha
  have hsig' := mem_occurrences_iff.1 (hperm.mem_iff.2 hb)
  exact eq_of_signatures hsig hsig' (Nat.le_antisymm hab hba)

end

/-- The lowest signature is the first that is listed. -/
theorem find_eq_ok_iff_head? :
    find image = .ok anchor ↔ (occurrences image).head? = some anchor := by
  rw [find_eq_ok_iff]
  constructor
  · rintro ⟨hsig, hlow⟩
    have hmem := mem_occurrences_iff.2 hsig
    have hpairwise := occurrences_pairwise image
    have hall : ∀ other ∈ occurrences image, anchor.offset ≤ other.offset := by
      intro other hother
      by_contra hlt
      exact hlow _ (Nat.not_le.1 hlt) _ (mem_occurrences_iff.1 hother)
    cases hlist : occurrences image with
    | nil => rw [hlist] at hmem; cases hmem
    | cons first rest =>
      rw [hlist] at hmem hpairwise hall
      rcases List.mem_cons.1 hmem with rfl | hrest
      · rfl
      · have hlt := List.rel_of_pairwise_cons hpairwise hrest
        have hle := hall first List.mem_cons_self
        omega
  · intro hhead
    obtain ⟨rest, hlist⟩ := List.head?_eq_some_iff.1 hhead
    have hpairwise := occurrences_pairwise image
    rw [hlist] at hpairwise
    refine ⟨mem_occurrences_iff.1 (hlist ▸ List.mem_cons_self), ?_⟩
    intro j hj release hsig
    have hmem : (⟨j, release⟩ : Anchor) ∈ occurrences image := mem_occurrences_iff.2 hsig
    rw [hlist] at hmem
    rcases List.mem_cons.1 hmem with rfl | hrest
    · exact Nat.lt_irrefl _ hj
    · have hlt := List.rel_of_pairwise_cons hpairwise hrest
      exact Nat.lt_asymm hj hlt

end Anchor

/-- **Each outcome of a search says what the image holds.** The lowest signature is found; if there is
none, the first header that looks like one of another release is reported; and nothing is found only if
there is neither. The search with three passes and jumps from pattern to pattern comes to the same. -/
theorem find_tells_what_image_holds (image : Image) :
    (∀ anchor, Anchor.find image = .ok anchor ↔ anchor.IsLowest image) ∧
    (∀ magic, Anchor.find image = .error (.unsupported magic) ↔
      (∀ offset (release : Release), image.slice offset 6 ≠ release.signature) ∧
        ∃ offset, Anchor.IsLowestForeign image offset ∧ magic = image.number offset 4) ∧
    (Anchor.find image = .error .notFound ↔
      (∀ offset (release : Release), image.slice offset 6 ≠ release.signature) ∧
        ∀ offset, ¬ Anchor.LooksForeign image offset) ∧
    (∀ fault, Anchor.find image = .error fault → fault = .notFound ∨ ∃ magic, fault = .unsupported magic) ∧
    (∀ offset (release release' : Release), image.slice offset 6 = release.signature →
      image.slice offset 6 = release'.signature → release = release') ∧
    (image.size < wordLimit → Machine.ComesTo (Machine.locate image) (Anchor.find image)) := by
  refine ⟨fun anchor => Anchor.find_eq_ok_iff, fun magic => Anchor.find_eq_unsupported_iff,
    Anchor.find_eq_notFound_iff, ?_, ?_, Machine.locate_comesTo⟩
  · intro fault hfind
    have hkind := Anchor.find_failsOnlyWith image fault hfind
    cases fault with
    | notFound => exact .inl rfl
    | unsupported magic => exact .inr ⟨magic, rfl⟩
    | truncated | corrupt => exact hkind.elim
  · intro offset release release' hsig hsig'
    exact Release.signature_injective (hsig.symm.trans hsig')

/-- An image with the header of an older release, and one with a table. -/
theorem find_tells_what_image_holds_legacy :
    let legacy : Image := #[0, 0xfb, 0xff, 0xff, 0xff, 0, 0, 1, 8]
    legacy.size < wordLimit ∧ Anchor.find legacy = .error (.unsupported 0xfffffffb) ∧
    Machine.ComesTo (Machine.locate legacy) (Anchor.find legacy) ∧
    ((.unsupported 0xfffffffb : Fault) = .notFound ∨
      ∃ magic, (.unsupported 0xfffffffb : Fault) = .unsupported magic) ∧
    Image.slice twoFunctions 1 6 = Release.go116.signature ∧
    ∀ release : Release, Image.slice twoFunctions 1 6 = release.signature → release = .go116 := by
  intro legacy
  have hsize : legacy.size < wordLimit := by decide
  have hfind : Anchor.find legacy = .error (.unsupported 0xfffffffb) := by decide +kernel
  have hsig : Image.slice twoFunctions 1 6 = Release.go116.signature := by decide +kernel
  obtain ⟨-, -, -, hfault, -, hcomes⟩ := find_tells_what_image_holds legacy
  obtain ⟨-, -, -, -, honly, -⟩ := find_tells_what_image_holds twoFunctions
  exact ⟨hsize, hfind, hcomes hsize, hfault _ hfind, hsig, fun release h => honly 1 release .go116 h hsig⟩

/-- **Every signature is listed once, in order**, and the first of them is where the table is found. The
scan for the signature of each release ends, and what the scans find, sorted by position, is the list. -/
theorem occurrences_list_all_signatures (image : Image) :
    (∃ found : Release → List Nat,
      (∀ release offsets, image.Scans release.signature 0 offsets ↔ offsets = found release) ∧
      Anchor.occurrences image = (Anchor.gathered found).mergeSort fun a b => a.offset ≤ b.offset) ∧
    ((Anchor.occurrences image).map Anchor.offset).Pairwise (· < ·) ∧
    (∀ anchor, anchor ∈ Anchor.occurrences image ↔
      image.slice anchor.offset 6 = anchor.release.signature) ∧
    (∀ anchor, Anchor.find image = .ok anchor ↔ (Anchor.occurrences image).head? = some anchor) := by
  refine ⟨?_, List.pairwise_map.2 (Anchor.occurrences_pairwise image),
    fun anchor => Anchor.mem_occurrences_iff, fun anchor => Anchor.find_eq_ok_iff_head?⟩
  have hex : ∀ release : Release, ∃ offsets, image.Scans release.signature 0 offsets :=
    fun release => Image.exists_scans (Release.signature_ne_nil release) 0
  choose found hfound using hex
  refine ⟨found, fun release offsets => ⟨fun h => h.unique (hfound release), ?_⟩,
    Anchor.occurrences_eq_mergeSort hfound⟩
  rintro rfl
  exact hfound release

-- of two signatures in a row, neither hides the other
example : Anchor.occurrences #[250, 255, 255, 255, 0, 0, 241, 255, 255, 255, 0, 0] =
    [⟨0, .go116⟩, ⟨6, .go120⟩] := by decide +kernel

end Unstrip

import Unstrip.Proofs.Machine.Word
import Unstrip.Proofs.Narrowing

/-!
# The choice of a region

Nobody vouches for the sections of a file: a name may be missing, its first section may occupy no bytes of
the file, and the section's offset and size are any two words, whose sum need not be a word.
`Container.FirstOf` says which of several names decides. A name that is asked for decides alone; otherwise
one of the usual names does, in their order and not in that of the sections. If the range of the section
that decides ends behind the file, there is no region.

`load_chooses_region_inside_file` says all this for whatever reading the file as an object file has come to.
The end of a range is found with the arithmetic of the machine (`Machine.choose`).
-/

namespace Unstrip

namespace Container

variable {container : Container} {name : String} {range : Range} {names : List String}

/-- The first section of the name occupies the range. -/
def Occupies (container : Container) (name : String) (range : Range) : Prop :=
  ∃ first, container.section? name = some first ∧ first.range? = some range

/-- There is no section of the name, or the first one occupies no bytes of the file. -/
def Lacks (container : Container) (name : String) : Prop :=
  ∀ first, container.section? name = some first → first.range? = none

/-- The name decides: it is the first of several that does not lack a range, and its range is this one. -/
def FirstOf (container : Container) (names : List String) (name : String) (range : Range) : Prop :=
  ∃ front back, names = front ++ name :: back ∧ (∀ other ∈ front, container.Lacks other) ∧
    container.Occupies name range

def rangeOf? (container : Container) (name : String) : Option Range :=
  (container.section? name).bind (·.range?)

theorem rangeOf?_eq_some_iff : container.rangeOf? name = some range ↔ container.Occupies name range :=
  Option.bind_eq_some_iff

theorem rangeOf?_eq_none_iff : container.rangeOf? name = none ↔ container.Lacks name :=
  Option.bind_eq_none_iff

/-- A name on its own decides if it has a range. -/
theorem firstOf_singleton_iff {sought : String} :
    container.FirstOf [sought] name range ↔ name = sought ∧ container.Occupies name range := by
  constructor
  · rintro ⟨front, back, hnames, -, hoccupies⟩
    cases front with
    | nil =>
      cases hnames
      exact ⟨rfl, hoccupies⟩
    | cons other front => simp at hnames
  · rintro ⟨rfl, hoccupies⟩
    exact ⟨[], [], rfl, by simp, hoccupies⟩

/-- A name has one range, if it has any. -/
theorem Occupies.eq_iff {range' : Range} (h : container.Occupies name range) :
    container.Occupies name range' ↔ range' = range := by
  rw [← rangeOf?_eq_some_iff, rangeOf?_eq_some_iff.2 h, Option.some.injEq, eq_comm]

theorem Occupies.not_lacks (h : container.Occupies name range) : ¬ container.Lacks name := by
  rw [← rangeOf?_eq_none_iff, rangeOf?_eq_some_iff.2 h]
  simp

theorem Lacks.not_occupies (h : container.Lacks name) : ¬ container.Occupies name range :=
  fun hoccupies => hoccupies.not_lacks h

end Container

namespace Region

variable {file : Image} {container : Container} {name : String} {range : Container.Range}
  {names : List String} {parsed : Except Container.Refusal Container} {requested? : Option String}
  {region : Region}

theorem firstOccupied?_eq_findSome? (rangeOf? : String → Option Container.Range) (names : List String) :
    firstOccupied? rangeOf? names = names.findSome? fun name => (rangeOf? name).map (name, ·) := by
  induction names with
  | nil => rfl
  | cons name names ih =>
    rw [firstOccupied?, List.findSome?_cons, ih]
    cases rangeOf? name <;> rfl

theorem firstOccupied?_eq_some_iff :
    firstOccupied? container.rangeOf? names = some (name, range) ↔ container.FirstOf names name range := by
  rw [firstOccupied?_eq_findSome?, List.findSome?_eq_some_iff]
  simp only [Option.map_eq_some_iff, Option.map_eq_none_iff, Prod.mk.injEq,
    Container.rangeOf?_eq_some_iff, Container.rangeOf?_eq_none_iff]
  constructor
  · rintro ⟨front, found, back, hnames, ⟨range, hoccupies, rfl, rfl⟩, hfront⟩
    exact ⟨front, back, hnames, hfront, hoccupies⟩
  · rintro ⟨front, back, hnames, hfront, hoccupies⟩
    exact ⟨front, name, back, hnames, ⟨range, hoccupies, rfl, rfl⟩, hfront⟩

theorem firstOccupied?_eq_none_iff :
    firstOccupied? container.rangeOf? names = none ↔ ∀ name ∈ names, container.Lacks name := by
  rw [firstOccupied?_eq_findSome?, List.findSome?_eq_none_iff]
  simp only [Option.map_eq_none_iff, Container.rangeOf?_eq_none_iff]

def namesFor : Option String → List String
  | some name => [name]
  | none => defaultNames

/-- The region that belongs to the first of the names, or to none. -/
def ofFound (file : Image) (requested? : Option String) :
    Option (String × Container.Range) → Except RegionFault Region
  | some (name, range) => ofRange file.size name range
  | none =>
    match requested? with
    | some name => .error (.missing name)
    | none => .ok (whole file)

/-- A name that is asked for is looked for as the usual ones are. -/
theorem choose_of_object (file : Image) (container : Container) (requested? : Option String) :
    choose file (.ok container) requested? =
      ofFound file requested? (firstOccupied? container.rangeOf? (namesFor requested?)) := by
  cases requested? with
  | none =>
    show select file container.rangeOf? none =
      ofFound file none (firstOccupied? container.rangeOf? defaultNames)
    unfold select
    cases firstOccupied? container.rangeOf? defaultNames <;> rfl
  | some name =>
    show select file container.rangeOf? (some name) =
      ofFound file (some name) (firstOccupied? container.rangeOf? [name])
    simp only [select, firstOccupied?]
    cases container.rangeOf? name <;> rfl

theorem choose_of_none (h : ∀ name ∈ namesFor requested?, container.Lacks name) :
    choose file (.ok container) requested? = ofFound file requested? none := by
  rw [choose_of_object, firstOccupied?_eq_none_iff.2 h]

theorem choose_of_firstOf (h : container.FirstOf (namesFor requested?) name range) :
    choose file (.ok container) requested? = ofRange file.size name range := by
  rw [choose_of_object, firstOccupied?_eq_some_iff.2 h]
  rfl

/-- Either one of the names decides, or all of them lack a range. -/
theorem exists_firstOf_or (container : Container) (names : List String) :
    (∃ name range, container.FirstOf names name range) ∨ ∀ name ∈ names, container.Lacks name := by
  cases hfound : firstOccupied? container.rangeOf? names with
  | none => exact .inr (firstOccupied?_eq_none_iff.1 hfound)
  | some found => exact .inl ⟨found.1, found.2, firstOccupied?_eq_some_iff.1 hfound⟩

theorem ofRange_eq_ok_iff {fileSize : Nat} :
    ofRange fileSize name range = .ok region ↔
      range.offset + range.size ≤ fileSize ∧ region = ⟨range.offset, range.size, some name⟩ := by
  unfold ofRange
  split <;> rename_i h <;> simp [h, eq_comm]

theorem ofRange_eq_error_iff {fileSize : Nat} {fault : RegionFault} :
    ofRange fileSize name range = .error fault ↔
      fileSize < range.offset + range.size ∧ fault = .outside name := by
  unfold ofRange
  by_cases h : range.offset + range.size ≤ fileSize
  · simp [h, Nat.not_lt.2 h]
  · simp [h, Nat.not_le.1 h, eq_comm]

/-- What the choice of a region can come to, if one is made. -/
theorem choose_eq_ok_iff :
    choose file parsed requested? = .ok region ↔
      (∃ container name range, parsed = .ok container ∧
        container.FirstOf (namesFor requested?) name range ∧ range.offset + range.size ≤ file.size ∧
        region = ⟨range.offset, range.size, some name⟩) ∨
      (requested? = none ∧ region = whole file ∧
        ∀ container, parsed = .ok container → ∀ name ∈ defaultNames, container.Lacks name) := by
  cases parsed with
  | error refusal => cases requested? <;> simp [choose, eq_comm]
  | ok container =>
    -- The search ends at the name that decides, or runs through all names.
    constructor
    · intro h
      obtain ⟨name, range, hfirst⟩ | hnone := exists_firstOf_or container (namesFor requested?)
      · rw [choose_of_firstOf hfirst] at h
        obtain ⟨hinside, rfl⟩ := ofRange_eq_ok_iff.1 h
        exact .inl ⟨container, name, range, rfl, hfirst, hinside, rfl⟩
      · rw [choose_of_none hnone] at h
        cases requested? with
        | some name => cases h
        | none =>
          cases h
          refine .inr ⟨rfl, rfl, fun other hother => ?_⟩
          cases hother
          exact hnone
    · rintro (⟨other, name, range, hother, hfirst, hinside, rfl⟩ | ⟨rfl, rfl, hnone⟩)
      · cases hother
        rw [choose_of_firstOf hfirst]
        exact ofRange_eq_ok_iff.2 ⟨hinside, rfl⟩
      · have hnames : ∀ name ∈ namesFor none, container.Lacks name := hnone container rfl
        rw [choose_of_none hnames]
        rfl

/-- A name that is asked for leads to its own region or to none. -/
theorem choose_requested_eq_ok_iff :
    choose file parsed (some name) = .ok region ↔
      ∃ container range, parsed = .ok container ∧ container.Occupies name range ∧
        range.offset + range.size ≤ file.size ∧ region = ⟨range.offset, range.size, some name⟩ := by
  rw [choose_eq_ok_iff]
  constructor
  · rintro (⟨container, found, range, hparsed, hfirst, hinside, rfl⟩ | ⟨hnone, -⟩)
    · obtain ⟨rfl, hoccupies⟩ := Container.firstOf_singleton_iff.1 hfirst
      exact ⟨container, range, hparsed, hoccupies, hinside, rfl⟩
    · cases hnone
  · rintro ⟨container, range, hparsed, hoccupies, hinside, rfl⟩
    exact .inl ⟨container, name, range, hparsed, Container.firstOf_singleton_iff.2 ⟨rfl, hoccupies⟩,
      hinside, rfl⟩

/-- Why there is no region of a name that is asked for. -/
theorem choose_requested_eq_error_iff {fault : RegionFault} :
    choose file parsed (some name) = .error fault ↔
      (∃ refusal, parsed = .error refusal ∧ fault = .notAnObject name refusal) ∨
      ∃ container, parsed = .ok container ∧
        (container.Lacks name ∧ fault = .missing name ∨
          ∃ range, container.Occupies name range ∧ file.size < range.offset + range.size ∧
            fault = .outside name) := by
  cases parsed with
  | error refusal => simp [choose, eq_comm]
  | ok container =>
    obtain ⟨found, range, hfirst⟩ | hnone := exists_firstOf_or container (namesFor (some name))
    · obtain ⟨rfl, hoccupies⟩ := Container.firstOf_singleton_iff.1 hfirst
      rw [choose_of_firstOf hfirst, ofRange_eq_error_iff]
      simp [hoccupies.not_lacks, hoccupies.eq_iff]
    · have hlacks := hnone name List.mem_cons_self
      rw [choose_of_none hnone]
      simp [ofFound, hlacks, hlacks.not_occupies, eq_comm]

/-- A region that is chosen lies inside the file. -/
theorem inside_of_choose (h : choose file parsed requested? = .ok region) :
    region.start + region.size ≤ file.size := by
  obtain ⟨-, -, range, -, -, hinside, rfl⟩ | ⟨-, rfl, -⟩ := choose_eq_ok_iff.1 h
  · exact hinside
  · exact Nat.le_of_eq (Nat.zero_add _)

/-- So its bytes can be taken. -/
theorem slice_of_choose (h : choose file parsed requested? = .ok region) :
    Machine.slice file.toList region.start (region.start + region.size) =
      .ok (region.bytes file).toList := by
  rw [Machine.slice_eq_ok (Nat.le_add_right _ _) (inside_of_choose h), bytes, Array.toList_extract,
    List.extract_eq_take_drop, List.drop_take]

/-- If no name is asked for, the region is that of the usual name that decides. -/
theorem firstOf_of_choose (h : choose file parsed none = .ok region)
    (hname : region.sectionName = some name) :
    ∃ container range, parsed = .ok container ∧ container.FirstOf defaultNames name range ∧
      region = ⟨range.offset, range.size, some name⟩ := by
  obtain ⟨container, found, range, hparsed, hfirst, -, rfl⟩ | ⟨-, rfl, -⟩ := choose_eq_ok_iff.1 h
  · cases hname
    exact ⟨container, range, hparsed, hfirst, rfl⟩
  · cases hname

/-- It is the whole file if all usual names lack a range, be it that the file is no object at all. -/
theorem choose_eq_whole_iff :
    choose file parsed none = .ok (whole file) ↔
      ∀ container, parsed = .ok container → ∀ name ∈ defaultNames, container.Lacks name := by
  rw [choose_eq_ok_iff]
  constructor
  · rintro (⟨container, name, range, -, -, -, hregion⟩ | ⟨-, -, hnone⟩)
    · cases congrArg Region.sectionName hregion
    · exact hnone
  · exact fun hnone => .inr ⟨rfl, rfl, hnone⟩

theorem eq_whole_of_choose (h : choose file parsed requested? = .ok region)
    (hname : region.sectionName = none) : region = whole file := by
  obtain ⟨_, _, _, -, -, -, rfl⟩ | ⟨-, rfl, -⟩ := choose_eq_ok_iff.1 h
  · cases hname
  · rfl

end Region

/-! ## The arithmetic of the machine -/

namespace Machine

/-- A region by the positions where it starts and ends. -/
structure Stretch where
  start : Nat
  stop : Nat
  sectionName : Option String
  deriving DecidableEq, Repr

def Stretch.ofRegion (region : Region) : Stretch :=
  ⟨region.start, region.start + region.size, region.sectionName⟩

/-- The end of a range, if it is a word and no position behind the end of the file. -/
def rangeEnd? (fileSize : Nat) (range : Container.Range) : Option Nat :=
  (checkedAdd? range.offset range.size).filter (· ≤ fileSize)

/-- Goes through the names up to the first whose section occupies bytes of the file. -/
def findRegion (fileSize : Nat) (container : Container) (requested? : Option String) :
    List String → Except RegionFault (Option Stretch)
  | [] =>
    match requested? with
    | some name => .error (.missing name)
    | none => .ok none
  | name :: names =>
    match container.section? name with
    | none => findRegion fileSize container requested? names
    | some first =>
      match first.range? with
      | none => findRegion fileSize container requested? names
      | some range =>
        match rangeEnd? fileSize range with
        | some stop => .ok (some ⟨range.offset, stop, some name⟩)
        | none => .error (.outside name)

/-- Chooses the region of a file, as `Region.choose` does. -/
def choose (file : Image) (parsed : Except Container.Refusal Container) (requested? : Option String) :
    Except RegionFault Stretch := do
  let found ←
    match parsed, requested? with
    | .ok container, _ => findRegion file.size container requested? (Region.namesFor requested?)
    | .error refusal, some name => .error (.notAnObject name refusal)
    | .error _, none => .ok none
  return found.getD ⟨0, file.size, none⟩

/-- No range whose end is not a word lies inside the file. -/
theorem rangeEnd?_eq {fileSize : Nat} (hsize : fileSize < wordLimit) (range : Container.Range) :
    rangeEnd? fileSize range =
      if range.offset + range.size ≤ fileSize then some (range.offset + range.size) else none := by
  unfold rangeEnd? checkedAdd?
  by_cases hinside : range.offset + range.size ≤ fileSize
  · rw [if_pos (Nat.lt_of_le_of_lt hinside hsize), if_pos hinside]
    exact Option.filter_some_pos (by simpa using hinside)
  · rw [if_neg hinside]
    by_cases hword : range.offset + range.size < wordLimit
    · rw [if_pos hword]
      exact Option.filter_some_neg (by simpa using hinside)
    · rw [if_neg hword]
      rfl

theorem Stretch.ofRegion_whole (file : Image) : ofRegion (Region.whole file) = ⟨0, file.size, none⟩ := by
  simp [ofRegion, Region.whole]

/-- The search passes over a name that lacks a range, and ends at any other. -/
theorem findRegion_cons {fileSize : Nat} (hsize : fileSize < wordLimit) (container : Container)
    (requested? : Option String) (name : String) (names : List String) :
    findRegion fileSize container requested? (name :: names) =
      match container.rangeOf? name with
      | some range => (Region.ofRange fileSize name range).map fun region => some (.ofRegion region)
      | none => findRegion fileSize container requested? names := by
  rw [findRegion, Container.rangeOf?]
  cases container.section? name with
  | none => rfl
  | some first =>
    cases hrange : first.range? with
    | none => simp [hrange]
    | some range =>
      simp only [Option.bind_some, hrange, rangeEnd?_eq hsize, Region.ofRange]
      by_cases hinside : range.offset + range.size ≤ fileSize
      · simp only [if_pos hinside]
        rfl
      · simp only [if_neg hinside]
        rfl

/-- The search of the machine goes the way of that with exact numbers. -/
theorem findRegion_eq {file : Image} (hsize : file.size < wordLimit) (container : Container)
    (requested? : Option String) (names : List String) :
    (findRegion file.size container requested? names).map (·.getD ⟨0, file.size, none⟩) =
      (Region.ofFound file requested? (Region.firstOccupied? container.rangeOf? names)).map
        Stretch.ofRegion := by
  induction names with
  | nil =>
    cases requested? with
    | none => exact congrArg Except.ok (Stretch.ofRegion_whole file).symm
    | some name => rfl
  | cons name names ih =>
    rw [findRegion_cons hsize, Region.firstOccupied?]
    cases container.rangeOf? name with
    | none => exact ih
    | some range =>
      show ((Region.ofRange file.size name range).map _).map _ = (Region.ofRange file.size name range).map _
      cases Region.ofRange file.size name range <;> rfl

theorem choose_eq {file : Image} (hsize : file.size < wordLimit)
    (parsed : Except Container.Refusal Container) (requested? : Option String) :
    choose file parsed requested? = (Region.choose file parsed requested?).map Stretch.ofRegion := by
  cases parsed with
  | error refusal =>
    cases requested? with
    | none => exact congrArg Except.ok (Stretch.ofRegion_whole file).symm
    | some name => rfl
  | ok container =>
    rw [Region.choose_of_object, ← findRegion_eq hsize]
    rfl

end Machine

namespace Program

/-- Loading a file is reading it as an object file and choosing a region. -/
theorem load_eq (file : Image) (requested? : Option String) :
    load (.ok file) requested? =
      ((Region.choose file (Container.parse file) requested?).map (file, ·)).mapError .noRegion := by
  rw [load, Region.ofFile]
  cases Region.choose file (Container.parse file) requested? <;> rfl

/-- **The region is that of the right section, and lies inside the file.** Whatever a file comes to when it
is read as an object file, a region that is chosen can be cut out of it. A section that is asked for is the
region if its range lies inside the file, and otherwise there is none; without that, the first usual name
with a range decides, and the whole file is the region exactly if there is no such name. The checked sums of
the machine come to the same, and loading a file is such a choice. -/
theorem load_chooses_region_inside_file (file : Image) (hsize : file.size < wordLimit)
    (parsed : Except Container.Refusal Container) :
    let usual := [".gopclntab", "__gopclntab", ".data.rel.ro", ".rdata"]
    (∀ requested? region, Region.choose file parsed requested? = .ok region →
      region.start + region.size ≤ file.size ∧
      Machine.slice file.toList region.start (region.start + region.size) =
        .ok (region.bytes file).toList) ∧
    (∀ name region, Region.choose file parsed (some name) = .ok region ↔
      ∃ container range, parsed = .ok container ∧ container.Occupies name range ∧
        range.offset + range.size ≤ file.size ∧ region = ⟨range.offset, range.size, some name⟩) ∧
    (∀ name fault, Region.choose file parsed (some name) = .error fault ↔
      (∃ refusal, parsed = .error refusal ∧ fault = .notAnObject name refusal) ∨
      ∃ container, parsed = .ok container ∧
        (container.Lacks name ∧ fault = .missing name ∨
          ∃ range, container.Occupies name range ∧ file.size < range.offset + range.size ∧
            fault = .outside name)) ∧
    (∀ region, Region.choose file parsed none = .ok region →
      (∀ name, region.sectionName = some name → ∃ container range, parsed = .ok container ∧
        container.FirstOf usual name range ∧ region = ⟨range.offset, range.size, some name⟩) ∧
      (region.sectionName = none → region = Region.whole file)) ∧
    (Region.choose file parsed none = .ok (Region.whole file) ↔
      ∀ container, parsed = .ok container → ∀ name ∈ usual, container.Lacks name) ∧
    (∀ requested?, Machine.choose file parsed requested? =
      (Region.choose file parsed requested?).map Machine.Stretch.ofRegion) ∧
    (∀ requested?, load (.ok file) requested? =
      ((Region.choose file (Container.parse file) requested?).map (file, ·)).mapError .noRegion) := by
  intro usual
  refine ⟨fun requested? region h => ?_, fun name region => ?_, fun name fault => ?_, fun region h => ?_,
    ?_, ?_, ?_⟩
  · exact ⟨Region.inside_of_choose h, Region.slice_of_choose h⟩
  · exact Region.choose_requested_eq_ok_iff
  · exact Region.choose_requested_eq_error_iff
  · exact ⟨fun name hname => Region.firstOf_of_choose h hname, Region.eq_whole_of_choose h⟩
  · exact Region.choose_eq_whole_iff
  · exact Machine.choose_eq hsize parsed
  · exact load_eq file

/-- An object whose section of the first usual name occupies no bytes, and with two sections that end behind
the file, the second one behind the last position that is a word. -/
theorem load_chooses_region_inside_file_four_sections :
    let name (text : String) : Option (List UInt8) := some text.toUTF8.toList
    let container : Container := ⟨[⟨name ".gopclntab", none⟩, ⟨name ".rdata", some ⟨60, 8⟩⟩,
      ⟨name ".long", some ⟨100, 50⟩⟩, ⟨name ".high", some ⟨wordLimit - 1, 2⟩⟩], .exact⟩
    let choose := Region.choose plainObject (.ok container)
    plainObject.size < wordLimit ∧
    choose none = .ok rdata ∧ rdata.start + rdata.size ≤ plainObject.size ∧
    (∃ range, container.FirstOf [".gopclntab", "__gopclntab", ".data.rel.ro", ".rdata"] ".rdata" range) ∧
    choose (some ".rdata") = .ok rdata ∧
    choose (some ".gopclntab") = .error (.missing ".gopclntab") ∧
    choose (some ".long") = .error (.outside ".long") ∧
    choose (some ".high") = .error (.outside ".high") ∧
    Machine.choose plainObject (.ok container) (some ".high") = .error (.outside ".high") := by
  intro name container choose
  have hsize : plainObject.size < wordLimit := by decide +kernel
  obtain ⟨hinside, hasked, hrefused, husual, -, hmachine, -⟩ :=
    load_chooses_region_inside_file plainObject hsize (.ok container)
  have hchosen : choose none = .ok rdata := by decide +kernel
  obtain ⟨other, range, hother, hfirst, -⟩ := (husual rdata hchosen).1 ".rdata" rfl
  cases hother
  have hrdata : container.Occupies ".rdata" ⟨60, 8⟩ := Container.rangeOf?_eq_some_iff.1 (by decide +kernel)
  have hlong : container.Occupies ".long" ⟨100, 50⟩ := Container.rangeOf?_eq_some_iff.1 (by decide +kernel)
  have hhigh : container.Occupies ".high" ⟨wordLimit - 1, 2⟩ :=
    Container.rangeOf?_eq_some_iff.1 (by decide +kernel)
  have hlacks : container.Lacks ".gopclntab" := Container.rangeOf?_eq_none_iff.1 (by decide +kernel)
  have houtside : choose (some ".high") = .error (.outside ".high") :=
    (hrefused _ _).2 (.inr ⟨container, rfl, .inr ⟨_, hhigh, by decide +kernel, rfl⟩⟩)
  refine ⟨hsize, hchosen, (hinside none rdata hchosen).1, ⟨range, hfirst⟩,
    (hasked _ _).2 ⟨container, _, rfl, hrdata, by decide +kernel, rfl⟩,
    (hrefused _ _).2 (.inr ⟨container, rfl, .inl ⟨hlacks, rfl⟩⟩),
    (hrefused _ _).2 (.inr ⟨container, rfl, .inr ⟨_, hlong, by decide +kernel, rfl⟩⟩), houtside, ?_⟩
  rw [hmachine, show Region.choose plainObject (.ok container) (some ".high") = _ from houtside]
  rfl

end Program

end Unstrip

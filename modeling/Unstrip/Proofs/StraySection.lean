import Unstrip.Proofs.RegionChoice

/-!
# Usual sections that end behind the file

If no section is asked for, a usual name that lacks a range is passed over, and the whole file is the region
in the end. The first name with a range is not passed over, even if its range ends behind the file
(`Region.Strays`): then there is no region, although nobody has asked for this section, and neither the other
usual names nor the whole file are tried. That is the only reason why a file that can be read is not loaded
(`loads_unless_usual_section_strays`). A file whose end is missing is such a file, and its table may be whole
(`stray_section_hides_table`).
-/

namespace Unstrip

namespace Region

variable {file : Image} {container : Container} {name : String}
  {parsed : Except Container.Refusal Container}

/-- Of the usual names this one decides, and its range ends behind the file. -/
def Strays (file : Image) (container : Container) (name : String) : Prop :=
  ∃ range, container.FirstOf [".gopclntab", "__gopclntab", ".data.rel.ro", ".rdata"] name range ∧
    file.size < range.offset + range.size

theorem choose_of_strays (h : Strays file container name) :
    choose file (.ok container) none = .error (.outside name) := by
  obtain ⟨range, hfirst, houtside⟩ := h
  have hchoose : choose file (.ok container) none = ofRange file.size name range := choose_of_firstOf hfirst
  rw [hchoose]
  exact ofRange_eq_error_iff.2 ⟨houtside, rfl⟩

/-- Without a section that is asked for, there is one reason not to choose a region. -/
theorem choose_default_eq_error_iff {fault : RegionFault} :
    choose file parsed none = .error fault ↔
      ∃ container name, parsed = .ok container ∧ Strays file container name ∧ fault = .outside name := by
  constructor
  · intro h
    cases parsed with
    | error refusal => cases h
    | ok container =>
      rcases exists_firstOf_or container (namesFor none) with ⟨name, range, hfirst⟩ | hnone
      · rw [choose_of_firstOf hfirst, ofRange_eq_error_iff] at h
        obtain ⟨houtside, rfl⟩ := h
        exact ⟨container, name, rfl, ⟨range, hfirst, houtside⟩, rfl⟩
      · rw [choose_of_none hnone] at h
        cases h
  · rintro ⟨container, name, rfl, hstrays, rfl⟩
    exact choose_of_strays hstrays

theorem exists_choose_default_iff :
    (∃ region, choose file parsed none = .ok region) ↔
      ∀ container name, parsed = .ok container → ¬ Strays file container name := by
  cases hchoose : choose file parsed none with
  | ok region =>
    simp only [Except.ok.injEq, exists_eq', true_iff]
    intro container name hparsed hstrays
    rw [hparsed, choose_of_strays hstrays] at hchoose
    cases hchoose
  | error fault =>
    obtain ⟨container, name, hparsed, hstrays, -⟩ := choose_default_eq_error_iff.1 hchoose
    simp only [reduceCtorEq, exists_false, false_iff]
    intro hnone
    exact hnone container name hparsed hstrays

end Region

/-- The arithmetic of the machine does not make a choice fail that would be made with exact numbers. -/
theorem Machine.exists_choose_iff {file : Image} (hsize : file.size < wordLimit)
    (parsed : Except Container.Refusal Container) (requested? : Option String) :
    (∃ stretch, choose file parsed requested? = .ok stretch) ↔
      ∃ region, Region.choose file parsed requested? = .ok region := by
  rw [choose_eq hsize]
  cases Region.choose file parsed requested? <;> simp [Except.map]

namespace Program

variable {arguments : Arguments} {directory : Directory} {file : Image} {container : Container}
  {name : String}

theorem exists_load_iff (file : Image) (requested? : Option String) :
    (∃ loaded, load (.ok file) requested? = .ok loaded) ↔
      ∃ region, Region.choose file (Container.parse file) requested? = .ok region := by
  rw [load_eq]
  cases Region.choose file (Container.parse file) requested? <;> simp [Except.map, Except.mapError]

theorem load_eq_error_iff {requested? : Option String} {fault : LoadFault} :
    load (.ok file) requested? = .error fault ↔
      ∃ reason, Region.choose file (Container.parse file) requested? = .error reason ∧
        fault = .noRegion reason := by
  rw [load_eq]
  cases Region.choose file (Container.parse file) requested? <;>
    simp [Except.map, Except.mapError, eq_comm]

theorem load_of_strays (hparse : Container.parse file = .ok container)
    (hstrays : Region.Strays file container name) :
    load (.ok file) none = .error (.noRegion (.outside name)) := by
  rw [load_eq_error_iff, hparse]
  exact ⟨.outside name, Region.choose_of_strays hstrays, rfl⟩

/-- A run on such a file ends before anything is scanned. -/
theorem failsWith_of_strays (hunasked : arguments.sectionName = none)
    (hread : directory.read arguments.input = .ok file) (hparse : Container.parse file = .ok container)
    (hstrays : Region.Strays file container name) (cores : Nat) :
    FailsWith arguments directory (.loading (.noRegion (.outside name))) (run arguments directory cores) := by
  refine failsWith_of_respond (respond_of_load_error ?_)
  rw [hread, hunasked]
  exact load_of_strays hparse hstrays

/-- **A file that can be read is loaded, unless a usual section strays.** If no section is asked for, that is
the only reason not to choose a region, whatever a file comes to when it is read as an object file, and the
only fault of loading; it names the section. The checked sums of the machine make no difference. The run then
fails with this fault, whatever else its arguments are. -/
theorem loads_unless_usual_section_strays (file : Image) :
    (∀ parsed, (∃ region, Region.choose file parsed none = .ok region) ↔
      ∀ container name, parsed = .ok container → ¬ Region.Strays file container name) ∧
    (file.size < wordLimit → ∀ parsed, (∃ stretch, Machine.choose file parsed none = .ok stretch) ↔
      ∀ container name, parsed = .ok container → ¬ Region.Strays file container name) ∧
    ((∃ loaded, load (.ok file) none = .ok loaded) ↔
      ∀ container name, Container.parse file = .ok container → ¬ Region.Strays file container name) ∧
    (∀ fault, load (.ok file) none = .error fault ↔ ∃ container name,
      Container.parse file = .ok container ∧ Region.Strays file container name ∧
        fault = .noRegion (.outside name)) ∧
    (∀ arguments directory cores container name, arguments.sectionName = none →
      directory.read arguments.input = .ok file → Container.parse file = .ok container →
      Region.Strays file container name →
      FailsWith arguments directory (.loading (.noRegion (.outside name))) (run arguments directory cores)) := by
  refine ⟨fun parsed => ?_, fun hsize parsed => ?_, ?_, fun fault => ?_, ?_⟩
  · exact Region.exists_choose_default_iff
  · exact (Machine.exists_choose_iff hsize parsed none).trans Region.exists_choose_default_iff
  · exact (exists_load_iff file none).trans Region.exists_choose_default_iff
  · rw [load_eq_error_iff]
    constructor
    · rintro ⟨reason, hchoose, rfl⟩
      obtain ⟨container, name, hparse, hstrays, rfl⟩ := Region.choose_default_eq_error_iff.1 hchoose
      exact ⟨container, name, hparse, hstrays, rfl⟩
    · rintro ⟨container, name, hparse, hstrays, rfl⟩
      exact ⟨_, Region.choose_default_eq_error_iff.2 ⟨container, name, hparse, hstrays, rfl⟩, rfl⟩
  · intro arguments directory cores container name hunasked hread hparse hstrays
    exact failsWith_of_strays hunasked hread hparse hstrays cores

/-- The plain object if the header of its section claims 264 bytes, which is more than the file has from
there on. The table stands inside the file, as before. -/
def cutObject : Image := plainObject.setIfInBounds 37 1

/-- The one section of this object. -/
def cutContainer : Container := ⟨[⟨some ".rdata".toUTF8.toList, some ⟨60, 264⟩⟩], .exact⟩

theorem parse_cutObject : Container.parse cutObject = .ok cutContainer := by decide +kernel

theorem strays_cutObject : Region.Strays cutObject cutContainer ".rdata" := by
  have hfirst : Region.firstOccupied? cutContainer.rangeOf? Region.defaultNames =
      some (".rdata", ⟨60, 264⟩) := by
    decide +kernel
  exact ⟨_, Region.firstOccupied?_eq_some_iff.1 hfirst, by decide +kernel⟩

/-- The object whose section claims too much is not loaded. Another usual name with a range in front of
`.rdata` would decide instead. -/
theorem loads_unless_usual_section_strays_rdata :
    let arguments : Arguments := { input := "input.bin", allowPartial := true }
    let directory : Directory := ⟨[("input.bin", cutObject)]⟩
    let other : Container := ⟨⟨some ".gopclntab".toUTF8.toList, some ⟨60, 8⟩⟩ :: cutContainer.sections, .exact⟩
    Container.parse cutObject = .ok cutContainer ∧ Region.Strays cutObject cutContainer ".rdata" ∧
    (¬ ∃ region, Region.choose cutObject (.ok cutContainer) none = .ok region) ∧
    (∀ name, ¬ Region.Strays cutObject other name) ∧
    cutObject.size < wordLimit ∧
    (¬ ∃ stretch, Machine.choose cutObject (.ok cutContainer) none = .ok stretch) ∧
    (¬ ∃ loaded, load (.ok cutObject) none = .ok loaded) ∧
    load (.ok cutObject) none = .error (.noRegion (.outside ".rdata")) ∧
    FailsWith arguments directory (.loading (.noRegion (.outside ".rdata"))) (run arguments directory 1) := by
  intro arguments directory other
  have hsize : cutObject.size < wordLimit := by decide +kernel
  have hread (file : Image) : (⟨[("input.bin", file)]⟩ : Directory).read "input.bin" = .ok file := rfl
  obtain ⟨hchoose, hmachine, hload, hfault, hrun⟩ := loads_unless_usual_section_strays cutObject
  have hother : ∃ region, Region.choose cutObject (.ok other) none = .ok region :=
    ⟨⟨60, 8, some ".gopclntab"⟩, by decide +kernel⟩
  refine ⟨parse_cutObject, strays_cutObject, ?_, ?_, hsize, ?_, ?_, ?_, ?_⟩
  · intro h
    exact (hchoose _).1 h _ _ rfl strays_cutObject
  · intro name
    exact (hchoose _).1 hother other name rfl
  · intro h
    exact (hmachine hsize _).1 h _ _ rfl strays_cutObject
  · intro h
    exact hload.1 h _ _ parse_cutObject strays_cutObject
  · exact (hfault _).2 ⟨_, _, parse_cutObject, strays_cutObject, rfl⟩
  · exact hrun arguments directory 1 _ _ rfl (hread cutObject) parse_cutObject strays_cutObject

/-- The whole file has a table of two functions, and yet it is not loaded. -/
theorem stray_section_hides_table :
    (¬ ∃ loaded, load (.ok cutObject) none = .ok loaded) ∧
    load (.ok cutObject) none = .error (.noRegion (.outside ".rdata")) ∧
    (extract cutObject {} 1).value =
      .ok (SymbolTable.ofList [⟨"a", 0x1000, none⟩, ⟨"main", 0x1010, none⟩]) := by
  have hfault : load (.ok cutObject) none = .error (.noRegion (.outside ".rdata")) :=
    load_of_strays parse_cutObject strays_cutObject
  refine ⟨?_, hfault, by decide +kernel⟩
  rintro ⟨loaded, hload⟩
  rw [hfault] at hload
  cases hload

end Program

end Unstrip

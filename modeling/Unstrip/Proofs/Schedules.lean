import Unstrip.Proofs.RoundTrip

/-!
# Every schedule builds what one worker builds

The two books of `Accounts` balance over every run of a pool, and any run can be brought to its end.
At the end each slot holds the result of its record, so the slots come to what one worker comes to
inline (`pool_agrees_with_inline`). The moves of the workers may be interleaved in any way, with
chunks and messages out of order: `crowdedSource` is a table over which two workers do this.
-/

namespace Unstrip

/-- Functions of one name at every sixteenth address, one more than a chunk holds. -/
def crowdedSource : TableSource where
  release := .go116
  pointerWidth := 8
  quantum := 1
  leading := 0
  textStart := 0
  functions := (List.range 513).map fun i => ⟨"f", 4096 + 16 * i, 4096 + 16 * i⟩

namespace crowdedSource

open TableSource

theorem length_functions : crowdedSource.functions.length = 513 := by
  rw [crowdedSource, List.length_map, List.length_range]

theorem exists_of_mem {function : FunctionSource} (h : function ∈ crowdedSource.functions) :
    ∃ i, i < 513 ∧ function = ⟨"f", 4096 + 16 * i, 4096 + 16 * i⟩ := by
  simp only [crowdedSource, List.mem_map, List.mem_range] at h
  obtain ⟨i, hi, rfl⟩ := h
  exact ⟨i, hi, rfl⟩

theorem nameIndex_eq {index : Nat} (h : index ≤ 513) : crowdedSource.nameIndex index = index * 2 := by
  have hwidth : (storedName "f").length = 2 := by decide +kernel
  simp only [nameIndex, crowdedSource, ← List.map_take, List.flatMap_map]
  rw [Image.length_flatMap_of_width fun _ => hwidth, List.length_take, List.length_range,
    Nat.min_eq_left h]

theorem nameEnd_eq : crowdedSource.nameEnd = 1090 := by
  have hnames : crowdedSource.nameArea.length = 1026 := by
    have h := nameIndex_eq (Nat.le_refl 513)
    rwa [nameIndex, List.take_of_length_le (Nat.le_of_eq length_functions)] at h
  rw [nameEnd, hnames]
  rfl

theorem fitsAddress {i : Nat} (h : i < 513) : crowdedSource.FitsAddress (4096 + 16 * i) := by
  refine ⟨?_, nofun, ?_⟩
  · unfold wordLimit
    omega
  · show 4096 + 16 * i < LittleEndian.limit 8
    simp only [LittleEndian.limit]
    omega

/-- Every value of the table fits in its field. -/
theorem fits : crowdedSource.Fits := by
  have hend := nameEnd_eq
  have hlimit : 65536 < LittleEndian.limit 8 := by decide
  have hmetadata : crowdedSource.metadataOffset = 8208 := by
    rw [metadataOffset, length_functions]
    rfl
  exact
    { pointerWidth := .inr rfl
      size := by
        rw [size_encode, recordOffset, hend, hmetadata, length_functions]
        decide
      header := fun field _ => by
        refine Nat.lt_of_le_of_lt ?_ hlimit
        cases field <;> simp only [fieldValue, length_functions, recordOffset, hend] <;> decide
      addresses := fun function h => by
        obtain ⟨i, hi, rfl⟩ := exists_of_mem h
        exact fitsAddress hi
      metadataAddresses := fun function h => by
        obtain ⟨i, hi, rfl⟩ := exists_of_mem h
        exact fitsAddress hi
      metadataOffsets := fun index h => by
        rw [length_functions] at h
        rw [hmetadata]
        show 8208 + index * 12 < LittleEndian.limit 8
        omega
      nameIndices := fun index h => by
        rw [length_functions] at h
        rw [nameIndex_eq (Nat.le_of_lt h)]
        simp only [LittleEndian.limit]
        omega
      names := fun function h => by
        obtain ⟨i, -, rfl⟩ := exists_of_mem h
        exact (by decide : '\x00' ∉ "f".toList) }

/-- Every record resolves. -/
theorem symbolAt_eq {i : Nat} (h : i < 513) :
    (Records.ofHeader crowdedSource.encode crowdedSource.site.read 4096).symbolAt i =
      .ok ⟨"f", 4096 + 16 * i, none⟩ := by
  have hcap : ∀ function ∈ crowdedSource.functions, function.name.utf8ByteSize ≤ 4096 := by
    intro function hmem
    obtain ⟨j, -, rfl⟩ := exists_of_mem hmem
    exact (by decide : "f".utf8ByteSize ≤ 4096)
  have hi : i < crowdedSource.symbols.length := by rwa [length_symbols, length_functions]
  rw [symbolAt_encode fits hcap hi]
  simp [symbols, crowdedSource]

theorem buildInline_eq :
    (Records.ofHeader crowdedSource.encode crowdedSource.site.read 4096).buildInline.value =
      .ok crowdedSource.symbols.toArray := by
  refine Records.buildInline_eq_ok_iff.2 ⟨?_, fun i h => ?_⟩
  · rw [List.size_toArray, Records.count_ofHeader, read_functionCount fits]
  · rw [List.size_toArray, length_symbols, length_functions] at h
    rw [symbolAt_eq h]
    simp [symbols, crowdedSource]

end crowdedSource

namespace Records

/-- **A pool builds what one worker builds.** Whatever the image, the header, the cap, the number of
workers and the schedule: the run can be brought to its end, and at its end every record has been
resolved once and written to its slot once, and the slots come to exactly what one worker comes to,
the symbols on success and the fault with the symbols before it on failure. -/
theorem pool_agrees_with_inline (image : Image) (header : Header) (nameCap workers : Nat)
    (schedule : List Pool.Action) :
    let records := Records.ofHeader image header nameCap
    let start := Pool.State.initial header.functionCount workers
    let final := start.run records.symbolAt schedule
    (0 < workers → ∃ rest, (final.run records.symbolAt rest).isFinished = true) ∧
    (final.isFinished = true →
      (start.sent records.symbolAt schedule).Perm
          (Pool.State.messages records.symbolAt header.functionCount) ∧
      (start.delivered records.symbolAt schedule).Perm
          (Pool.State.messages records.symbolAt header.functionCount) ∧
      (∀ i, i < header.functionCount → final.slots[i]? = some (some (records.symbolAt i))) ∧
      (∀ stop, records.poolOutcome final = .error stop → ∀ i, stop.fault ≠ .corrupt (.unresolved i)) ∧
      records.poolOutcome final = records.buildInline.value) := by
  intro records start final
  refine ⟨fun hpool => ?_, fun hend => ?_⟩
  · exact Pool.State.exists_finished records.symbolAt (by simpa [final, start] using hpool)
  · obtain ⟨hsent, hdelivered⟩ := Pool.State.finished_delivered records.symbolAt hend
    have hsame : records.poolOutcome final = records.buildInline.value := poolOutcome_of_isFinished hend
    refine ⟨hsent, hdelivered, fun i hi => Pool.State.finished_slots records.symbolAt hend hi, ?_, hsame⟩
    intro stop hstop
    exact buildInline_ne_unresolved (hsame ▸ hstop)

/-- Two workers share the two chunks of `crowdedSource`, and the last record arrives first. They can go
on from there to the end, where the slots come to all of the symbols. -/
theorem pool_agrees_with_inline_two_workers :
    let header := crowdedSource.site.read
    let records := Records.ofHeader crowdedSource.encode header 4096
    let start := Pool.State.initial header.functionCount 2
    let opening : List Pool.Action := [.take 1 0, .take 0 0, .resolve 1, .resolve 0, .deliver 1]
    Header.decode crowdedSource.encode ⟨0, .go116⟩ = .ok header ∧ header.functionCount = 513 ∧
    start.sent records.symbolAt opening = [(0, .ok ⟨"f", 4096, none⟩), (512, .ok ⟨"f", 12288, none⟩)] ∧
    start.delivered records.symbolAt opening = [(512, .ok ⟨"f", 12288, none⟩)] ∧
    ∃ rest,
      let schedule := opening ++ rest
      let final := start.run records.symbolAt schedule
      final.isFinished = true ∧
      (start.delivered records.symbolAt schedule).Perm (Pool.State.messages records.symbolAt 513) ∧
      records.buildInline.value = .ok crowdedSource.symbols.toArray ∧
      records.poolOutcome final = records.buildInline.value := by
  intro header records start opening
  have hcount : header.functionCount = 513 := by
    rw [TableSource.read_functionCount crowdedSource.fits, TableSource.length_symbols,
      crowdedSource.length_functions]
  have hdecode := ((Site.isTable_iff crowdedSource.fits.size).1
    (TableSource.site_isTable crowdedSource.fits)).2
  have hsent : start.sent records.symbolAt opening =
      [(0, records.symbolAt 0), (512, records.symbolAt 512)] := by
    simp only [start, hcount]
    rfl
  have hdelivered : start.delivered records.symbolAt opening = [(512, records.symbolAt 512)] := by
    simp only [start, hcount]
    rfl
  rw [crowdedSource.symbolAt_eq (by omega), crowdedSource.symbolAt_eq (by omega)] at hsent
  rw [crowdedSource.symbolAt_eq (by omega)] at hdelivered
  obtain ⟨rest, hend⟩ := (pool_agrees_with_inline crowdedSource.encode header 4096 2 opening).1
    (by omega)
  rw [← Pool.State.run_append] at hend
  obtain ⟨-, harrived, -, -, hsame⟩ :=
    (pool_agrees_with_inline crowdedSource.encode header 4096 2 (opening ++ rest)).2 hend
  exact ⟨hdecode, hcount, hsent, hdelivered, rest, hend, hcount ▸ harrived, crowdedSource.buildInline_eq, hsame⟩

end Records

end Unstrip

import Unstrip.Proofs.Utf8

/-!
# Where bytes stop being text

If bytes are not UTF-8, the decoder says where and how. Both can be said without it: the place is the end
of the longest part from the start that is text (`IsLongestText`), and what stands there is either the
beginning of a character that the input cuts short (`OpensCharacter`) or a bad part (`IsBadPart`), which
goes as far as a character could still have come of it. Main statement: a fault is reported exactly if it
describes the bytes in this way (`decode_eq_error_iff`).
-/

namespace Unstrip.Utf8

/-! ## Text and what is not -/

/-- The bytes are those of some characters. -/
def IsText (bytes : List UInt8) : Prop := ∃ cs : List Char, cs.flatMap String.utf8EncodeChar = bytes

/-- The bytes begin the sequence of a character, and do not complete it. -/
def OpensCharacter (bytes : List UInt8) : Prop :=
  ∃ (c : Char) (rest : List UInt8), rest ≠ [] ∧ String.utf8EncodeChar c = bytes ++ rest

/-- The first `length` bytes are text, and no more of them are. -/
structure IsLongestText (bytes : List UInt8) (length : Nat) : Prop where
  inside : length ≤ bytes.length
  text : IsText (bytes.take length)
  longest : ∀ length', length' ≤ bytes.length → IsText (bytes.take length') → length' ≤ length

/-- The first `length` bytes are as many as begin the sequence of a character; a byte that begins none
stands alone. -/
structure IsBadPart (bytes : List UInt8) (length : Nat) : Prop where
  pos : 1 ≤ length
  le : length ≤ 3
  inside : length ≤ bytes.length
  opens : length = 1 ∨ OpensCharacter (bytes.take length)
  longest : ∀ length', length' ≤ bytes.length → OpensCharacter (bytes.take length') → length' ≤ length

/-- The fault says where the bytes stop being text, and what stands there. -/
def Fault.Describes (bytes : List UInt8) : Fault → Prop
  | .incomplete index =>
    IsLongestText bytes index ∧ index < bytes.length ∧ OpensCharacter (bytes.drop index)
  | .invalid index length =>
    IsLongestText bytes index ∧ ¬ OpensCharacter (bytes.drop index) ∧
      IsBadPart (bytes.drop index) length

/-! ## Sequences by the ranges of their bytes -/

/-- The range of a byte that continues a sequence. -/
def continuation : UInt8 × UInt8 := (0x80, 0xbf)

/-- The ranges of the bytes behind a first byte, or `none` if no sequence begins with it. -/
def Lead.ranges? : Lead → Option (List (UInt8 × UInt8))
  | .ascii => some []
  | .two => some [continuation]
  | .three low high => some [(low, high), continuation]
  | .four low high => some [(low, high), continuation, continuation]
  | .bad => none

/-- How many bytes lie each in the range of its place, up to the first that does not. -/
def agreement : List (UInt8 × UInt8) → List UInt8 → Nat
  | (low, high) :: ranges, b :: bytes => if low ≤ b ∧ b ≤ high then agreement ranges bytes + 1 else 0
  | _, _ => 0

section
variable {low high b : UInt8} {ranges : List (UInt8 × UInt8)} {bytes rest : List UInt8}

@[simp] theorem agreement_nil_left (bytes : List UInt8) : agreement [] bytes = 0 := rfl

@[simp] theorem agreement_nil (ranges : List (UInt8 × UInt8)) : agreement ranges [] = 0 := by
  cases ranges <;> rfl

@[simp] theorem agreement_cons_of_mem (h : low ≤ b ∧ b ≤ high) :
    agreement ((low, high) :: ranges) (b :: bytes) = agreement ranges bytes + 1 := if_pos h

@[simp] theorem agreement_cons_of_not_mem (h : ¬ (low ≤ b ∧ b ≤ high)) :
    agreement ((low, high) :: ranges) (b :: bytes) = 0 := if_neg h

theorem agreement_le (ranges : List (UInt8 × UInt8)) (bytes : List UInt8) :
    agreement ranges bytes ≤ ranges.length ∧ agreement ranges bytes ≤ bytes.length := by
  induction ranges generalizing bytes with
  | nil => exact ⟨Nat.le_refl _, Nat.zero_le _⟩
  | cons range ranges ih =>
    cases bytes with
    | nil => exact ⟨Nat.zero_le _, Nat.le_refl _⟩
    | cons b bytes =>
      by_cases h : range.1 ≤ b ∧ b ≤ range.2
      · rw [agreement_cons_of_mem h]
        exact ⟨Nat.succ_le_succ (ih bytes).1, Nat.succ_le_succ (ih bytes).2⟩
      · rw [agreement_cons_of_not_mem h]
        exact ⟨Nat.zero_le _, Nat.zero_le _⟩

/-- The bytes in front agree as far as all of them do. -/
theorem agreement_take (ranges : List (UInt8 × UInt8)) (bytes : List UInt8) (n : Nat) :
    agreement ranges (bytes.take n) = min n (agreement ranges bytes) := by
  induction ranges generalizing bytes n with
  | nil => exact (Nat.min_zero n).symm
  | cons range ranges ih =>
    rcases bytes with _ | ⟨b, bytes⟩
    · rw [List.take_nil, agreement_nil, Nat.min_zero]
    · rcases n with _ | n
      · rw [List.take_zero, agreement_nil, Nat.zero_min]
      · by_cases h : range.1 ≤ b ∧ b ≤ range.2
        · rw [List.take_succ_cons, agreement_cons_of_mem h, agreement_cons_of_mem h, ih, Nat.succ_min_succ]
        · rw [List.take_succ_cons, agreement_cons_of_not_mem h, agreement_cons_of_not_mem h, Nat.min_zero]

/-- Bytes that are good as far as they go are completed by the least byte of each further range. -/
theorem agreement_complete (hranges : ∀ range ∈ ranges, range.1 ≤ range.2)
    (hgood : agreement ranges bytes = bytes.length) :
    agreement ranges (bytes ++ (ranges.drop bytes.length).map (·.1)) = ranges.length := by
  induction ranges generalizing bytes with
  | nil => rfl
  | cons range ranges ih =>
    have hrest : ∀ range ∈ ranges, range.1 ≤ range.2 := fun r hr => hranges r (List.mem_cons_of_mem _ hr)
    rcases bytes with _ | ⟨b, bytes⟩
    · have hnil := @ih [] hrest (agreement_nil ranges)
      rw [List.length_nil, List.drop_zero, List.nil_append] at hnil ⊢
      have hmem : range.1 ≤ range.1 ∧ range.1 ≤ range.2 := ⟨UInt8.le_refl _, hranges range List.mem_cons_self⟩
      rw [List.map_cons, agreement_cons_of_mem hmem, hnil, List.length_cons]
    · by_cases h : range.1 ≤ b ∧ b ≤ range.2
      · rw [agreement_cons_of_mem h, List.length_cons] at hgood
        rw [List.cons_append, List.length_cons, List.drop_succ_cons, agreement_cons_of_mem h,
          ih hrest (Nat.succ_inj.1 hgood), List.length_cons]
      · rw [agreement_cons_of_not_mem h, List.length_cons] at hgood
        cases hgood

end

/-- What decoding comes to, by the ranges that the first byte asks for. -/
inductive Step (index : Nat) (b : UInt8) (rest : List UInt8) : Except Fault (List Char) → Prop
  | bad (h : (lead b).ranges? = none) : Step index b rest (.error (.invalid index 1))
  | whole {ranges : List (UInt8 × UInt8)} {n : Nat} (h : (lead b).ranges? = some ranges)
      (hfull : agreement ranges rest = ranges.length) :
      Step index b rest (push n (decodeFrom (index + (ranges.length + 1)) (rest.drop ranges.length)))
  | cut {ranges : List (UInt8 × UInt8)} (h : (lead b).ranges? = some ranges)
      (hends : agreement ranges rest = rest.length) (hpart : rest.length < ranges.length) :
      Step index b rest (.error (.incomplete index))
  | wrong {ranges : List (UInt8 × UInt8)} {good : Nat} (h : (lead b).ranges? = some ranges)
      (hgood : agreement ranges rest = good) (hpart : good < ranges.length) (hmore : good < rest.length) :
      Step index b rest (.error (.invalid index (good + 1)))

theorem step_decodeFrom (index : Nat) (b : UInt8) (rest : List UInt8) :
    Step index b rest (decodeFrom index (b :: rest)) := by
  have hcontinues (b : UInt8) : isContinuation b = true ↔ 0x80 ≤ b ∧ b ≤ 0xbf := by simp [isContinuation]
  rw [decodeFrom.eq_def]
  dsimp only
  cases hkind : lead b with
  | bad => exact .bad (by rw [hkind]; rfl)
  | ascii =>
    have hranges : (lead b).ranges? = some [] := by rw [hkind]; rfl
    exact .whole hranges (by cases rest <;> rfl)
  | two =>
    have hranges : (lead b).ranges? = some [continuation] := by rw [hkind]; rfl
    rcases rest with _ | ⟨b₁, rest⟩
    · exact .cut hranges rfl (by simp)
    by_cases h₁ : 0x80 ≤ b₁ ∧ b₁ ≤ 0xbf
    · simp only [if_pos ((hcontinues b₁).2 h₁)]
      exact .whole hranges (by simp [continuation, h₁])
    · simp only [if_neg (mt (hcontinues b₁).1 h₁)]
      exact .wrong hranges (agreement_cons_of_not_mem h₁) (by simp) (by simp)
  | three low high =>
    have hranges : (lead b).ranges? = some [(low, high), continuation] := by rw [hkind]; rfl
    rcases rest with _ | ⟨b₁, rest⟩
    · exact .cut hranges rfl (by simp)
    by_cases h₁ : low ≤ b₁ ∧ b₁ ≤ high
    · simp only [if_pos h₁]
      rcases rest with _ | ⟨b₂, rest⟩
      · exact .cut hranges (agreement_cons_of_mem h₁) (by simp)
      by_cases h₂ : 0x80 ≤ b₂ ∧ b₂ ≤ 0xbf
      · simp only [if_pos ((hcontinues b₂).2 h₂)]
        exact .whole hranges (by simp [continuation, h₁, h₂])
      · simp only [if_neg (mt (hcontinues b₂).1 h₂)]
        exact .wrong hranges (by simp [continuation, h₁, h₂]) (by simp) (by simp)
    · simp only [if_neg h₁]
      exact .wrong hranges (agreement_cons_of_not_mem h₁) (by simp) (by simp)
  | four low high =>
    have hranges : (lead b).ranges? = some [(low, high), continuation, continuation] := by rw [hkind]; rfl
    rcases rest with _ | ⟨b₁, rest⟩
    · exact .cut hranges rfl (by simp)
    by_cases h₁ : low ≤ b₁ ∧ b₁ ≤ high
    · simp only [if_pos h₁]
      rcases rest with _ | ⟨b₂, rest⟩
      · exact .cut hranges (agreement_cons_of_mem h₁) (by simp)
      by_cases h₂ : 0x80 ≤ b₂ ∧ b₂ ≤ 0xbf
      · simp only [if_pos ((hcontinues b₂).2 h₂)]
        rcases rest with _ | ⟨b₃, rest⟩
        · exact .cut hranges (by simp [continuation, h₁, h₂]) (by simp)
        by_cases h₃ : 0x80 ≤ b₃ ∧ b₃ ≤ 0xbf
        · simp only [if_pos ((hcontinues b₃).2 h₃)]
          exact .whole hranges (by simp [continuation, h₁, h₂, h₃])
        · simp only [if_neg (mt (hcontinues b₃).1 h₃)]
          exact .wrong hranges (by simp [continuation, h₁, h₂, h₃]) (by simp) (by simp)
      · simp only [if_neg (mt (hcontinues b₂).1 h₂)]
        exact .wrong hranges (by simp [continuation, h₁, h₂]) (by simp) (by simp)
    · simp only [if_neg h₁]
      exact .wrong hranges (agreement_cons_of_not_mem h₁) (by simp) (by simp)

/-! ## Characters -/

section
variable {b : UInt8} {tail rest : List UInt8} {ranges : List (UInt8 × UInt8)}

theorem length_ranges_le (h : (lead b).ranges? = some ranges) : ranges.length ≤ 3 := by
  cases hkind : lead b <;> rw [hkind] at h <;> cases h <;> simp

/-- No range is empty. -/
theorem le_of_mem_ranges (h : (lead b).ranges? = some ranges) {range : UInt8 × UInt8}
    (hmem : range ∈ ranges) : range.1 ≤ range.2 := by
  have hcontinuation : continuation.1 ≤ continuation.2 := by decide
  have hlead := leadRange_lead b
  generalize lead b = kind at h hlead
  cases hlead with
  | bad => cases h
  | ascii | two =>
    cases h
    simp_all
  | three _ _ hlow hhigh | four _ _ hlow hhigh =>
    cases h
    rename_i low high _ _
    have hle : low ≤ high := by
      rw [UInt8.le_iff_toNat_le, hlow, hhigh]
      split <;> split <;> omega
    simp only [List.mem_cons, List.not_mem_nil, or_false] at hmem
    rcases hmem with rfl | rfl | rfl
    · exact hle
    all_goals exact hcontinuation

/-- If all bytes of a sequence are good, it is taken as a whole. -/
theorem exists_push (h : (lead b).ranges? = some ranges) (hfull : agreement ranges rest = ranges.length)
    (index : Nat) : ∃ n, decodeFrom index (b :: rest) =
      push n (decodeFrom (index + (ranges.length + 1)) (rest.drop ranges.length)) := by
  have hstep := step_decodeFrom index b rest
  generalize decodeFrom index (b :: rest) = result at hstep ⊢
  cases hstep with
  | bad h' =>
    rw [h] at h'
    cases h'
  | whole h' =>
    cases h.symm.trans h'
    exact ⟨_, rfl⟩
  | cut h' hends hpart =>
    cases h.symm.trans h'
    omega
  | wrong h' hgood hpart =>
    cases h.symm.trans h'
    omega

/-- A character's bytes are a first byte, and one byte in each of its ranges. -/
theorem exists_char_iff :
    (∃ c, String.utf8EncodeChar c = b :: tail) ↔
      ∃ ranges, (lead b).ranges? = some ranges ∧ tail.length = ranges.length ∧
        agreement ranges tail = ranges.length := by
  constructor
  · rintro ⟨c, hc⟩
    have hok : decodeFrom 0 (b :: tail) = .ok [c] := decode_eq_ok_iff.2 (by simpa using hc)
    have hstep := step_decodeFrom 0 b tail
    rw [hok] at hstep
    generalize hresult : Except.ok [c] = result at hstep
    cases hstep with
    | bad | cut | wrong => cases hresult
    | @whole ranges n hranges hfull =>
      obtain ⟨cs, hrest, hcs⟩ := push_eq_ok_iff.1 hresult.symm
      obtain rfl : [] = cs := (List.cons.inj hcs).2
      have hle : tail.length ≤ ranges.length := List.drop_eq_nil_iff.1 (flatMap_of_decodeFrom hrest).symm
      have hge := (agreement_le ranges tail).2
      exact ⟨ranges, hranges, by omega, hfull⟩
  · rintro ⟨ranges, hranges, hlength, hfull⟩
    obtain ⟨n, hn⟩ := exists_push hranges hfull 0
    rw [List.drop_eq_nil_of_le (Nat.le_of_eq hlength)] at hn
    have hbytes := decode_eq_ok_iff.1 (show decode (b :: tail) = .ok [Char.ofNat n] from hn)
    exact ⟨Char.ofNat n, by simpa using hbytes⟩

/-- No character's bytes begin those of another one. -/
theorem encodeChar_append_inj {c d : Char} {x y : List UInt8}
    (h : String.utf8EncodeChar c ++ x = String.utf8EncodeChar d ++ y) :
    String.utf8EncodeChar c = String.utf8EncodeChar d ∧ x = y := by
  obtain ⟨b, s, hs⟩ := List.exists_cons_of_ne_nil String.utf8EncodeChar_ne_nil
  obtain ⟨b', t, ht⟩ := List.exists_cons_of_ne_nil String.utf8EncodeChar_ne_nil
  obtain ⟨ranges, hranges, hlength, -⟩ := exists_char_iff.1 ⟨c, hs⟩
  obtain ⟨ranges', hranges', hlength', -⟩ := exists_char_iff.1 ⟨d, ht⟩
  rw [hs, ht] at h ⊢
  obtain rfl : b = b' := (List.cons.inj h).1
  cases hranges.symm.trans hranges'
  exact List.append_inj h (by simp [hlength, hlength'])

/-- Bytes begin a character if they are good as far as they go, and some are missing. -/
theorem opensCharacter_cons_iff :
    OpensCharacter (b :: rest) ↔
      ∃ ranges, (lead b).ranges? = some ranges ∧ rest.length < ranges.length ∧
        agreement ranges rest = rest.length := by
  constructor
  · rintro ⟨c, missing, hne, hc⟩
    rw [List.cons_append] at hc
    obtain ⟨ranges, hranges, hlength, hfull⟩ := exists_char_iff.1 ⟨c, hc⟩
    have hpos := List.length_pos_iff.2 hne
    have htake := agreement_take ranges (rest ++ missing) rest.length
    rw [List.take_left, hfull] at htake
    rw [List.length_append] at hlength
    exact ⟨ranges, hranges, by omega, by omega⟩
  · rintro ⟨ranges, hranges, hpart, hgood⟩
    have hlength : (rest ++ (ranges.drop rest.length).map (·.1)).length = ranges.length := by
      rw [List.length_append, List.length_map, List.length_drop]
      omega
    obtain ⟨c, hc⟩ := exists_char_iff.2
      ⟨ranges, hranges, hlength, agreement_complete (fun _ => le_of_mem_ranges hranges) hgood⟩
    refine ⟨c, _, ?_, hc⟩
    rw [Ne, List.map_eq_nil_iff, List.drop_eq_nil_iff]
    omega

end

/-! ## Faults -/

/-- No character's bytes stand at the start. -/
def BeginsBadly (bytes : List UInt8) : Prop := ∀ c rest, bytes ≠ String.utf8EncodeChar c ++ rest

/-- The fault of bytes that begin badly, of which the first has the given index. -/
inductive FaultAt (index : Nat) (bytes : List UInt8) : Fault → Prop
  | incomplete (h : OpensCharacter bytes) : FaultAt index bytes (.incomplete index)
  | invalid {length : Nat} (h : ¬ OpensCharacter bytes) (hpart : IsBadPart bytes length) :
      FaultAt index bytes (.invalid index length)

section
variable {b : UInt8} {bytes rest : List UInt8} {fault fault' : Fault}

/-- Only the first byte can be bad by itself. -/
theorem isBadPart_of_ranges_eq_none (h : (lead b).ranges? = none) (rest : List UInt8) :
    ¬ OpensCharacter (b :: rest) ∧ IsBadPart (b :: rest) 1 := by
  have hnone (tail : List UInt8) : ¬ OpensCharacter (b :: tail) := by
    rintro hopens
    obtain ⟨ranges, hranges, -⟩ := opensCharacter_cons_iff.1 hopens
    rw [h] at hranges
    cases hranges
  refine ⟨hnone rest, Nat.le_refl _, by decide, by simp, .inl rfl, fun length hle hopens => ?_⟩
  cases length with
  | zero => exact Nat.zero_le _
  | succ length => exact absurd hopens (hnone _)

theorem isBadPart_of_agreement {ranges : List (UInt8 × UInt8)} {good : Nat}
    (h : (lead b).ranges? = some ranges) (hgood : agreement ranges rest = good)
    (hpart : good < ranges.length) (hmore : good < rest.length) :
    ¬ OpensCharacter (b :: rest) ∧ IsBadPart (b :: rest) (good + 1) := by
  -- a part that begins a character ends in front of the first bad byte
  have hle (n : Nat) (hn : n ≤ rest.length) (hopens : OpensCharacter (b :: rest.take n)) : n ≤ good := by
    obtain ⟨ranges', hranges', -, hagree⟩ := opensCharacter_cons_iff.1 hopens
    cases h.symm.trans hranges'
    rw [agreement_take, hgood, List.length_take] at hagree
    omega
  refine ⟨fun hopens => ?_, by omega, ?_, by simp; omega, .inr ?_, fun length hlength hopens => ?_⟩
  · have := hle rest.length (Nat.le_refl _) (by rwa [List.take_length])
    omega
  · have := length_ranges_le h
    omega
  · refine opensCharacter_cons_iff.2 ⟨ranges, h, ?_, ?_⟩
    · rw [List.length_take]
      omega
    · rw [agreement_take, hgood, List.length_take]
      omega
  · cases length with
    | zero => exact Nat.zero_le _
    | succ length => exact Nat.succ_le_succ (hle length (Nat.le_of_succ_le_succ hlength) hopens)

theorem beginsBadly_cons
    (h : ∀ ranges, (lead b).ranges? = some ranges → agreement ranges rest < ranges.length) :
    BeginsBadly (b :: rest) := by
  intro c more hc
  obtain ⟨b', tail, htail⟩ := List.exists_cons_of_ne_nil (String.utf8EncodeChar_ne_nil (c := c))
  obtain ⟨ranges, hranges, -, hfull⟩ := exists_char_iff.1 ⟨c, htail⟩
  rw [htail, List.cons_append] at hc
  obtain ⟨rfl, rfl⟩ := List.cons.inj hc
  have htake := agreement_take ranges (tail ++ more) tail.length
  rw [List.take_left, hfull] at htake
  have := h ranges hranges
  omega

/-- One step: a character is taken from the front, or the bytes begin badly and that is their fault. -/
theorem decodeFrom_cons_cases (index : Nat) (b : UInt8) (rest : List UInt8) :
    (∃ c rest' n, b :: rest = String.utf8EncodeChar c ++ rest' ∧ decodeFrom index (b :: rest) =
      push n (decodeFrom (index + (String.utf8EncodeChar c).length) rest')) ∨
    (∃ fault, decodeFrom index (b :: rest) = .error fault ∧ BeginsBadly (b :: rest) ∧
      FaultAt index (b :: rest) fault) := by
  have hstep := step_decodeFrom index b rest
  generalize decodeFrom index (b :: rest) = result at hstep ⊢
  cases hstep with
  | bad h =>
    obtain ⟨hopens, hpart⟩ := isBadPart_of_ranges_eq_none h rest
    refine .inr ⟨_, rfl, beginsBadly_cons fun ranges h' => ?_, .invalid hopens hpart⟩
    cases h.symm.trans h'
  | cut h hends hpart =>
    refine .inr ⟨_, rfl, beginsBadly_cons fun ranges h' => ?_,
      .incomplete (opensCharacter_cons_iff.2 ⟨_, h, hpart, hends⟩)⟩
    cases h.symm.trans h'
    omega
  | wrong h hgood hpart hmore =>
    obtain ⟨hopens, hbad⟩ := isBadPart_of_agreement h hgood hpart hmore
    refine .inr ⟨_, rfl, beginsBadly_cons fun ranges h' => ?_, .invalid hopens hbad⟩
    cases h.symm.trans h'
    omega
  | @whole ranges n h hfull =>
    have hlength : (rest.take ranges.length).length = ranges.length := by
      have := (agreement_le ranges rest).2
      rw [List.length_take]
      omega
    obtain ⟨c, hc⟩ := exists_char_iff.2
      ⟨ranges, h, hlength, by rw [agreement_take, hfull, Nat.min_self]⟩
    refine .inl ⟨c, rest.drop ranges.length, n, ?_, ?_⟩
    · rw [hc, List.cons_append, List.take_append_drop]
    · rw [hc, List.length_cons, hlength]

theorem push_eq_error_iff {n : Nat} {result : Except Fault (List Char)} :
    push n result = .error fault ↔ result = .error fault := by
  cases result <;> simp

/-- Decoding takes characters from the front, up to where the bytes begin badly. -/
theorem exists_of_decodeFrom_eq_error {index : Nat} (h : decodeFrom index bytes = .error fault) :
    ∃ (cs : List Char) (bad : List UInt8), bytes = cs.flatMap String.utf8EncodeChar ++ bad ∧
      bad ≠ [] ∧ BeginsBadly bad ∧
      FaultAt (index + (cs.flatMap String.utf8EncodeChar).length) bad fault := by
  induction hlength : bytes.length using Nat.strongRecOn generalizing index bytes with
  | ind length ih =>
    cases bytes with
    | nil => cases h
    | cons b rest =>
      rcases decodeFrom_cons_cases index b rest with ⟨c, rest', n, hbytes, hpush⟩ | ⟨fault', hbad, hfault⟩
      · rw [hpush, push_eq_error_iff] at h
        have hpos := List.length_pos_iff.2 (String.utf8EncodeChar_ne_nil (c := c))
        have hless : rest'.length < length := by
          rw [← hlength, hbytes, List.length_append]
          omega
        obtain ⟨cs, bad, rfl, hne, hbegins, hfault⟩ := ih _ hless h rfl
        refine ⟨c :: cs, bad, ?_, hne, hbegins, ?_⟩
        · rw [hbytes, List.flatMap_cons, List.append_assoc]
        · rwa [List.flatMap_cons, List.length_append, ← Nat.add_assoc]
      · obtain rfl := Except.error.inj (h.symm.trans hbad)
        exact ⟨[], b :: rest, rfl, List.cons_ne_nil _ _, hfault.1, hfault.2⟩

/-- Characters are read in one way only: none can go beyond a place where the bytes begin badly. -/
theorem length_le_of_beginsBadly {cs ds : List Char} {bad : List UInt8} (hbad : BeginsBadly bad)
    (h : cs.flatMap String.utf8EncodeChar ++ bad = ds.flatMap String.utf8EncodeChar ++ rest) :
    (ds.flatMap String.utf8EncodeChar).length ≤ (cs.flatMap String.utf8EncodeChar).length := by
  induction ds generalizing cs with
  | nil => exact Nat.zero_le _
  | cons d ds ih =>
    cases cs with
    | nil =>
      rw [List.flatMap_nil, List.nil_append, List.flatMap_cons, List.append_assoc] at h
      exact absurd h (hbad d _)
    | cons c cs =>
      rw [List.flatMap_cons, List.flatMap_cons, List.append_assoc, List.append_assoc] at h
      obtain ⟨hsame, hrest⟩ := encodeChar_append_inj h
      rw [List.flatMap_cons, List.flatMap_cons, List.length_append, List.length_append, hsame]
      exact Nat.add_le_add_left (ih hrest) _

theorem isLongestText_append {cs : List Char} {bad : List UInt8} (hbad : BeginsBadly bad) :
    IsLongestText (cs.flatMap String.utf8EncodeChar ++ bad) (cs.flatMap String.utf8EncodeChar).length where
  inside := by rw [List.length_append]; exact Nat.le_add_right _ _
  text := ⟨cs, by rw [List.take_left]⟩
  longest length hle := by
    rintro ⟨ds, hds⟩
    have hlength := congrArg List.length hds
    rw [List.length_take, Nat.min_eq_left hle] at hlength
    have hparts := (List.take_append_drop length (cs.flatMap String.utf8EncodeChar ++ bad)).symm
    rw [← hds] at hparts
    rw [← hlength]
    exact length_le_of_beginsBadly hbad hparts

theorem describes_of_decode_eq_error (h : decode bytes = .error fault) : fault.Describes bytes := by
  obtain ⟨cs, bad, rfl, hne, hbad, hfault⟩ := exists_of_decodeFrom_eq_error h
  rw [Nat.zero_add] at hfault
  have hlongest : IsLongestText _ (cs.flatMap String.utf8EncodeChar).length := isLongestText_append hbad
  cases hfault with
  | incomplete hopens =>
    refine ⟨hlongest, ?_, by rwa [List.drop_left]⟩
    have := List.length_pos_iff.2 hne
    rw [List.length_append]
    omega
  | invalid hopens hpart => exact ⟨hlongest, by rwa [List.drop_left], by rwa [List.drop_left]⟩

/-! ## One description -/

theorem IsLongestText.unique {length length' : Nat} (h : IsLongestText bytes length)
    (h' : IsLongestText bytes length') : length = length' :=
  Nat.le_antisymm (h'.longest _ h.inside h.text) (h.longest _ h'.inside h'.text)

theorem IsBadPart.le_of {length length' : Nat} (h : IsBadPart bytes length)
    (h' : IsBadPart bytes length') : length ≤ length' := by
  rcases h.opens with hone | hopens
  · rw [hone]
    exact h'.pos
  · exact h'.longest _ h.inside hopens

theorem Fault.Describes.unique (h : fault.Describes bytes) (h' : fault'.Describes bytes) :
    fault = fault' := by
  cases fault with
  | incomplete index =>
    obtain ⟨hlongest, -, hopens⟩ := h
    cases fault' with
    | incomplete index' => rw [hlongest.unique h'.1]
    | invalid index' length' =>
      obtain rfl := hlongest.unique h'.1
      exact absurd hopens h'.2.1
  | invalid index length =>
    obtain ⟨hlongest, hopens, hpart⟩ := h
    cases fault' with
    | incomplete index' =>
      obtain rfl := hlongest.unique h'.1
      exact absurd h'.2.2 hopens
    | invalid index' length' =>
      obtain rfl := hlongest.unique h'.1
      rw [Nat.le_antisymm (hpart.le_of h'.2.2) (h'.2.2.le_of hpart)]

/-- What a fault describes is not text as a whole. -/
theorem Fault.Describes.not_isText (h : fault.Describes bytes) : ¬ IsText bytes := by
  have hshort {index : Nat} (hlongest : IsLongestText bytes index) (hlt : index < bytes.length) :
      ¬ IsText bytes := fun htext =>
    Nat.not_le.2 hlt (hlongest.longest bytes.length (Nat.le_refl _) (by rwa [List.take_length]))
  cases fault with
  | incomplete index => exact hshort h.1 h.2.1
  | invalid index length =>
    obtain ⟨hlongest, -, hpart⟩ := h
    have hin := hpart.inside
    have hpos := hpart.pos
    rw [List.length_drop] at hin
    exact hshort hlongest (by omega)

/-- **A fault is reported exactly if it describes the bytes.** -/
theorem decode_eq_error_iff : decode bytes = .error fault ↔ fault.Describes bytes := by
  refine ⟨describes_of_decode_eq_error, fun h => ?_⟩
  cases hdecode : decode bytes with
  | ok cs => exact absurd ⟨cs, decode_eq_ok_iff.1 hdecode⟩ h.not_isText
  | error fault' => rw [(describes_of_decode_eq_error hdecode).unique h]

/-- Bytes behind the longest text are a fault, and it depends on them which one. -/
theorem decode_of_isLongestText {index : Nat} (h : IsLongestText bytes index) (hlt : index < bytes.length) :
    (OpensCharacter (bytes.drop index) ∧ decode bytes = .error (.incomplete index)) ∨
    (¬ OpensCharacter (bytes.drop index) ∧ ∃ length, IsBadPart (bytes.drop index) length ∧
      decode bytes = .error (.invalid index length)) := by
  cases hdecode : decode bytes with
  | ok cs =>
    have htext : IsText (bytes.take bytes.length) := by
      rw [List.take_length]
      exact ⟨cs, decode_eq_ok_iff.1 hdecode⟩
    exact absurd (h.longest _ (Nat.le_refl _) htext) (Nat.not_le.2 hlt)
  | error fault =>
    have hfault := decode_eq_error_iff.1 hdecode
    cases fault with
    | incomplete index' =>
      obtain ⟨hlongest, -, hopens⟩ := hfault
      obtain rfl := h.unique hlongest
      exact .inl ⟨hopens, rfl⟩
    | invalid index' length =>
      obtain ⟨hlongest, hopens, hpart⟩ := hfault
      obtain rfl := h.unique hlongest
      exact .inr ⟨hopens, length, hpart, rfl⟩

end

end Unstrip.Utf8

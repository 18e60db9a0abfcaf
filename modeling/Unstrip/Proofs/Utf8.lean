import Unstrip.Text.Utf8

/-!
# Decoding inverts encoding

`decode` is written by byte ranges, and encoding by the arithmetic of code points. They are inverse
to each other: bytes decode to the characters that encode to them, and to no others
(`decode_eq_ok_iff`). So the bytes of a string are the ones that decode to it
(`decode_eq_ok_toList_iff`).
-/

namespace Unstrip.Utf8

/-! ## First bytes -/

/-- The byte ranges of `lead`, as numbers. -/
inductive LeadRange (b : UInt8) : Lead → Prop
  | ascii : b.toNat < 128 → LeadRange b .ascii
  | two : 194 ≤ b.toNat → b.toNat < 224 → LeadRange b .two
  | three {low high : UInt8} : 224 ≤ b.toNat → b.toNat < 240 →
    low.toNat = (if b.toNat = 224 then 160 else 128) →
    high.toNat = (if b.toNat = 237 then 159 else 191) → LeadRange b (.three low high)
  | four {low high : UInt8} : 240 ≤ b.toNat → b.toNat < 245 →
    low.toNat = (if b.toNat = 240 then 144 else 128) →
    high.toNat = (if b.toNat = 244 then 143 else 191) → LeadRange b (.four low high)
  | bad : 128 ≤ b.toNat → b.toNat < 194 ∨ 245 ≤ b.toNat → LeadRange b .bad

theorem leadRange_lead (b : UInt8) : LeadRange b (lead b) := by
  unfold lead
  simp only [UInt8.lt_iff_toNat_lt, ← UInt8.toNat_inj, UInt8.reduceToNat]
  split
  · exact .ascii ‹_›
  split
  · exact .bad (by omega) (by omega)
  split
  · exact .two (by omega) (by omega)
  split
  · exact .three (by omega) (by omega) (by simp [*]) (by simp [*])
  split
  · exact .three (by omega) (by omega) (by simp [*]) (by simp [*])
  split
  · exact .three (by omega) (by omega) (by simp [*]) (by simp [*])
  split
  · exact .four (by omega) (by omega) (by simp [*]) (by simp [*])
  split
  · exact .four (by omega) (by omega) (by rw [if_neg (by omega)]; rfl) (by rw [if_neg (by omega)]; rfl)
  split
  · exact .four (by omega) (by omega) (by simp [*]) (by simp [*])
  · exact .bad (by omega) (by omega)

theorem leadRange_of_lead {b : UInt8} {kind : Lead} (h : lead b = kind) : LeadRange b kind :=
  h ▸ leadRange_lead b

theorem isContinuation_iff {b : UInt8} : isContinuation b = true ↔ 128 ≤ b.toNat ∧ b.toNat < 192 := by
  simp only [isContinuation, UInt8.le_iff_toNat_le, UInt8.reduceToNat, decide_eq_true_eq]
  omega

/-! ## Characters by their numbers -/

theorem toNat_bounds (c : Char) : c.toNat < 55296 ∨ 57343 < c.toNat ∧ c.toNat < 1114112 := c.valid

theorem toNat_ofNat {n : Nat} (h : n < 55296 ∨ 57343 < n ∧ n < 1114112) : (Char.ofNat n).toNat = n := by
  rw [Char.ofNat, dif_pos (show n.isValidChar from h)]
  rfl

theorem push_eq_ok_iff {n : Nat} {result : Except Fault (List Char)} {cs : List Char} :
    push n result = .ok cs ↔ ∃ rest, result = .ok rest ∧ cs = Char.ofNat n :: rest := by
  cases result with
  | error fault => simp
  | ok rest => simp [eq_comm]

/-! ## Decoding what was encoded -/

section
variable {b₀ b₁ b₂ b₃ : UInt8} (index : Nat) (rest : List UInt8)

theorem decodeFrom_one (h : b₀.toNat < 128) :
    decodeFrom index (b₀ :: rest) = push b₀.toNat (decodeFrom (index + 1) rest) := by
  have hlead := leadRange_lead b₀
  rw [decodeFrom.eq_def]
  dsimp only
  generalize lead b₀ = kind at hlead ⊢
  cases hlead with
  | ascii => rfl
  | _ => omega

theorem decodeFrom_two (h : 194 ≤ b₀.toNat ∧ b₀.toNat < 224) (h₁ : 128 ≤ b₁.toNat ∧ b₁.toNat < 192) :
    decodeFrom index (b₀ :: b₁ :: rest) =
      push (b₀.toNat % 32 * 64 + payload b₁) (decodeFrom (index + 2) rest) := by
  have hlead := leadRange_lead b₀
  rw [decodeFrom.eq_def]
  dsimp only
  generalize lead b₀ = kind at hlead ⊢
  cases hlead with
  | two => simp only [if_pos (isContinuation_iff.2 h₁)]
  | _ => omega

theorem decodeFrom_three (h : 224 ≤ b₀.toNat ∧ b₀.toNat < 240)
    (h₁ : (if b₀.toNat = 224 then 160 else 128) ≤ b₁.toNat ∧
      b₁.toNat ≤ if b₀.toNat = 237 then 159 else 191)
    (h₂ : 128 ≤ b₂.toNat ∧ b₂.toNat < 192) :
    decodeFrom index (b₀ :: b₁ :: b₂ :: rest) =
      push ((b₀.toNat % 16 * 64 + payload b₁) * 64 + payload b₂) (decodeFrom (index + 3) rest) := by
  have hlead := leadRange_lead b₀
  rw [decodeFrom.eq_def]
  dsimp only
  generalize lead b₀ = kind at hlead ⊢
  cases hlead with
  | three _ _ hlow hhigh =>
    have hin : _ ∧ _ := ⟨UInt8.le_iff_toNat_le.2 (hlow ▸ h₁.1), UInt8.le_iff_toNat_le.2 (hhigh ▸ h₁.2)⟩
    simp only [if_pos hin, if_pos (isContinuation_iff.2 h₂)]
  | _ => omega

theorem decodeFrom_four (h : 240 ≤ b₀.toNat ∧ b₀.toNat < 245)
    (h₁ : (if b₀.toNat = 240 then 144 else 128) ≤ b₁.toNat ∧
      b₁.toNat ≤ if b₀.toNat = 244 then 143 else 191)
    (h₂ : 128 ≤ b₂.toNat ∧ b₂.toNat < 192) (h₃ : 128 ≤ b₃.toNat ∧ b₃.toNat < 192) :
    decodeFrom index (b₀ :: b₁ :: b₂ :: b₃ :: rest) =
      push (((b₀.toNat % 8 * 64 + payload b₁) * 64 + payload b₂) * 64 + payload b₃)
        (decodeFrom (index + 4) rest) := by
  have hlead := leadRange_lead b₀
  rw [decodeFrom.eq_def]
  dsimp only
  generalize lead b₀ = kind at hlead ⊢
  cases hlead with
  | four _ _ hlow hhigh =>
    have hin : _ ∧ _ := ⟨UInt8.le_iff_toNat_le.2 (hlow ▸ h₁.1), UInt8.le_iff_toNat_le.2 (hhigh ▸ h₁.2)⟩
    simp only [if_pos hin, if_pos (isContinuation_iff.2 h₂), if_pos (isContinuation_iff.2 h₃)]
  | _ => omega

end

/-- **One character**: its bytes are decoded to it, whatever follows. -/
theorem decodeFrom_encodeChar (index : Nat) (c : Char) (rest : List UInt8) :
    ∃ next, decodeFrom index (String.utf8EncodeChar c ++ rest) = push c.toNat (decodeFrom next rest) := by
  have hc := toNat_bounds c
  have hval : c.val.toNat = c.toNat := rfl
  simp only [String.utf8EncodeChar, hval]
  generalize c.toNat = n at hc ⊢
  have hbyte : ∀ m, m < 256 → (UInt8.ofNat m).toNat = m := fun m hm => UInt8.toNat_ofNat_of_lt' hm
  split
  · refine ⟨index + 1, ?_⟩
    have h0 := hbyte n (by omega)
    simp only [List.cons_append, List.nil_append]
    rw [decodeFrom_one _ _ (by omega), h0]
  split
  · refine ⟨index + 2, ?_⟩
    have h0 := hbyte (n / 64 % 32 + 192) (by omega)
    have h1 := hbyte (n % 64 + 128) (by omega)
    simp only [List.cons_append, List.nil_append]
    rw [decodeFrom_two _ _ (by omega) (by omega), payload, h0, h1]
    congr 1
    omega
  split
  · refine ⟨index + 3, ?_⟩
    have h0 := hbyte (n / 4096 % 16 + 224) (by omega)
    have h1 := hbyte (n / 64 % 64 + 128) (by omega)
    have h2 := hbyte (n % 64 + 128) (by omega)
    simp only [List.cons_append, List.nil_append]
    rw [decodeFrom_three _ _ (by omega) (by rw [h0, h1]; split <;> split <;> omega) (by omega), payload,
      payload, h0, h1, h2]
    congr 1
    omega
  · refine ⟨index + 4, ?_⟩
    have h0 := hbyte (n / 262144 % 8 + 240) (by omega)
    have h1 := hbyte (n / 4096 % 64 + 128) (by omega)
    have h2 := hbyte (n / 64 % 64 + 128) (by omega)
    have h3 := hbyte (n % 64 + 128) (by omega)
    simp only [List.cons_append, List.nil_append]
    rw [decodeFrom_four _ _ (by omega) (by rw [h0, h1]; split <;> split <;> omega) (by omega) (by omega),
      payload, payload, payload, h0, h1, h2, h3]
    congr 1
    omega

theorem decodeFrom_flatMap (index : Nat) (cs : List Char) :
    decodeFrom index (cs.flatMap String.utf8EncodeChar) = .ok cs := by
  induction cs generalizing index with
  | nil => rfl
  | cons c cs ih =>
    obtain ⟨next, hstep⟩ := decodeFrom_encodeChar index c (cs.flatMap String.utf8EncodeChar)
    rw [List.flatMap_cons, hstep, ih next, push_ok, Char.ofNat_toNat]

/-! ## Encoding what was decoded -/

section
variable {b₀ b₁ b₂ b₃ : UInt8}

theorem encodeChar_one (h : b₀.toNat < 128) :
    String.utf8EncodeChar (Char.ofNat b₀.toNat) = [b₀] := by
  have hval : (Char.ofNat b₀.toNat).val.toNat = b₀.toNat := toNat_ofNat (by omega)
  simp only [String.utf8EncodeChar, hval]
  rw [if_pos (by omega), UInt8.ofNat_toNat]

theorem encodeChar_two (h : 194 ≤ b₀.toNat ∧ b₀.toNat < 224) (h₁ : 128 ≤ b₁.toNat ∧ b₁.toNat < 192) :
    String.utf8EncodeChar (Char.ofNat (b₀.toNat % 32 * 64 + payload b₁)) = [b₀, b₁] := by
  rw [payload]
  generalize hn : b₀.toNat % 32 * 64 + b₁.toNat % 64 = n
  have hval : (Char.ofNat n).val.toNat = n := toNat_ofNat (by omega)
  simp only [String.utf8EncodeChar, hval]
  rw [if_neg (by omega), if_pos (by omega)]
  simp only [List.cons.injEq, ← UInt8.toNat_inj, UInt8.toNat_ofNat', and_true]
  omega

theorem encodeChar_three (h : 224 ≤ b₀.toNat ∧ b₀.toNat < 240)
    (h₁ : (if b₀.toNat = 224 then 160 else 128) ≤ b₁.toNat ∧
      b₁.toNat ≤ if b₀.toNat = 237 then 159 else 191)
    (h₂ : 128 ≤ b₂.toNat ∧ b₂.toNat < 192) :
    String.utf8EncodeChar (Char.ofNat ((b₀.toNat % 16 * 64 + payload b₁) * 64 + payload b₂)) =
      [b₀, b₁, b₂] := by
  rw [payload, payload]
  generalize hn : (b₀.toNat % 16 * 64 + b₁.toNat % 64) * 64 + b₂.toNat % 64 = n
  have hrange : 2048 ≤ n ∧ n < 65536 ∧ (n < 55296 ∨ 57343 < n) := by
    split at h₁ <;> split at h₁ <;> omega
  have hval : (Char.ofNat n).val.toNat = n := toNat_ofNat (by omega)
  simp only [String.utf8EncodeChar, hval]
  rw [if_neg (by omega), if_neg (by omega), if_pos (by omega)]
  have hb₁ : 128 ≤ b₁.toNat ∧ b₁.toNat < 192 := by split at h₁ <;> split at h₁ <;> omega
  simp only [List.cons.injEq, ← UInt8.toNat_inj, UInt8.toNat_ofNat', and_true]
  omega

theorem encodeChar_four (h : 240 ≤ b₀.toNat ∧ b₀.toNat < 245)
    (h₁ : (if b₀.toNat = 240 then 144 else 128) ≤ b₁.toNat ∧
      b₁.toNat ≤ if b₀.toNat = 244 then 143 else 191)
    (h₂ : 128 ≤ b₂.toNat ∧ b₂.toNat < 192) (h₃ : 128 ≤ b₃.toNat ∧ b₃.toNat < 192) :
    String.utf8EncodeChar
        (Char.ofNat (((b₀.toNat % 8 * 64 + payload b₁) * 64 + payload b₂) * 64 + payload b₃)) =
      [b₀, b₁, b₂, b₃] := by
  rw [payload, payload, payload]
  generalize hn : ((b₀.toNat % 8 * 64 + b₁.toNat % 64) * 64 + b₂.toNat % 64) * 64 + b₃.toNat % 64 = n
  have hrange : 65536 ≤ n ∧ n < 1114112 := by split at h₁ <;> split at h₁ <;> omega
  have hval : (Char.ofNat n).val.toNat = n := toNat_ofNat (by omega)
  simp only [String.utf8EncodeChar, hval]
  rw [if_neg (by omega), if_neg (by omega), if_neg (by omega)]
  have hb₁ : 128 ≤ b₁.toNat ∧ b₁.toNat < 192 := by split at h₁ <;> split at h₁ <;> omega
  simp only [List.cons.injEq, ← UInt8.toNat_inj, UInt8.toNat_ofNat', and_true]
  omega

end

theorem flatMap_of_decodeFrom {index : Nat} {bytes : List UInt8} {cs : List Char}
    (h : decodeFrom index bytes = .ok cs) : cs.flatMap String.utf8EncodeChar = bytes := by
  -- the four cases that go on; in every other one decoding has failed or has come to the end
  fun_induction decodeFrom index bytes generalizing cs with
  | case1 => cases h; rfl
  | case3 index b₀ rest hkind ih =>
    cases leadRange_of_lead hkind with
    | ascii h₀ =>
      obtain ⟨cs, hrest, rfl⟩ := push_eq_ok_iff.1 h
      rw [List.flatMap_cons, ih hrest, encodeChar_one h₀, List.singleton_append]
  | case5 index b₀ hkind b₁ rest h₁ ih =>
    cases leadRange_of_lead hkind with
    | two hlow hhigh =>
      obtain ⟨cs, hrest, rfl⟩ := push_eq_ok_iff.1 h
      rw [List.flatMap_cons, ih hrest, encodeChar_two ⟨hlow, hhigh⟩ (isContinuation_iff.1 h₁)]
      rfl
  | case9 index b₀ low high hkind b₁ h₁ b₂ rest h₂ ih =>
    cases leadRange_of_lead hkind with
    | three hge hlt hlow hhigh =>
      obtain ⟨cs, hrest, rfl⟩ := push_eq_ok_iff.1 h
      have hin := And.imp UInt8.le_iff_toNat_le.1 UInt8.le_iff_toNat_le.1 h₁
      rw [hlow, hhigh] at hin
      rw [List.flatMap_cons, ih hrest, encodeChar_three ⟨hge, hlt⟩ hin (isContinuation_iff.1 h₂)]
      rfl
  | case15 index b₀ low high hkind b₁ h₁ b₂ h₂ b₃ rest h₃ ih =>
    cases leadRange_of_lead hkind with
    | four hge hlt hlow hhigh =>
      obtain ⟨cs, hrest, rfl⟩ := push_eq_ok_iff.1 h
      have hin := And.imp UInt8.le_iff_toNat_le.1 UInt8.le_iff_toNat_le.1 h₁
      rw [hlow, hhigh] at hin
      rw [List.flatMap_cons, ih hrest,
        encodeChar_four ⟨hge, hlt⟩ hin (isContinuation_iff.1 h₂) (isContinuation_iff.1 h₃)]
      rfl
  | _ => cases h

/-- **The bytes of characters, and nothing else, decode to them.** -/
theorem decode_eq_ok_iff {bytes : List UInt8} {cs : List Char} :
    decode bytes = .ok cs ↔ cs.flatMap String.utf8EncodeChar = bytes := by
  refine ⟨flatMap_of_decodeFrom, ?_⟩
  rintro rfl
  exact decodeFrom_flatMap 0 cs

/-! ## Strings -/

/-- The bytes in front of `i` have been read, and the others follow. -/
theorem toList_loop (bytes : ByteArray) (i : Nat) (read : List UInt8) :
    ByteArray.toList.loop bytes i read = read.reverse ++ bytes.data.toList.drop i := by
  fun_induction ByteArray.toList.loop bytes i read with
  | case1 i read h ih =>
    have hlen : i < bytes.data.toList.length := by simpa using h
    have hget : bytes.get! i = bytes.data.toList[i] := by
      rw [Array.getElem_toList]
      exact getElem!_pos bytes.data i h
    rw [ih, hget, List.drop_eq_getElem_cons hlen, List.reverse_cons, List.append_assoc]
    rfl
  | case2 i read h =>
    rw [List.drop_eq_nil_of_le (by simpa using Nat.le_of_not_lt h), List.append_nil]

theorem toList_eq_data (bytes : ByteArray) : bytes.toList = bytes.data.toList := by
  rw [ByteArray.toList, toList_loop, List.reverse_nil, List.nil_append, List.drop_zero]

/-- The bytes of a string are those of its characters in turn. -/
theorem toList_toUTF8 (s : String) : s.toUTF8.toList = s.toList.flatMap String.utf8EncodeChar := by
  have hbytes : s.toUTF8 = (s.toList.flatMap String.utf8EncodeChar).toByteArray :=
    String.utf8Encode_toList.symm
  rw [hbytes, toList_eq_data, List.toList_data_toByteArray]

theorem length_toUTF8 (s : String) : s.toUTF8.toList.length = s.utf8ByteSize := by
  rw [toList_eq_data, Array.length_toList]
  rfl

/-- A string is what its bytes decode to. -/
theorem decode_eq_ok_toList_iff {bytes : List UInt8} {s : String} :
    decode bytes = .ok s.toList ↔ s.toUTF8.toList = bytes := by
  rw [decode_eq_ok_iff, toList_toUTF8]

/-- Only the character zero has a zero byte. -/
theorem zero_mem_utf8EncodeChar_iff {c : Char} : 0 ∈ String.utf8EncodeChar c ↔ c.toNat = 0 := by
  have hc := toNat_bounds c
  have hval : c.val.toNat = c.toNat := rfl
  simp only [String.utf8EncodeChar, hval]
  generalize c.toNat = n at hc ⊢
  have hzero : ∀ m, (0 : UInt8) = UInt8.ofNat m ↔ m % 256 = 0 := fun m => by
    rw [← UInt8.toNat_inj, UInt8.toNat_ofNat', eq_comm]
    rfl
  split
  · simp only [List.mem_singleton, hzero]; omega
  split
  · simp only [List.mem_cons, List.not_mem_nil, or_false, hzero]; omega
  split
  · simp only [List.mem_cons, List.not_mem_nil, or_false, hzero]; omega
  · simp only [List.mem_cons, List.not_mem_nil, or_false, hzero]; omega

end Unstrip.Utf8

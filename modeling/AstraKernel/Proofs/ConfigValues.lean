import AstraKernel.Proofs.ConfigLines

/-!
# Values of a document

What the encoder writes is one line, a text, and the parser and the decoder take it for the setting
it was written for (`lineParse_settingLine`, `decode_encode`).
-/

namespace Astra

open List

/-! ## The encoder -/

theorem encode_append (before behind : List UInt8) :
    encode (before ++ behind) = encode before ++ encode behind := by
  induction before with
  | nil => rfl
  | cons b before ih => simp only [cons_append, encode, ih, append_assoc]

theorem encode_plain {bytes : List UInt8} (h : ∀ b ∈ bytes, escaped b = false) :
    encode bytes = bytes := by
  induction bytes with
  | nil => rfl
  | cons b bytes ih =>
    simp [encode, h b mem_cons_self, ih fun c hc => h c (mem_cons_of_mem _ hc)]

theorem encodedCount_eq (value : List UInt8) : encodedCount value = (encode value).length := by
  induction value with
  | nil => rfl
  | cons b value ih =>
    rw [encodedCount, encode, length_append, ih]
    split_ifs <;> simp <;> omega

variable {key value : List UInt8} {b : UInt8}

theorem escaped_cases (h : escaped b = true) : escapable (escapeLetter b) = true ∧
    unescaped (escapeLetter b) = b ∧ b.toNat < 128 ∧ (escapeLetter b).toNat < 128 ∧
    lineCharacter (escapeLetter b) = true ∧ escapeLetter b ≠ 0 := by
  simp only [escaped, Bool.decide_or, Bool.or_eq_true, decide_eq_true_eq] at h
  rcases h with (rfl | rfl | rfl | rfl | rfl) <;> decide

theorem lineCharacter_of_plain (h : escaped b = false) : lineCharacter b = true := by
  simp_all [escaped, lineCharacter]

theorem encode_line (value : List UInt8) : ∀ b ∈ encode value, lineCharacter b := by
  induction value with
  | nil => simp [encode]
  | cons b value ih =>
    intro c hc
    rw [encode] at hc
    rcases mem_append.1 hc with hc | hc
    · by_cases hb : escaped b
      · rw [if_pos hb] at hc
        rcases mem_pair.1 hc with rfl | rfl
        · decide
        · exact (escaped_cases hb).2.2.2.2.1
      · rw [if_neg hb] at hc
        obtain rfl := mem_singleton.1 hc
        exact lineCharacter_of_plain (by simpa using hb)
    · exact ih c hc

theorem encode_noNul (h : (0 : UInt8) ∉ value) : (0 : UInt8) ∉ encode value := by
  induction value with
  | nil => simp [encode]
  | cons b value ih =>
    rw [mem_cons, not_or] at h
    rw [encode, mem_append, not_or]
    refine ⟨?_, ih h.2⟩
    split
    · rename_i hb
      simpa using ⟨by decide, (escaped_cases hb).2.2.2.2.2.symm⟩
    · simpa using h.1

theorem Utf8.encode (h : Utf8 value) : Utf8 (Astra.encode value) := by
  generalize hn : value.length = n
  induction n using Nat.strong_induction_on generalizing value with
  | _ n ih =>
    have hplain : ∀ b ∈ value.takeWhile (!escaped ·), escaped b = false := fun b hb => by
      simpa using mem_takeWhile_imp hb
    have hsplit := takeWhile_append_dropWhile (p := fun b => !escaped b) (l := value)
    have hhead := List.head?_dropWhile_not (fun b => !escaped b) value
    cases hdrop : value.dropWhile (!escaped ·) with
    | nil =>
      rw [hdrop, append_nil] at hsplit
      rw [hsplit] at hplain
      rwa [encode_plain hplain]
    | cons b behind =>
      rw [hdrop] at hsplit hhead
      have hb : escaped b = true := by simpa using hhead
      obtain ⟨-, -, hascii, hletter, -⟩ := escaped_cases hb
      have hlen := congrArg List.length hsplit
      rw [← hsplit] at h
      obtain ⟨hbefore, hbehind⟩ := Utf8.split hascii h
      simp only [length_append, length_cons] at hlen
      rw [← hsplit, encode_append, encode_plain hplain, Astra.encode, if_pos hb]
      exact hbefore.join (by decide)
        (Utf8.join hletter utf8_nil (ih behind.length (by omega) hbehind rfl))

theorem decode_cons {quoted : Bool} (h : b ≠ configBackslash) (rest : List UInt8) :
    decode quoted (b :: rest) = b :: decode quoted rest := by
  cases rest <;> simp [decode, h]

theorem decode_encode (value : List UInt8) : decode true (encode value) = value := by
  induction value with
  | nil => rfl
  | cons b value ih =>
    by_cases hb : escaped b
    · simp [encode, hb, decode, ih, (escaped_cases hb).2.1]
    · have hne : b ≠ configBackslash := by
        rintro rfl
        exact hb rfl
      simp [encode, hb, decode_cons hne, ih]

theorem decodedLength_eq (quoted : Bool) : ∀ value : List UInt8,
    decodedLength quoted value = (decode quoted value).length
  | [] => rfl
  | [b] => rfl
  | b :: e :: value => by
    simp only [decodedLength, decode, decodedLength_eq quoted value,
      decodedLength_eq quoted (e :: value)]
    split_ifs <;> rfl

/-! ## The parser -/

theorem quotedValue_cons (hq : b ≠ configQuote) (hs : b ≠ configBackslash)
    (rest : List UInt8) : quotedValue (b :: rest) =
      (quotedValue rest).map fun found => (b :: found.1, found.2) := by
  cases rest <;> simp [quotedValue, hq, hs]

theorem quotedValue_encode (value behind : List UInt8) :
    quotedValue (encode value ++ configQuote :: behind) = some (encode value, behind) := by
  induction value with
  | nil => cases behind <;> simp [encode, quotedValue]
  | cons b value ih =>
    by_cases hb : escaped b
    · have hletter := (escaped_cases hb).1
      simp [encode, hb, quotedValue, ih, hletter, configBackslash, configQuote]
    · have hq : b ≠ configQuote := by
        rintro rfl
        exact hb rfl
      have hs : b ≠ configBackslash := by
        rintro rfl
        exact hb rfl
      simp [encode, hb, quotedValue_cons hq hs, ih]

theorem keyCharacter_plain (h : keyCharacter b = true) :
    configSpace b = false ∧ b ≠ configHash ∧ lineCharacter b = true ∧ b.toNat < 128 ∧ b ≠ 0 := by
  have hall : ∀ n < 256, keyCharacter (UInt8.ofNat n) = true →
      configSpace (UInt8.ofNat n) = false ∧ UInt8.ofNat n ≠ configHash ∧
        lineCharacter (UInt8.ofNat n) = true ∧ (UInt8.ofNat n).toNat < 128 ∧ UInt8.ofNat n ≠ 0 := by
    decide +kernel
  have hb := hall b.toNat b.toNat_lt
  rw [UInt8.ofNat_toNat] at hb
  exact hb h

section

variable (value)

theorem lineParse_settingLine (hne : key ≠ []) (hkey : ∀ b ∈ key, keyCharacter b) :
    lineParse (settingLine key value).content = .ok (some ⟨key, encode value, true⟩) := by
  obtain ⟨b, key', rfl⟩ := exists_cons_of_ne_nil hne
  have hb := keyCharacter_plain (hkey b mem_cons_self)
  have hbody : (settingLine (b :: key') value).content.dropWhile configSpace =
      (b :: key') ++ 0x20 :: configEqual :: 0x20 :: configQuote :: (encode value ++ [configQuote]) := by
    simp [settingLine, hb.1]
  have htake : ∀ rest, ((b :: key') ++ 0x20 :: rest).takeWhile keyCharacter = b :: key' := by
    intro rest
    rw [takeWhile_append_of_pos hkey]
    simp [keyCharacter]
  have hdrop : ∀ rest, ((b :: key') ++ 0x20 :: rest).dropWhile keyCharacter = 0x20 :: rest := by
    intro rest
    rw [dropWhile_append_of_pos hkey]
    simp [keyCharacter]
  unfold lineParse
  rw [hbody]
  simp only [htake, hdrop]
  rw [if_neg (by simp [hb.2.1]), if_neg (by simp), if_neg (by simp [configSpace])]
  simp [configSpace, configTab, configEqual, configQuote, configHash, quotedValue_encode]

theorem settingLine_ends (hkey : ∀ b ∈ key, keyCharacter b) (behind : List UInt8) :
    Ends (settingLine key value) behind := by
  refine ⟨?_, .inl rfl⟩
  intro b hb
  simp only [settingLine, mem_append, mem_cons, not_mem_nil, or_false] at hb
  rcases hb with ((hb | rfl | rfl | rfl | rfl) | hb) | rfl
  · exact (keyCharacter_plain (hkey b hb)).2.2.1
  · decide
  · decide
  · decide
  · decide
  · exact encode_line value b hb
  · decide

theorem settingLine_head (hne : key ≠ []) (hkey : ∀ b ∈ key, keyCharacter b) :
    (settingLine key value).bytes.head? ≠ some configLf := by
  obtain ⟨b, key', rfl⟩ := exists_cons_of_ne_nil hne
  have hb := (keyCharacter_plain (hkey b mem_cons_self)).2.2.1
  rintro he
  obtain rfl : b = configLf := by simpa [settingLine, CutLine.bytes] using he
  cases hb

end

theorem length_settingLine (key value : List UInt8) :
    (settingLine key value).bytes.length = key.length + encodedCount value + 6 := by
  simp [settingLine, CutLine.bytes, encodedCount_eq]
  omega

end Astra

import AstraKernel.Vfs.Path
import AstraKernel.Proofs.Utf8

/-!
# The path payload codec

An operand is accepted exactly when it is the memory of a `PathText` (`pathOperandStatus_iff`), and
a payload exactly when the encoder makes it: the operands, each with its NUL, and the fields that
say so (`astraVfsPathUnpack_iff`). The round trips follow.
-/

namespace Astra

open List

/-- What a path operand may be: UTF-8 without NUL, no stretch between slashes as long as
`ASTRA_VFS_NAME_MAX`, and with its terminator no longer than `ASTRA_VFS_PATH_MAX`. -/
structure PathText (text : List UInt8) : Prop where
  noNul : 0 ∉ text
  utf8 : ∃ l : List Char, text = l.flatMap String.utf8EncodeChar
  names : ∀ name, name <:+: text → 0x2f ∉ name → name.length < astraVfsNameMax
  length : text.length + 1 ≤ astraVfsPathMax

theorem pathComponents_iff : ∀ (text : List UInt8) (component : ℕ), component < astraVfsNameMax →
    (pathComponents component text = .ok ↔ 0 ∉ text ∧
      (∀ name, name <+: text → 0x2f ∉ name → component + name.length < astraVfsNameMax) ∧
      ∀ name, name <:+: text → 0x2f ∉ name → name.length < astraVfsNameMax)
  | [], component, hc => by
    simp only [pathComponents, not_mem_nil, not_false_eq_true, prefix_nil,
      infix_nil, true_and, true_iff]
    refine ⟨?_, ?_⟩
    · rintro name rfl -
      simpa using hc
    · rintro name rfl -
      simp
  | c :: rest, component, hc => by
    by_cases h0 : c = 0
    · simp [pathComponents, h0]
    by_cases hs : c = 0x2f
    · have ih := pathComponents_iff rest 0 (by simp)
      simp only [pathComponents, if_neg h0, if_pos hs, ih]
      constructor
      · rintro ⟨hn, hp, hi⟩
        refine ⟨by simp [Ne.symm h0, hn], ?_, ?_⟩
        · intro name hpre hslash
          rcases prefix_cons_iff.1 hpre with rfl | ⟨t, rfl, -⟩
          · simpa using hc
          · exact absurd (mem_cons.2 (.inl hs.symm)) hslash
        · intro name hinf hslash
          rcases infix_cons_iff.1 hinf with hpre | hinf
          · rcases prefix_cons_iff.1 hpre with rfl | ⟨t, rfl, -⟩
            · simp
            · exact absurd (mem_cons.2 (.inl hs.symm)) hslash
          · exact hi name hinf hslash
      · rintro ⟨hn, -, hi⟩
        have hi' : ∀ name, name <:+: rest → 0x2f ∉ name → name.length < astraVfsNameMax :=
          fun name hinf => hi name (infix_cons hinf)
        refine ⟨fun hm => hn (mem_cons_of_mem _ hm), fun name hpre hslash => ?_, hi'⟩
        have := hi' name hpre.isInfix hslash
        omega
    · by_cases hlong : component + 1 ≥ astraVfsNameMax
      · simp only [pathComponents, if_neg h0, if_neg hs, if_pos hlong]
        refine ⟨fun h => absurd h (by simp), ?_⟩
        rintro ⟨-, hp, -⟩
        have := hp [c] (by simp) (by simpa using Ne.symm hs)
        simp only [length_singleton] at this
        omega
      · have ih := pathComponents_iff rest (component + 1) (by omega)
        simp only [pathComponents, if_neg h0, if_neg hs, if_neg hlong, ih]
        constructor
        · rintro ⟨hn, hp, hi⟩
          have hp' : ∀ name, name <+: c :: rest → 0x2f ∉ name →
              component + name.length < astraVfsNameMax := by
            intro name hpre hslash
            rcases prefix_cons_iff.1 hpre with rfl | ⟨t, rfl, ht⟩
            · simpa using hc
            · have := hp t ht fun hm => hslash (mem_cons_of_mem _ hm)
              simp only [length_cons]
              omega
          refine ⟨by simp [Ne.symm h0, hn], hp', ?_⟩
          intro name hinf hslash
          rcases infix_cons_iff.1 hinf with hpre | hinf
          · have := hp' name hpre hslash
            omega
          · exact hi name hinf hslash
        · rintro ⟨hn, hp, hi⟩
          refine ⟨fun hm => hn (mem_cons_of_mem _ hm), fun name hpre hslash => ?_,
            fun name hinf => hi name (infix_cons hinf)⟩
          have := hp (c :: name) (prefix_cons_iff.2 (.inr ⟨name, rfl, hpre⟩))
            (by simp [Ne.symm hs, hslash])
          simp only [length_cons] at this
          omega

variable {fields : AstraVfsPathFields} {text : List UInt8} {bytes transfer : Option (List UInt8)}
  {first second : Option CString}

theorem utf8_noNul (h : 0 ∉ text) : astraUtf8Validate text = true ↔
    ∃ l : List Char, text = l.flatMap String.utf8EncodeChar := by
  rw [astraUtf8Validate_iff]
  constructor
  · rintro ⟨l, -, hl⟩
    exact ⟨l, hl⟩
  rintro ⟨l, rfl⟩
  refine ⟨l, fun c hc h0 => h (mem_flatMap.2 ⟨c, hc, ?_⟩), rfl⟩
  have hv : c.val.toNat = 0 := by rw [h0]; rfl
  simp [String.utf8EncodeChar, hv]

theorem pathOperandStatus_iff (operand : List UInt8) : pathOperandStatus operand = .ok ↔
    ∃ text, operand = text ++ [0] ∧ PathText text := by
  unfold pathOperandStatus
  by_cases hz : operand.getLast? = some 0
  · obtain ⟨text, rfl⟩ := List.getLast?_eq_some_iff.1 hz
    rw [if_neg (not_not.2 hz), dropLast_concat, length_append, length_singleton]
    have hc := pathComponents_iff text 0 (by simp)
    constructor
    · intro h
      split_ifs at h with hl hu
      obtain ⟨hn, -, hi⟩ := hc.1 h
      exact ⟨text, rfl, hn, (utf8_noNul hn).1 (by simpa using hu), hi, by omega⟩
    · rintro ⟨text', ht, h⟩
      obtain rfl := (append_left_inj _).1 ht
      have hu := (utf8_noNul h.noNul).2 h.utf8
      rw [if_neg (by have := h.length; omega), if_neg (by simp [hu])]
      refine hc.2 ⟨h.noNul, fun name hp hs => ?_, h.names⟩
      have := h.names name hp.isInfix hs
      omega
  · rw [if_pos hz]
    refine ⟨fun h => absurd h (by simp), ?_⟩
    rintro ⟨text, rfl, -⟩
    simp at hz

theorem findNul_memory : ∀ (fuel : ℕ) (text : List UInt8), 0 ∉ text →
    findNul fuel (text ++ [0]) = if text.length < fuel then some text.length else none
  | 0, text, _ => by simp [findNul]
  | fuel + 1, [], _ => by simp [findNul]
  | fuel + 1, c :: rest, h => by
    have hc : c ≠ 0 := fun hc => h (by simp [hc])
    have ih := findNul_memory fuel rest fun hm => h (mem_cons_of_mem _ hm)
    simp only [cons_append, findNul, if_neg hc, ih, length_cons]
    split
    · rw [if_pos (by omega)]
      rfl
    · rw [if_neg (by omega)]
      rfl

theorem pathOperandLength_iff (text : CString) :
    (pathOperandLength (some text)).1 = .ok ↔ PathText text.bytes := by
  unfold pathOperandLength
  simp only [CString.memory, findNul_memory _ _ text.noNul]
  by_cases hl : text.bytes.length < astraVfsPathMax
  · rw [if_pos hl]
    simp only
    rw [take_of_length_le (by simp), pathOperandStatus_iff]
    refine ⟨?_, fun h => ⟨text.bytes, rfl, h⟩⟩
    rintro ⟨t, ht, h⟩
    rwa [(append_left_inj _).1 ht]
  · rw [if_neg hl]
    refine ⟨fun h => absurd h (by simp), fun h => ?_⟩
    have := h.length
    omega

theorem pathOperandLength_spec {text : CString} (h : PathText text.bytes) :
    pathOperandLength (some text) = (.ok, text.bytes.length + 1) := by
  have h1 := (pathOperandLength_iff text).2 h
  have hl : text.bytes.length < astraVfsPathMax := h.length
  unfold pathOperandLength at h1 ⊢
  simp only [CString.memory, findNul_memory _ _ text.noNul, if_pos hl] at h1 ⊢
  rw [h1]

/-! ## The payload -/

/-- The operands one behind the other, each with its terminator. -/
def payload (texts : List (List UInt8)) : List UInt8 := texts.flatMap (· ++ [0])

/-- The fields that describe the payload. -/
def payloadFields : List (List UInt8) → AstraVfsPathFields
  | [first] => ⟨0, first.length + 1, 0, 0⟩
  | [first, second] => ⟨0, first.length + 1, first.length + 1, second.length + 1⟩
  | _ => ⟨0, 0, 0, 0⟩

theorem failed_ne_ok {status : AstraVfsStatus} (h : status ≠ .ok) :
    (if status = .invalid then AstraVfsStatus.protocol else status) ≠ .ok := by
  split_ifs
  · simp
  · exact h

section

variable (fields)

theorem unpack_zero (bytes : Option (List UInt8)) :
    (astraVfsPathUnpack fields bytes (bytes.getD []).length 0).1 = .ok ↔
      payload [] = bytes.getD [] ∧ fields = payloadFields [] := by
  simp only [astraVfsPathUnpack, show ¬(0 > 2) by decide, if_false, if_true]
  by_cases h : (bytes.getD []).length = 0 ∧ fields = ⟨0, 0, 0, 0⟩
  · rw [if_pos h]
    simp only [true_iff]
    exact ⟨(length_eq_zero_iff.1 h.1).symm, h.2⟩
  · rw [if_neg h]
    refine ⟨fun hf => absurd hf (by simp), ?_⟩
    rintro ⟨hb, hf⟩
    exact absurd ⟨by rw [← hb]; rfl, hf⟩ h

variable (area : List UInt8)

theorem unpack_one : (astraVfsPathUnpack fields (some area) area.length 1).1 = .ok ↔
      ∃ text, PathText text ∧ payload [text] = area ∧ fields = payloadFields [text] := by
  obtain ⟨o1, l1, o2, l2⟩ := fields
  simp only [astraVfsPathUnpack, show ¬(1 > 2) by decide, show ¬(1 = 0) by decide,
    show ¬(1 = 2) by decide, if_false, false_and, false_or, true_and]
  constructor
  · intro h
    split at h
    · exact absurd h (by simp)
    rename_i hg
    by_cases hs : pathOperandStatus (area.take l1) ≠ .ok
    · rw [if_pos hs] at h
      exact absurd h (failed_ne_ok hs)
    push Not at hg hs
    obtain rfl : l1 = area.length := by omega
    rw [take_length] at hs
    obtain ⟨text, rfl, ht⟩ := (pathOperandStatus_iff _).1 hs
    refine ⟨text, ht, by simp [payload], ?_⟩
    simp only [payloadFields, AstraVfsPathFields.mk.injEq, length_append,
      length_singleton, true_and]
    omega
  · rintro ⟨text, ht, rfl, hf⟩
    have hp : payload [text] = text ++ [0] := by simp [payload]
    obtain ⟨rfl, rfl, rfl, rfl⟩ := hf
    have hl : (payload [text]).length = text.length + 1 := by simp [hp]
    have hs : pathOperandStatus ((payload [text]).take (text.length + 1)) = .ok := by
      rw [← hl, take_length, pathOperandStatus_iff]
      exact ⟨text, hp, ht⟩
    rw [if_neg (by rw [hl]; omega), if_neg (not_not.2 hs)]

theorem unpack_two : (astraVfsPathUnpack fields (some area) area.length 2).1 = .ok ↔
      ∃ first second, PathText first ∧ PathText second ∧ payload [first, second] = area ∧
        fields = payloadFields [first, second] := by
  obtain ⟨o1, l1, o2, l2⟩ := fields
  simp only [astraVfsPathUnpack, show ¬(2 > 2) by decide, show ¬(2 = 0) by decide,
    show ¬(2 = 1) by decide, if_false, false_and, false_or, true_and, if_true]
  constructor
  · intro h
    split at h
    · exact absurd h (by simp)
    rename_i hg
    split at h
    · rename_i h4
      exact absurd h (failed_ne_ok h4)
    rename_i h4
    by_cases h6 : pathOperandStatus ((area.drop o2).take l2) ≠ .ok
    · rw [if_pos h6] at h
      exact absurd h (failed_ne_ok h6)
    push Not at hg h4 h6
    obtain ⟨rfl, hl0, hl1, ⟨ho, -⟩, hl2⟩ := hg
    subst o2 l2
    have hd : (area.drop l1).take (area.length - l1) = area.drop l1 :=
      take_of_length_le (by simp)
    rw [hd] at h6
    obtain ⟨first, hf, h1⟩ := (pathOperandStatus_iff _).1 h4
    obtain ⟨second, hs, h2⟩ := (pathOperandStatus_iff _).1 h6
    have ha : area = first ++ [0] ++ (second ++ [0]) := by
      rw [← hf, ← hs, take_append_drop]
    have hfl : l1 = first.length + 1 := by
      have := congrArg List.length hf
      simp only [length_take, length_append, length_singleton] at this
      omega
    refine ⟨first, second, h1, h2, by simp [payload, ha], ?_⟩
    simp only [payloadFields, AstraVfsPathFields.mk.injEq, true_and]
    refine ⟨hfl, hfl, ?_⟩
    rw [ha, hfl]
    simp only [length_append, length_singleton]
    omega
  · rintro ⟨first, second, h1, h2, rfl, hf⟩
    have hp : payload [first, second] = first ++ [0] ++ (second ++ [0]) := by simp [payload]
    obtain ⟨rfl, rfl, rfl, rfl⟩ := hf
    have hl : (payload [first, second]).length = first.length + 1 + (second.length + 1) := by
      simp only [hp, length_append, length_singleton]
    have ht : pathOperandStatus ((payload [first, second]).take (first.length + 1)) = .ok := by
      rw [hp, take_left' (by simp), pathOperandStatus_iff]
      exact ⟨first, rfl, h1⟩
    have hd : pathOperandStatus
        (((payload [first, second]).drop (first.length + 1)).take (second.length + 1)) = .ok := by
      rw [hp, drop_left' (by simp), take_of_length_le (by simp), pathOperandStatus_iff]
      exact ⟨second, rfl, h2⟩
    rw [if_neg (by rw [hl]; omega), if_neg (not_not.2 ht), if_neg (not_not.2 hd)]

theorem astraVfsPathUnpack_iff (bytes : Option (List UInt8))
    (operands : ℕ) : (astraVfsPathUnpack fields bytes (bytes.getD []).length operands).1 = .ok ↔
      operands ≤ 2 ∧ ∃ texts : List (List UInt8), texts.length = operands ∧
        (∀ text ∈ texts, PathText text) ∧ payload texts = bytes.getD [] ∧
        fields = payloadFields texts := by
  match operands with
  | 0 =>
    rw [unpack_zero]
    constructor
    · intro h
      exact ⟨by omega, [], rfl, by simp, h⟩
    · rintro ⟨-, texts, hl, -, h⟩
      rwa [length_eq_zero_iff.1 hl] at h
  | 1 =>
    rcases bytes with _ | area
    · refine ⟨fun h => absurd h (by simp [astraVfsPathUnpack]), ?_⟩
      rintro ⟨-, texts, hl, -, hp, -⟩
      obtain ⟨text, rfl⟩ := length_eq_one_iff.1 hl
      simp [payload] at hp
    rw [Option.getD_some, unpack_one]
    constructor
    · rintro ⟨text, ht, h⟩
      exact ⟨by omega, [text], rfl, by simpa using ht, h⟩
    · rintro ⟨-, texts, hl, ht, h⟩
      obtain ⟨text, rfl⟩ := length_eq_one_iff.1 hl
      exact ⟨text, ht text (by simp), h⟩
  | 2 =>
    rcases bytes with _ | area
    · refine ⟨fun h => absurd h (by simp [astraVfsPathUnpack]), ?_⟩
      rintro ⟨-, texts, hl, -, hp, -⟩
      obtain ⟨first, second, rfl⟩ := length_eq_two.1 hl
      simp [payload] at hp
    rw [Option.getD_some, unpack_two]
    constructor
    · rintro ⟨first, second, h1, h2, h⟩
      exact ⟨by omega, [first, second], rfl, by simpa using ⟨h1, h2⟩, h⟩
    · rintro ⟨-, texts, hl, ht, h⟩
      obtain ⟨first, second, rfl⟩ := length_eq_two.1 hl
      exact ⟨first, second, ht first (by simp), ht second (by simp), h⟩
  | n + 3 =>
    refine ⟨fun h => absurd h (by simp [astraVfsPathUnpack]), ?_⟩
    rintro ⟨h, -⟩
    omega

end

theorem astraVfsPathUnpack_operands
    {size operands : ℕ} (h : (astraVfsPathUnpack fields bytes size operands).1 = .ok) :
    (astraVfsPathUnpack fields bytes size operands).2
      = ⟨if operands = 0 then none else some 0,
          if operands = 2 then some fields.secondOffset else none⟩ := by
  unfold astraVfsPathUnpack at h ⊢
  by_cases h2 : operands > 2
  · rw [if_pos h2] at h
    exact absurd h (by simp)
  rw [if_neg h2] at h ⊢
  by_cases h0 : operands = 0
  · obtain rfl := h0
    by_cases hz : size = 0 ∧ fields = ⟨0, 0, 0, 0⟩
    · rw [if_pos rfl, if_pos hz]
      rfl
    · rw [if_pos rfl, if_neg hz]
      rfl
  rw [if_neg h0] at h ⊢
  rw [if_neg h0]
  rcases bytes with _ | area
  · exact absurd h (by simp)
  dsimp only at h ⊢
  by_cases hg : fields.firstOffset ≠ 0 ∨ fields.firstLength = 0 ∨ fields.firstLength > size ∨
      (operands = 1 ∧ (fields.secondOffset ≠ 0 ∨ fields.secondLength ≠ 0)) ∨
      (operands = 2 ∧ (fields.secondOffset ≠ fields.firstLength ∨ fields.secondLength = 0)) ∨
      fields.secondLength ≠ size - fields.firstLength
  · rw [if_pos hg] at h
    exact absurd h (by simp)
  rw [if_neg hg] at h ⊢
  by_cases h1 : pathOperandStatus (area.take fields.firstLength) ≠ .ok
  · rw [if_pos h1] at h
    exact absurd h (failed_ne_ok h1)
  rw [if_neg h1] at h ⊢
  by_cases hs : operands = 2 ∧
      pathOperandStatus ((area.drop fields.secondOffset).take fields.secondLength) ≠ .ok
  · rw [if_pos hs] at h
    exact absurd h (failed_ne_ok hs.2)
  · rw [if_neg hs]

theorem stringAt_append (h : 0 ∉ text) (before behind : List UInt8) :
    stringAt (before ++ (text ++ [0] ++ behind)) before.length = text := by
  unfold stringAt
  rw [drop_left, append_assoc, takeWhile_append_of_pos]
  · simp
  · intro b hb
    simp only [ne_eq, decide_not, Bool.not_eq_eq_eq_not, Bool.not_true, decide_eq_false_iff_not]
    exact fun h0 => h (h0 ▸ hb)

theorem unpacked_strings {texts : List (List UInt8)} (ht : ∀ text ∈ texts, PathText text)
    (hp : payload texts = bytes.getD []) (hf : fields = payloadFields texts)
    (h2 : texts.length ≤ 2) :
    let unpacked := astraVfsPathUnpack fields bytes (bytes.getD []).length texts.length
    unpacked.1 = .ok ∧ unpacked.2.first.map (stringAt (bytes.getD [])) = texts[0]? ∧
      unpacked.2.second.map (stringAt (bytes.getD [])) = texts[1]? := by
  intro unpacked
  have hok : unpacked.1 = .ok :=
    (astraVfsPathUnpack_iff fields bytes _).2 ⟨h2, texts, rfl, ht, hp, hf⟩
  refine ⟨hok, ?_⟩
  show (astraVfsPathUnpack fields bytes _ _).2.first.map _ = _ ∧
    (astraVfsPathUnpack fields bytes _ _).2.second.map _ = _
  rw [astraVfsPathUnpack_operands hok, ← hp, hf]
  rcases texts with _ | ⟨first, _ | ⟨second, _ | ⟨third, texts⟩⟩⟩
  · exact ⟨rfl, rfl⟩
  · have h1 := stringAt_append (ht first (by simp)).noNul [] []
    refine ⟨?_, rfl⟩
    show some (stringAt (payload [first]) 0) = some first
    simpa [payload] using h1
  · have h1 := stringAt_append (ht first (by simp)).noNul [] (second ++ [0])
    have h2 := stringAt_append (ht second (by simp)).noNul (first ++ [0]) []
    refine ⟨?_, ?_⟩
    · show some (stringAt (payload [first, second]) 0) = some first
      simpa [payload] using h1
    · show some (stringAt (payload [first, second]) (first.length + 1)) = some second
      simpa [payload] using h2
  · simp only [length_cons] at h2
    omega

/-! ## Packing -/

/-- The texts of the operands that are there. -/
def operandTexts (first second : Option CString) : List (List UInt8) :=
  (first.toList ++ second.toList).map CString.bytes

theorem memmove_prefix (data buffer : List UInt8) :
    memmove buffer 0 data = data ++ buffer.drop data.length := by
  simp [memmove]

theorem memmove_behind (before data rest : List UInt8) :
    memmove (before ++ rest) before.length data = before ++ data ++ rest.drop data.length := by
  unfold memmove
  rw [take_left, ← drop_drop, drop_left]

theorem memory_take (text : CString) : text.memory.take (text.bytes.length + 1) = text.memory :=
  take_of_length_le (by simp [CString.memory])

theorem astraVfsPathPack_spec (hs : first = none → second = none)
    (ht : ∀ text ∈ operandTexts first second, PathText text) {buffer : Option (List UInt8)}
    (hb : (payload (operandTexts first second)).length ≤ (buffer.getD []).length) :
    let packed := astraVfsPathPack first second buffer (buffer.getD []).length
    packed.status = .ok ∧ packed.fields = payloadFields (operandTexts first second) ∧
      packed.used = (payload (operandTexts first second)).length ∧
      (packed.bytes.getD []) = payload (operandTexts first second) ++
        (buffer.getD []).drop (payload (operandTexts first second)).length := by
  have hnull : ¬((buffer = none ∧ (buffer.getD []).length ≠ 0) ∨
      (first = none ∧ second ≠ none)) := by
    rintro (⟨rfl, h⟩ | ⟨h1, h2⟩)
    · exact h rfl
    · exact h2 (hs h1)
  unfold astraVfsPathPack
  rw [if_neg hnull]
  rcases first with _ | first
  · obtain rfl := hs rfl
    simp [operandTexts, payload, payloadFields]
  · have h1 : PathText first.bytes := ht _ (by simp [operandTexts])
    rcases second with _ | second
    · have hp : payload (operandTexts (some first) none) = first.memory := by
        simp [operandTexts, payload, CString.memory]
      have hl : first.memory.length = first.bytes.length + 1 := by simp [CString.memory]
      rw [hp] at hb ⊢
      simp only [pathOperandLength_spec h1, ne_eq, not_true, if_false, if_true]
      rw [if_neg (by omega)]
      rw [memory_take, memmove_prefix, hl]
      exact ⟨rfl, rfl, rfl, rfl⟩
    · have h2 : PathText second.bytes := ht _ (by simp [operandTexts])
      have hp : payload (operandTexts (some first) (some second))
          = first.memory ++ second.memory := by
        simp [operandTexts, payload, CString.memory]
      have hl1 : first.memory.length = first.bytes.length + 1 := by simp [CString.memory]
      have hl2 : second.memory.length = second.bytes.length + 1 := by simp [CString.memory]
      rw [hp] at hb ⊢
      rw [length_append] at hb ⊢
      simp only [pathOperandLength_spec h1, pathOperandLength_spec h2, ne_eq, not_true, if_false,
        reduceCtorEq]
      rw [if_neg (by omega)]
      rw [memory_take, memory_take, memmove_prefix, ← hl1, memmove_behind, drop_drop, hl1, hl2]
      exact ⟨rfl, rfl, rfl, rfl⟩

/-! ## The round trips -/

/-- The answer hands out exactly these strings, read from the area. -/
def Unpacks (answer : AstraVfsStatus × AstraVfsPathOperands) (area : List UInt8)
    (first second : Option CString) : Prop :=
  answer.1 = .ok ∧ answer.2.first.map (stringAt area) = first.map CString.bytes ∧
    answer.2.second.map (stringAt area) = second.map CString.bytes

instance (answer : AstraVfsStatus × AstraVfsPathOperands) (area : List UInt8)
    (first second : Option CString) : Decidable (Unpacks answer area first second) :=
  inferInstanceAs (Decidable (_ ∧ _ ∧ _))

/-- What a request must say besides its operands. -/
def AstraVfsPathRequest.Framed (request : AstraVfsPathRequest) (operation : ℕ) : Prop :=
  request.size = astraVfsRequestSize ∧ request.fileReserved = 0 ∧
    (request.secondFile = 0 ∨ operation = astraVfsOpRename ∨ operation = astraVfsOpLink) ∧
    (operation = astraVfsOpHello → request.file = astraVfsFileInvalid)

/-- The strings an operation passes. -/
abbrev operandList (first second : Option CString) : List CString :=
  first.toList ++ second.toList

theorem operandTexts_get (first second : Option CString) (hs : first = none → second = none) :
    (operandTexts first second)[0]? = first.map CString.bytes ∧
      (operandTexts first second)[1]? = second.map CString.bytes := by
  rcases first with _ | first
  · obtain rfl := hs rfl
    exact ⟨rfl, rfl⟩
  · rcases second with _ | second <;> exact ⟨rfl, rfl⟩

theorem length_operandTexts (first second : Option CString) :
    (operandTexts first second).length = (operandList first second).length := by
  simp [operandTexts]

theorem length_operandList (first second : Option CString) :
    (operandList first second).length ≤ 2 := by
  rcases first with _ | first <;> rcases second with _ | second <;> simp

theorem unpacks_packed (hs : first = none → second = none)
    (ht : ∀ text ∈ operandTexts first second, PathText text)
    (hp : transfer.getD [] = payload (operandTexts first second)) :
    Unpacks (astraVfsPathUnpack (payloadFields (operandTexts first second)) transfer
      (transfer.getD []).length (operandList first second).length) (transfer.getD []) first
      second := by
  have hl := length_operandTexts first second
  have h2 := length_operandList first second
  obtain ⟨h, h0, h1⟩ := unpacked_strings ht hp.symm rfl (by omega)
  obtain ⟨e0, e1⟩ := operandTexts_get first second hs
  rw [← hl]
  exact ⟨h, h0.trans e0, h1.trans e1⟩

theorem unpacks_request (hs : first = none → second = none)
    (ht : ∀ text ∈ operandTexts first second, PathText text)
    (hp : transfer.getD [] = payload (operandTexts first second)) {operation : ℕ}
    {request : AstraVfsPathRequest} (hr : request.Framed operation)
    (hf : request.paths = payloadFields (operandTexts first second))
    (hc : astraVfsPathOperandCount operation request = (operandList first second).length) :
    Unpacks (astraVfsPathRequest operation request transfer) (transfer.getD []) first second := by
  obtain ⟨hsize, hres, hsecond, hhello⟩ := hr
  unfold astraVfsPathRequest
  have hframe : ¬(request.size ≠ astraVfsRequestSize ∨ request.fileReserved ≠ 0 ∨
      (request.secondFile ≠ 0 ∧ operation ≠ astraVfsOpRename ∧ operation ≠ astraVfsOpLink)) := by
    rintro (h | h | ⟨h1, h2, h3⟩)
    · exact h hsize
    · exact h hres
    · rcases hsecond with h | h | h
      · exact h1 h
      · exact h2 h
      · exact h3 h
  have hhi : ¬(operation = astraVfsOpHello ∧ request.file ≠ astraVfsFileInvalid) :=
    fun h => h.2 (hhello h.1)
  rw [if_neg hframe, if_neg hhi]
  split
  · rename_i hw
    rw [hw.1] at hc
    rcases first with _ | first
    · obtain rfl := hs rfl
      exact ⟨rfl, rfl, rfl⟩
    · have hpos : 0 < (operandList (some first) second).length := by simp
      omega
  · rw [hc, hf]
    exact unpacks_packed hs ht hp

/-- Packing and unpacking are inverse to each other, and what is accepted is the image of the
encoder. -/
theorem path_codec : (∀ (first second : Option CString) (buffer : Option (List UInt8)),
      (first = none → second = none) →
      (∀ text ∈ operandList first second, (pathOperandLength (some text)).1 = .ok) →
      (payload (operandTexts first second)).length ≤ (buffer.getD []).length →
      let packed := astraVfsPathPack first second buffer (buffer.getD []).length
      packed.status = .ok ∧
        ∀ transfer : Option (List UInt8),
          transfer.getD [] = (packed.bytes.getD []).take packed.used →
          Unpacks (astraVfsPathUnpack packed.fields transfer packed.used
            (operandList first second).length) (transfer.getD []) first second ∧
          ∀ (operation : ℕ) (request : AstraVfsPathRequest), request.Framed operation →
            request.paths = packed.fields →
            astraVfsPathOperandCount operation request = (operandList first second).length →
            Unpacks (astraVfsPathRequest operation request transfer) (transfer.getD []) first
              second) ∧
    (∀ (fields : AstraVfsPathFields) (bytes : Option (List UInt8)) (operands : ℕ),
      (astraVfsPathUnpack fields bytes (bytes.getD []).length operands).1 = .ok →
      ∃ first second : Option CString, (first = none → second = none) ∧
        (operandList first second).length = operands ∧
        Unpacks (astraVfsPathUnpack fields bytes (bytes.getD []).length operands) (bytes.getD [])
          first second ∧
        ∀ buffer : Option (List UInt8), (bytes.getD []).length ≤ (buffer.getD []).length →
          let packed := astraVfsPathPack first second buffer (buffer.getD []).length
          packed.status = .ok ∧ packed.fields = fields ∧ packed.used = (bytes.getD []).length ∧
            (packed.bytes.getD []).take packed.used = bytes.getD []) ∧
    ∀ (fields : AstraVfsPathFields) (bytes : Option (List UInt8)) (operands : ℕ),
      (astraVfsPathUnpack fields bytes (bytes.getD []).length operands).1 = .ok ↔
        operands ≤ 2 ∧ ∃ texts : List (List UInt8), texts.length = operands ∧
          (∀ text ∈ texts, PathText text) ∧ payload texts = bytes.getD [] ∧
          fields = payloadFields texts := by
  refine ⟨?_, ?_, astraVfsPathUnpack_iff⟩
  · intro first second buffer hs ha hb packed
    have ht : ∀ text ∈ operandTexts first second, PathText text := by
      intro text hm
      obtain ⟨string, hstring, rfl⟩ := mem_map.1 hm
      exact (pathOperandLength_iff string).1 (ha string hstring)
    obtain ⟨hok, hf, hu, hbytes⟩ := astraVfsPathPack_spec hs ht hb
    refine ⟨hok, fun transfer htr => ?_⟩
    have hp : transfer.getD [] = payload (operandTexts first second) := by
      rw [htr, hbytes, hu, take_left]
    have hlen : packed.used = (transfer.getD []).length := by rw [hp]; exact hu
    refine ⟨?_, fun operation request hr hrf hc => ?_⟩
    · rw [hlen, hf]
      exact unpacks_packed hs ht hp
    · exact unpacks_request hs ht hp hr (hrf.trans hf) hc
  · intro fields bytes operands h
    obtain ⟨h2, texts, hl, ht, hp, hf⟩ := (astraVfsPathUnpack_iff _ _ _).1 h
    have hstrings : ∃ first second : Option CString, (first = none → second = none) ∧
        operandTexts first second = texts := by
      rcases texts with _ | ⟨a, _ | ⟨b, _ | ⟨c, texts⟩⟩⟩
      · exact ⟨none, none, fun _ => rfl, rfl⟩
      · exact ⟨some ⟨a, (ht a (by simp)).noNul⟩, none, by simp, rfl⟩
      · exact ⟨some ⟨a, (ht a (by simp)).noNul⟩, some ⟨b, (ht b (by simp)).noNul⟩, by simp, rfl⟩
      · simp only [length_cons] at hl
        omega
    obtain ⟨first, second, hs, rfl⟩ := hstrings
    rw [length_operandTexts] at hl
    refine ⟨first, second, hs, hl, ?_, fun buffer hb => ?_⟩
    · rw [hf, ← hl]
      exact unpacks_packed hs ht hp.symm
    · rw [← hp] at hb ⊢
      obtain ⟨hok, hpf, hu, hbytes⟩ := astraVfsPathPack_spec hs ht hb
      refine ⟨hok, hpf.trans hf.symm, hu, ?_⟩
      rw [hbytes, hu, take_left]

/-- `a/b` and `c`, renamed. -/
theorem path_codec_rename : let first : CString := ⟨[0x61, 0x2f, 0x62], by decide⟩
    let second : CString := ⟨[0x63], by decide⟩
    let packed := astraVfsPathPack (some first) (some second) (some (List.replicate 8 0)) 8
    packed.status = .ok ∧
      Unpacks (astraVfsPathRequest astraVfsOpRename ⟨256, 1, 2, 0, ⟨0, 4, 4, 2⟩⟩
        (some [0x61, 0x2f, 0x62, 0, 0x63, 0])) [0x61, 0x2f, 0x62, 0, 0x63, 0] (some first)
        (some second) := by
  intro first second packed
  obtain ⟨hok, h⟩ := path_codec.1 (some first) (some second) (some (List.replicate 8 0))
    (by decide) (by decide) (by decide)
  exact ⟨hok, (h (some [0x61, 0x2f, 0x62, 0, 0x63, 0]) (by decide)).2 astraVfsOpRename
    ⟨256, 1, 2, 0, ⟨0, 4, 4, 2⟩⟩ ⟨rfl, rfl, .inr (.inl rfl), by decide⟩ (by decide) rfl⟩

end Astra

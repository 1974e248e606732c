import AstraKernel.Vfs.Path

/-!
# Network addresses in text

`network_core.c`: the text is read once, and its groups go into the sixteen bytes of the address as
they come. Where a double colon stood is remembered, and the bytes behind it are moved to the end of
the address when the text is at its own. `TextForm` is the grammar that the text is read by.
-/

namespace Astra

open List

abbrev astraNetworkFamilyIpv4 : ℕ := 1
abbrev astraNetworkFamilyIpv6 : ℕ := 2

inductive AstraNetworkStatus
  | ok | invalid | unsupported
  deriving DecidableEq

structure AstraNetworkAddress where
  size : ℕ
  family : ℕ
  port : ℕ
  scopeId : ℕ
  address : List UInt8
  deriving DecidableEq

def isDecimal (c : UInt8) : Bool := 0x30 ≤ c && c ≤ 0x39

def isHex (c : UInt8) : Bool := isDecimal c || (0x61 ≤ c && c ≤ 0x66) || (0x41 ≤ c && c ≤ 0x46)

def hexValue (c : UInt8) : ℕ :=
  if c ≤ 0x39 then c.toNat - 0x30
  else if c ≤ 0x46 then c.toNat - 0x41 + 10
  else c.toNat - 0x61 + 10

/-- The digits at the front of the text: their value, their count and what follows. There are at
most `most`, and the value is never one that is `beyond`. -/
def scanDigits (digit : UInt8 → Bool) (push : ℕ → UInt8 → ℕ) (beyond : ℕ → Bool) (most : ℕ) :
    List UInt8 → ℕ → ℕ → Option (ℕ × ℕ × List UInt8)
  | [], value, digits => some (value, digits, [])
  | c :: rest, value, digits =>
    if digit c then
      if digits + 1 > most ∨ beyond (push value c) then none
      else scanDigits digit push beyond most rest (push value c) (digits + 1)
    else some (value, digits, c :: rest)

def pushDecimal (value : ℕ) (c : UInt8) : ℕ := value * 10 + (c.toNat - 0x30)

def pushHex (value : ℕ) (c : UInt8) : ℕ := (value <<< 4) ||| hexValue c

def scanDecimal (text : List UInt8) : Option (ℕ × ℕ × List UInt8) :=
  scanDigits isDecimal pushDecimal (255 < ·) 3 text 0 0

def scanHex (text : List UInt8) : Option (ℕ × ℕ × List UInt8) :=
  scanDigits isHex pushHex (fun _ => false) 4 text 0 0

/-- The parts from the one that has `left` behind it. -/
def ipv4Parts : ℕ → List UInt8 → Option (List UInt8)
  | left, text =>
    match scanDecimal text with
    | none => none
    | some (value, digits, rest) =>
      if digits = 0 ∨ left ≠ 0 ∧ rest.head? ≠ some 0x2e then none
      else
        match left with
        | 0 => if rest = [] then some [UInt8.ofNat value] else none
        | left + 1 => (ipv4Parts left rest.tail).map (UInt8.ofNat value :: ·)

def parseIpv4 (text : List UInt8) : Option (List UInt8) := ipv4Parts 3 text

/-- A store behind the bytes of the address so far, which must not leave the sixteen there are. -/
def store (bytes data : List UInt8) : Option (List UInt8) :=
  if bytes.length + data.length ≤ 16 then some (bytes ++ data) else none

/-- The loop, from the bytes so far and the place of a double colon among them. Nothing is a store
outside the address or a loop that goes on, and no parse is a text that is refused. -/
def addressLoop : ℕ → List UInt8 → List UInt8 → Option ℕ → Option (Option (List UInt8 × Option ℕ))
  | 0, _, _, _ => none
  | _ + 1, [], bytes, compressed => some (some (bytes, compressed))
  | fuel + 1, c :: cursor, bytes, compressed =>
    if c = 0x3a then
      if compressed.isSome then some none
      else addressLoop fuel cursor bytes (some bytes.length)
    else
      match scanHex (c :: cursor) with
      | none => some none
      | some (value, digits, rest) =>
        if rest.head? = some 0x2e ∧ bytes.length ≤ 12 then
          match parseIpv4 (c :: cursor) with
          | none => some none
          | some ipv4 => do
            let bytes ← store bytes ipv4
            some (some (bytes, compressed))
        else if digits = 0 ∨ bytes.length > 14 then some none
        else do
          let bytes ← store bytes [UInt8.ofNat (value >>> 8), UInt8.ofNat value]
          if rest = [] then some (some (bytes, compressed))
          else if rest.head? ≠ some 0x3a then some none
          else addressLoop fuel rest.tail bytes compressed

/-- The bytes behind the double colon go to the end of the address, and zeroes before them. -/
def addressExpand (bytes : List UInt8) : Option ℕ → Option (List UInt8)
  | none => if bytes.length = 16 then some bytes else none
  | some compressed =>
    let gap := 16 - bytes.length
    if gap = 0 then none
    else some (bytes.take compressed ++ List.replicate gap 0 ++ bytes.drop compressed)

def parseIpv6 (text : List UInt8) : Option (Option (List UInt8)) :=
  if text.head? = some 0x3a ∧ text.tail.head? ≠ some 0x3a then some none
  else
    (addressLoop (text.length + 1) (if text.head? = some 0x3a then text.tail else text) [] none).map
      (Option.bind · fun parsed => addressExpand parsed.1 parsed.2)

def parsedAddress (family : ℕ) (address : List UInt8) : AstraNetworkAddress :=
  { size := 28, family, port := 0, scopeId := 0, address }

/-- The status, and what the destination holds then. -/
def addressAnswer (family : ℕ) (old : AstraNetworkAddress) :
    Option (List UInt8) → AstraNetworkStatus × Option AstraNetworkAddress
  | none => (.invalid, some old)
  | some bytes => (.ok, some (parsedAddress family bytes))

def astraNetworkAddressParse (family : ℕ) (text : Option CString)
    (address : Option AstraNetworkAddress) :
    Option (AstraNetworkStatus × Option AstraNetworkAddress) :=
  match text, address with
  | some text, some old =>
    if family ≠ astraNetworkFamilyIpv4 ∧ family ≠ astraNetworkFamilyIpv6 then
      some (.unsupported, some old)
    else if family = astraNetworkFamilyIpv4 then
      some (addressAnswer family old ((parseIpv4 text.bytes).map (· ++ List.replicate 12 0)))
    else (parseIpv6 text.bytes).map (addressAnswer family old)
  | _, _ => some (.invalid, address)

/-! ## The grammar -/

/-- One to three decimal digits of a value up to 255. -/
def DecimalByte (w : List UInt8) (b : UInt8) : Prop :=
  w ≠ [] ∧ w.length ≤ 3 ∧ (∀ c ∈ w, isDecimal c) ∧
    w.foldl (fun v c => v * 10 + (c.toNat - 0x30)) 0 = b.toNat

/-- A number, and as many more behind dots. -/
def DottedParts : ℕ → List UInt8 → List UInt8 → Prop
  | 0, w, bytes => ∃ b, DecimalByte w b ∧ bytes = [b]
  | left + 1, w, bytes => ∃ u b ws bs, DecimalByte u b ∧ DottedParts left ws bs ∧
      w = u ++ 0x2e :: ws ∧ bytes = b :: bs

def DottedQuad (w bytes : List UInt8) : Prop := DottedParts 3 w bytes

/-- One to four hexadecimal digits, and the two bytes of their value. -/
def HexGroup (w : List UInt8) (bytes : List UInt8) : Prop :=
  w ≠ [] ∧ w.length ≤ 4 ∧ (∀ c ∈ w, isHex c) ∧
    bytes = [UInt8.ofNat (w.foldl (fun v c => 16 * v + hexValue c) 0 / 256),
      UInt8.ofNat (w.foldl (fun v c => 16 * v + hexValue c) 0)]

/-- Groups, each with a colon behind it. -/
inductive Groups : List UInt8 → List UInt8 → Prop
  | nil : Groups [] []
  | cons {w b ws bs : List UInt8} : HexGroup w b → Groups ws bs → Groups (w ++ 0x3a :: ws) (b ++ bs)

/-- What a text ends in. No address ends in a single colon, which the grammar has to name the texts
that do. -/
inductive TextEnd
  | gap | part | colon
  deriving DecidableEq

/-- Nothing, or groups with single colons between them, of which the last may be a dotted quad. -/
inductive Parts : TextEnd → List UInt8 → List UInt8 → Prop
  | gap : Parts .gap [] []
  | part {l lb r rb : List UInt8} : Groups l lb → HexGroup r rb ∨ DottedQuad r rb →
      Parts .part (l ++ r) (lb ++ rb)
  | colon {l lb : List UInt8} : Groups l lb → l ≠ [] → Parts .colon l lb

/-- The sixteen bytes of a text: all of its groups, or, with a double colon, the zero groups that it
stands for among them, of which there is at least one. The first of the two colons may be the first
character, or stand behind a group. -/
inductive TextForm (e : TextEnd) : List UInt8 → List UInt8 → Prop
  | full {w bs : List UInt8} : Parts e w bs → bs.length = 16 → TextForm e w bs
  | short {l lb r rb : List UInt8} : Groups l lb → Parts e r rb → (lb ++ rb).length < 16 →
      TextForm e ((if l = [] then [0x3a] else l) ++ 0x3a :: r)
        (lb ++ List.replicate (16 - (lb ++ rb).length) 0 ++ rb)

/-- The parse of a text succeeds where the text denotes an address, with the bytes of that address,
and fails where it denotes none. -/
def ParsesBy (family : ℕ) (denotes : List UInt8 → List UInt8 → Prop) (text : CString) : Prop :=
  ∃ parsed, (∀ bytes, parsed = some bytes ↔ denotes text.bytes bytes) ∧
    ∀ old, astraNetworkAddressParse family (some text) (some old)
      = some (addressAnswer family old parsed)

/-! ## Digits -/

section Digits

variable {digit : UInt8 → Bool} {push : ℕ → UInt8 → ℕ} {beyond : ℕ → Bool} {most : ℕ}

theorem scanDigits_sound : ∀ {text : List UInt8} {v d v' d' : ℕ} {rest : List UInt8},
    scanDigits digit push beyond most text v d = some (v', d', rest) → d ≤ most →
    beyond v = false →
    ∃ w, text = w ++ rest ∧ (∀ c ∈ w, digit c) ∧ d' = d + w.length ∧ v' = w.foldl push v ∧
      d' ≤ most ∧ beyond v' = false
  | [], v, d, v', d', rest, h, hd, hv => by
    obtain ⟨rfl, rfl, rfl⟩ := by simpa [scanDigits] using h
    exact ⟨[], rfl, by simp, rfl, rfl, hd, hv⟩
  | c :: text, v, d, v', d', rest, h, hd, hv => by
    rw [scanDigits] at h
    split at h
    · rename_i hc
      split at h
      · cases h
      rename_i hok
      push Not at hok
      obtain ⟨w, rfl, hw, rfl, rfl, hmost, hover⟩ :=
        scanDigits_sound h hok.1 (Bool.eq_false_iff.2 hok.2)
      exact ⟨c :: w, rfl, by simpa [hc] using hw, by simp; omega, rfl, hmost, hover⟩
    · obtain ⟨rfl, rfl, rfl⟩ := by simpa using h
      exact ⟨[], rfl, by simp, rfl, rfl, hd, hv⟩

/-- A value that is beyond stays so when a digit is added. -/
theorem foldl_over (hover : ∀ v c, beyond v → beyond (push v c)) : ∀ {w : List UInt8} {v : ℕ},
    beyond v → beyond (w.foldl push v)
  | [], _, h => h
  | c :: w, v, h => foldl_over hover (w := w) (hover v c h)

theorem scanDigits_complete (hover : ∀ v c, beyond v → beyond (push v c)) {rest : List UInt8}
    (hrest : ∀ c ∈ rest.head?, digit c = false) : ∀ {w : List UInt8} {v d : ℕ},
    (∀ c ∈ w, digit c) → d + w.length ≤ most → beyond (w.foldl push v) = false →
    scanDigits digit push beyond most (w ++ rest) v d = some (w.foldl push v, d + w.length, rest)
  | [], v, d, _, _, _ => by
    cases rest with
    | nil => rfl
    | cons c rest =>
      rw [nil_append, scanDigits, if_neg (by simp [hrest c rfl])]
      rfl
  | c :: w, v, d, hw, hd, hv => by
    rw [length_cons] at hd
    rw [cons_append, scanDigits, if_pos (hw c mem_cons_self), if_neg, scanDigits_complete
      hover hrest (fun c hc => hw c (mem_cons_of_mem _ hc)) (by omega) hv, foldl_cons,
      length_cons, Nat.add_assoc, Nat.add_comm 1]
    rintro (h | h)
    · omega
    · rw [foldl_cons, foldl_over hover h] at hv
      cases hv

end Digits

/-! ## Dotted quads -/

variable {acc b bs bytes cursor l lb rest text w : List UInt8} {e : TextEnd} {d v : ℕ}

theorem scanDecimal_sound (h : scanDecimal text = some (v, d, rest))
    (hd : d ≠ 0) : ∃ w, text = w ++ rest ∧ DecimalByte w (UInt8.ofNat v) := by
  obtain ⟨w, hw, hdig, rfl, rfl, hmost, hv⟩ := scanDigits_sound h (Nat.zero_le 3) rfl
  refine ⟨w, hw, by rintro rfl; exact hd rfl, by omega, hdig, ?_⟩
  rw [UInt8.toNat_ofNat', Nat.mod_eq_of_lt (by simpa [Nat.lt_succ_iff] using hv)]
  rfl

theorem scanDecimal_complete {b : UInt8} (rest : List UInt8) (h : DecimalByte w b)
    (hrest : ∀ c ∈ rest.head?, isDecimal c = false) :
    scanDecimal (w ++ rest) = some (b.toNat, w.length, rest) := by
  obtain ⟨_, hlen, hdig, hv⟩ := h
  have hb := b.toNat_lt
  have hover : ∀ v c, decide (255 < v) → decide (255 < pushDecimal v c) := by
    intro v c h
    have h := of_decide_eq_true h
    exact decide_eq_true (by unfold pushDecimal; omega)
  rw [scanDecimal, scanDigits_complete hover hrest hdig (by omega)]
  · rw [Nat.zero_add, ← hv]
    rfl
  · rw [show w.foldl pushDecimal 0 = b.toNat from hv]
    simp
    omega

theorem ipv4Parts_eq_some : ∀ {left : ℕ} {text bytes : List UInt8},
    ipv4Parts left text = some bytes ↔ DottedParts left text bytes := by
  intro left
  induction left with
  | zero =>
    intro text bytes
    constructor
    · intro h
      rw [ipv4Parts] at h
      rcases hscan : scanDecimal text with _ | ⟨v, d, rest⟩ <;> rw [hscan] at h
      · cases h
      obtain ⟨hd, hrest, rfl⟩ : d ≠ 0 ∧ rest = [] ∧ [UInt8.ofNat v] = bytes := by simpa using h
      obtain ⟨w, rfl, hw⟩ := scanDecimal_sound hscan hd
      exact ⟨_, by simpa [hrest] using hw, rfl⟩
    · rintro ⟨b, hb, rfl⟩
      have hscan := scanDecimal_complete [] hb (by simp)
      rw [append_nil] at hscan
      simp [ipv4Parts, hscan, hb.1]
  | succ left ih =>
    intro text bytes
    constructor
    · intro h
      rw [ipv4Parts] at h
      rcases hscan : scanDecimal text with _ | ⟨v, d, rest⟩ <;> rw [hscan] at h
      · cases h
      obtain ⟨⟨hd, hdot⟩, bs, hbs, rfl⟩ : (d ≠ 0 ∧ rest.head? = some 0x2e) ∧
          ∃ bs, ipv4Parts left rest.tail = some bs ∧ UInt8.ofNat v :: bs = bytes := by simpa using h
      obtain ⟨ws, rfl⟩ := List.head?_eq_some_iff.1 hdot
      obtain ⟨w, rfl, hw⟩ := scanDecimal_sound hscan hd
      exact ⟨w, _, ws, bs, hw, ih.1 hbs, rfl, rfl⟩
    · rintro ⟨u, b, ws, bs, hu, hws, rfl, rfl⟩
      have hscan := scanDecimal_complete (0x2e :: ws) hu (by simp [isDecimal])
      simp [ipv4Parts, hscan, hu.1, ih.2 hws]

/-! ## Groups -/

theorem hexValue_lt {c : UInt8} (h : isHex c) : hexValue c < 16 := by
  simp only [isHex, isDecimal, Bool.or_eq_true, Bool.and_eq_true, decide_eq_true_eq,
    UInt8.le_iff_toNat_le] at h
  simp only [hexValue, UInt8.le_iff_toNat_le]
  simp only [UInt8.reduceToNat] at *
  split_ifs <;> omega

theorem foldl_pushHex : ∀ {w : List UInt8} {v : ℕ}, (∀ c ∈ w, isHex c) →
    w.foldl pushHex v = w.foldl (fun v c => 16 * v + hexValue c) v
  | [], _, _ => rfl
  | c :: w, v, h => by
    have hpush : pushHex v c = 16 * v + hexValue c := by
      rw [pushHex, Nat.shiftLeft_eq, Nat.mul_comm]
      exact (Nat.two_pow_add_eq_or_of_lt (hexValue_lt (h c mem_cons_self)) v).symm
    rw [foldl_cons, foldl_cons, hpush,
      foldl_pushHex fun c hc => h c (mem_cons_of_mem _ hc)]

theorem scanHex_sound (h : scanHex text = some (v, d, rest)) (hd : d ≠ 0) :
    ∃ w, text = w ++ rest ∧ HexGroup w [UInt8.ofNat (v >>> 8), UInt8.ofNat v] := by
  obtain ⟨w, hw, hdig, rfl, rfl, hmost, _⟩ := scanDigits_sound h (Nat.zero_le 4) rfl
  refine ⟨w, hw, by rintro rfl; exact hd rfl, by omega, hdig, ?_⟩
  rw [foldl_pushHex hdig, Nat.shiftRight_eq_div_pow]

theorem scanHex_complete (h : HexGroup w b) (hrest : ∀ c ∈ rest.head?, isHex c = false) :
    ∃ v, scanHex (w ++ rest) = some (v, w.length, rest) ∧
      b = [UInt8.ofNat (v >>> 8), UInt8.ofNat v] := by
  obtain ⟨_, hlen, hdig, rfl⟩ := h
  refine ⟨w.foldl pushHex 0, ?_, by rw [foldl_pushHex hdig, Nat.shiftRight_eq_div_pow]⟩
  rw [scanHex, scanDigits_complete (by simp) hrest hdig (by omega) rfl, Nat.zero_add]

theorem DottedParts.length : ∀ {left : ℕ} {w bs : List UInt8}, DottedParts left w bs →
    bs.length = left + 1
  | 0, _, _, ⟨_, _, rfl⟩ => rfl
  | _ + 1, _, _, ⟨_, _, _, _, _, h, _, rfl⟩ => congrArg (· + 1) h.length

theorem HexGroup.length (h : HexGroup w b) : b.length = 2 := by
  obtain ⟨_, _, _, rfl⟩ := h
  rfl

theorem HexGroup.cons {w b : List UInt8} (h : HexGroup w b) : ∃ c t, w = c :: t ∧ c ≠ 0x3a := by
  obtain ⟨hne, _, hhex, _⟩ := h
  obtain ⟨c, t, rfl⟩ := exists_cons_of_ne_nil hne
  refine ⟨c, t, rfl, ?_⟩
  rintro rfl
  exact absurd (hhex _ mem_cons_self) (by decide)

theorem HexGroup.last {w b : List UInt8} (h : HexGroup w b) : ∃ v c, isHex c ∧ w = v ++ [c] :=
  ⟨_, _, h.2.2.1 _ (getLast_mem h.1), (dropLast_append_getLast h.1).symm⟩

theorem DecimalByte.hexGroup {b : UInt8} (h : DecimalByte w b) : ∃ bs, HexGroup w bs := by
  obtain ⟨hne, hlen, hdig, _⟩ := h
  exact ⟨_, hne, by omega, fun c hc => by rw [isHex, hdig c hc]; rfl, rfl⟩

theorem DottedParts.last : ∀ {left : ℕ} {w bs : List UInt8}, DottedParts left w bs →
    ∃ v c, isHex c ∧ w = v ++ [c]
  | 0, _, _, ⟨_, hb, _⟩ => hb.hexGroup.choose_spec.last
  | _ + 1, _, _, ⟨u, _, _, _, _, h, rfl, _⟩ => by
    obtain ⟨v, c, hc, rfl⟩ := h.last
    exact ⟨u ++ 0x2e :: v, c, hc, by simp⟩

/-! ## The loop -/

theorem Parts.cons {e : TextEnd} {w b ws bs : List UInt8} (hw : HexGroup w b) (h : Parts e ws bs) :
    ∃ e, Parts e (w ++ 0x3a :: ws) (b ++ bs) := by
  cases h with
  | gap => exact ⟨_, .colon (.cons hw .nil) (by simp)⟩
  | part hl hr =>
    rw [← cons_append, ← append_assoc, ← append_assoc]
    exact ⟨_, .part (.cons hw hl) hr⟩
  | colon hl _ => exact ⟨_, .colon (.cons hw hl) (by simp)⟩

/-- What the loop may end in: the parts are read to their end, or a double colon is met among them. -/
inductive LoopEnds (acc : List UInt8) :
    Option ℕ → List UInt8 → List UInt8 × Option ℕ → Prop
  | closed {comp : Option ℕ} {e : TextEnd} {w bs : List UInt8} : Parts e w bs →
      (acc ++ bs).length ≤ 16 → LoopEnds acc comp w (acc ++ bs, comp)
  | opened {e : TextEnd} {l lb r rb : List UInt8} : Groups l lb → Parts e r rb →
      (acc ++ lb ++ rb).length ≤ 16 →
      LoopEnds acc none (l ++ 0x3a :: r) (acc ++ lb ++ rb, some (acc ++ lb).length)

theorem LoopEnds.cons {acc w b cursor : List UInt8} {comp : Option ℕ} {p : List UInt8 × Option ℕ}
    (hw : HexGroup w b) (h : LoopEnds (acc ++ b) comp cursor p) :
    LoopEnds acc comp (w ++ 0x3a :: cursor) p := by
  cases h with
  | closed h hlen =>
    rw [append_assoc] at hlen ⊢
    obtain ⟨_, h⟩ := h.cons hw
    exact .closed h hlen
  | opened hl hr hlen =>
    rw [append_assoc acc b] at hlen ⊢
    rw [← cons_append, ← append_assoc]
    exact .opened (.cons hw hl) hr hlen

theorem addressLoop_sound : ∀ (fuel : ℕ) (cursor acc : List UInt8) (comp : Option ℕ),
    cursor.length < fuel → acc.length ≤ 16 →
    ∃ r, addressLoop fuel cursor acc comp = some r ∧ ∀ p ∈ r, LoopEnds acc comp cursor p
  | 0, _, _, _, h, _ => by omega
  | fuel + 1, [], acc, comp, _, hacc => by
    refine ⟨_, rfl, fun p hp => ?_⟩
    cases hp
    have : LoopEnds acc comp _ _ := .closed .gap (by rwa [append_nil])
    rwa [append_nil] at this
  | fuel + 1, c :: cursor, acc, comp, hfuel, hacc => by
    rw [length_cons] at hfuel
    rw [addressLoop]
    split
    · rename_i hc
      subst hc
      split
      · exact ⟨none, rfl, by simp⟩
      rename_i hcomp
      obtain rfl : comp = none := by simpa using hcomp
      obtain ⟨r, hr, hends⟩ := addressLoop_sound fuel cursor acc (some acc.length) (by omega) hacc
      refine ⟨r, hr, fun p hp => ?_⟩
      cases hends p hp with
      | closed h hlen =>
        have : LoopEnds acc none _ _ := .opened .nil h (by rwa [append_nil])
        rwa [append_nil] at this
    rename_i hc
    rcases hscan : scanHex (c :: cursor) with _ | ⟨v, d, rest⟩
    · exact ⟨none, rfl, by simp⟩
    dsimp only
    split
    · rename_i hdot
      rcases hquad : parseIpv4 (c :: cursor) with _ | bs
      · exact ⟨none, rfl, by simp⟩
      have hbs := ipv4Parts_eq_some.1 hquad
      have hlen : acc.length + bs.length ≤ 16 := by
        rw [DottedParts.length hbs]
        omega
      refine ⟨some (acc ++ bs, comp), by simp [store, hlen], fun p hp => ?_⟩
      cases hp
      exact .closed (.part .nil (.inr hbs)) (by rwa [length_append])
    split
    · exact ⟨none, rfl, by simp⟩
    rename_i hd
    push Not at hd
    obtain ⟨w, hw, hgroup⟩ := scanHex_sound hscan hd.1
    generalize hb : [UInt8.ofNat (v >>> 8), UInt8.ofNat v] = b at hgroup
    have hlen : (acc ++ b).length ≤ 16 := by rw [length_append, hgroup.length]; omega
    rw [store, if_pos (by rwa [← length_append])]
    simp only [Option.bind_eq_bind, Option.bind_some]
    split
    · rename_i hrest
      rw [hrest, append_nil] at hw
      refine ⟨_, rfl, fun p hp => ?_⟩
      cases hp
      exact hw ▸ .closed (.part .nil (.inl hgroup)) hlen
    split
    · exact ⟨none, rfl, by simp⟩
    rename_i hcolon
    obtain ⟨t, rfl⟩ := List.head?_eq_some_iff.1 (not_not.1 hcolon)
    have hcursor := congrArg List.length hw
    simp only [length_append, length_cons] at hcursor
    obtain ⟨r, hr, hends⟩ := addressLoop_sound fuel t (acc ++ b) comp (by omega) hlen
    exact ⟨r, hr, fun p hp => hw ▸ (hends p hp).cons hgroup⟩

theorem addressLoop_group (hw : HexGroup w b) (fuel : ℕ) (rest acc : List UInt8)
    (comp : Option ℕ) (hrest : ∀ c ∈ rest.head?, c = 0x3a) (hlen : (acc ++ b).length ≤ 16) :
    addressLoop (fuel + 1) (w ++ rest) acc comp =
      if rest = [] then some (some (acc ++ b, comp))
      else addressLoop fuel rest.tail (acc ++ b) comp := by
  rw [length_append, hw.length] at hlen
  obtain ⟨c, t, rfl, hc⟩ := hw.cons
  obtain ⟨v, hscan, rfl⟩ := scanHex_complete hw (fun c hc => by rw [hrest c hc]; decide)
  have hdot : rest.head? ≠ some 0x2e := fun h => absurd (hrest _ h) (by decide)
  rw [cons_append] at hscan ⊢
  rw [addressLoop, if_neg hc, hscan]
  dsimp only
  rw [if_neg (fun h => hdot h.1), if_neg (by simp; omega), store, if_pos (by simpa using hlen)]
  rcases rest with _ | ⟨d, rest⟩
  · rfl
  · cases hrest d rfl
    rfl

theorem addressLoop_quad (hw : DottedQuad w b) (fuel : ℕ) (acc : List UInt8)
    (comp : Option ℕ) (hlen : (acc ++ b).length ≤ 16) :
    addressLoop (fuel + 1) w acc comp = some (some (acc ++ b, comp)) := by
  have hquad := ipv4Parts_eq_some.2 hw
  have hbs := DottedParts.length hw
  obtain ⟨u, b, ws, bs', hu, _, rfl, rfl⟩ := hw
  obtain ⟨_, hgroup⟩ := hu.hexGroup
  obtain ⟨v, hscan, -⟩ := scanHex_complete hgroup (show ∀ c ∈ (0x2e :: ws).head?, _ by simp; decide)
  obtain ⟨c, t, rfl, hc⟩ := hgroup.cons
  rw [length_append] at hlen
  rw [cons_append] at hscan hquad ⊢
  rw [addressLoop, if_neg hc, hscan]
  dsimp only
  rw [if_pos ⟨rfl, by omega⟩, parseIpv4, hquad]
  dsimp only
  rw [store, if_pos hlen]
  rfl

theorem addressLoop_groups (h : Groups l lb) : ∀ (fuel : ℕ)
    (rest acc : List UInt8) (comp : Option ℕ), l.length + rest.length < fuel →
    (acc ++ lb).length ≤ 16 → ∃ fuel', rest.length < fuel' + 1 ∧
      addressLoop fuel (l ++ rest) acc comp = addressLoop (fuel' + 1) rest (acc ++ lb) comp := by
  induction h with
  | nil =>
    intro fuel rest acc comp hfuel _
    obtain ⟨fuel, rfl⟩ : ∃ k, fuel = k + 1 := ⟨fuel - 1, by omega⟩
    exact ⟨fuel, by simpa using hfuel, by rw [nil_append, append_nil]⟩
  | @cons w b ws bs hw _ ih =>
    intro fuel rest acc comp hfuel hlen
    simp only [length_append, length_cons] at hfuel hlen
    obtain ⟨fuel, rfl⟩ : ∃ k, fuel = k + 1 := ⟨fuel - 1, by omega⟩
    obtain ⟨fuel', hfuel', heq⟩ := ih fuel rest (acc ++ b) comp (by omega)
      (by simp only [length_append]; omega)
    refine ⟨fuel', hfuel', ?_⟩
    rw [append_assoc, addressLoop_group hw fuel _ acc comp (by simp)
      (by rw [length_append]; omega), if_neg (by simp), ← append_assoc acc, ← heq]
    rfl

theorem addressLoop_parts (h : Parts e w bs) (fuel : ℕ)
    (comp : Option ℕ) (hfuel : w.length < fuel) (hlen : (acc ++ bs).length ≤ 16) :
    addressLoop fuel w acc comp = some (some (acc ++ bs, comp)) := by
  have hnone : ∀ {l lb}, Groups l lb → l.length < fuel → (acc ++ lb).length ≤ 16 →
      addressLoop fuel l acc comp = some (some (acc ++ lb, comp)) := by
    intro l lb hl hfuel hlen
    obtain ⟨fuel', _, heq⟩ := addressLoop_groups hl fuel [] acc comp hfuel hlen
    rwa [append_nil] at heq
  cases h with
  | gap => exact hnone .nil hfuel hlen
  | colon hl _ => exact hnone hl hfuel hlen
  | @part l lb r rb hl hr =>
    rw [← append_assoc] at hlen ⊢
    obtain ⟨fuel', _, heq⟩ := addressLoop_groups hl fuel r acc comp
      (by rwa [← length_append]) (by rw [length_append] at hlen; omega)
    rw [heq]
    rcases hr with hr | hr
    · have := addressLoop_group hr fuel' [] (acc ++ lb) comp (by simp) hlen
      rwa [append_nil, if_pos rfl] at this
    · exact addressLoop_quad hr fuel' _ comp hlen

theorem LoopEnds.runs {comp : Option ℕ} {p : List UInt8 × Option ℕ}
    (h : LoopEnds acc comp cursor p) (fuel : ℕ) (hfuel : cursor.length < fuel) :
    addressLoop fuel cursor acc comp = some (some p) := by
  cases h with
  | closed h hlen => exact addressLoop_parts h fuel comp hfuel hlen
  | @opened e l lb r rb hl hr hlen =>
    rw [length_append] at hfuel hlen
    obtain ⟨fuel', hfuel', heq⟩ := addressLoop_groups hl fuel (0x3a :: r) acc none hfuel (by omega)
    rw [heq]
    exact addressLoop_parts hr fuel' (some (acc ++ lb).length) (by simpa using hfuel')
      (by rwa [length_append])

/-! ## Whole texts -/

theorem HexGroup.head (h : HexGroup w b) (t : List UInt8) : (w ++ t).head? ≠ some 0x3a := by
  obtain ⟨c, _, rfl, hc⟩ := h.cons
  exact fun h => hc (Option.some.inj h)

theorem Groups.head (h : Groups l lb) (t : List UInt8) (hne : l ≠ []) :
    (l ++ t).head? ≠ some 0x3a := by
  cases h with
  | nil => exact absurd rfl hne
  | cons h _ => rw [append_assoc]; exact h.head _

/-- A part begins with a digit. -/
theorem Parts.head (h : Parts e w bs) : w.head? ≠ some 0x3a := by
  cases h with
  | gap => exact nofun
  | colon h hne => simpa using h.head [] hne
  | @part l _ _ _ hl hr =>
    rcases eq_or_ne l [] with rfl | hne
    · rcases hr with hr | ⟨u, _, _, _, hu, -, rfl, -⟩
      · simpa using hr.head []
      · exact hu.hexGroup.choose_spec.head _
    · exact hl.head _ hne

theorem addressExpand_opened {rb : List UInt8} (hlen : (lb ++ rb).length < 16) :
    addressExpand (lb ++ rb) (some lb.length)
      = some (lb ++ List.replicate (16 - (lb ++ rb).length) 0 ++ rb) := by
  rw [addressExpand, if_neg (by omega), take_left, drop_left]

/-- A text and where the loop begins in it. -/
def Begins (text cursor : List UInt8) : Prop :=
  text = cursor ∧ cursor.head? ≠ some 0x3a ∨ text = 0x3a :: cursor ∧ cursor.head? = some 0x3a

theorem parseIpv6_begins (h : Begins text cursor) : parseIpv6 text =
    (addressLoop (text.length + 1) cursor [] none).map
      (Option.bind · fun parsed => addressExpand parsed.1 parsed.2) := by
  rcases h with ⟨rfl, h⟩ | ⟨rfl, h⟩
  · rw [parseIpv6, if_neg (fun hs => h hs.1), if_neg h]
  · rw [parseIpv6, if_neg (fun hs => hs.2 h), if_pos (List.head?_cons ..), tail_cons]

theorem Begins.length_lt (h : Begins text cursor) : cursor.length < text.length + 1 := by
  rcases h with ⟨rfl, _⟩ | ⟨rfl, _⟩
  · exact Nat.lt_succ_self _
  · rw [length_cons]
    omega

theorem TextForm.parses (h : TextForm e text bytes) : parseIpv6 text = some (some bytes) := by
  have hloop : ∀ {cursor p}, Begins text cursor → LoopEnds [] none cursor p →
      addressExpand p.1 p.2 = some bytes → parseIpv6 text = some (some bytes) := by
    intro cursor p hb hends hp
    rw [parseIpv6_begins hb, hends.runs _ hb.length_lt]
    exact congrArg some hp
  cases h with
  | full h hlen =>
    exact hloop (.inl ⟨rfl, h.head⟩) (.closed h (by simp [hlen])) (by simp [addressExpand, hlen])
  | @short l lb r rb hl hr hlen =>
    refine hloop ?_ (.opened hl hr hlen.le) (addressExpand_opened hlen)
    split
    · rename_i hnil
      subst hnil
      exact .inr ⟨rfl, rfl⟩
    · exact .inl ⟨rfl, hl.head _ ‹_›⟩

theorem parseIpv6_sound (text : List UInt8) : ∃ r, parseIpv6 text = some r ∧
    ∀ bytes ∈ r, ∃ e, TextForm e text bytes := by
  by_cases hstart : text.head? = some 0x3a ∧ text.tail.head? ≠ some 0x3a
  · exact ⟨none, by rw [parseIpv6, if_pos hstart], by simp⟩
  obtain ⟨cursor, hb⟩ : ∃ cursor, Begins text cursor := by
    by_cases hc : text.head? = some 0x3a
    · obtain ⟨t, rfl⟩ := List.head?_eq_some_iff.1 hc
      exact ⟨t, .inr ⟨rfl, by simpa using hstart⟩⟩
    · exact ⟨text, .inl ⟨rfl, hc⟩⟩
  obtain ⟨p, hloop, hends⟩ := addressLoop_sound _ cursor [] none hb.length_lt (by simp)
  refine ⟨_, by rw [parseIpv6_begins hb, hloop]; rfl, fun bytes hbytes => ?_⟩
  obtain ⟨p, rfl, hp⟩ := Option.bind_eq_some_iff.1 hbytes
  cases hends p rfl with
  | @closed _ e w bs h _ =>
    obtain ⟨h16, rfl⟩ : bs.length = 16 ∧ bs = bytes := by simpa [addressExpand] using hp
    rcases hb with ⟨rfl, _⟩ | ⟨rfl, hcolon⟩
    · exact ⟨e, .full h h16⟩
    · exact absurd hcolon h.head
  | @opened e l lb r rb hl hr _ =>
    have hshort : (lb ++ rb).length < 16 := by
      by_contra h
      have hp : addressExpand (lb ++ rb) (some lb.length) = some bytes := hp
      rw [addressExpand, if_pos (by omega)] at hp
      cases hp
    cases (addressExpand_opened hshort).symm.trans hp
    have := TextForm.short hl hr hshort
    refine ⟨e, ?_⟩
    rcases hb with ⟨rfl, hcolon⟩ | ⟨rfl, hcolon⟩
    · rwa [if_neg (by rintro rfl; exact hcolon rfl)] at this
    · obtain rfl : l = [] := by
        by_contra hne
        exact hl.head _ hne hcolon
      exact this

/-- The last characters of a text, of which a digit has to be given. -/
def TextEnd.chars : TextEnd → UInt8 → List UInt8
  | .gap, _ => [0x3a, 0x3a]
  | .part, c => [c]
  | .colon, c => [c, 0x3a]

theorem Groups.last {l lb : List UInt8} (h : Groups l lb) :
    l ≠ [] → ∃ u c, isHex c ∧ l = u ++ TextEnd.colon.chars c := by
  induction h with
  | nil => exact fun h => absurd rfl h
  | @cons w b ws bs hw _ ih =>
    intro _
    rcases eq_or_ne ws [] with rfl | hne
    · obtain ⟨v, c, hc, rfl⟩ := hw.last
      exact ⟨v, c, hc, by simp [TextEnd.chars]⟩
    · obtain ⟨u, c, hc, rfl⟩ := ih hne
      exact ⟨w ++ 0x3a :: u, c, hc, by simp⟩

theorem TextForm.last {e : TextEnd} {text bytes : List UInt8} (h : TextForm e text bytes) :
    ∃ u c, isHex c ∧ text = u ++ e.chars c := by
  have hparts : ∀ {w bs}, Parts e w bs → e ≠ .gap → ∃ u c, isHex c ∧ w = u ++ e.chars c := by
    intro w bs h he
    cases h with
    | gap => exact absurd rfl he
    | colon hl hne => exact hl.last hne
    | @part l _ _ _ _ hr =>
      obtain ⟨v, c, hc, rfl⟩ := hr.elim HexGroup.last DottedParts.last
      exact ⟨l ++ v, c, hc, by simp [TextEnd.chars]⟩
  rcases eq_or_ne e .gap with rfl | he
  · cases h with
    | full h hlen =>
      cases h
      cases hlen
    | @short l _ _ _ hl hr _ =>
      cases hr
      split
      · exact ⟨[], 0x30, rfl, rfl⟩
      · obtain ⟨u, c, _, rfl⟩ := hl.last ‹_›
        exact ⟨u ++ [c], 0x30, rfl, by simp [TextEnd.chars]⟩
  · cases h with
    | full h _ => exact hparts h he
    | @short l _ _ _ _ hr _ =>
      obtain ⟨u, c, hc, rfl⟩ := hparts hr he
      exact ⟨(if l = [] then [0x3a] else l) ++ 0x3a :: u, c, hc, by simp⟩

/-- A text that has a colon behind its last group has no other form. -/
theorem TextForm.colon_only {bytes' : List UInt8}
    (h : TextForm .colon text bytes) (h' : TextForm e text bytes') : e = .colon := by
  obtain ⟨u, c, hc, htext⟩ := h.last
  obtain ⟨v, x, hx, htext'⟩ := h'.last
  have heq := congrArg List.reverse (htext.symm.trans htext')
  cases e with
  | colon => rfl
  | gap =>
    obtain ⟨rfl, -⟩ := by simpa [TextEnd.chars] using heq
    exact absurd hc (by decide)
  | part =>
    obtain ⟨rfl, -⟩ := by simpa [TextEnd.chars] using heq
    exact absurd hx (by decide)

/-! ## The parse of an address -/

/-- The text forms: no address ends in a single colon. -/
def Denotes (text bytes : List UInt8) : Prop := ∃ e, e ≠ .colon ∧ TextForm e text bytes

def DenotesIpv4 (text bytes : List UInt8) : Prop :=
  ∃ quad, DottedQuad text quad ∧ bytes = quad ++ List.replicate 12 0

theorem addressAnswer_inj {family : ℕ} {old : AstraNetworkAddress} {p p' : Option (List UInt8)}
    (h : addressAnswer family old p = addressAnswer family old p') : p = p' := by
  cases p <;> cases p' <;> simp_all [addressAnswer, parsedAddress]

theorem address_parsed_iff (text : CString) :
    ParsesBy astraNetworkFamilyIpv4 DenotesIpv4 text ∧
      (ParsesBy astraNetworkFamilyIpv6 Denotes text ↔ ¬ ∃ bytes, TextForm .colon text.bytes bytes) := by
  constructor
  · refine ⟨_, fun bytes => ?_, fun old => rfl⟩
    rw [Option.map_eq_some_iff]
    exact exists_congr fun quad => and_congr ipv4Parts_eq_some eq_comm
  obtain ⟨parsed, hparsed, hsound⟩ := parseIpv6_sound text.bytes
  have hiff : ∀ bytes, parsed = some bytes ↔ ∃ e, TextForm e text.bytes bytes := fun bytes =>
    ⟨hsound bytes, fun ⟨_, h⟩ => Option.some.inj (hparsed.symm.trans h.parses)⟩
  have hanswer : ∀ old, astraNetworkAddressParse astraNetworkFamilyIpv6 (some text) (some old)
      = some (addressAnswer astraNetworkFamilyIpv6 old parsed) := fun old => by
    rw [astraNetworkAddressParse, hparsed]
    rfl
  constructor
  · rintro ⟨parsed', hp, hanswer'⟩ ⟨bytes, hcolon⟩
    cases addressAnswer_inj (Option.some.inj ((hanswer (parsedAddress 0 [])).symm.trans (hanswer' _)))
    obtain ⟨e, he, h⟩ := (hp bytes).1 ((hiff bytes).2 ⟨_, hcolon⟩)
    exact he (hcolon.colon_only h)
  · intro hno
    refine ⟨parsed, fun bytes => (hiff bytes).trans ⟨fun ⟨e, h⟩ => ⟨e, ?_, h⟩, fun ⟨e, _, h⟩ => ⟨e, h⟩⟩,
      hanswer⟩
    rintro rfl
    exact hno ⟨bytes, h⟩

/-- `::1:`. -/
def trailingColon : CString := ⟨[0x3a, 0x3a, 0x31, 0x3a], by decide⟩

theorem trailingColon_parsed : ∃ old address,
    astraNetworkAddressParse astraNetworkFamilyIpv6 (some trailingColon) (some old)
      = some (.ok, some address) ∧ ¬ ∃ bytes, Denotes trailingColon.bytes bytes := by
  refine ⟨parsedAddress 0 [], _, rfl, ?_⟩
  rintro ⟨bytes, e, he, h⟩
  have hgroup : HexGroup [0x31] [0, 1] := ⟨by decide, by decide, forall_mem_singleton.2 rfl, rfl⟩
  have hcolon : TextForm .colon trailingColon.bytes _ :=
    .short .nil (.colon (.cons hgroup .nil) (by decide)) (by decide)
  exact he (hcolon.colon_only h)

end Astra

import AstraKernel.Proofs.Path
import AstraKernel.Vfs.Normalise

/-!
# Normal paths

What normalising leaves is a list of names with a slash between them, none of them empty, `.` or
`..` (`astraPathNormalise_normal`), and a path of that form is left as it is
(`astraPathNormalise_self`).
-/

namespace Astra

open List

@[simp] theorem CString.bytes_ofBytes {bytes : List UInt8} (h : 0 ∉ bytes) :
    (CString.ofBytes bytes).bytes = bytes := by
  refine takeWhile_eq_self_iff.2 fun b hb => ?_
  rw [decide_eq_true_iff]
  rintro rfl
  exact h hb

/-- Names with a slash between them. -/
def joined (names : List (List UInt8)) : List UInt8 := [slash].intercalate names

/-- What may stand between the slashes of a normal path. -/
structure NormalName (name : List UInt8) : Prop where
  ne_nil : name ≠ []
  no_slash : slash ∉ name
  not_current : isCurrent name = false
  not_parent : isParent name = false

@[simp] theorem joined_nil : joined [] = [] := rfl

@[simp] theorem joined_singleton (name : List UInt8) : joined [name] = name :=
  intercalate_singleton

variable {rest : CString} {names : List (List UInt8)} {name text : List UInt8}

theorem joined_concat (h : names ≠ []) (name : List UInt8) :
    joined (names ++ [name]) = joined names ++ slash :: name := by
  induction names with
  | nil => exact absurd rfl h
  | cons c names ih =>
    rcases names with _ | ⟨d, names⟩
    · simp [joined]
    · have hc : ∀ l : List (List UInt8), joined (c :: d :: l) = c ++ slash :: joined (d :: l) := by
        intro l
        simp [joined]
      rw [cons_append, cons_append, hc, hc, ← cons_append, ih (by simp)]
      simp

theorem length_joined_le (names more : List (List UInt8)) :
    (joined names).length ≤ (joined (names ++ more)).length := by
  induction more using List.reverseRecOn with
  | nil => rw [append_nil]
  | append_singleton more last ih =>
    rw [← append_assoc]
    rcases eq_or_ne (names ++ more) [] with he | hne
    · rw [(append_eq_nil_iff.1 he).1]
      exact Nat.zero_le _
    · rw [joined_concat hne, length_append]
      exact ih.trans (Nat.le_add_right ..)

theorem joined_ne_nil (h : names ≠ [])
    (hn : ∀ name ∈ names, NormalName name) : joined names ≠ [] := by
  induction names using List.reverseRecOn with
  | nil => exact absurd rfl h
  | append_singleton names name =>
    rcases eq_or_ne names [] with rfl | hne
    · simpa using (hn name (by simp)).ne_nil
    · rw [joined_concat hne]
      simp

theorem dropComponent_concat (h : slash ∉ name) (names : List (List UInt8)) :
    dropComponent (joined (names ++ [name])) = joined names := by
  have hall : ∀ b ∈ name.reverse, decide (b ≠ slash) = true := by
    rintro b hb
    rw [decide_eq_true_iff]
    rintro rfl
    exact h (mem_reverse.1 hb)
  unfold dropComponent
  rcases eq_or_ne names [] with rfl | hne
  · rw [nil_append, joined_singleton, dropWhile_eq_nil_iff.2 hall]
    rfl
  · rw [joined_concat hne, reverse_append, reverse_cons, append_assoc,
      dropWhile_append_of_pos hall]
    simp

section Rounds

variable {capacity : ℕ} {out out' component : List UInt8} {P : List UInt8 → Prop}

def Written (P : List UInt8 → Prop) (out : List UInt8) : Prop :=
  ∃ names, (∀ name ∈ names, NormalName name ∧ P name) ∧ out = joined names

theorem normaliseComponent_written (h : Written P out) (hs : slash ∉ component) (hp : P component)
    (hl : out.length < capacity) (ho : normaliseComponent capacity out component = .ok out') :
    Written P out' ∧ out'.length < capacity := by
  obtain ⟨names, hn, rfl⟩ := h
  unfold normaliseComponent at ho
  split at ho
  · cases ho
    exact ⟨⟨names, hn, rfl⟩, hl⟩
  rename_i he
  split at ho
  · cases ho
    exact ⟨⟨names, hn, rfl⟩, hl⟩
  rename_i hc
  split at ho
  · by_cases hnil : joined names = []
    · rw [if_pos hnil] at ho
      cases ho
    rw [if_neg hnil] at ho
    cases ho
    rcases eq_nil_or_concat names with rfl | ⟨names, name, rfl⟩
    · exact absurd rfl hnil
    rw [concat_eq_append] at hn hl ⊢
    rw [dropComponent_concat (hn name (by simp)).1.no_slash]
    refine ⟨⟨names, fun n h => hn n (mem_append_left _ h), rfl⟩, ?_⟩
    rcases eq_or_ne names [] with rfl | hne
    · simpa using Nat.zero_lt_of_lt hl
    · rw [joined_concat hne, length_append] at hl
      omega
  · rename_i hd
    have hname : NormalName component := ⟨he, hs, by simpa using hc, by simpa using hd⟩
    have hlong : (if joined names = [] then component else joined names ++ slash :: component) =
        joined (names ++ [component]) := by
      rcases eq_or_ne names [] with rfl | hne
      · simp
      · rw [if_neg (joined_ne_nil hne fun n h => (hn n h).1), joined_concat hne]
    simp only [hlong] at ho
    split_ifs at ho with hcap
    cases ho
    refine ⟨⟨names ++ [component], fun n h => ?_, rfl⟩, by omega⟩
    rcases mem_append.1 h with h | h
    · exact hn n h
    · obtain rfl := mem_singleton.1 h
      exact ⟨hname, hp⟩

theorem foldlM_written {components : List (List UInt8)} (h : Written P out)
    (hl : out.length < capacity) (hc : ∀ c ∈ components, slash ∉ c ∧ P c)
    (ho : components.foldlM (normaliseComponent capacity) out = .ok out') :
    Written P out' ∧ out'.length < capacity := by
  induction components generalizing out with
  | nil =>
    cases ho
    exact ⟨h, hl⟩
  | cons c components ih =>
    rw [foldlM_cons] at ho
    rcases hr : normaliseComponent capacity out c with status | next <;> rw [hr] at ho
    · cases ho
    · have hcc := hc c mem_cons_self
      obtain ⟨hw, hlt⟩ := normaliseComponent_written h hcc.1 hcc.2 hl hr
      exact ih hw hlt (fun d hd => hc d (mem_cons_of_mem _ hd)) ho

theorem foldlM_joined {names : List (List UInt8)} (hn : ∀ name ∈ names, NormalName name) :
    ∀ {before : List (List UInt8)}, (∀ name ∈ before, NormalName name) →
      (joined (before ++ names)).length < capacity →
      names.foldlM (normaliseComponent capacity) (joined before) = .ok (joined (before ++ names)) := by
  induction names with
  | nil =>
    intro before _ _
    rw [append_nil]
    rfl
  | cons name names ih =>
    intro before hb hl
    have hname := hn name mem_cons_self
    rw [show before ++ name :: names = before ++ [name] ++ names by simp] at hl ⊢
    have hshort := (length_joined_le (before ++ [name]) names).trans_lt hl
    have hround : normaliseComponent capacity (joined before) name =
        .ok (joined (before ++ [name])) := by
      unfold normaliseComponent
      rw [if_neg hname.ne_nil, if_neg (by simp [hname.not_current]),
        if_neg (by simp [hname.not_parent])]
      have hlong : (if joined before = [] then name else joined before ++ slash :: name) =
          joined (before ++ [name]) := by
        rcases eq_or_ne before [] with rfl | hne
        · simp
        · rw [if_neg (joined_ne_nil hne hb), joined_concat hne]
      simp only [hlong]
      rw [if_neg (by omega)]
    rw [foldlM_cons, hround]
    refine ih (fun n h => hn n (mem_cons_of_mem _ h)) (fun n h => ?_) hl
    rcases mem_append.1 h with h | h
    · exact hb n h
    · obtain rfl := mem_singleton.1 h
      exact hname

end Rounds

/-! ## A normal path is a path -/

theorem slash_not_mem_splitOn : ∀ name ∈ text.splitOn slash, slash ∉ name := by
  induction text with
  | nil => simp
  | cons c text ih =>
    rw [splitOn_cons_eq_if_modifyHead]
    by_cases hc : c = slash
    · rw [if_pos (by simp [hc])]
      exact forall_mem_cons.2 ⟨by simp, ih⟩
    · rw [if_neg (by simpa using hc)]
      rcases hs : text.splitOn slash with _ | ⟨name, names⟩
      · exact absurd hs (splitOn_ne_nil slash text)
      rw [hs] at ih
      rw [modifyHead_cons]
      obtain ⟨h1, h2⟩ := forall_mem_cons.1 ih
      exact forall_mem_cons.2 ⟨by simp [h1, Ne.symm hc], h2⟩

theorem infix_of_not_mem {s : UInt8} {a b : List UInt8} (h : name <:+: a ++ s :: b)
    (hs : s ∉ name) : name <:+: a ∨ name <:+: b := by
  obtain ⟨x, y, hxy⟩ := h
  rcases append_eq_append_iff.1 hxy with ⟨as, rfl, -⟩ | ⟨cs, hx, hy⟩
  · exact .inl ⟨x, as, rfl⟩
  rcases cs with _ | ⟨c, cs⟩
  · exact .inl ⟨x, [], by simpa using hx⟩
  obtain ⟨rfl, rfl⟩ := List.cons.inj hy
  rcases append_eq_append_iff.1 hx with ⟨as, rfl, rfl⟩ | ⟨bs, rfl, hb⟩
  · exact absurd (by simp) hs
  · rcases bs with _ | ⟨d, bs⟩
    · rw [nil_append] at hb
      exact absurd (hb ▸ mem_cons_self) hs
    · obtain ⟨rfl, rfl⟩ := List.cons.inj hb
      exact .inr ⟨bs, y, rfl⟩

theorem infix_joined (h : name <:+: joined names)
    (hs : slash ∉ name) : name = [] ∨ ∃ n ∈ names, name <:+: n := by
  induction names using List.reverseRecOn with
  | nil => exact .inl (infix_nil.1 h)
  | append_singleton names last ih =>
    rcases eq_or_ne names [] with rfl | hne
    · exact .inr ⟨last, by simp, by simpa using h⟩
    · rw [joined_concat hne] at h
      rcases infix_of_not_mem h hs with h | h
      · refine (ih h).imp_right fun ⟨n, hn, hi⟩ => ⟨n, mem_append_left _ hn, hi⟩
      · exact .inr ⟨last, by simp, h⟩

theorem infix_of_mem_names : ∀ name ∈ names, name <:+: joined names := by
  induction names using List.reverseRecOn with
  | nil => simp
  | append_singleton names last ih =>
    rcases eq_or_ne names [] with rfl | hne
    · simp
    · rw [joined_concat hne]
      intro name h
      rcases mem_append.1 h with h | h
      · exact (ih name h).trans (prefix_append ..).isInfix
      · obtain rfl := mem_singleton.1 h
        exact ((suffix_cons ..).trans (suffix_append ..)).isInfix

theorem utf8_joined : Utf8 (joined names) ↔ ∀ name ∈ names, Utf8 name := by
  have hs : slash.toNat < 128 := by decide
  induction names using List.reverseRecOn with
  | nil => simpa using utf8_nil
  | append_singleton names last ih =>
    rcases eq_or_ne names [] with rfl | hne
    · simp
    · rw [joined_concat hne]
      refine ⟨fun h name hn => ?_, fun h => ?_⟩
      · obtain ⟨h1, h2⟩ := h.split hs
        rcases mem_append.1 hn with hn | hn
        · exact ih.1 h1 name hn
        · rwa [mem_singleton.1 hn]
      · exact (ih.2 fun n hn => h n (mem_append_left _ hn)).join hs (h last (by simp))

theorem pathText_joined (hn : ∀ name ∈ names, PathText name)
    (hl : (joined names).length < astraVfsPathMax) : PathText (joined names) where
  noNul := by
    clear hl
    induction names using List.reverseRecOn with
    | nil => simp
    | append_singleton names last ih =>
      have hlast := (hn last (by simp)).noNul
      rcases eq_or_ne names [] with rfl | hne
      · simpa using hlast
      · rw [joined_concat hne]
        have h0 : (0 : UInt8) ≠ slash := by decide
        simpa [hlast, h0] using ih fun n h => hn n (mem_append_left _ h)
  utf8 := utf8_joined.2 fun n h => (hn n h).utf8
  names := by
    intro name hi hs
    rcases infix_joined hi hs with rfl | ⟨n, hm, hi⟩
    · simp
    · exact (hn n hm).names name hi hs
  length := hl

theorem PathText.component (h : PathText text)
    (hm : name ∈ text.splitOn slash) : PathText name := by
  have hj : joined (text.splitOn slash) = text := intercalate_splitOn slash
  have hi : name <:+: text := by
    have := infix_of_mem_names name hm
    rwa [hj] at this
  refine ⟨fun h0 => h.noNul (hi.subset h0), ?_, fun n hn => h.names n (hn.trans hi), ?_⟩
  · have hu : Utf8 (joined (text.splitOn slash)) := by
      rw [hj]
      exact h.utf8
    exact utf8_joined.1 hu name hm
  · have := hi.length_le
    have := h.length
    omega

theorem measure_iff (text : CString) :
    (astraVfsPathMeasure (some text)).1 = .ok ↔ PathText text.bytes :=
  pathOperandLength_iff text

def NormalPath (text : List UInt8) : Prop :=
  ∃ names, (∀ name ∈ names, NormalName name) ∧ text = joined names

theorem astraPathNormalise_normal {capacity : ℕ} {out : List UInt8}
    (h : astraPathNormalise rest capacity = .ok out) (hc : capacity ≤ astraVfsPathMax) :
    NormalPath out ∧ PathText out ∧ out.length < capacity := by
  unfold astraPathNormalise at h
  split_ifs at h with hm h0
  have hrest := (measure_iff rest).1 (not_not.1 hm)
  obtain ⟨⟨names, hn, rfl⟩, hl⟩ := foldlM_written (P := PathText)
    ⟨[], by simp, rfl⟩ (Nat.pos_of_ne_zero h0)
    (fun c hc => ⟨slash_not_mem_splitOn c hc, hrest.component hc⟩) h
  exact ⟨⟨names, fun n h => (hn n h).1, rfl⟩,
    pathText_joined (fun n h => (hn n h).2) (hl.trans_le hc), hl⟩

theorem astraPathNormalise_self {capacity : ℕ} (h : NormalPath rest.bytes)
    (hp : PathText rest.bytes) (hl : rest.bytes.length < capacity) :
    astraPathNormalise rest capacity = .ok rest.bytes := by
  obtain ⟨names, hn, he⟩ := h
  unfold astraPathNormalise
  rw [if_neg (not_not.2 ((measure_iff rest).2 hp)), if_neg (by omega), he]
  rw [he] at hl
  rcases eq_or_ne names [] with rfl | hne
  · rfl
  · rw [joined, splitOn_intercalate slash (fun n h => (hn n h).no_slash) hne]
    change names.foldlM (normaliseComponent capacity) (joined []) = .ok (joined ([] ++ names))
    exact foldlM_joined hn (by simp) hl

end Astra

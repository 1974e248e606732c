import AstraKernel.Proofs.Assign

/-!
# A path as a stack of names

Reading a path component by component keeps a stack of names: a name is put on it, `..` takes the
last one off, and there is nothing below the first (`climb`). Normalising is that, in the room there
is (`normaliseComponent_climb`).
-/

namespace Astra

open List

variable {capacity : ℕ} {names before components : List (List UInt8)} {component : List UInt8}

/-- One component on the names before it; `none` where it goes above the first. -/
def climb (names : List (List UInt8)) (component : List UInt8) : Option (List (List UInt8)) :=
  if component = [] ∨ isCurrent component then some names
  else if isParent component then if names = [] then none else some names.dropLast
  else some (names ++ [component])

/-- What the components come to. -/
def stackOf (components : List (List UInt8)) : Option (List (List UInt8)) :=
  components.foldlM climb []

def fitted (capacity : ℕ) : Option (List (List UInt8)) → Except AstraVfsStatus (List UInt8)
  | none => .error .notFound
  | some names =>
    if capacity ≤ (joined names).length then .error (outputOverflow capacity)
    else .ok (joined names)

def AllNormal (names : List (List UInt8)) : Prop := ∀ name ∈ names, NormalName name

theorem climb_normal (hb : AllNormal before) (hs : slash ∉ component)
    (h : climb before component = some names) : AllNormal names := by
  unfold climb at h
  split_ifs at h with hskip hup hnil
  · exact Option.some.inj h ▸ hb
  · exact Option.some.inj h ▸ fun n hn => hb n (mem_of_mem_dropLast hn)
  · rw [not_or] at hskip
    cases h
    intro n hn
    obtain hn | hn := mem_append.1 hn
    · exact hb n hn
    · rw [mem_singleton.1 hn]
      exact ⟨hskip.1, hs, by simpa using hskip.2, by simpa using hup⟩

theorem climb_sublist (h : climb before component = some names) :
    names.Sublist (before ++ [component]) := by
  unfold climb at h
  split_ifs at h
  · exact Option.some.inj h ▸ sublist_append_left before [component]
  · exact Option.some.inj h ▸ (dropLast_sublist before).trans (sublist_append_left ..)
  · exact Option.some.inj h ▸ List.Sublist.refl _

section

variable (hb : AllNormal before)
include hb

theorem joined_eq_nil : joined before = [] ↔ before = [] := by
  refine ⟨fun h => ?_, fun h => by rw [h, joined_nil]⟩
  by_contra hne
  exact joined_ne_nil hne hb h

theorem normaliseComponent_climb (hl : (joined before).length < capacity) :
    normaliseComponent capacity (joined before) component = fitted capacity (climb before component) := by
  have hkept : fitted capacity (some before) = .ok (joined before) := if_neg (by omega)
  unfold normaliseComponent climb
  split
  · rename_i he
    rw [if_pos (.inl he), hkept]
  rename_i he
  split
  · rename_i hc
    rw [if_pos (.inr hc), hkept]
  rename_i hc
  rw [if_neg (not_or.2 ⟨he, hc⟩)]
  by_cases hp : isParent component = true
  · rw [if_pos hp, if_pos hp, if_congr (joined_eq_nil hb) rfl rfl]
    split_ifs with hnil
    · rfl
    obtain ⟨names, name, rfl⟩ := (eq_nil_or_concat before).resolve_left hnil
    rw [concat_eq_append] at hb hl ⊢
    have hshort := length_joined_le names [name]
    rw [dropComponent_concat (hb name (by simp)).no_slash, dropLast_concat]
    exact (if_neg (by omega)).symm
  · have hlong : (if joined before = [] then component else joined before ++ slash :: component) =
        joined (before ++ [component]) := by
      rw [if_congr (joined_eq_nil hb) rfl rfl]
      split_ifs with hnil
      · simp [hnil]
      · rw [joined_concat hnil]
    rw [if_neg hp, if_neg hp]
    rw [hlong]
    rfl

/-! ## All components -/

theorem foldlM_climb_normal (hs : ∀ c ∈ components, slash ∉ c)
    (h : components.foldlM climb before = some names) : AllNormal names := by
  induction components generalizing before with
  | nil => exact Option.some.inj h ▸ hb
  | cons c components ih =>
    rw [foldlM_cons] at h
    obtain ⟨next, hnext, h⟩ := Option.bind_eq_some_iff.1 h
    exact ih (climb_normal hb (hs c mem_cons_self) hnext)
      (fun d hd => hs d (mem_cons_of_mem _ hd)) h

end

theorem foldlM_climb_sublist (h : components.foldlM climb before = some names) :
    names.Sublist (before ++ components) := by
  induction components generalizing before with
  | nil => simpa using (Option.some.inj h).symm ▸ List.Sublist.refl before
  | cons c components ih =>
    rw [foldlM_cons] at h
    obtain ⟨next, hnext, h⟩ := Option.bind_eq_some_iff.1 h
    have hrest := (ih h).trans ((climb_sublist hnext).append_right components)
    simpa using hrest

/-- Every stack on the way to the `k`th component fits. -/
def FitsUpTo (capacity : ℕ) (before components : List (List UInt8)) (k : ℕ) : Prop :=
  ∀ j < k, ∀ names, (components.take j).foldlM climb before = some names →
    (joined names).length < capacity

theorem outputOverflow_ne (capacity : ℕ) : outputOverflow capacity ≠ .notFound := by
  unfold outputOverflow
  split_ifs <;> decide

theorem fitsUpTo_succ (hl : (joined before).length < capacity) (k : ℕ)
    (h : climb before component = some names) :
    FitsUpTo capacity before (component :: components) (k + 1) ↔
      FitsUpTo capacity names components k := by
  have hstep : ∀ j, ((component :: components).take (j + 1)).foldlM climb before =
      (components.take j).foldlM climb names := by
    intro j
    rw [take_succ_cons, foldlM_cons, h]
    rfl
  constructor
  · intro hfits j hj next hnext
    exact hfits (j + 1) (by omega) next ((hstep j).trans hnext)
  · rintro hfits (_ | j) hj next hnext
    · rw [take_zero] at hnext
      exact Option.some.inj hnext ▸ hl
    · exact hfits j (by omega) next ((hstep j).symm.trans hnext)

theorem foldlM_notFound (hb : AllNormal before) (hl : (joined before).length < capacity)
    (hs : ∀ c ∈ components, slash ∉ c) :
    components.foldlM (normaliseComponent capacity) (joined before) = .error .notFound ↔
      ∃ k, (components.take k).foldlM climb before = none ∧ FitsUpTo capacity before components k := by
  induction components generalizing before with
  | nil =>
    refine ⟨fun h => ?_, ?_⟩
    · cases h
    · rintro ⟨k, hk, -⟩
      rw [take_nil] at hk
      cases hk
  | cons c components ih =>
    rw [foldlM_cons, normaliseComponent_climb hb hl]
    rcases hclimb : climb before c with _ | names
    · refine iff_of_true rfl ⟨1, ?_, fun j hj next hnext => ?_⟩
      · rw [take_succ_cons, foldlM_cons, hclimb]
        rfl
      · obtain rfl : j = 0 := by omega
        rw [take_zero] at hnext
        exact Option.some.inj hnext ▸ hl
    have hstep : ∀ j, ((c :: components).take (j + 1)).foldlM climb before =
        (components.take j).foldlM climb names := by
      intro j
      rw [take_succ_cons, foldlM_cons, hclimb]
      rfl
    by_cases hlong : capacity ≤ (joined names).length
    · have hfitted : fitted capacity (some names) = .error (outputOverflow capacity) := if_pos hlong
      rw [hfitted]
      refine iff_of_false (fun h => outputOverflow_ne capacity (Except.error.inj h)) ?_
      rintro ⟨(_ | _ | k), hk, hfits⟩
      · cases hk
      · rw [hstep] at hk
        cases hk
      · have := hfits 1 (by omega) names (hstep 0)
        omega
    · have hfitted : fitted capacity (some names) = .ok (joined names) := if_neg hlong
      rw [hfitted]
      refine (ih (climb_normal hb (hs c mem_cons_self) hclimb) (by omega)
        (fun d hd => hs d (mem_cons_of_mem _ hd))).trans ?_
      constructor
      · rintro ⟨k, hk, hfits⟩
        exact ⟨k + 1, (hstep k).trans hk, (fitsUpTo_succ hl k hclimb).2 hfits⟩
      · rintro ⟨(_ | k), hk, hfits⟩
        · cases hk
        · exact ⟨k, (hstep k).symm.trans hk, (fitsUpTo_succ hl k hclimb).1 hfits⟩

variable {path : CString} {c out text : List UInt8}

theorem foldlM_stack (hb : AllNormal before)
    (hl : (joined before).length < capacity) (hs : ∀ c ∈ components, slash ∉ c)
    (h : components.foldlM (normaliseComponent capacity) (joined before) = .ok out) :
    ∃ names, components.foldlM climb before = some names ∧ out = joined names ∧
      out.length < capacity := by
  induction components generalizing before with
  | nil => exact ⟨before, rfl, (Except.ok.inj h).symm, Except.ok.inj h ▸ hl⟩
  | cons c components ih =>
    rw [foldlM_cons, normaliseComponent_climb hb hl] at h
    rw [foldlM_cons]
    rcases hclimb : climb before c with _ | names <;> rw [hclimb] at h
    · cases h
    by_cases hlong : capacity ≤ (joined names).length
    · have hfitted : fitted capacity (some names) = .error (outputOverflow capacity) := if_pos hlong
      rw [hfitted] at h
      cases h
    · have hfitted : fitted capacity (some names) = .ok (joined names) := if_neg hlong
      rw [hfitted] at h
      exact ih (climb_normal hb (hs c mem_cons_self) hclimb) (by omega)
        (fun d hd => hs d (mem_cons_of_mem _ hd)) h

/-! ## What is left -/

theorem pathText_nil : PathText [] where
  noNul := by simp
  utf8 := ⟨[], rfl⟩
  names := by
    rintro name hname -
    simp [infix_nil.1 hname]
  length := by simp

theorem length_joined (h : names ≠ []) :
    (joined names).length + 1 = (names.map fun name => name.length + 1).sum := by
  induction names using List.reverseRecOn with
  | nil => exact absurd rfl h
  | append_singleton names last ih =>
    rcases eq_or_ne names [] with rfl | hne
    · simp
    · have := ih hne
      rw [joined_concat hne, map_append, sum_append]
      simp only [length_append, length_cons, map_cons, map_nil, sum_cons,
        sum_nil]
      omega

theorem length_joined_sublist (h : names.Sublist components) :
    (joined names).length ≤ (joined components).length := by
  rcases eq_or_ne names [] with rfl | hne
  · exact Nat.zero_le _
  have hne' : components ≠ [] := by
    rintro rfl
    exact hne (sublist_nil.1 h)
  have hsum := (h.map fun name : List UInt8 => name.length + 1).sum_le_sum fun _ _ => Nat.zero_le _
  have hn := length_joined hne
  have hc := length_joined hne'
  omega

theorem joined_splitOn (text : List UInt8) : joined (text.splitOn slash) = text :=
  intercalate_splitOn slash

theorem stack_pathText (ht : PathText text)
    (h : stackOf (text.splitOn slash) = some names) : PathText (joined names) := by
  have hsub : names.Sublist (text.splitOn slash) := by simpa using foldlM_climb_sublist h
  have hlength := length_joined_sublist hsub
  rw [joined_splitOn] at hlength
  have := ht.length
  exact pathText_joined (fun n hn => ht.component (hsub.subset hn)) (by omega)

theorem stackOf_normal (h : stackOf (text.splitOn slash) = some names) : AllNormal names :=
  foldlM_climb_normal (fun _ hn => absurd hn not_mem_nil) slash_not_mem_splitOn h

theorem normalise_stack (h : astraPathNormalise path capacity = .ok out) : PathText path.bytes ∧
      out.length < capacity ∧ ∃ names, stackOf (path.bytes.splitOn slash) = some names ∧
        out = joined names := by
  unfold astraPathNormalise at h
  split_ifs at h with hm h0
  have hnone : AllNormal [] := fun _ hn => absurd hn not_mem_nil
  obtain ⟨names, hstack, hout, hl⟩ := foldlM_stack hnone (Nat.pos_of_ne_zero h0)
    slash_not_mem_splitOn h
  exact ⟨(measure_iff path).1 (not_not.1 hm), hl, names, hstack, hout⟩

theorem normalise_normalPath
    (h : astraPathNormalise path capacity = .ok out) : NormalPath out ∧ PathText out := by
  obtain ⟨ht, -, names, hstack, rfl⟩ := normalise_stack h
  exact ⟨⟨names, stackOf_normal hstack, rfl⟩, stack_pathText ht hstack⟩

/-- No slash before, behind or next to another one, and no component that is not a name. -/
structure Tidy (out : List UInt8) : Prop where
  head : out.head? ≠ some slash
  last : out.getLast? ≠ some slash
  single : ¬[slash, slash] <:+: out
  names : out ≠ [] → AllNormal (out.splitOn slash)

theorem NormalPath.tidy (h : NormalPath out) : Tidy out := by
  obtain ⟨names, hn, rfl⟩ := h
  have hsplit : joined names ≠ [] → (joined names).splitOn slash = names := by
    intro hne
    refine splitOn_intercalate slash (fun n h => (hn n h).no_slash) ?_
    rintro rfl
    exact hne rfl
  have hnil : joined names ≠ [] → [] ∉ (joined names).splitOn slash := by
    intro hne hmem
    rw [hsplit hne] at hmem
    exact (hn [] hmem).ne_nil rfl
  have hapart : ∀ before behind, joined names = before ++ slash :: behind →
      before.splitOn slash ++ behind.splitOn slash = (joined names).splitOn slash := by
    intro before behind h
    rw [h, splitOn_append_cons_self]
  refine ⟨fun h => ?_, fun h => ?_, ?_, fun hne => (hsplit hne).symm ▸ hn⟩
  · obtain ⟨behind, hbehind⟩ := List.head?_eq_some_iff.1 h
    refine hnil (by simp [hbehind]) ?_
    rw [← hapart [] behind hbehind]
    simp
  · obtain ⟨before, hbefore⟩ := List.getLast?_eq_some_iff.1 h
    refine hnil (by simp [hbefore]) ?_
    rw [← hapart before [] hbefore]
    simp
  · rintro ⟨before, behind, h⟩
    rw [append_assoc, cons_append, cons_append, nil_append] at h
    have hsecond : (slash :: behind).splitOn slash = [] :: behind.splitOn slash :=
      splitOn_append_cons_self [] behind
    refine hnil (by simp [← h]) ?_
    rw [← hapart _ _ h.symm, hsecond]
    simp

/-! ## Collapsing first -/

def named (text : List UInt8) : List (List UInt8) := (text.splitOn slash).filter (· ≠ [])

theorem named_append (before behind : List UInt8) :
    named (before ++ slash :: behind) = named before ++ named behind := by
  rw [named, splitOn_append_cons_self, filter_append]
  rfl

theorem foldlM_collapse {path : List UInt8}
    (h : path.foldlM (collapseByte capacity) out = .ok c) : named c = named (out ++ path) ∧
      c.length ≤ out.length + path.length ∧ ∀ b ∈ c, b ∈ out ++ path := by
  induction path generalizing out with
  | nil =>
    obtain rfl := Except.ok.inj h
    simp
  | cons b path ih =>
    rw [foldlM_cons] at h
    unfold collapseByte at h
    split_ifs at h with hsecond hroom
    · obtain ⟨rfl, hlast⟩ := hsecond
      obtain ⟨before, rfl⟩ := List.getLast?_eq_some_iff.1 hlast
      obtain ⟨hnamed, hlength, hbytes⟩ := ih h
      refine ⟨hnamed.trans ?_, hlength.trans (by simp), fun b hb => ?_⟩
      · have hslash : named (slash :: path) = named path := by
          simpa [named] using named_append [] path
        rw [append_assoc, append_assoc, singleton_append, singleton_append,
          named_append, named_append, hslash]
      · have := hbytes b hb
        simp only [mem_append, mem_cons] at this ⊢
        tauto
    · cases h
    · obtain ⟨hnamed, hlength, hbytes⟩ := ih h
      rw [append_assoc, singleton_append] at hnamed hbytes
      refine ⟨hnamed, hlength.trans ?_, hbytes⟩
      simp
      omega

theorem foldlM_collapse_room {path : List UInt8} (h : out.length + path.length < capacity) :
    ∃ c, path.foldlM (collapseByte capacity) out = .ok c := by
  induction path generalizing out with
  | nil => exact ⟨out, rfl⟩
  | cons b path ih =>
    rw [length_cons] at h
    rw [foldlM_cons]
    unfold collapseByte
    split
    · exact ih (by omega)
    · rw [if_neg (by omega)]
      exact ih (by simp; omega)

theorem foldlM_named (out : List UInt8) (components : List (List UInt8)) :
    (components.filter (· ≠ [])).foldlM (normaliseComponent capacity) out =
      components.foldlM (normaliseComponent capacity) out := by
  induction components generalizing out with
  | nil => rfl
  | cons c components ih =>
    rw [foldlM_cons]
    by_cases hc : c = []
    · have hskip : normaliseComponent capacity out c = .ok out := if_pos hc
      rw [filter_cons_of_neg (by simpa using hc), ih, hskip]
      rfl
    · rw [filter_cons_of_pos (by simpa using hc), foldlM_cons]
      rcases normaliseComponent capacity out c with status | next
      · rfl
      · exact ih next

theorem collapse_pathText {path : List UInt8} (ht : PathText path) (hn : named c = named path)
    (hl : c.length ≤ path.length) : PathText c := by
  have := ht.length
  rw [← joined_splitOn c]
  refine pathText_joined (fun n hmem => ?_) (by rw [joined_splitOn]; omega)
  by_cases hnil : n = []
  · exact hnil ▸ pathText_nil
  · have hnamed : n ∈ named c := mem_filter.2 ⟨hmem, by simpa using hnil⟩
    rw [hn] at hnamed
    exact ht.component (mem_of_mem_filter hnamed)

theorem normalise_collapse {room : ℕ} (h : astraPathCollapse path room = .ok c) :
    astraPathNormalise (.ofBytes c) capacity = astraPathNormalise path capacity := by
  unfold astraPathCollapse at h
  split_ifs at h with hm h0
  have ht := (measure_iff path).1 (not_not.1 hm)
  obtain ⟨hnamed, hlength, -⟩ := foldlM_collapse h
  simp only [nil_append, length_nil, Nat.zero_add] at hnamed hlength
  have hc := collapse_pathText ht hnamed hlength
  have hbytes : (CString.ofBytes c).bytes = c := CString.bytes_ofBytes hc.noNul
  have hm' : ¬(astraVfsPathMeasure (some (.ofBytes c))).1 ≠ .ok :=
    not_not.2 ((measure_iff _).2 (hbytes.symm ▸ hc))
  unfold astraPathNormalise
  rw [if_neg hm', if_neg hm, hbytes]
  by_cases hcap : capacity = 0
  · rw [if_pos hcap, if_pos hcap]
  · rw [if_neg hcap, if_neg hcap, ← foldlM_named, ← foldlM_named [] (path.bytes.splitOn slash)]
    exact congrArg (List.foldlM _ _) hnamed

/-! ## The paths of an assign -/

/-- The rest of a path behind a root; what is empty leaves no slash. -/
def underRoot (root rest : List UInt8) : List UInt8 :=
  slash :: joined ([root, rest].filter (· ≠ []))

theorem underRoot_eq (root rest : List UInt8) : underRoot root rest =
    if root = [] then slash :: rest
    else if rest = [] then slash :: root
    else slash :: root ++ slash :: rest := by
  unfold underRoot
  by_cases hroot : root = []
  · by_cases hrest : rest = [] <;> simp [hroot, hrest]
  · by_cases hrest : rest = [] <;> simp [hroot, hrest, joined]

/-- What stands behind the name of the assign. -/
def behindName (path : List UInt8) : List UInt8 :=
  ((path.drop 1).dropWhile (· ≠ slash)).drop 1

theorem assignResolve_under {table : AstraAssignTable} {rights : UInt32}
    {member : ℕ} {wire : List UInt8} {found : AstraAssign}
    (h : astraAssignResolve table path rights member capacity = .ok (wire, found)) :
    found ∈ table.members ∧ ∃ room out,
      astraPathNormalise (.ofBytes (behindName path.bytes)) room = .ok out ∧
      wire = underRoot found.root.bytes out := by
  unfold astraAssignResolve assignResolve at h
  simp only [Bool.false_eq_true, if_false] at h
  split_ifs at h with hcap hm
  rcases hpath : path.bytes with _ | ⟨b, text⟩ <;> rw [hpath] at h
  · cases h
  dsimp only at h
  split_ifs at h with h1 h2 h3
  generalize hname : CString.ofBytes ((text.takeWhile (· ≠ slash)).map astraAsciiUpper) = name at h
  rcases hfound : memberCanonical table name member with _ | entry <;> rw [hfound] at h
  · cases h
  have hmember : entry ∈ table.members := by
    rw [memberCanonical_eq] at hfound
    exact mem_of_mem_filter (mem_of_getElem? hfound)
  dsimp only at h
  split_ifs at h with h4 h5 hroot
  all_goals
    generalize hroom : capacity - _ = room at h
    rcases htail : astraPathNormalise (.ofBytes ((text.dropWhile (· ≠ slash)).drop 1)) room
      with status | tail <;> rw [htail] at h
    · cases h
    dsimp only at h
    split_ifs at h with hempty
    all_goals
      cases h
      refine ⟨hmember, room, tail, htail, ?_⟩
      rw [underRoot_eq]
  · simp at hempty
  · simp [hroot]
  · rw [if_neg hroot, if_pos hempty.1, dropLast_concat]
  · have hsome : tail ≠ [] := by
      rintro rfl
      exact hempty ⟨rfl, by simp⟩
    simp [hroot, hsome]

theorem underRoot_names {root : List (List UInt8)} (hroot : AllNormal root) (hn : AllNormal names) :
    underRoot (joined root) (joined names) = slash :: joined (root ++ names) := by
  have hjoined : ∀ more : List (List UInt8), root ≠ [] → more ≠ [] →
      joined (root ++ more) = joined root ++ slash :: joined more := by
    intro more hne
    induction more using List.reverseRecOn with
    | nil => exact fun h => absurd rfl h
    | append_singleton more last ih =>
      rw [← append_assoc, joined_concat (by simp [hne])]
      rcases eq_or_ne more [] with rfl | hmore
      · simp
      · rw [ih hmore, joined_concat hmore]
        simp
  rw [underRoot_eq, if_congr (joined_eq_nil hroot) rfl rfl, if_congr (joined_eq_nil hn) rfl rfl]
  split_ifs with h1 h2
  · simp [h1]
  · simp [h2]
  · rw [hjoined names h1 h2]
    rfl

/-! ## The whole -/

theorem pathComponents_ne_notFound : ∀ (component : ℕ) (text : List UInt8),
    pathComponents component text ≠ .notFound
  | _, [] => by simp [pathComponents]
  | component, c :: rest => by
    unfold pathComponents
    split_ifs
    · simp
    · exact pathComponents_ne_notFound 0 rest
    · simp
    · exact pathComponents_ne_notFound (component + 1) rest

theorem measure_ne_notFound (path : CString) : (astraVfsPathMeasure (some path)).1 ≠ .notFound := by
  unfold astraVfsPathMeasure pathOperandLength
  dsimp only
  rcases findNul astraVfsPathMax path.memory with _ | i
  · simp
  · dsimp only
    unfold pathOperandStatus
    split_ifs
    · simp
    · simp
    · simp
    · exact pathComponents_ne_notFound 0 _

end Astra

import AstraKernel.Events.Store
import AstraKernel.Package.Ledger
import Mathlib.Logic.Relation

/-!
# Links that stay in the bundle

A link is resolved from the directory it is in, and every link met on the way is followed. Counting
how deep a target is takes every name for one level down, which the name of a link is not: behind it,
`..` leaves the directory that was reached. Where no target goes up behind a link, what is counted is
where the walk is, and it does not leave the bundle.
-/

namespace Astra

open List

/-- The names on the way to an entry, that of the bundle first. -/
def PackageEntry.names (e : PackageEntry) : List (List UInt8) :=
  (relativePath e.path).splitOn slash

/-- What is installed under the names. -/
def entryAt (entries : List PackageEntry) (names : List (List UInt8)) : Option PackageEntry :=
  entries.find? fun e => e.names = names

/-- A resolution under way: the directory that has been reached, and what is left of the text. -/
structure LinkWalk where
  directory : List (List UInt8)
  rest : List (List UInt8)
  deriving DecidableEq

/-- The walk ends at a file, and at what is not installed. -/
def LinkWalk.step (entries : List PackageEntry) (w : LinkWalk) : Option LinkWalk :=
  match w.rest with
  | [] => none
  | name :: rest =>
    if isCurrent name then some ⟨w.directory, rest⟩
    else if isParent name then some ⟨w.directory.dropLast, rest⟩
    else
      match entryAt entries (w.directory ++ [name]) with
      | none => none
      | some e =>
        match e.kind, e.link with
        | .symlink, some target => some ⟨w.directory, target.splitOn slash ++ rest⟩
        | .directory, _ => some ⟨w.directory ++ [name], rest⟩
        | _, _ => none

def LinkWalk.Reaches (entries : List PackageEntry) : LinkWalk → LinkWalk → Prop :=
  Relation.ReflTransGen fun w w' => w.step entries = some w'

/-- The resolution of a link starts beside it. -/
def PackageEntry.walk (e : PackageEntry) (target : List UInt8) : LinkWalk :=
  ⟨e.names.dropLast, target.splitOn slash⟩

/-- No link of the entries leads out of the bundle on its way. -/
def LinksConfined (bundle : List UInt8) (entries : List PackageEntry) : Prop :=
  ∀ e ∈ entries, ∀ target, e.link = some target → ∀ w, (e.walk target).Reaches entries w →
    [bundle] <+: w.directory

/-- From the directory, the names do not go up behind one that is a link's. -/
def Straight (entries : List PackageEntry) : List (List UInt8) → List (List UInt8) → Prop
  | _, [] => True
  | directory, name :: rest =>
    if isCurrent name then Straight entries directory rest
    else if isParent name then Straight entries directory.dropLast rest
    else if ∃ e ∈ entryAt entries (directory ++ [name]), e.kind = .symlink then
      ∀ later ∈ rest, ¬ isParent later
    else Straight entries (directory ++ [name]) rest

/-- No target of a link goes up behind the name of a link. -/
def LinksStraight (entries : List PackageEntry) : Prop :=
  ∀ e ∈ entries, ∀ target, e.link = some target →
    Straight entries e.names.dropLast (target.splitOn slash)

/-- What an entry of an accepted ledger has been checked for. -/
structure EntryChecked (bundle : List UInt8) (e : PackageEntry) : Prop where
  path : payloadPath e.path bundle = true
  link : ∀ target, e.link = some target → safeLink (relativePath e.path) target = true

section

variable {sha256 : List UInt8 → List UInt8} {memory : ℕ → Bool} {bundle text : List UInt8}
  {entries : List PackageEntry} {e : PackageEntry} {names directory rest : List (List UInt8)}

theorem safeLink_of_entryFits {kind : PackageKind} {mode length : ℕ} {path target : List UInt8}
    (h : entryFits kind mode length path (some target) = true) :
    safeLink (relativePath path) target = true := by
  cases kind with
  | symlink =>
    simp only [entryFits, decide_eq_true_eq] at h
    exact h.2.2
  | directory | file => exact absurd h Bool.false_ne_true

theorem ledgerEntry_checked {fields : List (List UInt8)}
    (h : ledgerEntry sha256 bundle entries fields = some e) : EntryChecked bundle e := by
  unfold ledgerEntry at h
  split at h
  · split at h
    · rw [Option.ite_none_right_eq_some] at h
      obtain ⟨⟨-, hpath, -, hfits, -, -⟩, he⟩ := h
      cases he
      refine ⟨hpath, fun target ht => ?_⟩
      dsimp only at ht ⊢
      rw [ht] at hfits
      exact safeLink_of_entryFits hfits
    · exact absurd h (by simp)
  · exact absurd h (by simp)

theorem parseLedger_checked : ∀ (fuel : ℕ) (entries : List PackageEntry) (text : List UInt8),
    (∀ e ∈ entries, EntryChecked bundle e) → ∀ {all : List PackageEntry},
    parseLedger sha256 memory bundle fuel entries text = .ok all → ∀ e ∈ all, EntryChecked bundle e
  | _, entries, [], hentries, all, h => by
    unfold parseLedger at h
    split_ifs at h
    exact Except.ok.inj h ▸ hentries
  | 0, entries, c :: text, _, all, h => by
    unfold parseLedger at h
    exact absurd h (by simp)
  | fuel + 1, entries, c :: text, hentries, all, h => by
    unfold parseLedger at h
    split at h
    · exact absurd h (by simp)
    split at h
    · exact absurd h (by simp)
    split at h
    · exact absurd h (by simp)
    next e he =>
    split_ifs at h
    refine parseLedger_checked fuel _ _ (fun e' he' => ?_) h
    rcases mem_append.1 he' with he' | he'
    · exact hentries e' he'
    · exact mem_singleton.1 he' ▸ ledgerEntry_checked he

theorem length_splitOn (text : List UInt8) :
    (text.splitOn slash).length = text.count slash + 1 := by
  induction text with
  | nil => rfl
  | cons c text ih =>
    rw [splitOn_cons_eq_if_modifyHead]
    by_cases hc : c = slash
    · simp [hc, ih]
    · simp [hc, ih]

theorem splitOn_append_slash {front : List UInt8} (hf : slash ∉ front) (text : List UInt8) :
    (front ++ slash :: text).splitOn slash = front :: text.splitOn slash := by
  induction front with
  | nil => simp [splitOn_cons_eq_if_modifyHead]
  | cons c front ih =>
    rw [mem_cons, not_or] at hf
    rw [cons_append, splitOn_cons_eq_if_modifyHead, ih hf.2]
    simp [Ne.symm hf.1]

/-- A link is in a directory of the bundle, as deep as is counted. -/
theorem EntryChecked.inside (h : EntryChecked bundle e) (hb : slash ∉ bundle)
    {target : List UInt8} (ht : e.link = some target) :
    [bundle] <+: e.names.dropLast ∧
      linkStays e.names.dropLast.length (target.splitOn slash) = true := by
  have hlink := h.link target ht
  unfold safeLink at hlink
  split_ifs at hlink with _ hdepth
  have hpath := h.path
  unfold payloadPath at hpath
  simp only [decide_eq_true_eq] at hpath
  obtain ⟨-, ⟨behind, hbehind⟩, hend, -⟩ := hpath
  refine ⟨?_, ?_⟩
  · rw [← hbehind] at hdepth hend
    obtain _ | ⟨c, behind⟩ := behind
    · rw [append_nil, count_eq_zero] at hdepth
      exact absurd hb hdepth
    · have hc : c = slash := by simpa using hend
      unfold PackageEntry.names
      rw [← hbehind, hc, splitOn_append_slash hb,
        dropLast_cons_of_ne_nil (splitOn_ne_nil slash behind)]
      exact ⟨_, rfl⟩
  · rwa [length_dropLast, PackageEntry.names, length_splitOn, Nat.add_sub_cancel]

/-- A walk that has `here` of its text left within the check of one target, and goes up no more
behind that. -/
structure Confined (bundle : List UInt8) (entries : List PackageEntry) (w : LinkWalk) : Prop where
  inside : [bundle] <+: w.directory
  rest : ∃ here later, w.rest = here ++ later ∧ Straight entries w.directory here ∧
    linkStays w.directory.length here = true ∧ ∀ name ∈ later, ¬ isParent name

/-- A link that has been met, with nothing behind it that goes up. -/
theorem Confined.follow (hchecked : ∀ e ∈ entries, EntryChecked bundle e) (hb : slash ∉ bundle)
    (hs : LinksStraight entries) {name target : List UInt8}
    (he : entryAt entries (directory ++ [name]) = some e) (ht : e.link = some target)
    (hrest : ∀ later ∈ rest, ¬ isParent later) :
    Confined bundle entries ⟨directory, target.splitOn slash ++ rest⟩ := by
  have hmem : e ∈ entries := mem_of_find?_eq_some he
  have hnames : e.names = directory ++ [name] := by
    simpa using List.find?_some he
  have hstraight := hs e hmem target ht
  obtain ⟨hinside, hstays⟩ := (hchecked e hmem).inside hb ht
  rw [hnames, dropLast_concat] at hstraight hinside hstays
  exact ⟨hinside, _, _, rfl, hstraight, hstays, hrest⟩

theorem Confined.step (hchecked : ∀ e ∈ entries, EntryChecked bundle e) (hb : slash ∉ bundle)
    (hs : LinksStraight entries) {w w' : LinkWalk} (h : Confined bundle entries w)
    (hstep : w.step entries = some w') : Confined bundle entries w' := by
  obtain ⟨hinside, here, later, hw, hstraight, hstays, hlater⟩ := h
  unfold LinkWalk.step at hstep
  rw [hw] at hstep
  obtain _ | ⟨name, here⟩ := here
  · -- The targets are used up, so that what is left goes up no more.
    obtain _ | ⟨name, later⟩ := later
    · exact absurd hstep (by simp)
    have hup : ¬ isParent name := hlater name mem_cons_self
    have hrest : ∀ other ∈ later, ¬ isParent other := fun other ho =>
      hlater other (mem_cons_of_mem _ ho)
    dsimp only [nil_append] at hstep
    rw [if_neg hup] at hstep
    split_ifs at hstep with hcurrent
    · cases hstep
      exact ⟨hinside, [], later, rfl, trivial, rfl, hrest⟩
    split at hstep
    · exact absurd hstep (by simp)
    next e he =>
    split at hstep
    next target _ ht =>
      cases hstep
      exact .follow hchecked hb hs he ht hrest
    · cases hstep
      exact ⟨hinside.trans (prefix_append _ _), [], later, rfl, trivial, rfl, hrest⟩
    · exact absurd hstep (by simp)
  · rw [cons_append] at hstep
    unfold Straight at hstraight
    unfold linkStays at hstays
    dsimp only at hstep
    rw [Bool.if_false_left, Bool.and_eq_true] at hstays
    replace hstays := hstays.2
    by_cases hcurrent : isCurrent name
    · rw [if_pos hcurrent] at hstep hstraight hstays
      cases hstep
      exact ⟨hinside, here, later, rfl, hstraight, hstays, hlater⟩
    rw [if_neg hcurrent] at hstep hstraight hstays
    by_cases hparent : isParent name
    · rw [if_pos hparent] at hstep hstraight hstays
      cases hstep
      split_ifs at hstays with hdepth
      refine ⟨?_, here, later, rfl, hstraight, by rwa [length_dropLast], hlater⟩
      obtain ⟨behind, hbehind⟩ := hinside
      refine ⟨behind.dropLast, ?_⟩
      rw [← hbehind] at hdepth ⊢
      rw [dropLast_append_of_ne_nil]
      rintro rfl
      exact hdepth (le_refl 1)
    rw [if_neg hparent] at hstep hstraight hstays
    split_ifs at hstays
    split at hstep
    · exact absurd hstep (by simp)
    next e he =>
    split at hstep
    next target hkind ht =>
      cases hstep
      rw [if_pos ⟨e, he, hkind⟩] at hstraight
      refine .follow hchecked hb hs he ht fun other ho => ?_
      exact (mem_append.1 ho).elim (hstraight other) (hlater other)
    next hkind =>
      cases hstep
      rw [if_neg (by simp [he, hkind])] at hstraight
      exact ⟨hinside.trans (prefix_append _ _), here, later, rfl, hstraight,
        by rwa [length_append], hlater⟩
    · exact absurd hstep (by simp)

end

/-- An accepted ledger whose links do not go up behind links keeps them in the bundle. -/
theorem package_links (sha256 : List UInt8 → List UInt8) (memory : ℕ → Bool)
    (bundle text : List UInt8) (hb : validComponent bundle = true) {entries : List PackageEntry}
    (h : parseLedger sha256 memory bundle text.length [] text = .ok entries)
    (hs : LinksStraight entries) : LinksConfined bundle entries := by
  have hslash : slash ∉ bundle := fun hmem => by
    unfold validComponent at hb
    simp only [decide_eq_true_eq] at hb
    exact (of_decide_eq_true (all_eq_true.1 hb.2.2.2.1 slash hmem)).2.1 rfl
  have hchecked := parseLedger_checked text.length [] text (fun e he => absurd he not_mem_nil) h
  intro e he target ht w hw
  obtain ⟨hinside, hstays⟩ := (hchecked e he).inside hslash ht
  have hstart : Confined bundle entries (e.walk target) :=
    ⟨hinside, _, [], (append_nil _).symm, hs e he target ht, hstays,
      fun name hn => absurd hn not_mem_nil⟩
  have hconfined : Confined bundle entries w := by
    induction hw with
    | refl => exact hstart
    | tail _ hstep ih => exact ih.step hchecked hslash hs hstep
  exact hconfined.inside

/-- The bytes of a literal, without a walk over its encoding. -/
theorem asciiText_ofList (l : List Char) :
    asciiText (String.ofList l) = l.map fun c => UInt8.ofNat c.toNat := by
  rw [asciiText, String.toList_ofList]

/-- What the hash answers for the texts of the links. -/
def linkHash (text : List UInt8) : List UInt8 :=
  (hexDigest (asciiText
    (if text = asciiText ".." then "5ec1f7e700f37c3d0b2981d04855fc34b94aaa15457b05ca571817442d228f81"
    else if text = asciiText "d/e/.." then
      "a650ef7f61b5bdabb726a1b682d6c3cfb197bd59372dafc0ff18df913a75c236"
    else "e3b0c44298fc1c149afbf4c8996fb92427ae41e4649b934ca495991b7852b855"))).getD []

/-- A bundle, a directory in it, and a link there back to the bundle. -/
def linkLedger : List UInt8 := asciiText
  ("d\t0755\t0\te3b0c44298fc1c149afbf4c8996fb92427ae41e4649b934ca495991b7852b855\tpayload/b.app\n" ++
   "d\t0755\t0\te3b0c44298fc1c149afbf4c8996fb92427ae41e4649b934ca495991b7852b855\tpayload/b.app/d\n" ++
   "l\t0777\t0\t5ec1f7e700f37c3d0b2981d04855fc34b94aaa15457b05ca571817442d228f81\tpayload/b.app/d/e\t..\n")

/-- A second link that goes up behind the first. -/
def climbingLedger : List UInt8 := linkLedger ++ asciiText
  "l\t0777\t0\ta650ef7f61b5bdabb726a1b682d6c3cfb197bd59372dafc0ff18df913a75c236\tpayload/b.app/s\td/e/..\n"

def linkEntries : List PackageEntry :=
  [⟨asciiText "payload/b.app", none, 0, 0o755, .directory, linkHash []⟩,
   ⟨asciiText "payload/b.app/d", none, 0, 0o755, .directory, linkHash []⟩,
   ⟨asciiText "payload/b.app/d/e", some (asciiText ".."), 0, 0o777, .symlink,
    linkHash (asciiText "..")⟩]

def climbingEntry : PackageEntry :=
  ⟨asciiText "payload/b.app/s", some (asciiText "d/e/.."), 0, 0o777, .symlink,
    linkHash (asciiText "d/e/..")⟩

theorem package_links_linkLedger : LinksConfined (asciiText "b.app") linkEntries := by
  have hparsed : parseLedger linkHash (fun _ => true) (asciiText "b.app") linkLedger.length []
      linkLedger = .ok linkEntries := by
    simp only [linkLedger, String.reduceAppend]
    rw [asciiText_ofList, asciiText_ofList]
    decide +kernel
  refine package_links linkHash (fun _ => true) (asciiText "b.app") linkLedger (by decide +kernel)
    hparsed fun e he target ht => ?_
  simp only [linkEntries, mem_cons, not_mem_nil, or_false] at he
  rcases he with rfl | rfl | rfl
  · cases ht
  · cases ht
  · cases ht
    have hsplit : (asciiText "..").splitOn slash = [asciiText ".."] := by decide +kernel
    rw [hsplit, Straight, if_neg (by decide), if_pos (by decide)]
    exact trivial

/-- The link goes down to the first one, which leads back to the bundle, and up from there. -/
theorem climbingLedger_leaves :
    ¬ ∀ (sha256 : List UInt8 → List UInt8) (memory : ℕ → Bool) (bundle text : List UInt8)
      (entries : List PackageEntry), validComponent bundle = true →
      parseLedger sha256 memory bundle text.length [] text = .ok entries →
      LinksConfined bundle entries := by
  intro h
  have hparsed : parseLedger linkHash (fun _ => true) (asciiText "b.app") climbingLedger.length []
      climbingLedger = .ok (linkEntries ++ [climbingEntry]) := by
    simp only [climbingLedger, linkLedger, String.reduceAppend]
    rw [asciiText_ofList, asciiText_ofList, asciiText_ofList]
    decide +kernel
  have hconfined := h linkHash (fun _ => true) (asciiText "b.app") climbingLedger
    (linkEntries ++ [climbingEntry]) (by decide +kernel) hparsed
  have hreach : (climbingEntry.walk (asciiText "d/e/..")).Reaches (linkEntries ++ [climbingEntry])
      ⟨[], []⟩ := by
    refine .head (b := ⟨[asciiText "b.app", asciiText "d"], [asciiText "e", asciiText ".."]⟩)
      (by decide +kernel) ?_
    refine .head (b := ⟨[asciiText "b.app", asciiText "d"], [asciiText "..", asciiText ".."]⟩)
      (by decide +kernel) ?_
    refine .head (b := ⟨[asciiText "b.app"], [asciiText ".."]⟩) (by decide +kernel) ?_
    exact .single (by decide +kernel)
  exact absurd (hconfined climbingEntry (by simp) _ rfl _ hreach) (by decide)

end Astra

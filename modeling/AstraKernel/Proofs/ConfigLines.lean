import AstraKernel.Config.Document
import AstraKernel.Proofs.Utf8

/-!
# The lines of a document

A document has one cut into lines (`documentLines_iff`): every line but the last has an end, and a
CR that ends a line has no LF behind it. So a line may be replaced or put at the end, and the others
stay (`Cut.replace`, `Cut.append`); where one is taken out, a CR before it and a LF behind it become
one end, and an empty line is gone.
-/

namespace Astra

open List

def documentOf (lines : List CutLine) : List UInt8 := lines.flatMap CutLine.bytes

@[simp] theorem documentOf_nil : documentOf [] = [] := rfl

@[simp] theorem documentOf_cons (line : CutLine) (lines : List CutLine) :
    documentOf (line :: lines) = line.bytes ++ documentOf lines := rfl

@[simp] theorem documentOf_append (lines lines' : List CutLine) :
    documentOf (lines ++ lines') = documentOf lines ++ documentOf lines' := flatMap_append

structure Ends (line : CutLine) (behind : List UInt8) : Prop where
  content : ∀ b ∈ line.content, lineCharacter b
  ending : line.ending = [configLf] ∨ line.ending = [configCr, configLf] ∨
    line.ending = [configCr] ∧ behind.head? ≠ some configLf ∨
    line.ending = [] ∧ behind = [] ∧ line.content ≠ []

def Cut : List CutLine → List UInt8 → Prop
  | [], _ => True
  | line :: lines, behind => Ends line (documentOf lines ++ behind) ∧ Cut lines behind

theorem Ends.bytes_ne_nil {line : CutLine} {behind : List UInt8} (h : Ends line behind) :
    line.bytes ≠ [] := by
  intro he
  obtain ⟨hc, he⟩ := append_eq_nil_iff.1 he
  rcases h.ending with h | h | ⟨h, -⟩ | ⟨-, -, h⟩
  · simp [h] at he
  · simp [h] at he
  · simp [h] at he
  · exact h hc

theorem takeWhile_content {line : CutLine} (h : ∀ b ∈ line.content, lineCharacter b)
    {rest : List UInt8} (hrest : rest.head?.any lineCharacter = false) :
    (line.content ++ rest).takeWhile lineCharacter = line.content ∧
      (line.content ++ rest).dropWhile lineCharacter = rest := by
  rw [takeWhile_append_of_pos h, dropWhile_append_of_pos h]
  cases rest with
  | nil => simp
  | cons b rest => simp_all

theorem cutLine_of_ends {line : CutLine} {behind : List UInt8} (h : Ends line behind) :
    cutLine (line.bytes ++ behind) = line := by
  obtain ⟨content, ending⟩ := line
  have hcut : ∀ {rest : List UInt8}, rest.head?.any lineCharacter = false →
      cutLine (content ++ rest) = ⟨content, lineEnding rest⟩ := by
    intro rest hrest
    obtain ⟨htake, hdrop⟩ := takeWhile_content h.content hrest
    unfold cutLine
    rw [htake, hdrop]
  have hending := h.ending
  dsimp only [CutLine.bytes] at hending ⊢
  rw [append_assoc]
  rcases hending with rfl | rfl | ⟨rfl, hcr⟩ | ⟨rfl, rfl, -⟩
  · rw [hcut (by simp [lineCharacter])]
    simp [lineEnding, configLf, configCr]
  · rw [hcut (by simp [lineCharacter])]
    simp [lineEnding]
  · rw [hcut (by simp [lineCharacter])]
    simp [lineEnding, hcr]
  · rw [hcut rfl]
    rfl

theorem cutLine_spec {rest : List UInt8} (hne : rest ≠ []) :
    ∃ behind, rest = (cutLine rest).bytes ++ behind ∧ Ends (cutLine rest) behind := by
  have hcontent : ∀ b ∈ rest.takeWhile lineCharacter, lineCharacter b := fun b hb =>
    mem_takeWhile_imp hb
  have hsplit := takeWhile_append_dropWhile (p := lineCharacter) (l := rest)
  have hhead := List.head?_dropWhile_not lineCharacter rest
  unfold cutLine
  cases hdrop : rest.dropWhile lineCharacter with
  | nil =>
    rw [hdrop, append_nil] at hsplit
    refine ⟨[], ?_, hcontent, .inr (.inr (.inr ⟨rfl, rfl, ?_⟩))⟩
    · simp [CutLine.bytes, lineEnding, hsplit]
    · dsimp only
      rwa [hsplit]
  | cons b behind =>
    rw [hdrop] at hsplit hhead
    have hb : b = configLf ∨ b = configCr := by
      by_contra hb
      simp [lineCharacter] at hhead
      tauto
    by_cases hcr : b = configCr ∧ behind.head? = some configLf
    · obtain ⟨rfl, hlf⟩ := hcr
      obtain ⟨behind, rfl⟩ : ∃ behind', behind = configLf :: behind' := by
        cases behind with
        | nil => simp at hlf
        | cons c behind => exact ⟨behind, by simpa using hlf⟩
      refine ⟨behind, ?_, hcontent, .inr (.inl rfl)⟩
      rw [CutLine.bytes, append_assoc]
      exact hsplit.symm
    · have hending : lineEnding (b :: behind) = [b] := if_neg hcr
      rw [hending]
      refine ⟨behind, ?_, hcontent, ?_⟩
      · rw [CutLine.bytes, append_assoc]
        exact hsplit.symm
      · rcases hb with rfl | rfl
        · exact .inl rfl
        · exact .inr (.inr (.inl ⟨rfl, fun h => hcr ⟨rfl, h⟩⟩))

theorem configLines_cut : ∀ {fuel : ℕ} {rest : List UInt8}, rest.length ≤ fuel →
    documentOf (configLines fuel rest) = rest ∧ Cut (configLines fuel rest) []
  | _, [], _ => by
    rw [show configLines _ [] = [] by cases ‹ℕ› <;> rfl]
    exact ⟨rfl, trivial⟩
  | 0, b :: rest, h => absurd h (by simp)
  | fuel + 1, b :: rest, h => by
    obtain ⟨behind, hsplit, hends⟩ := cutLine_spec (cons_ne_nil b rest)
    have hpos := length_pos_iff.2 hends.bytes_ne_nil
    have hdrop : (b :: rest).drop (cutLine (b :: rest)).bytes.length = behind := by
      conv_lhs =>
        arg 2
        rw [hsplit]
      exact drop_left
    have hlen := congrArg List.length hsplit
    rw [length_append] at hlen
    obtain ⟨hdoc, hcut⟩ := configLines_cut (show behind.length ≤ fuel by omega)
    simp only [configLines, hdrop, documentOf_cons, Cut, hdoc, append_nil]
    exact ⟨hsplit.symm, hends, hcut⟩

theorem configLines_documentOf : ∀ {lines : List CutLine} {fuel : ℕ}, Cut lines [] →
    (documentOf lines).length ≤ fuel → configLines fuel (documentOf lines) = lines
  | [], fuel, _, _ => by cases fuel <;> rfl
  | line :: lines, fuel, h, hfuel => by
    obtain ⟨hends, hcut⟩ := h
    have hpos := length_pos_iff.2 hends.bytes_ne_nil
    rw [append_nil] at hends
    rw [documentOf_cons, length_append] at hfuel
    have hrest := configLines_documentOf hcut (show (documentOf lines).length ≤ fuel - 1 by omega)
    have hline := cutLine_of_ends hends
    rw [documentOf_cons]
    generalize hdoc : line.bytes ++ documentOf lines = whole at hline ⊢
    cases whole with
    | nil => exact absurd (append_eq_nil_iff.1 hdoc).1 hends.bytes_ne_nil
    | cons b rest =>
      obtain ⟨fuel, rfl⟩ := Nat.exists_eq_succ_of_ne_zero (show fuel ≠ 0 by omega)
      simp only [configLines, hline]
      rw [← hdoc, drop_left]
      exact congrArg _ hrest

theorem documentLines_iff {text : List UInt8} {lines : List CutLine} :
    documentLines text = lines ↔ documentOf lines = text ∧ Cut lines [] := by
  constructor
  · rintro rfl
    exact configLines_cut (Nat.le_refl _)
  · rintro ⟨rfl, hcut⟩
    exact configLines_documentOf hcut (Nat.le_refl _)

/-! ## Edits -/

theorem cut_append {lines' : List CutLine} {behind : List UInt8} : ∀ {lines : List CutLine},
    Cut (lines ++ lines') behind ↔ Cut lines (documentOf lines' ++ behind) ∧ Cut lines' behind
  | [] => by simp [Cut]
  | line :: lines => by
    simp only [cons_append, Cut, documentOf_append, append_assoc, cut_append, and_assoc]

theorem Ends.behind {line : CutLine} {behind behind' : List UInt8} (h : Ends line behind)
    (hne : behind ≠ []) (h' : behind'.head? ≠ some configLf ∨ behind'.head? = behind.head?) :
    Ends line behind' := by
  refine ⟨h.content, ?_⟩
  rcases h.ending with he | he | ⟨he, hcr⟩ | ⟨-, he, -⟩
  · exact .inl he
  · exact .inr (.inl he)
  · refine .inr (.inr (.inl ⟨he, ?_⟩))
    rcases h' with h' | h'
    · exact h'
    · rwa [h']
  · exact absurd he hne

theorem Cut.behind {behind behind' : List UInt8} (hne : behind ≠ [])
    (h' : behind'.head? ≠ some configLf ∨ behind'.head? = behind.head?) : ∀ {lines : List CutLine},
    Cut lines behind → Cut lines behind'
  | [], _ => trivial
  | line :: lines, h => by
    refine ⟨h.1.behind (by simp [hne]) ?_, h.2.behind hne h'⟩
    cases lines with
    | nil => simpa using h'
    | cons next lines =>
      have hnext := h.2.1.bytes_ne_nil
      obtain ⟨b, bytes, hb⟩ := exists_cons_of_ne_nil hnext
      simp [hb]

theorem Cut.replace {lines lines' : List CutLine} {line line' : CutLine}
    (h : Cut (lines ++ line :: lines') []) (hends : Ends line' (documentOf lines'))
    (hhead : line'.bytes.head? ≠ some configLf) : Cut (lines ++ line' :: lines') [] := by
  obtain ⟨hbefore, hline, hbehind⟩ := cut_append.1 h
  have hne := hline.bytes_ne_nil
  refine cut_append.2 ⟨hbefore.behind (by simp [hne]) (.inl ?_), by simpa using hends, hbehind⟩
  obtain ⟨b, bytes, hb⟩ := exists_cons_of_ne_nil hends.bytes_ne_nil
  rw [hb] at hhead
  simpa [hb] using hhead

theorem Cut.append {lines : List CutLine} {line' : CutLine} (h : Cut lines [])
    (hends : Ends line' []) (hhead : line'.bytes.head? ≠ some configLf) :
    ∃ lines', documentOf lines' =
        documentOf lines ++ missingEnd (documentOf lines) (documentOf lines).length ∧
      lines'.map CutLine.content = lines.map CutLine.content ∧ Cut (lines' ++ [line']) [] := by
  rcases lines.eq_nil_or_concat' with rfl | ⟨before, last, rfl⟩
  · exact ⟨[], rfl, rfl, by simpa [Cut] using hends⟩
  obtain ⟨hbefore, hlast, -⟩ := cut_append.1 h
  rw [documentOf_nil, nil_append] at hlast
  obtain ⟨b, bytes, hb⟩ := exists_cons_of_ne_nil hlast.bytes_ne_nil
  have hfits : ∀ {last' : CutLine}, last'.bytes.head? = some b → Ends last' line'.bytes →
      Cut (before ++ [last'] ++ [line']) [] := by
    intro last' hsame hends'
    rw [append_assoc]
    refine cut_append.2 ⟨hbefore.behind (by simp [hb]) (.inr ?_), ?_⟩
    · simp [hb, hsame]
    · simpa [Cut] using ⟨hends', hends⟩
  have hended : ∀ c : UInt8, last.bytes.getLast? = some c → lineCharacter c = false →
      missingEnd (documentOf (before ++ [last])) (documentOf (before ++ [last])).length = [] := by
    intro c hc hl
    simp [missingEnd, hc, hl]
  obtain ⟨content, ending⟩ := last
  rcases hlast.ending with he | he | ⟨he, -⟩ | ⟨he, -, hc⟩
  · obtain rfl : ending = _ := he
    refine ⟨_, by rw [hended configLf (by simp [CutLine.bytes]) rfl, append_nil], rfl,
      hfits (by rw [hb]; rfl) ⟨hlast.content, .inl rfl⟩⟩
  · obtain rfl : ending = _ := he
    refine ⟨_, by rw [hended configLf (by simp [CutLine.bytes]) rfl, append_nil], rfl,
      hfits (by rw [hb]; rfl) ⟨hlast.content, .inr (.inl rfl)⟩⟩
  · obtain rfl : ending = _ := he
    refine ⟨_, by rw [hended configCr (by simp [CutLine.bytes]) rfl, append_nil], rfl,
      hfits (by rw [hb]; rfl) ⟨hlast.content, .inr (.inr (.inl ⟨rfl, hhead⟩))⟩⟩
  · obtain rfl : ending = _ := he
    have hfinal := List.getLast?_eq_some_getLast hc
    have hopen := hlast.content _ (getLast_mem hc)
    refine ⟨before ++ [⟨content, [configLf]⟩], ?_, by simp, hfits ?_ ⟨hlast.content, .inl rfl⟩⟩
    · simp [missingEnd, CutLine.bytes, List.getLast?_append, hfinal, hopen]
    · simp only [CutLine.bytes, append_nil] at hb ⊢
      rw [hb]
      rfl

theorem Cut.remove {lines lines' : List CutLine} {line : CutLine}
    (h : Cut (lines ++ line :: lines') []) :
    ∃ left, documentOf left = documentOf (lines ++ lines') ∧ Cut left [] ∧
      (left.map CutLine.content = (lines ++ lines').map CutLine.content ∨
        ∃ rest, lines'.map CutLine.content = [] :: rest ∧
          left.map CutLine.content = lines.map CutLine.content ++ rest) := by
  obtain ⟨hbefore, hline, hbehind⟩ := cut_append.1 h
  have hne := hline.bytes_ne_nil
  by_cases hlf : (documentOf lines').head? = some configLf
  swap
  · refine ⟨_, rfl, cut_append.2 ⟨hbefore.behind (by simp [hne]) (.inl ?_), hbehind⟩, .inl rfl⟩
    simpa using hlf
  cases lines' with
  | nil => simp at hlf
  | cons next lines' =>
    obtain ⟨content, ending⟩ := next
    have hnext := hbehind.1
    obtain rfl : content = [] := by
      cases content with
      | nil => rfl
      | cons b content =>
        have hb := hnext.content b mem_cons_self
        simp [CutLine.bytes] at hlf
        simp [lineCharacter, hlf] at hb
    obtain rfl : ending = [configLf] := by
      rcases hnext.ending with he | he | ⟨he, -⟩ | ⟨he, -, hc⟩
      · exact he
      all_goals dsimp only at he
      · subst he
        simp [CutLine.bytes, configLf, configCr] at hlf
      · subst he
        simp [CutLine.bytes, configLf, configCr] at hlf
      · exact absurd rfl hc
    rcases lines.eq_nil_or_concat' with rfl | ⟨before, last, rfl⟩
    · exact ⟨_, rfl, hbehind, .inl rfl⟩
    obtain ⟨hfirst, hlast, -⟩ := cut_append.1 hbefore
    obtain ⟨b, bytes, hb⟩ := exists_cons_of_ne_nil hlast.bytes_ne_nil
    have hfits : ∀ {last' : CutLine} {lines'' : List CutLine}, last'.bytes.head? = some b →
        Ends last' (documentOf lines'') → Cut lines'' [] → Cut (before ++ last' :: lines'') [] := by
      intro last' lines'' hsame hends' hcut
      refine cut_append.2 ⟨hfirst.behind (by simp [hb]) (.inr ?_), by simpa using hends', hcut⟩
      simp [hb, hsame]
    obtain ⟨content, ending⟩ := last
    rcases hlast.ending with he | he | ⟨he, -⟩ | ⟨-, he, -⟩
    · obtain rfl : ending = _ := he
      refine ⟨_, rfl, ?_, .inl rfl⟩
      rw [append_assoc]
      exact hfits (by rw [hb]; rfl) ⟨hlast.content, .inl rfl⟩ hbehind
    · obtain rfl : ending = _ := he
      refine ⟨_, rfl, ?_, .inl rfl⟩
      rw [append_assoc]
      exact hfits (by rw [hb]; rfl) ⟨hlast.content, .inr (.inl rfl)⟩ hbehind
    · obtain rfl : ending = _ := he
      refine ⟨before ++ ⟨content, [configCr, configLf]⟩ :: lines', ?_,
        hfits ?_ ⟨hlast.content, .inr (.inl rfl)⟩ hbehind.2, .inr ⟨lines'.map CutLine.content, ?_, ?_⟩⟩
      · simp [CutLine.bytes]
      · cases content <;> simp_all [CutLine.bytes]
      · simp
      · simp
    · simp [hne] at he

end Astra

import AstraKernel.Proofs.EventsStore

/-!
# A read gives a part of the whole text

Wherever a node resumes, the loop goes on in the text of the records that it has not seen
(`readLoop_spec`), so a read at an offset gives what the whole text has there (`eventsRead_spec`).
-/

namespace Astra

open List

variable {store : AstraEventStore} {index : EventsIndex} {node : AstraEventsNode}
  {record : AstraEventStored} {offset length place : ℕ}

/-! ## Lines -/

theorem prefix_put (limit : ℕ) (out text : List UInt8) : out <+: put limit out text :=
  prefix_append _ _

variable (catalog : Option AstraEventCatalog)

theorem prefix_renderLine (record : AstraEventStored) :
    asciiText "seq " <+: renderLine catalog record eventsLineMax := by
  refine List.IsPrefix.trans (@List.IsPrefix.trans _ _ ?line _ ?front ?location) (prefix_put _ _ _)
  case location =>
    rcases astraEventCatalogLookup catalog record.event.message with _ | descriptor
    · exact prefix_rfl
    · exact (prefix_put _ _ _).trans ((prefix_put _ _ _).trans ((prefix_put _ _ _).trans
        ((prefix_put _ _ _).trans (prefix_put _ _ _))))
  refine List.IsPrefix.trans (List.IsPrefix.trans ?_ (prefix_put _ _ _)) (prefix_append _ _)
  have hfront : ∀ out : List UInt8, asciiText "seq " <+: out →
      asciiText "seq " <+: if record.event.activity = 0 then out else
        put eventsLineMax (put eventsLineMax out (asciiText " act "))
          (paddedNumber 16 8 record.event.activity.toNat) := by
    intro out h
    split_ifs
    · exact h
    · exact h.trans ((prefix_put _ _ _).trans (prefix_put _ _ _))
  refine hfront _ ?_
  have hfirst : asciiText "seq " <+: put eventsLineMax [] (asciiText "seq ") := by
    simp [put, asciiText]
  exact hfirst.trans ((prefix_put _ _ _).trans ((prefix_put _ _ _).trans ((prefix_put _ _ _).trans
    ((prefix_put _ _ _).trans ((prefix_put _ _ _).trans ((prefix_put _ _ _).trans
      (prefix_put _ _ _)))))))

theorem renderLine_pos (record : AstraEventStored) :
    0 < (renderLine catalog record eventsLineMax).length :=
  (show 0 < (asciiText "seq ").length by simp [asciiText]).trans_le
    (prefix_renderLine catalog record).length_le

namespace AstraEventsNode

variable (node : AstraEventsNode)

/-- The lines of the records that the node asks for. -/
def textOf (store : AstraEventStore) (records : List AstraEventStored) : List UInt8 :=
  (records.filter (eventMatches store.catalog node)).flatMap fun record =>
    renderLine store.catalog record eventsLineMax

/-- The file as one text. -/
def wholeText (store : AstraEventStore) : List UInt8 := node.textOf store (node.records store)

end AstraEventsNode

theorem textOf_append (store : AstraEventStore) (records records' : List AstraEventStored) :
    node.textOf store (records ++ records') =
      node.textOf store records ++ node.textOf store records' := by
  simp [AstraEventsNode.textOf]

theorem textOf_cons_of_matches (h : eventMatches store.catalog node record)
    (records : List AstraEventStored) : node.textOf store (record :: records) =
      renderLine store.catalog record eventsLineMax ++ node.textOf store records := by
  simp [AstraEventsNode.textOf, h]

theorem textOf_cons_of_not (h : eventMatches store.catalog node record = false)
    (records : List AstraEventStored) :
    node.textOf store (record :: records) = node.textOf store records := by
  simp [AstraEventsNode.textOf, h]

/-! ## The loop -/

structure ReadAt (node : AstraEventsNode) (store : AstraEventStore) (index : EventsIndex)
    (place : ℕ) : Prop where
  cut : node.Cut store index
  inside : node.Inside store index
  place : place = (node.textOf store (node.recordsBefore store index)).length

theorem ReadAt.whole (h : ReadAt node store index place) : node.wholeText store =
    node.textOf store (node.recordsBefore store index) ++
      node.textOf store (node.recordsFrom store index) := by
  unfold AstraEventsNode.wholeText
  rw [h.cut, textOf_append]

theorem ReadAt.next (hs : node.Ordered store) (h : ReadAt node store index place)
    {index' : EventsIndex} (hnext : node.nextRecord store index = some (record, index')) :
    node.recordsFrom store index = record :: node.recordsFrom store index' ∧
      ReadAt node store index' (place + (node.textOf store [record]).length) := by
  obtain ⟨hfrom, hbefore, hinside⟩ := (nextRecord_spec hs h.cut).2 record index' hnext
  refine ⟨hfrom, ?_, hinside h.inside, ?_⟩
  · unfold AstraEventsNode.Cut
    rw [hbefore, append_assoc, singleton_append, ← hfrom]
    exact h.cut
  · rw [hbefore, textOf_append, length_append, ← h.place]

def ReadPlace (offset length : ℕ) (r : AstraEventsNode.ReadState) : Prop :=
  r.place ≤ offset ∧ r.out = [] ∨ r.place = offset + r.out.length ∧ r.out.length < length

structure LoopReads (node : AstraEventsNode) (store : AstraEventStore) (offset length : ℕ)
    (r r' : AstraEventsNode.ReadState) : Prop where
  out : r'.out = r.out ++
    ((node.textOf store (node.recordsFrom store r.index)).drop (offset - r.place)).take
      (length - r.out.length)
  memo : r'.memoOffset = r.memoOffset ∧ r'.memoIndex = r.memoIndex ∨
    ∃ place, 0 < place ∧ ReadAt node store r'.memoIndex place ∧ r'.memoOffset = place % 2 ^ 32 ∧
      place ≤ offset + r'.out.length

theorem readLoop_spec (hs : node.Ordered store) : ∀ (fuel : ℕ) (r : AstraEventsNode.ReadState),
    (node.recordsFrom store r.index).length < fuel → ReadAt node store r.index r.place →
    ReadPlace offset length r →
    LoopReads node store offset length r (node.readLoop store offset length fuel r)
  | 0, r, hfuel, _, _ => absurd hfuel (Nat.not_lt_zero _)
  | fuel + 1, r, hfuel, hat, hplace => by
    unfold AstraEventsNode.readLoop
    cases hnext : node.nextRecord store r.index with
    | none =>
      refine ⟨?_, .inl ⟨rfl, rfl⟩⟩
      rw [(nextRecord_spec hs hat.cut).1 hnext]
      simp [AstraEventsNode.textOf]
    | some found =>
      obtain ⟨record, index'⟩ := found
      obtain ⟨hfrom, hat'⟩ := hat.next hs hnext
      have hfuel' : (node.recordsFrom store index').length < fuel := by
        rw [hfrom, length_cons] at hfuel
        omega
      dsimp only
      split
      · rename_i hwanted
        rw [textOf_cons_of_not hwanted] at hat'
        have ih := readLoop_spec hs fuel { r with index := index' } hfuel' hat' hplace
        refine ⟨?_, ih.memo⟩
        rw [ih.out, hfrom, textOf_cons_of_not hwanted]
      rename_i hwanted
      rw [Bool.not_eq_false] at hwanted
      rw [textOf_cons_of_matches hwanted] at hat'
      have hpos := renderLine_pos store.catalog record
      generalize hline : renderLine store.catalog record eventsLineMax = line at hat' hpos ⊢
      have htext : node.textOf store (node.recordsFrom store r.index) =
          line ++ node.textOf store (node.recordsFrom store index') := by
        rw [hfrom, textOf_cons_of_matches hwanted, hline]
      have hnil : node.textOf store [] = [] := rfl
      rw [hnil, append_nil] at hat'
      by_cases hskip : r.place + line.length ≤ offset
      · -- The line is in front of the offset.
        rw [if_pos hskip]
        obtain ⟨hle, hout⟩ : r.place ≤ offset ∧ r.out = [] := by
          rcases hplace with hplace | ⟨hplace, -⟩
          · exact hplace
          · omega
        have ih := readLoop_spec hs fuel
          { r with index := index', place := r.place + line.length } hfuel' hat' (.inl ⟨hskip, hout⟩)
        refine ⟨?_, ih.memo⟩
        rw [ih.out, htext]
        have hover : line.drop (offset - r.place) = [] := drop_eq_nil_of_le (by omega)
        rw [drop_append, hover, nil_append, Nat.sub_sub]
      rw [if_neg hskip]
      have hrest : (if r.place < offset then line.drop (offset - r.place) else line) =
          line.drop (offset - r.place) := by
        split_ifs with hlt
        · rfl
        · rw [Nat.sub_eq_zero_of_le (not_lt.1 hlt), drop_zero]
      rw [hrest]
      have hbytes : (node.textOf store (node.recordsFrom store r.index)).drop (offset - r.place) =
          line.drop (offset - r.place) ++ node.textOf store (node.recordsFrom store index') := by
        rw [htext, drop_append,
          Nat.sub_eq_zero_of_le (show offset - r.place ≤ line.length by omega), drop_zero]
      have hlength : (line.drop (offset - r.place)).length = line.length - (offset - r.place) :=
        length_drop
      generalize line.drop (offset - r.place) = rest at hbytes hlength ⊢
      have hroom : r.out.length ≤ length := by
        rcases hplace with ⟨-, hout⟩ | ⟨-, hlt⟩
        · rw [hout]
          exact Nat.zero_le _
        · exact hlt.le
      have hend : offset + (r.out.length + rest.length) = r.place + line.length := by
        rcases hplace with ⟨hle, hout⟩ | ⟨heq, -⟩
        · rw [hout, length_nil]
          omega
        · omega
      by_cases hfits : rest.length < length - r.out.length
      · -- The whole line has a place, and there is more.
        have hout : r.out ++ rest.take (length - r.out.length) = r.out ++ rest := by
          rw [take_of_length_le hfits.le]
        rw [hout, length_append, if_neg (by omega), if_pos (by omega)]
        have ih := readLoop_spec hs fuel
          { index := index', place := r.place + line.length, out := r.out ++ rest,
            memoOffset := (r.place + line.length) % 2 ^ 32, memoIndex := index' } hfuel' hat'
          (.inr ⟨by rw [length_append]; exact hend.symm, by rw [length_append]; omega⟩)
        have hbehind : offset - (r.place + line.length) = 0 := by omega
        refine ⟨?_, .inr ?_⟩
        · rw [ih.out, hbytes, take_append, take_of_length_le hfits.le, ← append_assoc]
          rw [hbehind, drop_zero, length_append, Nat.sub_add_eq]
        · rcases ih.memo with ⟨hoffset, hindex⟩ | hmemo
          · refine ⟨r.place + line.length, by omega, hindex ▸ hat', hoffset, ?_⟩
            rw [ih.out, length_append, length_append]
            omega
          · exact hmemo
      · have hfull : (r.out ++ rest.take (length - r.out.length)).length = length := by
          rw [length_append, length_take]
          omega
        rw [if_pos hfull]
        have hout : r.out ++ rest.take (length - r.out.length) = r.out ++
            ((node.textOf store (node.recordsFrom store r.index)).drop (offset - r.place)).take
              (length - r.out.length) := by
          rw [hbytes, take_append_of_le_length (not_lt.1 hfits)]
        split_ifs with hboundary
        · exact ⟨hout, .inr ⟨_, by omega, hat', rfl, hboundary⟩⟩
        · exact ⟨hout, .inl ⟨rfl, rfl⟩⟩

/-! ## One read -/

structure Remembers (node : AstraEventsNode) (store : AstraEventStore) (position : ℕ) : Prop where
  readAt : ReadAt node store node.memoIndex node.memoOffset
  le : node.memoOffset ≤ position
  fresh : node.memoOffset = 0 → node.memoIndex = 0

theorem inside_zero (node : AstraEventsNode) (store : AstraEventStore) : node.Inside store 0 := by
  unfold AstraEventsNode.Inside
  split_ifs
  · exact Nat.zero_le _
  · exact fun _ => Nat.zero_le _

theorem remembers_fresh (h : node.Ordered store) (hoffset : node.memoOffset = 0)
    (hindex : node.memoIndex = 0) (position : ℕ) : Remembers node store position := by
  obtain ⟨hcut, hbefore⟩ := cut_zero h
  refine ⟨?_, hoffset ▸ Nat.zero_le _, fun _ => hindex⟩
  rw [hindex, hoffset]
  refine ⟨hcut, inside_zero node store, ?_⟩
  rw [hbefore]
  rfl

theorem length_recordsFrom_le (node : AstraEventsNode) (store : AstraEventStore)
    (index : EventsIndex) : (node.recordsFrom store index).length ≤ store.total := by
  unfold AstraEventsNode.recordsFrom AstraEventStore.total
  split_ifs
  · rw [length_drop, length_entries]
    omega
  · rw [(byKey_perm _ _).length_eq]
    simp only [AstraEventStore.unseenIn, AstraEventStore.ofTier, flatMap_cons, flatMap_nil,
      length_append, length_drop, length_entries, mergedTier, length_nil]
    omega

theorem eventsRead_spec {b : AstraEventsBackend} {position : ℕ}
    (hkind : node.kind = .merged ∨ node.kind = .earliest) (hstore : b.storeOf node = some store)
    (hs : node.Ordered store) (h : Remembers node store position)
    (hsmall : position + ((node.wholeText store).drop position |>.take length).length < 2 ^ 32) :
    ∃ memoOffset memoIndex, eventsRead b node position length =
      (.ok, ((node.wholeText store).drop position).take length,
        { node with memoOffset := memoOffset, memoIndex := memoIndex }) ∧
      Remembers { node with memoOffset := memoOffset, memoIndex := memoIndex } store
        (position + (((node.wholeText store).drop position).take length).length) := by
  have hdirectory : node.kind.isDirectory = false ∧ node.kind ≠ .logFile := by
    rcases hkind with hkind | hkind <;> rw [hkind] <;> decide
  unfold eventsRead
  rw [if_neg (by rw [hdirectory.1]; nofun), if_neg hdirectory.2, hstore]
  dsimp only
  have hstart : (if node.memoOffset ≠ 0 ∧ position ≥ node.memoOffset then node.memoIndex else 0) =
        node.memoIndex ∧
      (if node.memoOffset ≠ 0 ∧ position ≥ node.memoOffset then node.memoOffset else 0) =
        node.memoOffset := by
    by_cases hzero : node.memoOffset = 0
    · rw [if_neg fun hr => hr.1 hzero, if_neg fun hr => hr.1 hzero]
      exact ⟨(h.fresh hzero).symm, hzero.symm⟩
    · rw [if_pos ⟨hzero, h.le⟩, if_pos ⟨hzero, h.le⟩]
      exact ⟨rfl, rfl⟩
  rw [hstart.1, hstart.2]
  have hloop : LoopReads node store position length
      ⟨node.memoIndex, node.memoOffset, [], node.memoOffset, node.memoIndex⟩
      (node.readLoop store position length (store.total + 1)
        ⟨node.memoIndex, node.memoOffset, [], node.memoOffset, node.memoIndex⟩) :=
    readLoop_spec hs _ _ (Nat.lt_succ_of_le (length_recordsFrom_le node store _)) h.readAt
      (.inl ⟨h.le, rfl⟩)
  have hbytes := hloop.out
  have hdrop : (node.textOf store (node.recordsFrom store node.memoIndex)).drop
      (position - node.memoOffset) = (node.wholeText store).drop position := by
    have hover : (node.textOf store (node.recordsBefore store node.memoIndex)).drop position = [] :=
      drop_eq_nil_of_le (h.readAt.place ▸ h.le)
    rw [h.readAt.whole, drop_append, hover, nil_append, ← h.readAt.place]
  rw [nil_append, length_nil, Nat.sub_zero, hdrop] at hbytes
  refine ⟨_, _, by rw [hbytes], ?_⟩
  rcases hloop.memo with ⟨hoffset, hindex⟩ | ⟨place, hpos, hat, hoffset, hle⟩
  · rw [hoffset, hindex]
    exact ⟨h.readAt, h.le.trans (Nat.le_add_right _ _), h.fresh⟩
  · rw [hbytes] at hle
    have hplace : place % 2 ^ 32 = place := Nat.mod_eq_of_lt (by omega)
    rw [hplace] at hoffset
    rw [hoffset]
    exact ⟨⟨hat.cut, hat.inside, hat.place⟩, hle, fun hzero => absurd hzero hpos.ne'⟩

end Astra

import AstraKernel.Proofs.StreamSource

/-!
# Runs of a stream source

A source refines the line that was typed (`HoldsLine`) as long as nothing is committed behind an
end-of-file mark that is still pending, no byte is offered behind an unfinished line, and no line
fills the buffer (`TtyRun.Steady`).
-/

namespace Astra

open AstraStreamSource List

structure HoldsLine (s : AstraStreamSource) (l : LineStream) : Prop where
  bounded : s.Bounded
  event : s.readable = s.ready
  done : l.done = (s.contents.take s.committed).map .byte ++
    if s.eofPending then [.endOfFile] else []
  line : l.line = s.contents.drop s.committed
  flowing : s.length = s.capacity → s.committed ≠ 0

theorem leading_append (bytes : List UInt8) (marked : Bool) :
    LineStream.leading (bytes.map .byte ++ if marked then [.endOfFile] else []) = bytes := by
  induction bytes with
  | nil => cases marked <;> rfl
  | cons b bytes ih => exact congrArg (b :: ·) ih

theorem read_of_head {l : LineStream} (h : l.done.head? ≠ some .endOfFile) (room : ℕ) :
    l.read room = (⟨l.done.drop ((LineStream.leading l.done).take room).length, l.line⟩,
      ⟨(LineStream.leading l.done).take room, false⟩) := by
  unfold LineStream.read
  split
  next items heq => exact absurd (by rw [heq]; rfl) h
  next => rfl

namespace HoldsLine

variable {s s' : AstraStreamSource} {l : LineStream} {tty : AstraTtyState}

section

variable (h : HoldsLine s l)
include h

theorem line_eq_nil_iff : l.line = [] ↔ s.length = s.committed := by
  have := h.bounded.committed
  rw [h.line, drop_eq_nil_iff, length_contents]
  omega

theorem contents_eq : s.contents = s.contents.take s.committed ++ l.line := by
  rw [h.line, take_append_drop]

theorem congr (hbuffer : s'.buffer = s.buffer) (hcapacity : s'.capacity = s.capacity)
    (hhead : s'.head = s.head) (hlength : s'.length = s.length)
    (hcommitted : s'.committed = s.committed) (heof : s'.eofPending = s.eofPending)
    (hreadable : s'.readable = s.readable) : HoldsLine s' l := by
  have hcontents : s'.contents = s.contents := by
    rw [contents, hbuffer, hcapacity, hhead, hlength, contents]
  obtain ⟨⟨h1, h2, h3, h4, h5⟩, h6, h7, h8, h9⟩ := h
  refine ⟨⟨?_, ?_, ?_, ?_, ?_⟩, ?_, ?_, ?_, ?_⟩
  · rwa [hcapacity]
  · rwa [hcapacity]
  · rwa [hcapacity, hhead]
  · rwa [hcommitted, hlength]
  · rwa [hlength, hcapacity]
  · rwa [hreadable, ready, hcommitted, heof]
  · rwa [hcontents, hcommitted, heof]
  · rwa [hcontents, hcommitted]
  · rwa [hlength, hcapacity, hcommitted]

theorem echo (bytes : List UInt8) : HoldsLine (s.echo bytes) l := by
  unfold AstraStreamSource.echo
  split_ifs
  · exact h.congr rfl rfl rfl rfl rfl rfl rfl
  · exact h

theorem flush : HoldsLine s.flush .empty where
  bounded := ⟨h.bounded.pos, h.bounded.small, h.bounded.pos, le_rfl, Nat.zero_le _⟩
  event := rfl
  done := rfl
  line := rfl
  flowing hfull := absurd hfull.symm h.bounded.pos.ne'

theorem signal (noflsh : Bool) (control : TtyControl) :
    HoldsLine { (if noflsh then s else s.flush) with
        signals := (if noflsh then s else s.flush).signals ++ [control] }
      (if noflsh then l else .empty) := by
  cases noflsh with
  | true => exact h.congr rfl rfl rfl rfl rfl rfl rfl
  | false => exact h.flush.congr rfl rfl rfl rfl rfl rfl rfl

theorem erase (hline : s.committed < s.length) :
    HoldsLine { s with length := s.length - 1 } l.rubOut := by
  obtain ⟨⟨h1, h2, h3, h4, h5⟩, h6, h7, h8, h9⟩ := h
  have hcontents : { s with length := s.length - 1 }.contents = s.contents.take (s.length - 1) :=
    (window_take (Nat.sub_le _ _)).symm
  refine ⟨⟨h1, h2, h3, ?_, ?_⟩, h6, ?_, ?_, ?_⟩
  · exact Nat.le_sub_one_of_lt hline
  · exact (Nat.sub_le _ _).trans h5
  · rw [LineStream.rubOut, h7, hcontents, take_take,
      min_eq_left (Nat.le_sub_one_of_lt hline)]
  · rw [LineStream.rubOut, h8, hcontents, dropLast_eq_take, length_drop,
      length_contents, take_drop,
      show s.committed + (s.length - s.committed - 1) = s.length - 1 by omega]
  · intro hfull
    dsimp only at hfull
    omega

theorem kill : HoldsLine { s with length := s.committed } l.kill := by
  obtain ⟨⟨h1, h2, h3, h4, h5⟩, h6, h7, h8, h9⟩ := h
  have hcontents : { s with length := s.committed }.contents = s.contents.take s.committed :=
    (window_take h4).symm
  refine ⟨⟨h1, h2, h3, le_rfl, h4.trans h5⟩, h6, ?_, ?_, ?_⟩
  · rw [LineStream.kill, h7, hcontents, take_take, min_self]
  · rw [LineStream.kill, hcontents, drop_take, Nat.sub_self, take_zero]
  · intro hfull
    exact fun h0 => h1.ne' (hfull.symm.trans h0)

theorem commit (heof : s.eofPending = false) (hline : s.length ≠ s.committed) :
    HoldsLine { s with committed := s.length, readable := true }
      ⟨l.done ++ l.line.map .byte, []⟩ := by
  have hne : s.length ≠ 0 := by
    have := h.bounded.committed
    omega
  refine ⟨⟨h.bounded.pos, h.bounded.small, h.bounded.head, le_rfl, h.bounded.length⟩, ?_, ?_, ?_,
    fun _ => hne⟩
  · simp [ready, hne]
  · have hall : s.contents.take s.length = s.contents := by
      rw [← length_contents, take_length]
    change l.done ++ l.line.map .byte = (s.contents.take s.length).map .byte ++ _
    rw [hall, h.contents_eq, h.done, heof]
    simp
  · change [] = s.contents.drop s.length
    rw [← length_contents, drop_length]

theorem mark (hline : s.length = s.committed) :
    HoldsLine { s with eofPending := true, readable := true } l.finish := by
  obtain ⟨hbounded, h6, h7, h8, h9⟩ := h
  have hnil : l.line = [] := (HoldsLine.line_eq_nil_iff ⟨hbounded, h6, h7, h8, h9⟩).mpr hline
  have hfinish : l.finish.done = (s.contents.take s.committed).map .byte ++ [.endOfFile] ∧
      l.finish.line = [] := by
    rw [LineStream.finish, if_neg (not_not.mpr hnil)]
    cases heof : s.eofPending with
    | true =>
      have hlast : l.done.getLast? = some .endOfFile := by
        rw [h7, heof]
        simp
      rw [if_pos hlast]
      exact ⟨by rw [h7, heof]; rfl, hnil⟩
    | false =>
      have hlast : l.done.getLast? ≠ some .endOfFile := by
        rw [h7, heof]
        intro hlast
        rcases mem_append.mp (mem_of_getLast? hlast) with hmem | hmem
        · obtain ⟨_, -, hbyte⟩ := mem_map.mp hmem
          cases hbyte
        · cases hmem
      rw [if_neg hlast]
      exact ⟨by rw [h7, heof]; simp, rfl⟩
  refine ⟨⟨hbounded.pos, hbounded.small, hbounded.head, hbounded.committed, hbounded.length⟩, ?_,
    hfinish.1, ?_, h9⟩
  · simp [ready]
  · rw [hfinish.2, ← hnil, h8]
    rfl

end

theorem signalFrom {was : Bool} (hwas : s.readable = was)
    (h : HoldsLine { s with readable := s.ready } l) (hset : was = true → s.ready = true) :
    HoldsLine (AstraStreamSource.signalFrom was s) l := by
  unfold AstraStreamSource.signalFrom
  split_ifs with hready
  · exact h.congr rfl rfl rfl rfl rfl rfl hready.2.symm
  · refine h.congr rfl rfl rfl rfl rfl rfl (hwas.trans ?_)
    cases was with
    | true => exact (hset rfl).symm
    | false => exact (Bool.eq_false_iff.mpr fun hnow => hready ⟨nofun, hnow⟩).symm

section

variable (h : HoldsLine s l)
include h

theorem store (hroom : s.length ≠ s.capacity) (value : UInt8) (finished : Bool)
    (heof : finished = true → s.eofPending = false)
    (hfull : finished = false → s.length + 1 = s.capacity → s.committed ≠ 0) :
    HoldsLine { s with
        buffer := copyBytes s.buffer ((s.head + s.length) % 2 ^ 32 % s.capacity) (fun _ => value) 1
        length := s.length + 1
        committed := if finished then s.length + 1 else s.committed
        readable := finished || s.ready } (l.typed value finished) := by
  have hcontents := contents_store h.bounded hroom value
  have hlen := h.bounded.length
  have hcommitted := h.bounded.committed
  have hfits : s.length + 1 ≤ s.capacity := Nat.lt_of_le_of_ne hlen hroom
  cases finished with
  | true =>
    refine ⟨⟨h.bounded.pos, h.bounded.small, h.bounded.head, le_rfl, hfits⟩, ?_, ?_, ?_, ?_⟩
    · simp [ready]
    · rw [contents, hcontents]
      rw [LineStream.typed, if_pos rfl, if_pos rfl, take_of_length_le (by simp), h.done,
        heof rfl]
      conv_rhs => rw [h.contents_eq]
      simp
    · rw [contents, hcontents]
      exact (drop_of_length_le (by simp)).symm
    · exact fun _ => Nat.succ_ne_zero _
  | false =>
    have htake : (s.contents ++ [value]).take s.committed = s.contents.take s.committed :=
      take_append_of_le_length (by rwa [length_contents])
    refine ⟨⟨h.bounded.pos, h.bounded.small, h.bounded.head, ?_, hfits⟩, rfl, ?_, ?_, hfull rfl⟩
    · exact hcommitted.trans (Nat.le_succ _)
    · rw [contents, hcontents]
      rw [if_neg Bool.false_ne_true, htake, ← h.done]
      rfl
    · rw [contents, hcontents]
      rw [if_neg Bool.false_ne_true, drop_append_of_le_length (by rwa [length_contents]),
        ← h.line]
      rfl

theorem rebind (storage : ℕ → UInt8) (capacity : ℕ)
    (hfit : s.length ≤ capacity → 0 < capacity ∧ capacity ≤ 2 ^ 31 ∧
      (s.length = capacity → s.committed ≠ 0)) :
    HoldsLine (s.rebindStorage storage capacity).1 l := by
  have hcontents := contents_rebindStorage h.bounded storage capacity
  unfold rebindStorage at hcontents ⊢
  split_ifs at hcontents ⊢ with hbad
  · exact h
  have hle : s.length ≤ capacity := by omega
  obtain ⟨hpos, hsmall, hflow⟩ := hfit hle
  refine ⟨⟨hpos, hsmall, hpos, h.bounded.committed, hle⟩, h.event, ?_, ?_, hflow⟩
  · rw [hcontents]
    exact h.done
  · rw [hcontents]
    exact h.line

theorem offer (bytes : List UInt8)
    (hfree : bytes ≠ [] → s.length < s.capacity → s.length = s.committed ∧ s.eofPending = false) :
    HoldsLine (s.offer bytes).1 (l.offer (bytes.take (s.offer bytes).2)) := by
  obtain ⟨hcontents, htake⟩ := contents_offer h.bounded bytes
  generalize hgiven : bytes.take (s.offer bytes).2 = given at hcontents ⊢
  have hgivenlen : given.length = (s.offer bytes).2 := by
    rw [← hgiven, length_take, htake]
    omega
  have hlen := h.bounded.length
  have hcommitted := h.bounded.committed
  by_cases hnone : given = []
  · -- nothing was taken, and the buffer has what it had
    subst hnone
    have hzero : (s.offer bytes).2 = 0 := hgivenlen.symm
    rw [append_nil] at hcontents
    have hsame : l.offer [] = l := by simp [LineStream.offer]
    rw [hsame]
    unfold AstraStreamSource.offer at hcontents hzero ⊢
    by_cases hnil : bytes = []
    · rwa [if_pos hnil]
    rw [if_neg hnil] at hcontents hzero ⊢
    dsimp only at hcontents hzero ⊢
    rw [hzero] at hcontents ⊢
    simp only [ne_eq, not_true_eq_false, and_false, if_false] at hcontents ⊢
    refine ⟨⟨h.bounded.pos, h.bounded.small, h.bounded.head, hcommitted, hlen⟩, h.event, ?_, ?_,
      h.flowing⟩
    · rw [hcontents]
      exact h.done
    · rw [hcontents]
      exact h.line
  · have hpos : (s.offer bytes).2 ≠ 0 := by
      rw [← hgivenlen]
      exact fun h0 => hnone (length_eq_zero_iff.mp h0)
    have hnil : bytes ≠ [] := by
      rintro rfl
      exact hpos (by simp [htake])
    have hroom : s.length < s.capacity := by omega
    obtain ⟨hline, heof⟩ := hfree hnil hroom
    have hfields : (s.offer bytes).1.capacity = s.capacity ∧ (s.offer bytes).1.head = s.head ∧
        (s.offer bytes).1.length = s.length + (s.offer bytes).2 ∧
        (s.offer bytes).1.committed = s.committed + (s.offer bytes).2 ∧
        (s.offer bytes).1.eofPending = s.eofPending ∧ (s.offer bytes).1.readable = true := by
      have hevent := h.event
      unfold AstraStreamSource.offer at hpos ⊢
      rw [if_neg hnil] at hpos ⊢
      dsimp only at hpos ⊢
      split_ifs with hready
      · exact ⟨rfl, rfl, rfl, rfl, rfl, rfl⟩
      · refine ⟨rfl, rfl, rfl, rfl, rfl, ?_⟩
        rw [hevent]
        by_contra hnot
        exact hready ⟨hnot, hpos⟩
    obtain ⟨h1, h2, h3, h4, h5, h6⟩ := hfields
    have hall : s.contents.take s.committed = s.contents := by
      rw [← hline, ← length_contents, take_length]
    refine ⟨⟨?_, ?_, ?_, ?_, ?_⟩, ?_, ?_, ?_, ?_⟩
    · rw [h1]; exact h.bounded.pos
    · rw [h1]; exact h.bounded.small
    · rw [h1, h2]; exact h.bounded.head
    · rw [h3, h4]; omega
    · rw [h1, h3, htake]; omega
    · rw [h6, ready, h4]
      simp [hpos]
    · rw [hcontents, h4, h5, heof, take_of_length_le (by simp; omega), LineStream.offer,
        h.done, hall, heof]
      simp
    · rw [hcontents, h4, drop_of_length_le (by simp; omega)]
      exact h.line_eq_nil_iff.mpr hline
    · rw [h4]
      omega

theorem read (capacity : ℕ) :
    HoldsLine (s.spend capacity) (l.read (min capacity astraStreamWriteMax)).1 ∧
      s.readReply capacity = (l.read (min capacity astraStreamWriteMax)).2 := by
  have hcontents := contents_spend h.bounded capacity
  have hbytes := bytes_readReply h.bounded capacity
  have hlen := h.bounded.length
  have hcommitted := h.bounded.committed
  generalize hgive : min (min capacity s.committed) astraStreamWriteMax = give at hcontents hbytes
  have hle : give ≤ s.committed := by omega
  have hready : (s.spend capacity).readable = (s.spend capacity).ready := by
    have hpending : (if (s.readReply capacity).endOfFile then false else s.eofPending) = true →
        s.eofPending = true := by
      split_ifs
      · exact nofun
      · exact id
    unfold spend
    dsimp only
    generalize (if (s.readReply capacity).endOfFile then false else s.eofPending) = pending at *
    split_ifs with hready
    · -- what is ready after the read was ready before it
      have hwas : s.ready = true := by
        simp only [ready, Bool.or_eq_true, bne_iff_ne] at hready ⊢
        refine hready.imp (fun hleft => ?_) hpending
        omega
      exact (h.event.trans hwas).trans hready.symm
    · exact (Bool.eq_false_iff.mpr hready).symm
  have hfields : (s.spend capacity).capacity = s.capacity ∧
      (s.spend capacity).head = (s.head + give) % 2 ^ 32 % s.capacity ∧
      (s.spend capacity).length = s.length - give ∧
      (s.spend capacity).committed = s.committed - give ∧
      (s.spend capacity).eofPending =
        (if (s.readReply capacity).endOfFile then false else s.eofPending) := by
    unfold spend
    dsimp only
    rw [hgive]
    split_ifs <;> exact ⟨rfl, rfl, rfl, rfl, rfl⟩
  obtain ⟨h1, h2, h3, h4, h5⟩ := hfields
  have hbounded : (s.spend capacity).Bounded := by
    refine ⟨?_, ?_, ?_, ?_, ?_⟩
    · rw [h1]; exact h.bounded.pos
    · rw [h1]; exact h.bounded.small
    · rw [h1, h2]; exact Nat.mod_lt _ h.bounded.pos
    · rw [h3, h4]; omega
    · rw [h1, h3]; omega
  have hflowing : (s.spend capacity).length = (s.spend capacity).capacity →
      (s.spend capacity).committed ≠ 0 := by
    rw [h1, h3, h4]
    intro hfull
    have := h.flowing (by omega)
    have := h.bounded.pos
    omega
  have hreply : s.readReply capacity = ⟨s.contents.take give, s.committed == 0 && s.eofPending⟩ := by
    rw [← hbytes]
    rfl
  by_cases hmarked : s.committed = 0 ∧ s.eofPending = true
  · obtain ⟨hzero, heof⟩ := hmarked
    have hgive0 : give = 0 := by omega
    have hdone : l.done = [.endOfFile] := by
      rw [h.done, hzero, heof]
      rfl
    have hread : l.read (min capacity astraStreamWriteMax) = (⟨[], l.line⟩, ⟨[], true⟩) := by
      rw [LineStream.read, hdone]
    rw [hread, hreply, hgive0, hzero, heof]
    rw [hreply, hzero, heof] at h5
    rw [hgive0, drop_zero] at hcontents
    refine ⟨⟨hbounded, hready, ?_, ?_, hflowing⟩, rfl⟩
    · rw [h4, h5, hzero, hgive0]
      rfl
    · rw [hcontents, h4, hzero, h.line, hzero, hgive0]
  · have hend : (s.committed == 0 && s.eofPending) = false := by
      rw [Bool.and_eq_false_iff, beq_eq_false_iff_ne, ← Bool.not_eq_true]
      exact not_and_or.mp hmarked
    have hhead : l.done.head? ≠ some .endOfFile := by
      rw [h.done]
      cases htake : s.contents.take s.committed with
      | cons b bytes => exact nofun
      | nil =>
        have hzero : s.committed = 0 := by
          have := congrArg List.length htake
          rw [length_take, length_contents, length_nil] at this
          omega
        have heof : s.eofPending = false := by
          simpa [hzero] using hend
        rw [heof]
        exact nofun
    have hleading : (LineStream.leading l.done).take (min capacity astraStreamWriteMax) =
        s.contents.take give := by
      rw [h.done, leading_append, take_take]
      congr 1
      omega
    rw [read_of_head hhead, hleading, hreply, hend]
    rw [hreply, hend] at h5
    have hlength : (s.contents.take give).length = give := by
      rw [length_take, length_contents]
      omega
    refine ⟨⟨hbounded, hready, ?_, ?_, hflowing⟩, rfl⟩
    · rw [hcontents, h4, h5, hlength, h.done, if_neg Bool.false_ne_true,
        drop_append_of_le_length (by simp; omega), ← map_drop, drop_take]
    · rw [hcontents, h4, drop_drop, h.line]
      congr 1
      omega

end

end HoldsLine

/-! ## Bytes -/

/-- Nothing is committed behind a mark that is pending, and no unfinished line fills the buffer. -/
def AstraTtyState.Steady (tty : AstraTtyState) (s : AstraStreamSource) (byte : UInt8) : Prop :=
  match tty.action byte with
  | .endOfFile => s.length ≠ s.committed → s.eofPending = false
  | .store value => s.length ≠ s.capacity →
    (tty.commits value = true → s.eofPending = false) ∧
    (tty.commits value = false → s.length + 1 = s.capacity → s.committed ≠ 0)
  | _ => True

section Bytes

variable {s s' : AstraStreamSource} {l : LineStream} {tty : AstraTtyState}

theorem ttyByte_store (h : HoldsLine s l) {value : UInt8} (hroom : s.length ≠ s.capacity)
    (hcommit : tty.commits value = true → s.eofPending = false)
    (hfull : tty.commits value = false → s.length + 1 = s.capacity → s.committed ≠ 0)
    {echoed : AstraStreamSource}
    (hechoed : ∃ bytes, echoed = { s with
        buffer := copyBytes s.buffer ((s.head + s.length) % 2 ^ 32 % s.capacity) (fun _ => value) 1
        length := s.length + 1
        committed := if tty.commits value then s.length + 1 else s.committed
        echoed := bytes }) :
    HoldsLine (AstraStreamSource.signalFrom s.ready echoed) (l.typed value (tty.commits value)) := by
  obtain ⟨bytes, rfl⟩ := hechoed
  have hstore := h.store hroom value (tty.commits value) hcommit hfull
  have hready : (tty.commits value || s.ready) = AstraStreamSource.ready { s with
      buffer := copyBytes s.buffer ((s.head + s.length) % 2 ^ 32 % s.capacity) (fun _ => value) 1
      length := s.length + 1
      committed := if tty.commits value then s.length + 1 else s.committed
      echoed := bytes } := by
    cases tty.commits value <;> simp [ready]
  refine HoldsLine.signalFrom h.event ?_ fun hwas => ?_
  · exact hstore.congr rfl rfl rfl rfl rfl rfl hready.symm
  · rw [← hready]
    exact Bool.or_eq_true_iff.mpr (.inr hwas)

theorem ttyByte_keeps (h : HoldsLine s l) {byte : UInt8} (hsteady : tty.Steady s byte)
    (hbyte : ttyByte tty s byte = some s') : HoldsLine s' (l.press tty byte) := by
  unfold AstraTtyState.Steady at hsteady
  unfold ttyByte at hbyte
  unfold LineStream.press
  cases haction : tty.action byte with
  | ignored =>
    rw [haction] at hbyte
    exact Option.some.inj hbyte ▸ h
  | signal control =>
    rw [haction] at hbyte
    exact Option.some.inj hbyte ▸ h.signal _ control
  | erase value =>
    rw [haction] at hbyte
    dsimp only at hbyte ⊢
    split at hbyte
    · rename_i hline
      cases hbyte
      have herase := h.erase hline
      split_ifs
      · exact herase.echo _
      · exact herase.echo _
      · exact herase
    · rename_i hline
      cases hbyte
      have hnil : l.line = [] := h.line_eq_nil_iff.mpr
        (le_antisymm (not_lt.mp hline) h.bounded.committed)
      have hsame : l.rubOut = l := by
        rw [LineStream.rubOut, hnil, dropLast_nil, ← hnil]
      rwa [hsame]
  | kill =>
    rw [haction] at hbyte
    dsimp only at hbyte ⊢
    cases hbyte
    split_ifs
    · exact h.kill.echo _
    · exact h.kill
  | endOfFile =>
    rw [haction] at hbyte hsteady
    dsimp only at hbyte hsteady ⊢
    cases hbyte
    by_cases hline : s.length = s.committed
    · rw [if_neg (not_not.mpr hline)]
      have hmark := h.mark hline
      split_ifs with hready
      · exact hmark.congr rfl rfl rfl rfl rfl rfl (h.event.trans hready)
      · exact hmark
    · rw [if_pos hline]
      have hcommit := h.commit (hsteady hline) hline
      have hne : l.line ≠ [] := fun hnil => hline (h.line_eq_nil_iff.mp hnil)
      rw [LineStream.finish, if_pos hne]
      split_ifs with hready
      · exact hcommit.congr rfl rfl rfl rfl rfl rfl (h.event.trans hready)
      · exact hcommit
  | store value =>
    rw [haction] at hbyte hsteady
    dsimp only at hbyte hsteady ⊢
    split at hbyte
    · cases hbyte
    rename_i hroom
    cases hbyte
    obtain ⟨hcommit, hfull⟩ := hsteady hroom
    refine ttyByte_store h hroom hcommit hfull ?_
    split
    · rw [AstraStreamSource.echo]
      cases hout : s.output with
      | true => exact ⟨_, rfl⟩
      | false => exact ⟨s.echoed, rfl⟩
    · exact ⟨s.echoed, rfl⟩

/-- Every byte of a chunk is steady where it is typed. -/
def AstraTtyState.SteadyInput (tty : AstraTtyState) : AstraStreamSource → List UInt8 → Prop
  | _, [] => True
  | s, byte :: bytes => tty.Steady s byte ∧
    ∀ s', ttyByte tty s byte = some s' → tty.SteadyInput s' bytes

theorem ttyLoop_keeps : ∀ {bytes : List UInt8} {s : AstraStreamSource} {l : LineStream},
    HoldsLine s l → tty.SteadyInput s bytes →
      HoldsLine (ttyLoop tty s bytes).1
        ((bytes.take (ttyLoop tty s bytes).2).foldl (LineStream.press tty) l)
  | [], _, _, h, _ => h
  | byte :: bytes, s, l, h, hsteady => by
    rw [ttyLoop]
    cases hbyte : ttyByte tty s byte with
    | none => exact h
    | some s' =>
      rw [take_succ_cons, foldl_cons]
      exact ttyLoop_keeps (ttyByte_keeps h hsteady.1 hbyte) (hsteady.2 s' hbyte)

theorem ttyLoop_append : ∀ {first : List UInt8} {s : AstraStreamSource} (second : List UInt8),
    (ttyLoop tty s first).2 = first.length →
      ttyLoop tty s (first ++ second) = ((ttyLoop tty (ttyLoop tty s first).1 second).1,
        first.length + (ttyLoop tty (ttyLoop tty s first).1 second).2)
  | [], s, second, _ => by simp [ttyLoop]
  | byte :: first, s, second, hall => by
    rw [ttyLoop] at hall
    rw [cons_append, ttyLoop, ttyLoop]
    cases hbyte : ttyByte tty s byte with
    | none =>
      rw [hbyte] at hall
      simp at hall
    | some s' =>
      rw [hbyte] at hall
      dsimp only at hall ⊢
      rw [ttyLoop_append second (Nat.succ.inj hall)]
      refine Prod.ext rfl ?_
      simp only [length_cons]
      omega

end Bytes

/-! ## Chunks -/

section Chunks

variable {s : AstraStreamSource} {l : LineStream}

/-- A source as it can be observed: with what it holds at the buffer's start. -/
def AstraStreamSource.view (s : AstraStreamSource) : AstraStreamSource :=
  { s with
    buffer := fun i => s.contents.getD i 0
    head := 0 }

theorem offer_fields (hevent : s.readable = s.ready) (bytes : List UInt8) :
    (s.offer bytes).1.capacity = s.capacity ∧ (s.offer bytes).1.head = s.head ∧
      (s.offer bytes).1.length = s.length + (s.offer bytes).2 ∧
      (s.offer bytes).1.committed = s.committed + (s.offer bytes).2 ∧
      (s.offer bytes).1.eofPending = s.eofPending ∧
      (s.offer bytes).1.readable = (s.offer bytes).1.ready ∧
      (s.offer bytes).1.tty = s.tty ∧ (s.offer bytes).1.output = s.output ∧
      (s.offer bytes).1.echoed = s.echoed ∧ (s.offer bytes).1.signals = s.signals := by
  unfold AstraStreamSource.offer
  split
  · exact ⟨rfl, rfl, rfl, rfl, rfl, hevent, rfl, rfl, rfl, rfl⟩
  dsimp only
  split_ifs with hready
  · refine ⟨rfl, rfl, rfl, rfl, rfl, ?_, rfl, rfl, rfl, rfl⟩
    have hne : s.committed + min bytes.length (s.capacity - s.length) ≠ 0 := by
      have := hready.2
      omega
    symm
    simp only [ready, Bool.or_eq_true, bne_iff_ne]
    exact .inl hne
  · refine ⟨rfl, rfl, rfl, rfl, rfl, ?_, rfl, rfl, rfl, rfl⟩
    rw [hevent]
    rcases not_and_or.mp hready with hwas | hnone
    · have hset := not_not.mp hwas
      rw [hset]
      simp only [ready, Bool.or_eq_true, bne_iff_ne] at hset
      symm
      simp only [ready, Bool.or_eq_true, bne_iff_ne]
      exact hset.imp_left fun h => by omega
    · rw [not_not.mp hnone]
      rfl

theorem offer_append (h : s.Bounded) (hevent : s.readable = s.ready) {first : List UInt8}
    (second : List UInt8) (hall : (s.offer first).2 = first.length) :
    (s.offer (first ++ second)).1.view = ((s.offer first).1.offer second).1.view ∧
      (s.offer (first ++ second)).2 = first.length + ((s.offer first).1.offer second).2 := by
  obtain ⟨hc, ht⟩ := contents_offer h (first ++ second)
  obtain ⟨hc1, ht1⟩ := contents_offer h first
  obtain ⟨a1, a2, a3, a4, a5, a6, a7, a8, a9, a10⟩ := offer_fields hevent (first ++ second)
  obtain ⟨b1, b2, b3, b4, b5, b6, b7, b8, b9, b10⟩ := offer_fields hevent first
  have hlen := h.length
  have hbounded : (s.offer first).1.Bounded := by
    refine ⟨?_, ?_, ?_, ?_, ?_⟩
    · rw [b1]; exact h.pos
    · rw [b1]; exact h.small
    · rw [b1, b2]; exact h.head
    · rw [b3, b4]; exact Nat.add_le_add_right h.committed _
    · rw [b1, b3]; omega
  obtain ⟨hc2, ht2⟩ := contents_offer hbounded second
  obtain ⟨c1, c2, c3, c4, c5, c6, c7, c8, c9, c10⟩ := offer_fields b6 second
  have htake : (s.offer (first ++ second)).2 =
      first.length + ((s.offer first).1.offer second).2 := by
    rw [ht, ht2, b1, b3, hall, length_append]
    omega
  have hcontents : (s.offer (first ++ second)).1.contents =
      ((s.offer first).1.offer second).1.contents := by
    rw [hc, hc2, hc1, htake, hall, take_length, take_length_add_append,
      append_assoc]
  have hcommitted : (s.offer (first ++ second)).1.committed =
      ((s.offer first).1.offer second).1.committed := by
    rw [a4, c4, b4, htake, hall, Nat.add_assoc]
  have heof : (s.offer (first ++ second)).1.eofPending =
      ((s.offer first).1.offer second).1.eofPending := by rw [a5, c5, b5]
  refine ⟨?_, htake⟩
  apply AstraStreamSource.ext
  · simp only [AstraStreamSource.view, hcontents]
  · exact a1.trans (c1.trans b1).symm
  · rfl
  · change (s.offer (first ++ second)).1.length = ((s.offer first).1.offer second).1.length
    rw [a3, c3, b3, htake, hall, Nat.add_assoc]
  · exact hcommitted
  · exact heof
  · refine a6.trans (Eq.trans ?_ c6.symm)
    simp only [ready, hcommitted, heof]
  · exact a7.trans (c7.trans b7).symm
  · exact a8.trans (c8.trans b8).symm
  · exact a9.trans (c9.trans b9).symm
  · exact a10.trans (c10.trans b10).symm

theorem tty_echo (s : AstraStreamSource) (bytes : List UInt8) : (s.echo bytes).tty = s.tty := by
  unfold AstraStreamSource.echo
  split_ifs <;> rfl

theorem ttyByte_tty {tty : AstraTtyState} {s' : AstraStreamSource} {byte : UInt8}
    (h : ttyByte tty s byte = some s') : s'.tty = s.tty := by
  unfold ttyByte at h
  split at h
  · exact Option.some.inj h ▸ rfl
  · cases h
    split_ifs <;> rfl
  · split at h
    · cases h
      split_ifs
      · exact tty_echo ..
      · exact tty_echo ..
      · rfl
    · exact Option.some.inj h ▸ rfl
  · cases h
    split_ifs
    · exact tty_echo ..
    · rfl
  · cases h
    split_ifs <;> rfl
  · split at h
    · cases h
    cases h
    unfold AstraStreamSource.signalFrom AstraStreamSource.echo
    split_ifs <;> rfl

theorem ttyLoop_tty {tty : AstraTtyState} : ∀ (bytes : List UInt8) (s : AstraStreamSource),
    (ttyLoop tty s bytes).1.tty = s.tty
  | [], _ => rfl
  | byte :: bytes, s => by
    rw [ttyLoop]
    cases hbyte : ttyByte tty s byte with
    | none => rfl
    | some s' => exact (ttyLoop_tty bytes s').trans (ttyByte_tty hbyte)

theorem ttyInput_append (h : s.Bounded) (hevent : s.readable = s.ready) {first : List UInt8}
    (second : List UInt8) (hall : (s.ttyInput first).2 = first.length) :
    (s.ttyInput (first ++ second)).1.view = ((s.ttyInput first).1.ttyInput second).1.view ∧
      (s.ttyInput (first ++ second)).2 =
        first.length + ((s.ttyInput first).1.ttyInput second).2 := by
  unfold ttyInput at hall ⊢
  cases hbound : s.tty with
  | none =>
    rw [hbound] at hall
    rw [(offer_fields hevent first).2.2.2.2.2.2.1, hbound]
    exact offer_append h hevent second hall
  | some tty =>
    rw [hbound] at hall
    dsimp only at hall ⊢
    rw [ttyLoop_tty, hbound, ttyLoop_append second hall]
    exact ⟨rfl, rfl⟩

end Chunks

end Astra

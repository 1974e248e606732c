import AstraKernel.Thread.Pool

/-!
# The deadline heap

A binary heap of the slots with a deadline, least deadline first and then least slot; every thread
of it knows its position. `memory` says whether its frames are granted; a release of them is taken.
-/

namespace Astra

open Function

def deadlinePrecedes (d : DeadlineHeap) (left right : Slot) : Prop :=
  if d.deadlineCycles left ≠ d.deadlineCycles right then
    d.deadlineCycles left < d.deadlineCycles right
  else left < right

instance (d : DeadlineHeap) (left right : Slot) : Decidable (deadlinePrecedes d left right) :=
  inferInstanceAs (Decidable (ite _ _ _))

def deadlineSwap (d : DeadlineHeap) (left right : ℕ) : DeadlineHeap :=
  match d.heap[left]?, d.heap[right]? with
  | some leftSlot, some rightSlot =>
    { d with
      heap := (d.heap.set left rightSlot).set right leftSlot
      deadlinePosition :=
        update (update d.deadlinePosition leftSlot (some right)) rightSlot (some left) }
  | _, _ => d

/-- `deadline_precedes` of the slots at two positions of the heap. -/
def precedesAt (d : DeadlineHeap) (left right : ℕ) : Bool :=
  match d.heap[left]?, d.heap[right]? with
  | some leftSlot, some rightSlot => deadlinePrecedes d leftSlot rightSlot
  | _, _ => false

/-- `deadline_sift_up`; every turn at least halves the position, so the heap's length is fuel. -/
def deadlineSiftUp : ℕ → DeadlineHeap → ℕ → DeadlineHeap
  | 0, d, _ => d
  | fuel + 1, d, position =>
    if position = 0 then d
    else
      let parent := (position - 1) / 2
      if precedesAt d position parent = false then d
      else deadlineSiftUp fuel (deadlineSwap d position parent) parent

/-- Where a turn of `deadline_sift_down` goes on: its sums have 16 bits. It returns where it is. -/
def siftDownNext (d : DeadlineHeap) (position : ℕ) : ℕ :=
  let left := (position * 2 + 1) % 2 ^ 16
  let right := (left + 1) % 2 ^ 16
  let first := if left < d.heap.length ∧ precedesAt d left position then left else position
  if right < d.heap.length ∧ precedesAt d right first then right else first

/-- `deadline_sift_down`, cut off after so many turns. While the positions fit in 16 bits every turn
goes down a level, and the heap's length is enough. -/
def deadlineSiftDown : ℕ → DeadlineHeap → ℕ → DeadlineHeap
  | 0, d, _ => d
  | turns + 1, d, position =>
    let first := siftDownNext d position
    if first = position then d
    else deadlineSiftDown turns (deadlineSwap d position first) first

/-- The runs of `deadline_sift_down` that return. -/
inductive SiftDownEnds : DeadlineHeap → ℕ → DeadlineHeap → Prop
  | here {d : DeadlineHeap} {position : ℕ} : siftDownNext d position = position →
      SiftDownEnds d position d
  | turn {d d' : DeadlineHeap} {position : ℕ} : siftDownNext d position ≠ position →
      SiftDownEnds (deadlineSwap d position (siftDownNext d position)) (siftDownNext d position) d' →
      SiftDownEnds d position d'

def deadlineInsert (p : Pool) (t : Slot) (deadline timeoutResult : ℕ) (memory : Bool) : Result :=
  if ¬ validThread p t ∨ p.state t ≠ .blocked ∨ deadline = kernelThreadDeadlineNever
      ∨ p.deadlines.deadlinePosition t ≠ none then
    (.invalidState, p)
  else if memory = false then (.noSlot, p)
  else
    let position := p.deadlines.heap.length
    let d : DeadlineHeap := {
      heap := p.deadlines.heap ++ [t]
      deadlinePosition := update p.deadlines.deadlinePosition t (some position)
      deadlineCycles := update p.deadlines.deadlineCycles t deadline
      deadlineResult := update p.deadlines.deadlineResult t timeoutResult }
    (.ok, { p with deadlines := deadlineSiftUp d.heap.length d position })

def deadlineRemove (p : Pool) (t : Slot) : Result :=
  if ¬ validThread p t then (.invalidArgument, p)
  else
    match p.deadlines.deadlinePosition t with
    | none => (.ok, p)
    | some position =>
      if p.deadlines.heap[position]? ≠ some t then (.corrupt, p)
      else
        let heap := p.deadlines.heap.dropLast
        let d : DeadlineHeap := {
          heap := heap
          deadlinePosition := update p.deadlines.deadlinePosition t none
          deadlineCycles := update p.deadlines.deadlineCycles t 0
          deadlineResult := update p.deadlines.deadlineResult t 0 }
        match p.deadlines.heap.getLast? with
        | none => (.corrupt, p)
        | some replacement =>
          if heap.length = 0 ∨ position = heap.length then (.ok, { p with deadlines := d })
          else
            let d := { d with
              heap := heap.set position replacement
              deadlinePosition := update d.deadlinePosition replacement (some position) }
            if position ≠ 0 ∧ precedesAt d position ((position - 1) / 2) then
              (.ok, { p with deadlines := deadlineSiftUp heap.length d position })
            else (.ok, { p with deadlines := deadlineSiftDown heap.length d position })

def deadlineHeapValid (p : Pool) : Prop :=
  (∀ position < p.deadlines.heap.length, ∀ t ∈ p.deadlines.heap[position]?,
    validThread p t ∧ p.deadlines.deadlinePosition t = some position ∧ p.state t = .blocked
      ∧ p.waits.waitMemberCount t ≠ 0
      ∧ p.deadlines.deadlineCycles t ≠ kernelThreadDeadlineNever
      ∧ t ∉ p.deadlines.heap.take position
      ∧ ¬ precedesAt p.deadlines (position * 2 + 1) position
      ∧ ¬ precedesAt p.deadlines (position * 2 + 2) position) ∧
  ∀ t < p.threadSlots, validThread p t →
    ∀ position ∈ p.deadlines.deadlinePosition t, p.deadlines.heap[position]? = some t

instance (p : Pool) : Decidable (deadlineHeapValid p) :=
  inferInstanceAs (Decidable (_ ∧ _))

def kernelThreadNextDeadline (p : Pool) : Option ℕ :=
  match p.deadlines.heap.head? with
  | none => none
  | some t =>
    if ¬ validThread p t ∨ p.deadlines.deadlinePosition t ≠ some 0 then none
    else some (p.deadlines.deadlineCycles t)

end Astra

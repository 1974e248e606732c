import AstraKernel.Events.Store
import AstraKernel.Vfs.Path

/-!
# Reading the event log

`event_backend.c`: a file is the lines of the records that its node asks for, merged from three
rings by sequence, or those of the boot ring, made when they are read; a node remembers a line
boundary where the next read can resume.
-/

namespace Astra

inductive EventsKind
  | root | boot | bootCurrent | activityDir | subsystemDir | merged | earliest | subsystemOne
  | logDir | logFile
  deriving DecidableEq

def EventsKind.isDirectory (kind : EventsKind) : Bool :=
  kind = .root ∨ kind = .boot ∨ kind = .bootCurrent ∨ kind = .activityDir ∨ kind = .subsystemDir ∨
    kind = .subsystemOne ∨ kind = .logDir

/-- A place in each of the merged rings; in the boot ring the first of them. -/
abbrev EventsIndex : Type := Fin 3 → ℕ

structure AstraEventsNode where
  kind : EventsKind
  levelMin : ℕ
  subsystem : ℕ
  previousBoot : Bool
  logIndex : ℕ
  activity : BitVec 32
  activityFilter : Bool
  memoOffset : ℕ
  memoIndex : EventsIndex

/-- `logRead` reads a file of the text log. -/
structure AstraEventsBackend where
  store : AstraEventStore
  previous : Option AstraEventStore
  logRead : Option (ℕ → ℕ → ℕ → Option (List UInt8))

def mergedTier : Fin 3 → EventTier
  | 0 => .presented
  | 1 => .record
  | 2 => .detail

/-- One of the three rings in the search for the next record. -/
def mergedBest (store : AstraEventStore) (index : EventsIndex)
    (best : Option (AstraEventStored × Fin 3)) (tier : Fin 3) :
    Option (AstraEventStored × Fin 3) :=
  match astraEventStoreAt store (mergedTier tier) (index tier) with
  | none => best
  | some record =>
    if best.all (fun found => record.event.sequence < found.1.event.sequence) then
      some (record, tier)
    else best

/-- The next record by sequence, and the index behind it. -/
def mergedNext (store : AstraEventStore) (index : EventsIndex) :
    Option (AstraEventStored × EventsIndex) :=
  ([0, 1, 2].foldl (mergedBest store index) none).map fun best =>
    (best.1, Function.update index best.2 (index best.2 + 1))

def eventMatches (catalog : Option AstraEventCatalog) (node : AstraEventsNode)
    (record : AstraEventStored) : Bool :=
  if record.event.level < node.levelMin then false
  else if node.activityFilter ∧ record.event.activity ≠ node.activity then false
  else if node.subsystem ≥ astraEventSubsystemMax then true
  else
    match astraEventCatalogLookup catalog record.event.message with
    | none => false
    | some descriptor => descriptor.subsystem.toNat = node.subsystem

/-- `LINE_MAX` -/
abbrev eventsLineMax : ℕ := 218

/-- With zeroes before the digits, up to the width. -/
def paddedNumber (radix width value : ℕ) : List UInt8 :=
  let digits := numberText radix value
  List.replicate (width - digits.length) 0x30 ++ digits

def levelName : ℕ → List UInt8
  | 0 => asciiText "debug"
  | 1 => asciiText "info"
  | 2 => asciiText "notice"
  | 3 => asciiText "warning"
  | 4 => asciiText "error"
  | _ => asciiText "?"

/-- The line of a record, as far as it has a place. -/
def renderLine (catalog : Option AstraEventCatalog) (record : AstraEventStored)
    (capacity : ℕ) : List UInt8 :=
  let event := record.event
  let out := put capacity [] (asciiText "seq ")
  let out := put capacity out (numberText 10 event.sequence.toNat)
  let out := put capacity out (asciiText "  ")
  let out := put capacity out (levelName event.level)
  let out := put capacity out (asciiText "  ")
  let out := put capacity out (paddedNumber 16 8 event.process.toNat)
  let out := put capacity out (asciiText "/")
  let out := put capacity out (numberText 10 event.thread.toNat)
  let out := if event.activity = 0 then out else
    put capacity (put capacity out (asciiText " act ")) (paddedNumber 16 8 event.activity.toNat)
  let out := put capacity out (asciiText "  ")
  let out := out ++ astraEventCatalogRender catalog event.message event.flags event.carried
    (capacity - out.length)
  let out := match astraEventCatalogLookup catalog event.message with
    | none => out
    | some descriptor =>
      let out := put capacity out (asciiText " (")
      let out := put capacity out (descriptor.file.takeWhile (· ≠ 0))
      let out := put capacity out (asciiText ":")
      let out := put capacity out (numberText 10 descriptor.line.toNat)
      put capacity out (asciiText ")")
  put capacity out (asciiText "\n")

namespace AstraEventsNode

variable (node : AstraEventsNode)

/-- The node reads the boot ring. -/
def BootRing : Prop := node.previousBoot = true ∨ node.kind = .earliest

instance : Decidable node.BootRing := inferInstanceAs (Decidable (_ ∨ _))

def nextRecord (store : AstraEventStore) (index : EventsIndex) :
    Option (AstraEventStored × EventsIndex) :=
  if node.BootRing then
    (astraEventStoreAt store .boot (index 0)).map fun record =>
      (record, Function.update index 0 (index 0 + 1))
  else mergedNext store index

/-- A read under way: where the text of the index begins, and what has been produced; `memo` is
what the node will remember. -/
structure ReadState where
  index : EventsIndex
  place : ℕ
  out : List UInt8
  memoOffset : ℕ
  memoIndex : EventsIndex

/-- The loop of `events_read`; each pass takes a record. -/
def readLoop (store : AstraEventStore) (offset length : ℕ) : ℕ → ReadState → ReadState
  | 0, r => r
  | fuel + 1, r =>
    match node.nextRecord store r.index with
    | none => r
    | some (record, index) =>
      if eventMatches store.catalog node record = false then
        readLoop store offset length fuel { r with index := index }
      else
        let line := renderLine store.catalog record eventsLineMax
        let place := r.place + line.length
        if place ≤ offset then
          readLoop store offset length fuel { r with index := index, place := place }
        else
          let rest := if r.place < offset then line.drop (offset - r.place) else line
          let out := r.out ++ rest.take (length - r.out.length)
          let r := { r with index := index, place := place, out := out }
          -- Where a later read can resume, once the whole line has been delivered.
          let r := if place ≤ offset + out.length then
              { r with memoOffset := place % 2 ^ 32, memoIndex := index }
            else r
          if out.length = length then r else readLoop store offset length fuel r

end AstraEventsNode

/-- The records of a store that a read can go through. -/
def AstraEventStore.total (s : AstraEventStore) : ℕ :=
  (s.tiers .presented).count + (s.tiers .record).count + (s.tiers .detail).count +
    (s.tiers .boot).count

/-- The store that the node reads. -/
def AstraEventsBackend.storeOf (b : AstraEventsBackend) (node : AstraEventsNode) :
    Option AstraEventStore :=
  if node.previousBoot then b.previous else some b.store

/-- The bytes that are read, with the node that is left. -/
def eventsRead (b : AstraEventsBackend) (node : AstraEventsNode) (offset length : ℕ) :
    AstraVfsStatus × List UInt8 × AstraEventsNode :=
  if node.kind.isDirectory then (.invalid, [], node)
  else if node.kind = .logFile then
    match b.logRead.bind fun logRead => logRead node.logIndex offset length with
    | some bytes => (.ok, bytes, node)
    | none => (.io, [], node)
  else
    match b.storeOf node with
    | none => (.notFound, [], node)
    | some store =>
      let resumes := node.memoOffset ≠ 0 ∧ offset ≥ node.memoOffset
      let r := node.readLoop store offset length (store.total + 1)
        { index := if resumes then node.memoIndex else 0
          place := if resumes then node.memoOffset else 0
          out := []
          memoOffset := node.memoOffset
          memoIndex := node.memoIndex }
      (.ok, r.out, { node with memoOffset := r.memoOffset, memoIndex := r.memoIndex })

end Astra

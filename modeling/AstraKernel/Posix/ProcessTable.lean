import Mathlib.Algebra.Group.Nat.Defs
import Mathlib.Data.List.Basic

/-!
# The POSIX process table

`process_table.c` of `posixd`: the processes, with their parents, groups and sessions, and the
sessions with their terminals: two arrays of one capacity in one block. A slot is free where its
number is zero.
-/

namespace Astra

abbrev astraStatusOk : ℕ := 0
abbrev astraStatusNotFound : ℕ := 2
abbrev astraStatusExists : ℕ := 3
abbrev astraStatusAccess : ℕ := 6
abbrev astraStatusInvalid : ℕ := 8
abbrev astraStatusLimit : ℕ := 10
abbrev astraStatusBusy : ℕ := 14

abbrev astraPosixProcessNewSession : UInt32 := 1
abbrev astraPosixProcessFlagMask : UInt32 := astraPosixProcessNewSession
abbrev posixProcessTableInitial : ℕ := 8

structure PosixProcessEntry where
  handle : UInt32
  process : Int32
  parent : Int32
  group : Int32
  session : Int32
  deriving DecidableEq

/-- The reserved bytes of an entry are never written. -/
structure PosixSessionEntry where
  session : Int32
  foreground : Int32
  terminal : Bool
  deriving DecidableEq

/-! ## The block -/

def PosixProcessEntry.zero : PosixProcessEntry := ⟨0, 0, 0, 0, 0⟩

def PosixSessionEntry.zero : PosixSessionEntry := ⟨0, 0, false⟩

/-- The words of an entry; the terminal is the first of four bytes. -/
def PosixProcessEntry.words (e : PosixProcessEntry) : List UInt32 :=
  [e.handle, e.process.toUInt32, e.parent.toUInt32, e.group.toUInt32, e.session.toUInt32]

def PosixSessionEntry.words (s : PosixSessionEntry) : List UInt32 :=
  [s.session.toUInt32, s.foreground.toUInt32, if s.terminal then 0x1000000 else 0]

def processWords : ℕ := 5

def sessionWords : ℕ := 3

def PosixProcessEntry.ofWords : List UInt32 → PosixProcessEntry
  | [handle, process, parent, group, session] =>
    ⟨handle, process.toInt32, parent.toInt32, group.toInt32, session.toInt32⟩
  | _ => .zero

def PosixSessionEntry.ofWords : List UInt32 → PosixSessionEntry
  | [session, foreground, terminal] =>
    ⟨session.toInt32, foreground.toInt32, terminal >>> 24 != 0⟩
  | _ => .zero

/-- `memmove` of `count` words within the block. -/
def moveWords (block : List UInt32) (target source count : ℕ) : List UInt32 :=
  block.take target ++ (block.drop source).take count ++ block.drop (target + count)

/-- `memset` to zero. -/
def zeroWords (block : List UInt32) (start count : ℕ) : List UInt32 :=
  block.take start ++ List.replicate count 0 ++ block.drop (start + count)

/-- Both arrays have the table's capacity. -/
structure PosixProcessTable where
  entries : List PosixProcessEntry
  sessions : List PosixSessionEntry
  same : sessions.length = entries.length

/-- What `reallocate` answers where it is asked for so many words: no block, or one that holds what
there was, with these words behind it. -/
abbrev Reallocate := ℕ → Option (ℕ → UInt32)

namespace PosixProcessTable

def capacity (t : PosixProcessTable) : ℕ := t.entries.length

/-- A table that was just made. -/
def init : PosixProcessTable := ⟨[], [], rfl⟩

def storage (t : PosixProcessTable) : List UInt32 :=
  t.entries.flatMap (·.words) ++ t.sessions.flatMap (·.words)

/-- The table in a block. -/
def ofStorage (capacity : ℕ) (storage : List UInt32) : PosixProcessTable where
  entries := (List.range capacity).map fun i =>
    .ofWords ((storage.drop (processWords * i)).take processWords)
  sessions := (List.range capacity).map fun i =>
    .ofWords ((storage.drop (processWords * capacity + sessionWords * i)).take sessionWords)
  same := by simp

/-- `size_t` has 32 bits, and so has the capacity. -/
def grow (reallocate : Reallocate) (t : PosixProcessTable) : Option PosixProcessTable :=
  let capacity :=
    if t.capacity = 0 then posixProcessTableInitial else t.capacity * 2 % 2 ^ 32
  let recordBytes := 4 * (processWords + sessionWords)
  let bytes := capacity * recordBytes % 2 ^ 32
  if capacity < t.capacity then none
  else if capacity ≠ 0 ∧ bytes / capacity ≠ recordBytes then none
  else
    match reallocate (capacity * (processWords + sessionWords)) with
    | none => none
    | some fresh =>
      let added := (processWords + sessionWords) * (capacity - t.capacity)
      let storage := t.storage ++ (List.range added).map fresh
      let storage := moveWords storage (processWords * capacity) (processWords * t.capacity)
        (sessionWords * t.capacity)
      let storage := zeroWords storage (processWords * t.capacity)
        (processWords * (capacity - t.capacity))
      let storage := zeroWords storage (processWords * capacity + sessionWords * t.capacity)
        (sessionWords * (capacity - t.capacity))
      some (ofStorage capacity storage)

/-! ## The calls -/

def find (t : PosixProcessTable) (process : Int32) : Option ℕ :=
  if process ≤ 0 then none else t.entries.findIdx? fun e => e.process == process

def findSession (t : PosixProcessTable) (session : Int32) : Option ℕ :=
  if session ≤ 0 then none else t.sessions.findIdx? fun s => s.session == session

def entry (t : PosixProcessTable) (i : ℕ) : PosixProcessEntry := t.entries.getD i .zero

def session (t : PosixProcessTable) (i : ℕ) : PosixSessionEntry := t.sessions.getD i .zero

def setEntry (t : PosixProcessTable) (i : ℕ) (e : PosixProcessEntry) : PosixProcessTable :=
  { t with
    entries := t.entries.set i e
    same := by simp [t.same] }

def setSession (t : PosixProcessTable) (i : ℕ) (s : PosixSessionEntry) : PosixProcessTable :=
  { t with
    sessions := t.sessions.set i s
    same := by simp [t.same] }

/-- After a table has grown the loop finds a slot. -/
def newSession (reallocate : Reallocate) (t : PosixProcessTable) (session : Int32) :
    Option PosixProcessTable :=
  let take := fun t : PosixProcessTable =>
    (t.sessions.findIdx? fun s => s.session == 0).map fun i =>
      t.setSession i { t.session i with session := session }
  match take t with
  | some t' => some t'
  | none => (t.grow reallocate).bind take

def newProcess (reallocate : Reallocate) (t : PosixProcessTable) :
    Option (PosixProcessTable × ℕ) :=
  let slot := fun t : PosixProcessTable =>
    (t.entries.findIdx? fun e => e.process == 0).map fun i => (t, i)
  match slot t with
  | some found => some found
  | none => (t.grow reallocate).bind slot

def removeEmptySession (t : PosixProcessTable) (session : Int32) : PosixProcessTable :=
  if t.entries.any fun e => e.process != 0 && e.session == session then t
  else
    match t.findSession session with
    | none => t
    | some i => t.setSession i .zero

def groupInSession (t : PosixProcessTable) (session group : Int32) : Bool :=
  t.entries.any fun e => e.process != 0 && e.session == session && e.group == group

def register (reallocate : Reallocate) (t : PosixProcessTable) (sender process : Int32)
    (handle flags : UInt32) : PosixProcessTable × ℕ :=
  if sender ≤ 0 ∨ process ≤ 0 ∨ sender = process ∨ handle = 0 ∨
      flags &&& ~~~astraPosixProcessFlagMask ≠ 0 then (t, astraStatusInvalid)
  else if (t.find process).isSome then (t, astraStatusExists)
  else
    match t.newProcess reallocate with
    | none => (t, astraStatusLimit)
    | some (t, _) =>
      if flags &&& astraPosixProcessNewSession = 0 then
        match t.find sender with
        | none => (t, astraStatusAccess)
        | some parent =>
          let parent := t.entry parent
          match t.findSession parent.session with
          | none => (t, astraStatusInvalid)
          | some _ =>
            match t.newProcess reallocate with
            | none => (t, astraStatusLimit)
            | some (t, i) =>
              (t.setEntry i ⟨handle, process, parent.process, parent.group, parent.session⟩,
                astraStatusOk)
      else
        match t.newSession reallocate process with
        | none => (t, astraStatusLimit)
        | some t =>
          match t.newProcess reallocate with
          | none => (t, astraStatusLimit)
          | some (t, i) => (t.setEntry i ⟨handle, process, 0, process, process⟩, astraStatusOk)

/-- The handle that goes back to the caller is left out. -/
def remove (t : PosixProcessTable) (process : Int32) : PosixProcessTable × ℕ :=
  match t.find process with
  | none => (t, astraStatusNotFound)
  | some i =>
    let session := (t.entry i).session
    let t := t.setEntry i .zero
    let t : PosixProcessTable :=
      { t with
        entries := t.entries.map fun e => if e.parent = process then { e with parent := 0 } else e
        same := by simp [t.same] }
    (t.removeEmptySession session, astraStatusOk)

def setpgid (t : PosixProcessTable) (sender process group : Int32) : PosixProcessTable × ℕ :=
  match t.find sender with
  | none => (t, astraStatusAccess)
  | some caller =>
    let process := if process = 0 then sender else process
    let group := if group = 0 then process else group
    if process ≤ 0 ∨ group ≤ 0 then (t, astraStatusInvalid)
    else
      match t.find process with
      | none => (t, astraStatusNotFound)
      | some i =>
        let target := t.entry i
        if i ≠ caller ∧ target.parent ≠ sender then (t, astraStatusAccess)
        else if target.session ≠ (t.entry caller).session ∨ target.session = target.process then
          (t, astraStatusAccess)
        else if ¬(group = target.process ∨ t.groupInSession target.session group) then
          (t, astraStatusNotFound)
        else (t.setEntry i { target with group := group }, astraStatusOk)

/-- The copy of the entry that goes back to the caller is left out. -/
def setsid (reallocate : Reallocate) (t : PosixProcessTable) (sender : Int32) :
    PosixProcessTable × ℕ :=
  match t.find sender with
  | none => (t, astraStatusAccess)
  | some caller =>
    if t.entries.any fun e => e.process != 0 && e.group == sender then (t, astraStatusBusy)
    else
      let oldSession := (t.entry caller).session
      match t.newSession reallocate sender with
      | none => (t, astraStatusLimit)
      | some t =>
        match t.find sender with
        | none => (t, astraStatusInvalid)
        | some caller =>
          let t := t.setEntry caller { t.entry caller with group := sender, session := sender }
          (t.removeEmptySession oldSession, astraStatusOk)

def ttyAttach (t : PosixProcessTable) (sender : Int32) : PosixProcessTable × ℕ :=
  match t.find sender with
  | none => (t, astraStatusAccess)
  | some caller =>
    let caller := t.entry caller
    if caller.session ≠ sender then (t, astraStatusAccess)
    else
      match t.findSession caller.session with
      | none => (t, astraStatusInvalid)
      | some i =>
        if (t.session i).terminal then (t, astraStatusBusy)
        else (t.setSession i { t.session i with foreground := caller.group, terminal := true },
          astraStatusOk)

def ttySetForeground (t : PosixProcessTable) (sender group : Int32) : PosixProcessTable × ℕ :=
  match t.find sender with
  | none => (t, astraStatusAccess)
  | some caller =>
    let caller := t.entry caller
    match t.findSession caller.session with
    | none => (t, astraStatusNotFound)
    | some i =>
      if ¬(t.session i).terminal then (t, astraStatusNotFound)
      else if group ≤ 0 then (t, astraStatusInvalid)
      else if ¬t.groupInSession caller.session group then (t, astraStatusAccess)
      else (t.setSession i { t.session i with foreground := group }, astraStatusOk)

end PosixProcessTable

/-- The calls on a table. -/
inductive PosixCall
  | register (sender process : Int32) (handle flags : UInt32)
  | remove (process : Int32)
  | setpgid (sender process group : Int32)
  | setsid (sender : Int32)
  | ttyAttach (sender : Int32)
  | ttySetForeground (sender group : Int32)

def PosixProcessTable.call (reallocate : Reallocate) (t : PosixProcessTable) :
    PosixCall → PosixProcessTable × ℕ
  | .register sender process handle flags => t.register reallocate sender process handle flags
  | .remove process => t.remove process
  | .setpgid sender process group => t.setpgid sender process group
  | .setsid sender => t.setsid reallocate sender
  | .ttyAttach sender => t.ttyAttach sender
  | .ttySetForeground sender group => t.ttySetForeground sender group

end Astra

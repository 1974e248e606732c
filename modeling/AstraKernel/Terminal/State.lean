import AstraKernel.Loops
import Mathlib.Data.UInt

/-!
# The terminal's cells

The state of `terminal.c` and what its functions do to the cells and their damage. A read or a write
outside an array has no result. The `uint32_t` fields are natural numbers: `sub32` is the
subtraction that wraps, and an addition is written without a remainder where the test before it
keeps the sum in range.
-/

namespace Astra

abbrev astraTerminalTabWidth : ℕ := 8
abbrev astraTerminalStorageAlignment : ℕ := 4
abbrev astraTerminalCsiParameters : ℕ := 32
abbrev astraTextColorDefault : UInt32 := 0xffffffff
abbrev csiMissing : ℕ := 2 ^ 32 - 1
abbrev terminalBlank : UInt32 := 0x20
abbrev sizeofTextCell : ℕ := 16
abbrev sizeofUint32 : ℕ := 4
abbrev sizeMax : ℕ := 2 ^ 32 - 1

/-- `a - b` on `uint32_t`. -/
def sub32 (a b : ℕ) : ℕ := if b ≤ a then a - b else a + 2 ^ 32 - b

theorem sub32_of_le {a b : ℕ} (h : b ≤ a) : sub32 a b = a - b := if_pos h

structure AstraTextCell where
  codepoint : UInt32
  foreground : UInt32
  background : UInt32
  attributes : UInt16
  width : UInt8
  reserved : UInt8
  deriving DecidableEq, Inhabited

inductive TerminalScreen
  | primary
  | alternate
  deriving DecidableEq

inductive TerminalParser
  | ground
  | escape
  | csi
  | osc
  | oscEscape
  | charset
  deriving DecidableEq

/-- What the callbacks other than those that draw are given. -/
inductive TerminalOutput
  | echo (line : List UInt8)
  | reply (bytes : List UInt8)
  | prompt
  | history (cells : List AstraTextCell)
  deriving DecidableEq

structure AstraTerminal where
  cells : TerminalScreen
  primaryCells : List AstraTextCell
  alternateCells : List AstraTextCell
  dirtyFirst : List ℕ
  dirtyLast : List ℕ
  echoLine : List UInt8
  capacityColumns : ℕ
  capacityRows : ℕ
  columns : ℕ
  rows : ℕ
  cursorRow : ℕ
  cursorColumn : ℕ
  scrolls : ℕ
  pendingScrolls : ℕ
  scrollRedrawFrom : ℕ
  scrollTop : ℕ
  scrollBottom : ℕ
  savedCursorRow : ℕ
  savedCursorColumn : ℕ
  csiParameters : List ℕ
  csiParameterCount : ℕ
  utf8Codepoint : UInt32
  foreground : UInt32
  background : UInt32
  attributes : UInt16
  parserState : TerminalParser
  csiPrivate : UInt8
  csiOverflow : Bool
  utf8Remaining : ℕ
  utf8Expected : ℕ
  oscPromptMatch : ℕ
  cursorVisible : Bool
  alternateScreen : Bool
  echoCarriageReturn : Bool
  render : Bool
  scroll : Bool
  echo : Bool
  prompt : Bool
  history : Bool
  /-- The reply callback, if there is one, by what it answers to the replies in their order. -/
  reply : Option (ℕ → Bool)
  echoLength : ℕ
  echoColumns : ℕ
  replyFailures : ℕ
  outputs : List TerminalOutput

namespace AstraTerminal

variable (t : AstraTerminal)

/-- The buffer that `cells` points to. -/
def active : List AstraTextCell :=
  match t.cells with
  | .primary => t.primaryCells
  | .alternate => t.alternateCells

def withActive (buffer : List AstraTextCell) : AstraTerminal :=
  match t.cells with
  | .primary => { t with primaryCells := buffer }
  | .alternate => { t with alternateCells := buffer }

def blankCell : AstraTextCell :=
  ⟨terminalBlank, t.foreground, t.background, t.attributes, 1, 0⟩

/-- Where `cell` and `const_cell` point into the buffer. -/
def cell (row column : ℕ) : ℕ := row * t.capacityColumns + column

def loadCell (row column : ℕ) : Option AstraTextCell := t.active[t.cell row column]?

def storeCell (row column : ℕ) (value : AstraTextCell) : Option AstraTerminal :=
  if t.cell row column < t.active.length then
    some (t.withActive (t.active.set (t.cell row column) value))
  else none

def loadRun (row column count : ℕ) : Option (List AstraTextCell) :=
  if t.cell row column + count ≤ t.active.length then
    some ((t.active.drop (t.cell row column)).take count)
  else none

def storeDirty (row first last : ℕ) : Option AstraTerminal :=
  if row < t.dirtyFirst.length ∧ row < t.dirtyLast.length then
    some { t with dirtyFirst := t.dirtyFirst.set row first, dirtyLast := t.dirtyLast.set row last }
  else none

def mark (row column : ℕ) : Option AstraTerminal := do
  let first ← t.dirtyFirst[row]?
  let last ← t.dirtyLast[row]?
  let hull := (if column < first then column else first, if column > last then column else last)
  if first > last then t.storeDirty row column column else t.storeDirty row hull.1 hull.2

def markRow (row : ℕ) : Option AstraTerminal := t.storeDirty row 0 (sub32 t.columns 1)

def markRows (first last : ℕ) : Option AstraTerminal :=
  forUp first last (fun row t => t.markRow row) t

def clearDamage : Option AstraTerminal := forUp 0 t.rows (fun row t => t.storeDirty row 1 0) t

/-- The rows from the given one on, as many as are left. -/
def firstDirtyFrom : ℕ → ℕ → Option ℕ
  | 0, _ => some t.rows
  | n + 1, row => do
    let first ← t.dirtyFirst[row]?
    let last ← t.dirtyLast[row]?
    if first ≤ last then some row else firstDirtyFrom n (row + 1)

def firstDirtyRow : Option ℕ := t.firstDirtyFrom t.rows 0

def copyCell (row column fromRow fromColumn : ℕ) : Option AstraTerminal := do
  t.storeCell row column (← t.loadCell fromRow fromColumn)

def blankRow (row : ℕ) : Option AstraTerminal :=
  forUp 0 t.columns (fun column t => t.storeCell row column t.blankCell) t

/-- One more row that the display is to be moved by, `dirty` the first that had changed. -/
def oweScroll (dirty : ℕ) : AstraTerminal :=
  let t := if t.pendingScrolls < t.rows then { t with pendingScrolls := t.pendingScrolls + 1 }
    else t
  { t with
    scrollRedrawFrom :=
      if t.pendingScrolls ≥ t.rows ∨ dirty = 0 then 0
      else if dirty = t.rows then sub32 t.rows 1 else dirty - 1 }

def scrollFullOne : Option AstraTerminal := do
  let dirty ← t.firstDirtyRow
  let t ← forUp 1 t.rows (fun row t =>
    forUp 0 t.columns (fun column t => t.copyCell (row - 1) column row column) t) t
  let t ← t.blankRow (sub32 t.rows 1)
  let t ← if t.scroll then do
      let t ← (t.oweScroll dirty).clearDamage
      t.markRows t.scrollRedrawFrom t.rows
    else t.markRows 0 t.rows
  some { t with scrolls := (t.scrolls + 1) % 2 ^ 32 }

def emitHistory (row : ℕ) : Option AstraTerminal := do
  let cells ← t.loadRun row 0 t.columns
  some { t with outputs := t.outputs ++ [.history cells] }

/-- The rows that leave the primary screen go to the history. -/
def emitHistoryRows (top bottom count : ℕ) : Option AstraTerminal :=
  if t.alternateScreen = false ∧ top = 0 ∧ bottom + 1 = t.rows ∧ t.history then
    forUp 0 count (fun row t => t.emitHistory row) t
  else some t

def scrollUp (top bottom count : ℕ) : Option AstraTerminal := do
  let height := sub32 bottom top + 1
  let count := if count > height then height else count
  let t ← t.emitHistoryRows top bottom count
  if top = 0 ∧ bottom + 1 = t.rows ∧ count = 1 then t.scrollFullOne
  else do
    let t := { t with pendingScrolls := 0 }
    -- `row + count <= bottom`
    let t ← forUp top (bottom + 1 - count) (fun row t =>
      forUp 0 t.columns (fun column t => t.copyCell row column (row + count) column) t) t
    let t ← forUp (bottom + 1 - count) (bottom + 1) (fun row t => t.blankRow row) t
    let t ← t.markRows top (bottom + 1)
    some { t with scrolls := (t.scrolls + count) % 2 ^ 32 }

def scrollDown (top bottom count : ℕ) : Option AstraTerminal := do
  let height := sub32 bottom top + 1
  let count := if count > height then height else count
  let t := { t with pendingScrolls := 0 }
  let t ← forDown top (bottom + 1 - count) (fun row t =>
    forUp 0 t.columns (fun column t => t.copyCell (row + count) column row column) t) t
  let t ← forUp top (top + count) (fun row t => t.blankRow row) t
  t.markRows top (bottom + 1)

def newline : Option AstraTerminal :=
  let t := { t with cursorColumn := 0 }
  let t := if t.cursorRow < t.scrollTop then { t with cursorRow := t.scrollTop } else t
  if t.cursorRow < t.scrollBottom then some { t with cursorRow := t.cursorRow + 1 }
  else if t.cursorRow = t.scrollBottom then t.scrollUp t.scrollTop t.scrollBottom 1
  else some t

def eraseCells (row first last : ℕ) : Option AstraTerminal :=
  if first ≥ t.columns then some t
  else do
    let last := if last ≥ t.columns then t.columns - 1 else last
    let t ← forUp first (last + 1) (fun column t => t.storeCell row column t.blankCell) t
    let t ← t.mark row first
    t.mark row last

def eraseDisplay (mode : ℕ) : Option AstraTerminal :=
  if mode = 2 ∨ mode = 3 then
    forUp 0 t.rows (fun row t => t.eraseCells row 0 (sub32 t.columns 1)) t
  else if mode = 1 then do
    let t ← forUp 0 t.cursorRow (fun row t => t.eraseCells row 0 (sub32 t.columns 1)) t
    t.eraseCells t.cursorRow 0 t.cursorColumn
  else do
    let t ← t.eraseCells t.cursorRow t.cursorColumn (sub32 t.columns 1)
    forUp (t.cursorRow + 1) t.rows (fun row t => t.eraseCells row 0 (sub32 t.columns 1)) t

def eraseLine (mode : ℕ) : Option AstraTerminal :=
  if mode = 1 then t.eraseCells t.cursorRow 0 t.cursorColumn
  else if mode = 2 then t.eraseCells t.cursorRow 0 (sub32 t.columns 1)
  else t.eraseCells t.cursorRow t.cursorColumn (sub32 t.columns 1)

def cursorTo (row column : ℕ) : AstraTerminal :=
  { t with
    cursorRow := if row < t.rows then row else sub32 t.rows 1
    cursorColumn := if column < t.columns then column else sub32 t.columns 1 }

def saveCursor : AstraTerminal :=
  { t with savedCursorRow := t.cursorRow, savedCursorColumn := t.cursorColumn }

def restoreCursor : AstraTerminal := t.cursorTo t.savedCursorRow t.savedCursorColumn

def insertCharacters (count : ℕ) : Option AstraTerminal := do
  let available := sub32 t.columns t.cursorColumn
  let count := if count > available then available else count
  let t ← forDown (t.cursorColumn + count) t.columns (fun column t =>
    t.copyCell t.cursorRow column t.cursorRow (column - count)) t
  let t ← t.eraseCells t.cursorRow t.cursorColumn (sub32 (t.cursorColumn + count) 1)
  t.markRow t.cursorRow

def deleteCharacters (count : ℕ) : Option AstraTerminal := do
  let available := sub32 t.columns t.cursorColumn
  let count := if count > available then available else count
  -- `column + count < columns`
  let t ← forUp t.cursorColumn (t.columns - count) (fun column t =>
    t.copyCell t.cursorRow column t.cursorRow (column + count)) t
  let t ← t.eraseCells t.cursorRow (sub32 t.columns count) (sub32 t.columns 1)
  t.markRow t.cursorRow

end AstraTerminal

/-! ## Setting up and resizing -/

def addSize (total count width : ℕ) : Option ℕ :=
  if count ≠ 0 ∧ width > (sizeMax - total) / count then none else some (total + count * width)

inductive AstraTerminalStatus
  | ok
  | invalidArgument
  | storageTooSmall
  | renderFailed
  deriving DecidableEq

def astraTerminalStorageSize (columns rows : ℕ) : Except AstraTerminalStatus ℕ :=
  if columns = 0 ∨ rows = 0 then .error .invalidArgument
  else
    let total := do
      let cells ← addSize 0 rows columns
      let total ← addSize (astraTerminalStorageAlignment - 1) rows (2 * sizeofUint32)
      let total ← addSize total cells sizeofTextCell
      let total ← addSize total cells sizeofTextCell
      addSize total columns 4
    match total with
    | some bytes => .ok bytes
    | none => .error .storageTooSmall

/-- Where the arrays of a terminal start in its storage. -/
structure TerminalLayout where
  dirtyFirst : ℕ
  dirtyLast : ℕ
  primaryCells : ℕ
  alternateCells : ℕ
  echoLine : ℕ
  deriving DecidableEq

def bindLayout (columns rows storage storageSize : ℕ) : Option TerminalLayout :=
  let aligned := (storage + astraTerminalStorageAlignment - 1) % 2 ^ 32 /
    astraTerminalStorageAlignment * astraTerminalStorageAlignment
  match astraTerminalStorageSize columns rows with
  | .error _ => none
  | .ok bytes =>
    if storage = 0 ∨ aligned < storage then none
    else
      let padding := aligned - storage
      let required := bytes - (astraTerminalStorageAlignment - 1)
      if padding > storageSize ∨ required > storageSize - padding then none
      else
        let dirtyLast := aligned + rows * sizeofUint32
        let primaryCells := dirtyLast + rows * sizeofUint32
        let alternateCells := primaryCells + rows * columns * sizeofTextCell
        some ⟨aligned, dirtyLast, primaryCells, alternateCells,
          alternateCells + rows * columns * sizeofTextCell⟩

namespace AstraTerminal

variable (t : AstraTerminal)

/-- The arrays in a storage that is large enough; what it holds before is not read. -/
def bindStorage (columns rows storage storageSize : ℕ) : Option AstraTerminal := do
  let _ ← bindLayout columns rows storage storageSize
  some { t with
    dirtyFirst := List.replicate rows 0
    dirtyLast := List.replicate rows 0
    primaryCells := List.replicate (rows * columns) default
    alternateCells := List.replicate (rows * columns) default
    cells := .primary
    echoLine := List.replicate (columns * 4) 0
    capacityColumns := columns
    capacityRows := rows }

def blankRows (first last : ℕ) : Option AstraTerminal :=
  forUp first last (fun row t => t.blankRow row) t

def clear : Option AstraTerminal := do
  let t ← forUp 0 t.rows (fun row t => do (← t.blankRow row).markRow row) t
  some { t with cursorRow := 0, cursorColumn := 0, pendingScrolls := 0 }

def selectScreen (screen : TerminalScreen) : AstraTerminal := { t with cells := screen }

def switchScreen (enabled : Bool) : Option AstraTerminal :=
  if enabled then
    let t := t.saveCursor
    clear { t with cells := .alternate, alternateScreen := true }
  else
    let t := { t with cells := .primary, alternateScreen := false }
    t.restoreCursor.markRows 0 t.rows

/-- `alternate_screen`. -/
def alternate (enabled : Bool) : Option AstraTerminal :=
  if enabled = t.alternateScreen then some t
  else do
    let t ← t.switchScreen enabled
    some { t with pendingScrolls := 0 }

/-- The cells of one screen, copied into larger arrays. -/
def copyScreen (old : AstraTerminal) (columns rows : ℕ) (screen : TerminalScreen) :
    Option AstraTerminal := do
  let t := t.selectScreen screen
  let old := old.selectScreen screen
  let t ← forUp 0 rows (fun row t =>
    forUp 0 columns (fun column t => t.storeCell row column t.blankCell) t) t
  forUp 0 (min old.rows rows) (fun row t =>
    forUp 0 (min old.columns columns) (fun column t => do
      t.storeCell row column (← old.loadCell row column)) t) t

def copyEcho (old : AstraTerminal) (index : ℕ) : Option AstraTerminal := do
  let byte ← old.echoLine[index]?
  if index < t.echoLine.length then some { t with echoLine := t.echoLine.set index byte } else none

/-- The terminal in a new storage; without a result in `inner` where something is out of bounds. -/
def enlarge (columns rows storage storageSize : ℕ) : Option (Option AstraTerminal) :=
  match t.bindStorage columns rows storage storageSize with
  | none => none
  | some replacement => some do
    let r ← replacement.copyScreen t columns rows .primary
    let r ← r.copyScreen t columns rows .alternate
    let r := r.selectScreen (if t.alternateScreen then .alternate else .primary)
    let r := if r.echoColumns > columns then { r with echoLength := 0, echoColumns := 0 } else r
    forUp 0 r.echoLength (fun index r => r.copyEcho t index) r

def uncoverColumns (columns rows : ℕ) : Option AstraTerminal :=
  if columns > t.columns then
    forUp 0 (min t.rows rows) (fun row t =>
      forUp t.columns columns (fun column t => t.storeCell row column t.blankCell) t) t
  else some t

def uncoverRows (columns rows : ℕ) : Option AstraTerminal :=
  if rows > t.rows then
    forUp t.rows rows (fun row t =>
      forUp 0 columns (fun column t => t.storeCell row column t.blankCell) t) t
  else some t

/-- The cells that come into view on one screen. -/
def uncover (columns rows : ℕ) (screen : TerminalScreen) : Option AstraTerminal := do
  let t ← (t.selectScreen screen).uncoverColumns columns rows
  t.uncoverRows columns rows

def resized (columns rows : ℕ) : Option AstraTerminal :=
  let t := { t with
    columns := columns
    rows := rows
    scrollTop := 0
    scrollBottom := sub32 rows 1
    cursorRow := if t.cursorRow ≥ rows then sub32 rows 1 else t.cursorRow
    cursorColumn := if t.cursorColumn ≥ columns then sub32 columns 1 else t.cursorColumn }
  do
    let t ← t.markRows 0 rows
    some { t with pendingScrolls := 0 }

end AstraTerminal

def astraTerminalResize (t : AstraTerminal) (columns rows storage storageSize : ℕ) :
    Option (AstraTerminalStatus × AstraTerminal) :=
  if columns = 0 ∨ rows = 0 then some (.invalidArgument, t)
  else if columns > t.capacityColumns ∨ rows > t.capacityRows then
    match t.enlarge columns rows storage storageSize with
    | none => some (.storageTooSmall, t)
    | some larger => do
      let r ← larger
      some (.ok, ← r.resized columns rows)
  else do
    let r ← t.uncover columns rows .primary
    let r ← r.uncover columns rows .alternate
    some (.ok, ← (r.selectScreen t.cells).resized columns rows)

end Astra

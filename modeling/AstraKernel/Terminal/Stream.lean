import AstraKernel.Terminal.State
import AstraKernel.Vfs.Utf8

/-!
# The terminal's stream

The parser of `terminal.c`: bytes become scalars, controls and sequences, and what they do to the
terminal; and the flush, which draws what has changed.
-/

namespace Astra

abbrev astraTextStyleBold : UInt16 := 1
abbrev astraTextStyleFaint : UInt16 := 2
abbrev astraTextStyleItalic : UInt16 := 4
abbrev astraTextStyleUnderline : UInt16 := 8
abbrev astraTextStyleBlink : UInt16 := 16
abbrev astraTextStyleInverse : UInt16 := 32
abbrev astraTextStyleHidden : UInt16 := 64
abbrev astraTextStyleStrikethrough : UInt16 := 128

def astraTextColorRgb (red green blue : UInt32) : UInt32 :=
  (0x01000000 : UInt32) ||| (red <<< 16) ||| (green <<< 8) ||| blue

def lowByte (word : UInt32) : UInt8 := word.toUInt8

def continuation (word : UInt32) : UInt8 := lowByte (0x80 ||| (word &&& 0x3f))

/-- The bytes of a scalar; another value becomes U+FFFD. -/
def astraUtf8Encode (scalar : UInt32) : List UInt8 :=
  let scalar := if scalar > 0x10ffff ∨ (scalar ≥ 0xd800 ∧ scalar ≤ 0xdfff) then
    astraUtf8Replacement else scalar
  if scalar ≤ 0x7f then [scalar.toUInt8]
  else if scalar ≤ 0x7ff then [lowByte ((0xc0 : UInt32) ||| scalar >>> 6), continuation scalar]
  else if scalar ≤ 0xffff then
    [lowByte ((0xe0 : UInt32) ||| scalar >>> 12), continuation (scalar >>> 6), continuation scalar]
  else
    [lowByte ((0xf0 : UInt32) ||| scalar >>> 18), continuation (scalar >>> 12), continuation (scalar >>> 6),
      continuation scalar]

namespace AstraTerminal

variable (t : AstraTerminal)

/-! ## The echo -/

def emit (output : TerminalOutput) : AstraTerminal := { t with outputs := t.outputs ++ [output] }

def echoFlush : Option AstraTerminal :=
  let length := t.echoLength
  let t := { t with echoLength := 0, echoColumns := 0, echoCarriageReturn := false }
  if t.echo ∧ length ≠ 0 then
    if length ≤ t.echoLine.length then some (t.emit (.echo (t.echoLine.take length))) else none
  else some t

/-- The line that the next scalar goes to. -/
def echoRoom : Option AstraTerminal :=
  let t := if t.echoCarriageReturn then
      { t with echoLength := 0, echoColumns := 0, echoCarriageReturn := false }
    else t
  if t.echoColumns ≥ t.columns then t.echoFlush else some t

def echoScalar (scalar : UInt32) : Option AstraTerminal :=
  if t.echo = false then some t
  else do
    let t ← t.echoRoom
    let encoded := astraUtf8Encode scalar
    if t.echoLength + encoded.length ≤ t.echoLine.length then
      some { t with
        echoLine := t.echoLine.take t.echoLength ++ encoded ++
          t.echoLine.drop (t.echoLength + encoded.length)
        echoLength := t.echoLength + encoded.length
        echoColumns := t.echoColumns + 1 }
    else none

/-- One scalar back from the end of what has been written. -/
def scalarBack : ℕ → Option ℕ
  | 0 => some 0
  | length + 1 => do
    let byte ← t.echoLine[length]?
    if length ≠ 0 ∧ continues byte then scalarBack length else some length

def echoBackspace : Option AstraTerminal :=
  if t.echoLength = 0 then some t
  else do
    let length ← t.scalarBack t.echoLength
    some { t with
      echoLength := length
      echoColumns := if t.echoColumns ≠ 0 then t.echoColumns - 1 else t.echoColumns }

/-! ## Scalars and controls -/

def wrap : Option AstraTerminal := if t.cursorColumn ≥ t.columns then t.newline else some t

def putScalar (scalar : UInt32) : Option AstraTerminal := do
  let t ← t.echoScalar scalar
  let t ← t.wrap
  let t ← t.storeCell t.cursorRow t.cursorColumn
    ⟨scalar, t.foreground, t.background, t.attributes, 1, 0⟩
  let t ← t.mark t.cursorRow t.cursorColumn
  some { t with cursorColumn := t.cursorColumn + 1 }

def reverseIndex : Option AstraTerminal :=
  if t.cursorRow = t.scrollTop then t.scrollDown t.scrollTop t.scrollBottom 1
  else if t.cursorRow ≠ 0 then some { t with cursorRow := t.cursorRow - 1 }
  else some t

/-- `while (cursor_column < next && cursor_column < columns)`, for so many rounds at most. -/
def tabTo (next : ℕ) : ℕ → AstraTerminal → Option AstraTerminal
  | 0, t => some t
  | n + 1, t =>
    if t.cursorColumn < next ∧ t.cursorColumn < t.columns then t.putScalar 0x20 >>= tabTo next n
    else some t

def control (value : UInt8) : Option AstraTerminal :=
  if value = 0x0a ∨ value = 0x0b ∨ value = 0x0c then do (← t.echoFlush).newline
  else if value = 0x0d then some { t with echoCarriageReturn := true, cursorColumn := 0 }
  else if value = 0x08 then do
    let t ← t.echoBackspace
    if t.cursorColumn ≠ 0 then some { t with cursorColumn := t.cursorColumn - 1 }
    else if t.cursorRow ≠ 0 then
      some { t with cursorRow := t.cursorRow - 1, cursorColumn := sub32 t.columns 1 }
    else some t
  else if value = 0x09 then
    let next := (t.cursorColumn / astraTerminalTabWidth + 1) * astraTerminalTabWidth % 2 ^ 32
    tabTo next astraTerminalTabWidth t
  else some t

/-! ## Control sequences -/

def parameter (index fallback : ℕ) (zeroIsDefault : Bool) : Option ℕ :=
  if index ≥ t.csiParameterCount then some fallback
  else do
    let value ← t.csiParameters[index]?
    some (if value = csiMissing ∨ (zeroIsDefault ∧ value = 0) then fallback else value)

/-- The colour that the parameters behind the index give, and how many of them it takes. -/
def extendedColor (index : ℕ) : Option (Option UInt32 × ℕ) := do
  let kind ← t.parameter (index + 1) 0 false
  if index + 2 < t.csiParameterCount ∧ kind = 5 then do
    let color ← t.parameter (index + 2) 0 false
    some (some (UInt32.ofNat color &&& 0xff), 2)
  else if index + 4 < t.csiParameterCount ∧ kind = 2 then do
    let red ← t.parameter (index + 2) 0 false
    let green ← t.parameter (index + 3) 0 false
    let blue ← t.parameter (index + 4) 0 false
    some (some (astraTextColorRgb (UInt32.ofNat red &&& 0xff) (UInt32.ofNat green &&& 0xff)
      (UInt32.ofNat blue &&& 0xff)), 4)
  else some (none, 0)

def style (set clear : UInt16) : AstraTerminal :=
  { t with attributes := (t.attributes &&& ~~~clear) ||| set }

/-- One parameter of a graphics sequence, and how many more it takes. -/
def setGraphic (index value : ℕ) : Option (AstraTerminal × ℕ) :=
  match value with
  | 0 => some ({ t with
      attributes := 0, foreground := astraTextColorDefault, background := astraTextColorDefault }, 0)
  | 1 => some (t.style astraTextStyleBold 0, 0)
  | 2 => some (t.style astraTextStyleFaint 0, 0)
  | 3 => some (t.style astraTextStyleItalic 0, 0)
  | 4 => some (t.style astraTextStyleUnderline 0, 0)
  | 5 => some (t.style astraTextStyleBlink 0, 0)
  | 7 => some (t.style astraTextStyleInverse 0, 0)
  | 8 => some (t.style astraTextStyleHidden 0, 0)
  | 9 => some (t.style astraTextStyleStrikethrough 0, 0)
  | 22 => some (t.style 0 (astraTextStyleBold ||| astraTextStyleFaint), 0)
  | 23 => some (t.style 0 astraTextStyleItalic, 0)
  | 24 => some (t.style 0 astraTextStyleUnderline, 0)
  | 25 => some (t.style 0 astraTextStyleBlink, 0)
  | 27 => some (t.style 0 astraTextStyleInverse, 0)
  | 28 => some (t.style 0 astraTextStyleHidden, 0)
  | 29 => some (t.style 0 astraTextStyleStrikethrough, 0)
  | 39 => some ({ t with foreground := astraTextColorDefault }, 0)
  | 49 => some ({ t with background := astraTextColorDefault }, 0)
  | value =>
    if 30 ≤ value ∧ value ≤ 37 then some ({ t with foreground := UInt32.ofNat (value - 30) }, 0)
    else if 40 ≤ value ∧ value ≤ 47 then
      some ({ t with background := UInt32.ofNat (value - 40) }, 0)
    else if 90 ≤ value ∧ value ≤ 97 then
      some ({ t with foreground := UInt32.ofNat (value - 90 + 8) }, 0)
    else if 100 ≤ value ∧ value ≤ 107 then
      some ({ t with background := UInt32.ofNat (value - 100 + 8) }, 0)
    else if value = 38 then do
      let (color, taken) ← t.extendedColor index
      some ({ t with foreground := color.getD t.foreground }, taken)
    else if value = 48 then do
      let (color, taken) ← t.extendedColor index
      some ({ t with background := color.getD t.background }, taken)
    else some (t, 0)

/-- The parameters from the index on, of which so many are left at most. -/
def setGraphicsFrom : ℕ → ℕ → AstraTerminal → Option AstraTerminal
  | 0, _, t => some t
  | n + 1, index, t =>
    if index < t.csiParameterCount then do
      let value ← t.parameter index 0 false
      let (t, taken) ← t.setGraphic index value
      setGraphicsFrom n (index + taken + 1) t
    else some t

def setGraphics : Option AstraTerminal := setGraphicsFrom t.csiParameterCount 0 t

def setPrivateMode (enabled : Bool) : Option AstraTerminal :=
  forUp 0 t.csiParameterCount (fun index t => do
    let mode ← t.parameter index 0 false
    if mode = 25 then some { t with cursorVisible := enabled }
    else if mode = 47 ∨ mode = 1047 ∨ mode = 1049 then t.alternate enabled
    else some t) t

def repliesSent : ℕ := t.outputs.countP fun output => output matches .reply _

def sendReply (bytes : List UInt8) : AstraTerminal :=
  match t.reply with
  | none => t
  | some answer =>
    let sent := t.emit (.reply bytes)
    if answer t.repliesSent then sent
    else { sent with replyFailures := (sent.replyFailures + 1) % 2 ^ 32 }

/-- The digits from the last one on, in an array of that many. -/
def reverseDigits : ℕ → ℕ → Option (List UInt8)
  | 0, _ => none
  | room + 1, value => do
    let rest ← if value / 10 ≠ 0 then reverseDigits room (value / 10) else some []
    some (UInt8.ofNat (0x30 + value % 10) :: rest)

def decimal (value : ℕ) : Option (List UInt8) := do
  some (← reverseDigits 10 value).reverse

def replyCursorPosition (isPrivate : Bool) : Option AstraTerminal := do
  let row ← decimal (t.cursorRow + 1)
  let column ← decimal (t.cursorColumn + 1)
  let response := [0x1b, 0x5b] ++ (if isPrivate then [0x3f] else []) ++ row ++ [0x3b] ++ column ++
    [0x52]
  if response.length ≤ 32 then some (t.sendReply response) else none

/-- Down by so many rows, as far as there are rows. -/
def rowsDown (count : ℕ) : ℕ :=
  if count ≥ sub32 t.rows t.cursorRow then sub32 t.rows 1 else t.cursorRow + count

def rowsUp (count : ℕ) : ℕ := if count > t.cursorRow then 0 else t.cursorRow - count

def executeCsi (command : UInt8) : Option AstraTerminal := do
  let count ← t.parameter 0 1 true
  if command = 'A'.toUInt8 then some { t with cursorRow := t.rowsUp count }
  else if command = 'B'.toUInt8 then some (t.cursorTo (t.rowsDown count) t.cursorColumn)
  else if command = 'C'.toUInt8 then
    some (t.cursorTo t.cursorRow (if count ≥ sub32 t.columns t.cursorColumn then sub32 t.columns 1
      else t.cursorColumn + count))
  else if command = 'D'.toUInt8 then
    some { t with cursorColumn := if count > t.cursorColumn then 0 else t.cursorColumn - count }
  else if command = 'E'.toUInt8 then some (t.cursorTo (t.rowsDown count) 0)
  else if command = 'F'.toUInt8 then some { t with cursorRow := t.rowsUp count, cursorColumn := 0 }
  else if command = 'G'.toUInt8 then some (t.cursorTo t.cursorRow (sub32 count 1))
  else if command = 'H'.toUInt8 ∨ command = 'f'.toUInt8 then do
    let row ← t.parameter 0 1 true
    let column ← t.parameter 1 1 true
    some (t.cursorTo (sub32 row 1) (sub32 column 1))
  else if command = 'd'.toUInt8 then some (t.cursorTo (sub32 count 1) t.cursorColumn)
  else if command = 'J'.toUInt8 then do t.eraseDisplay (← t.parameter 0 0 false)
  else if command = 'K'.toUInt8 then do t.eraseLine (← t.parameter 0 0 false)
  else if command = 'm'.toUInt8 then t.setGraphics
  else if command = 'n'.toUInt8 then
    if count = 5 then some (t.sendReply [0x1b, 0x5b, 0x30, 0x6e])
    else if count = 6 then t.replyCursorPosition (t.csiPrivate = '?'.toUInt8)
    else some t
  else if command = 'c'.toUInt8 then
    if t.csiPrivate = '>'.toUInt8 then
      some (t.sendReply [0x1b, 0x5b, 0x3e, 0x30, 0x3b, 0x31, 0x3b, 0x30, 0x63])
    else if t.csiPrivate = 0 then do
      if (← t.parameter 0 0 false) = 0 then
        some (t.sendReply [0x1b, 0x5b, 0x3f, 0x31, 0x3b, 0x32, 0x63])
      else some t
    else some t
  else if command = 'r'.toUInt8 then do
    let top ← t.parameter 0 1 true
    let bottom ← t.parameter 1 t.rows true
    if top < bottom ∧ bottom ≤ t.rows then
      some ({ t with scrollTop := sub32 top 1, scrollBottom := sub32 bottom 1 }.cursorTo 0 0)
    else some t
  else if command = 's'.toUInt8 then some t.saveCursor
  else if command = 'u'.toUInt8 then some t.restoreCursor
  else if command = 'L'.toUInt8 then
    if t.cursorRow ≥ t.scrollTop ∧ t.cursorRow ≤ t.scrollBottom then
      t.scrollDown t.cursorRow t.scrollBottom count
    else some t
  else if command = 'M'.toUInt8 then
    if t.cursorRow ≥ t.scrollTop ∧ t.cursorRow ≤ t.scrollBottom then
      t.scrollUp t.cursorRow t.scrollBottom count
    else some t
  else if command = '@'.toUInt8 then t.insertCharacters count
  else if command = 'P'.toUInt8 then t.deleteCharacters count
  else if command = 'X'.toUInt8 then
    let count := if count > sub32 t.columns t.cursorColumn then sub32 t.columns t.cursorColumn
      else count
    t.eraseCells t.cursorRow t.cursorColumn (sub32 (t.cursorColumn + count) 1)
  else if command = 'S'.toUInt8 then t.scrollUp t.scrollTop t.scrollBottom count
  else if command = 'T'.toUInt8 then t.scrollDown t.scrollTop t.scrollBottom count
  else if command = 'h'.toUInt8 ∨ command = 'l'.toUInt8 then
    if t.csiPrivate = '?'.toUInt8 then t.setPrivateMode (command = 'h'.toUInt8) else some t
  else some t

def storeParameter (index value : ℕ) : Option AstraTerminal :=
  if index < t.csiParameters.length then
    some { t with csiParameters := t.csiParameters.set index value }
  else none

def beginCsi : Option AstraTerminal :=
  { t with
    parserState := .csi
    csiParameterCount := 1
    csiPrivate := 0
    csiOverflow := false }.storeParameter 0 csiMissing

def resetTerminal : Option AstraTerminal := do
  let t ← t.alternate false
  clear { t with
    foreground := astraTextColorDefault
    background := astraTextColorDefault
    attributes := 0
    scrollTop := 0
    scrollBottom := sub32 t.rows 1
    cursorVisible := true
    parserState := .ground
    utf8Remaining := 0 }

def escapeByte (value : UInt8) : Option AstraTerminal :=
  let t := { t with parserState := .ground }
  if value = '['.toUInt8 then t.beginCsi
  else if value = ']'.toUInt8 then some { t with parserState := .osc, oscPromptMatch := 0 }
  else if value = '('.toUInt8 ∨ value = ')'.toUInt8 then some { t with parserState := .charset }
  else if value = '7'.toUInt8 then some t.saveCursor
  else if value = '8'.toUInt8 then some t.restoreCursor
  else if value = 'D'.toUInt8 then
    if t.cursorRow = t.scrollBottom then t.scrollUp t.scrollTop t.scrollBottom 1
    else if t.cursorRow + 1 < t.rows then some { t with cursorRow := t.cursorRow + 1 }
    else some t
  else if value = 'E'.toUInt8 then t.newline
  else if value = 'M'.toUInt8 then t.reverseIndex
  else if value = 'c'.toUInt8 then t.resetTerminal
  else some t

abbrev oscPrompt : List UInt8 := [0x31, 0x33, 0x33, 0x3b, 0x42]

abbrev oscNoMatch : ℕ := 0xff

def oscByte (value : UInt8) : Option AstraTerminal :=
  if t.oscPromptMatch ≥ oscPrompt.length then some { t with oscPromptMatch := oscNoMatch }
  else do
    let expected ← oscPrompt[t.oscPromptMatch]?
    some { t with
      oscPromptMatch := if value ≠ expected then oscNoMatch else t.oscPromptMatch + 1 }

def finishOsc : AstraTerminal :=
  let t := if t.oscPromptMatch = 5 ∧ t.prompt then t.emit .prompt else t
  { t with parserState := .ground }

/-- The byte that ends a sequence. -/
def finishCsi (command : UInt8) : Option AstraTerminal :=
  if t.csiOverflow = false then t.executeCsi command else some t

def csiByte (value : UInt8) : Option AstraTerminal := do
  let index := sub32 t.csiParameterCount 1
  let current ← t.csiParameters[index]?
  if (value = '?'.toUInt8 ∨ value = '>'.toUInt8) ∧ index = 0 ∧ current = csiMissing then
    some { t with csiPrivate := value }
  else if '0'.toUInt8 ≤ value ∧ value ≤ '9'.toUInt8 then
    let digit := value.toNat - 0x30
    let current := if current = csiMissing then 0 else current
    if current > (2 ^ 32 - 1 - digit) / 10 then some { t with csiOverflow := true }
    else t.storeParameter index (current * 10 + digit)
  else if value = ';'.toUInt8 ∨ value = ':'.toUInt8 then
    if t.csiParameterCount ≥ astraTerminalCsiParameters then some { t with csiOverflow := true }
    else
      let longer := { t with csiParameterCount := t.csiParameterCount + 1 }
      longer.storeParameter t.csiParameterCount csiMissing
  else if 0x40 ≤ value ∧ value ≤ 0x7e then do
    let t ← t.finishCsi value
    some { t with parserState := .ground }
  else if value < 0x20 then t.control value
  else some t

/-! ## Bytes -/

/-- The scalar that a complete sequence of that many bytes stands for. -/
def utf8Scalar (expected : ℕ) (scalar : UInt32) : UInt32 :=
  let minimum : UInt32 := if expected = 2 then 0x80 else if expected = 3 then 0x800 else 0x10000
  if scalar < minimum ∨ scalar > 0x10ffff ∨ (scalar ≥ 0xd800 ∧ scalar ≤ 0xdfff) then
    astraUtf8Replacement
  else scalar

/-- `utf8_byte`, with what puts the byte again that has cut a sequence short. -/
def utf8Byte (again : AstraTerminal → Option AstraTerminal) (value : UInt8) :
    Option AstraTerminal :=
  if t.utf8Remaining ≠ 0 then
    if continues value = false then do
      again (← { t with utf8Remaining := 0 }.putScalar astraUtf8Replacement)
    else
      let t := { t with
        utf8Codepoint := (t.utf8Codepoint <<< 6) ||| lowBits value 0x3f
        utf8Remaining := t.utf8Remaining - 1 }
      if t.utf8Remaining = 0 then t.putScalar (utf8Scalar t.utf8Expected t.utf8Codepoint)
      else some t
  else if value < 0x80 then t.putScalar value.toUInt32
  else if 0xc2 ≤ value ∧ value ≤ 0xdf then
    some { t with
      utf8Codepoint := lowBits value 0x1f, utf8Remaining := 1, utf8Expected := 2 }
  else if 0xe0 ≤ value ∧ value ≤ 0xef then
    some { t with
      utf8Codepoint := lowBits value 0x0f, utf8Remaining := 2, utf8Expected := 3 }
  else if 0xf0 ≤ value ∧ value ≤ 0xf4 then
    some { t with
      utf8Codepoint := lowBits value 0x07, utf8Remaining := 3, utf8Expected := 4 }
  else t.putScalar astraUtf8Replacement

/-- `astra_terminal_putc`, which calls itself at most that often. -/
def putcWithin : ℕ → UInt8 → AstraTerminal → Option AstraTerminal
  | 0, _, _ => none
  | calls + 1, value, t =>
    match t.parserState with
    | .osc =>
      if value = 0x07 then some t.finishOsc
      else if value = 0x1b then some { t with parserState := .oscEscape }
      else t.oscByte value
    | .oscEscape =>
      if value = 0x5c then some t.finishOsc
      else some { t with oscPromptMatch := oscNoMatch, parserState := .osc }
    | state =>
      if value = 0x1b then some { t with utf8Remaining := 0, parserState := .escape }
      else
        match state with
        | .escape => t.escapeByte value
        | .csi => t.csiByte value
        | .charset => some { t with parserState := .ground }
        | _ =>
          if value < 0x20 ∨ value = 0x7f then t.control value
          else t.utf8Byte (putcWithin calls value) value

end AstraTerminal

def astraTerminalPutc (t : AstraTerminal) (value : UInt8) : Option AstraTerminal :=
  AstraTerminal.putcWithin 2 value t

def astraTerminalWriteBytes (t : AstraTerminal) (bytes : List UInt8) : Option AstraTerminal :=
  bytes.foldlM astraTerminalPutc t

def astraTerminalSetEcho (t : AstraTerminal) (echo : Bool) : Option AstraTerminal := do
  some { ← t.echoFlush with echo := echo }

def astraTerminalSetScroll (t : AstraTerminal) (scroll : Bool) : AstraTerminal :=
  { t with scroll := scroll, pendingScrolls := 0 }

/-- What `astra_terminal_init_capacity` writes before it clears the screens. -/
def AstraTerminal.fresh (columns rows : ℕ) (render : Bool) : AstraTerminal where
  cells := .primary
  primaryCells := []
  alternateCells := []
  dirtyFirst := []
  dirtyLast := []
  echoLine := []
  capacityColumns := 0
  capacityRows := 0
  columns := columns
  rows := rows
  cursorRow := 0
  cursorColumn := 0
  scrolls := 0
  pendingScrolls := 0
  scrollRedrawFrom := 0
  scrollTop := 0
  scrollBottom := sub32 rows 1
  savedCursorRow := 0
  savedCursorColumn := 0
  csiParameters := List.replicate astraTerminalCsiParameters 0
  csiParameterCount := 0
  utf8Codepoint := 0
  foreground := astraTextColorDefault
  background := astraTextColorDefault
  attributes := 0
  parserState := .ground
  csiPrivate := 0
  csiOverflow := false
  utf8Remaining := 0
  utf8Expected := 0
  oscPromptMatch := 0
  cursorVisible := true
  alternateScreen := false
  echoCarriageReturn := false
  render := render
  scroll := false
  echo := false
  prompt := false
  history := false
  reply := none
  echoLength := 0
  echoColumns := 0
  replyFailures := 0
  outputs := []

/-- A status where nothing is set up; no result where something is out of bounds. -/
def astraTerminalInitCapacity (columns rows capacityColumns capacityRows storage storageSize : ℕ)
    (render : Bool) : Except AstraTerminalStatus (Option AstraTerminal) :=
  if columns = 0 ∨ rows = 0 ∨ columns > capacityColumns ∨ rows > capacityRows then
    .error .invalidArgument
  else
    match (AstraTerminal.fresh columns rows render).bindStorage capacityColumns capacityRows
      storage storageSize with
    | none => .error .storageTooSmall
    | some t => .ok do
      let t ← t.clear
      let t ← (t.selectScreen .alternate).clear
      (t.selectScreen .primary).clear

/-! ## Drawing -/

/-- A call that draws, and whether it has succeeded. -/
inductive TerminalDraw
  | scroll (rows preserved : ℕ) (drawn : Bool)
  | render (row column : ℕ) (cells : List AstraTextCell) (drawn : Bool)

structure TerminalFlush where
  status : AstraTerminalStatus
  terminal : AstraTerminal
  draws : List TerminalDraw

/-- The rows from the given one on, of which that many are left; `drawn` is what the renderer
answers for a row. -/
def AstraTerminal.flushRows (drawn : ℕ → Bool) :
    ℕ → ℕ → AstraTerminal → List TerminalDraw → Option TerminalFlush
  | 0, _, t, draws => some ⟨.ok, t, draws⟩
  | n + 1, row, t, draws => do
    let first ← t.dirtyFirst[row]?
    let last ← t.dirtyLast[row]?
    if first > last then flushRows drawn n (row + 1) t draws
    else do
      let cells ← t.loadRun row first (last - first + 1)
      let draws := draws ++ [.render row first cells (drawn row)]
      if drawn row = false then some ⟨.renderFailed, t, draws⟩
      else do
        let t ← t.storeDirty row 1 0
        flushRows drawn n (row + 1) t draws

def astraTerminalFlush (t : AstraTerminal) (scrolled : Bool) (drawn : ℕ → Bool) :
    Option TerminalFlush :=
  if t.render = false then do
    let t ← t.clearDamage
    some ⟨.ok, { t with pendingScrolls := 0 }, []⟩
  else
    let draws := if t.pendingScrolls ≠ 0 ∧ t.scrollRedrawFrom ≠ 0 then
        [.scroll t.pendingScrolls (sub32 t.rows t.pendingScrolls) scrolled]
      else []
    if t.pendingScrolls ≠ 0 ∧ t.scrollRedrawFrom ≠ 0 ∧ scrolled = false then do
      let t ← { t with pendingScrolls := 0 }.markRows 0 t.rows
      some ⟨.renderFailed, t, draws⟩
    else AstraTerminal.flushRows drawn t.rows 0 { t with pendingScrolls := 0 } draws

def astraTerminalRedraw (t : AstraTerminal) (scrolled : Bool) (drawn : ℕ → Bool) :
    Option TerminalFlush := do
  let t ← { t with pendingScrolls := 0 }.markRows 0 t.rows
  astraTerminalFlush t scrolled drawn

def astraTerminalCellAt (t : AstraTerminal) (row column : ℕ) : Option (Option AstraTextCell) :=
  if row ≥ t.rows ∨ column ≥ t.columns then some none
  else do some (some (← t.loadCell row column))

end Astra

/-!
## The calls of a session

What the owner of a terminal calls, and what each call draws.
-/

namespace Astra

inductive TerminalCall
  | putc (value : UInt8)
  | clear
  | resize (columns rows storage storageSize : ℕ)
  | setEcho (echo : Bool)
  | setReply (reply : Option (ℕ → Bool))
  | setPrompt (prompt : Bool)
  | setHistory (history : Bool)
  | setScroll (scroll : Bool)
  | flush (scrolled : Bool) (drawn : ℕ → Bool)
  | redraw (scrolled : Bool) (drawn : ℕ → Bool)

namespace TerminalCall

/-- No result where the call reads or writes out of bounds. -/
def run (t : AstraTerminal) : TerminalCall → Option TerminalFlush
  | .putc value => do some ⟨.ok, ← astraTerminalPutc t value, []⟩
  | .clear => do some ⟨.ok, ← t.clear, []⟩
  | .resize columns rows storage storageSize => do
    let r ← astraTerminalResize t columns rows storage storageSize
    some ⟨r.1, r.2, []⟩
  | .setEcho echo => do some ⟨.ok, ← astraTerminalSetEcho t echo, []⟩
  | .setReply reply => some ⟨.ok, { t with reply := reply }, []⟩
  | .setPrompt prompt => some ⟨.ok, { t with prompt := prompt }, []⟩
  | .setHistory history => some ⟨.ok, { t with history := history }, []⟩
  | .setScroll scroll => some ⟨.ok, astraTerminalSetScroll t scroll, []⟩
  | .flush scrolled drawn => astraTerminalFlush t scrolled drawn
  | .redraw scrolled drawn => astraTerminalRedraw t scrolled drawn

/-- The call draws what has changed. -/
def Flushes : TerminalCall → Prop
  | .flush _ _ => True
  | .redraw _ _ => True
  | _ => False

def runAll (calls : List TerminalCall) (t : AstraTerminal) : Option AstraTerminal :=
  calls.foldlM (fun t call => do some (← call.run t).terminal) t

end TerminalCall

/-- Where `window_present` draws the cursor when a flush has succeeded, in the phase of its blink in
which it is visible. -/
def windowPresent (t : AstraTerminal) : Option (ℕ × ℕ) :=
  if t.cursorVisible then some (t.cursorRow, t.cursorColumn) else none

end Astra

import AstraKernel.Vfs.Service
import Mathlib.Data.PNat.Basic

/-!
# The lifecycle of a port client

`vfs_port_transport.c`: the threads that go in and out of a storage client, report that its
connection failed, close it, say goodbye or refresh it. A step is one access to what they share: an
atomic load, a store, a compare and swap, or a futex call. A call inside another's guard is a thread
of its own here, and the one around it waits.
-/

namespace Astra

inductive PortLifecycle
  | opened
  | draining
  | failed
  | cleaning
  | closed
  | refreshing
  deriving DecidableEq

namespace PortLifecycle

/-- `port_client_fail` has something to do. -/
def canFail : PortLifecycle → Bool
  | opened | draining | refreshing => true
  | _ => false

/-- `port_client_finish` has something to do. -/
def canFinish : PortLifecycle → Bool
  | draining | failed => true
  | _ => false

end PortLifecycle

/-- The words of the client. The tear-downs are kept with whether they abandon, and so is what the
lifecycle was where a close returned, and whether a failure was ever reported. -/
structure PortWords where
  lifecycle : PortLifecycle
  inflight : ℕ
  inflightWaiters : ℕ
  connecting : ℕ
  session : ℕ
  teardowns : List Bool
  closes : List PortLifecycle
  broken : Bool

/-- The words that threads sleep on. -/
inductive PortWord
  | lifecycle
  | inflight
  | connecting
  deriving DecidableEq

/-- Who drains the client. -/
inductive PortDrain
  | close (abandon : Bool)
  | bye
  deriving DecidableEq

/-- Who waits until nobody is in flight. -/
inductive PortIdle
  | drain (d : PortDrain)
  | failed (abandon : Bool)
  | refresh
  deriving DecidableEq

/-- Who calls `port_client_finish`. -/
inductive PortFinish
  | leave
  | fail
  | drain (d : PortDrain)
  | failed (abandon : Bool)
  | refresh
  deriving DecidableEq

def PortFinish.abandon : PortFinish → Bool
  | .drain (.close abandon) | .failed abandon => abandon
  | _ => false

/-- Who calls `port_client_fail`: a call in flight, which may be the one that connects, or
`astra_vfs_port_fail`, or the exchange of a goodbye or of a refresh. -/
inductive PortFailure
  | inside (connecting : Bool)
  | call
  | bye
  | refresh
  deriving DecidableEq

/-- Where a thread is: what it does next. -/
inductive PortPc
  | out
  -- astra_vfs_port_client_enter
  | enter (hello : Bool)
  | enterWait (hello : Bool)
  | enterAsleep (hello : Bool)
  | entering (hello : Bool)
  | entered (hello : Bool)
  | undo (hello : Bool)
  | undoWaiters (hello : Bool)
  | undoWake (hello : Bool)
  | undone (hello : Bool)
  -- astra_vfs_port_transport
  | connect
  | connectLoad
  | connectSwap
  | connectWait
  | connectAsleep
  | inside (connecting : Bool)
  | done
  | connectWake
  -- astra_vfs_port_client_leave
  | leave
  | leaveWaiters
  | leaveWake
  | leaveLoad
  -- port_client_fail
  | fail (f : PortFailure)
  | failSwap (f : PortFailure) (state : { l : PortLifecycle // l.canFail })
  | failConnecting (f : PortFailure)
  | failConnectWake (f : PortFailure)
  | failWake (f : PortFailure)
  | failInflight
  -- port_client_begin_drain
  | drain (d : PortDrain)
  | drainWait (d : PortDrain)
  | drainAsleep (d : PortDrain)
  -- port_client_wait_idle
  | idle (i : PortIdle)
  | idleAdd (i : PortIdle)
  | idleLoad (i : PortIdle)
  | idleWait (i : PortIdle) (active : ℕ+)
  | idleAsleep (i : PortIdle)
  | idleSub (i : PortIdle)
  -- the goodbye, drained
  | byeExchange
  -- astra_vfs_port_refresh
  | refresh
  | refreshWait
  | refreshAsleep
  | refreshLoad
  | refreshCheck
  | refreshExchange
  | refreshReopen
  | refreshWake
  -- port_client_finish
  | finish (f : PortFinish)
  | finishSwap (f : PortFinish) (state : { l : PortLifecycle // l.canFinish })
  | tearDown (f : PortFinish)
  | endSession (f : PortFinish)
  | finishClosed (f : PortFinish)
  | finishWake (f : PortFinish)
  -- port_client_close, where it did not drain
  | closing (abandon : Bool)
  | closeWait (abandon : Bool)
  | closeAsleep (abandon : Bool)
  deriving DecidableEq

/-- What a thread that may choose does: the calls it may make where it is in none, and in a call or
an exchange to connect a session or to find that the connection failed. -/
inductive PortChoice
  | next
  | call (hello : Bool)
  | fail
  | close (abandon : Bool)
  | bye
  | refresh
  | publish (session : ℕ)

/-- Where a caller of `port_client_fail` goes on. -/
def PortFailure.next : PortFailure → PortPc
  | .inside connecting => .inside connecting
  | .call => .failInflight
  | .bye => .byeExchange
  | .refresh => .refreshExchange

/-- Where a caller of `port_client_wait_idle` goes on. -/
def PortIdle.next : PortIdle → PortPc
  | .drain (.close abandon) => .finish (.drain (.close abandon))
  | .drain .bye => .byeExchange
  | .failed abandon => .finish (.failed abandon)
  | .refresh => .refreshCheck

namespace PortWords

/-- A close returns. -/
def closeReturns (w : PortWords) : PortWords := { w with closes := w.closes ++ [w.lifecycle] }

/-- A caller of `port_client_finish` goes on. -/
def finished (w : PortWords) : PortFinish → PortWords × PortPc
  | .leave | .fail | .drain .bye => (w, .out)
  | .drain (.close _) => (w.closeReturns, .out)
  | .failed abandon => (w, .closing abandon)
  | .refresh => (w, .refreshWake)

/-- `port_client_finish` with the lifecycle it has read. -/
def finishRead (w : PortWords) (f : PortFinish) : PortWords × PortPc :=
  if h : w.lifecycle.canFinish then (w, .finishSwap f ⟨w.lifecycle, h⟩) else w.finished f

/-- `port_client_fail` with the lifecycle it has read. -/
def failRead (w : PortWords) (f : PortFailure) : PortPc :=
  if h : w.lifecycle.canFail then .failSwap f ⟨w.lifecycle, h⟩ else f.next

end PortWords

/-- What a thread in no call does, by its choice. -/
def PortChoice.start : PortChoice → Option PortPc
  | .call hello => some (.enter hello)
  | .fail => some (.fail .call)
  | .close abandon => some (.drain (.close abandon))
  | .bye => some (.drain .bye)
  | .refresh => some .refresh
  | .next | .publish _ => none

/-- In a call or an exchange: it ends, or the connection failed, or a session is connected. -/
def PortWords.exchange (w : PortWords) (ended : PortPc) (here : PortPc) (f : PortFailure) :
    PortChoice → Option (PortWords × PortPc)
  | .next => some (w, ended)
  | .fail => some (w, .fail f)
  | .publish session => some ({ w with session := session }, here)
  | _ => none

/-- The word that the step of a thread wakes. -/
def PortPc.wakes : PortPc → Option PortWord
  | .undoWake _ | .leaveWake => some .inflight
  | .connectWake | .failConnectWake _ => some .connecting
  | .failWake _ | .refreshWake | .finishWake _ => some .lifecycle
  | _ => none

/-- The next step of a thread; one that is asleep has none. -/
def PortPc.step (w : PortWords) (c : PortChoice) : PortPc → Option (PortWords × PortPc)
  | .out => c.start.map fun pc => (w, pc)
  | .enter hello =>
    match w.lifecycle with
    | .refreshing => some (w, .enterWait hello)
    | .opened => some (w, .entering hello)
    | _ => some (w, .out)
  | .enterWait hello =>
    some (w, if w.lifecycle = .refreshing then .enterAsleep hello else .enter hello)
  | .entering hello => some ({ w with inflight := w.inflight + 1 }, .entered hello)
  | .entered hello =>
    if w.lifecycle = .opened then some (w, if hello then .inside false else .connect)
    else some (w, .undo hello)
  | .undo hello =>
    some ({ w with inflight := w.inflight - 1 },
      if w.inflight - 1 = 0 then .undoWaiters hello else .undone hello)
  | .undoWaiters hello =>
    some (w, if w.inflightWaiters ≠ 0 then .undoWake hello else .undone hello)
  | .undoWake hello => some (w, .undone hello)
  | .undone hello => some (w, if w.lifecycle = .refreshing then .enter hello else .out)
  | .connect =>
    some (w, if w.session = astraVfsSessionInvalid then .connectLoad else .inside false)
  | .connectLoad => some (w, if w.lifecycle = .opened then .connectSwap else .leave)
  | .connectSwap =>
    if w.connecting = 0 then some ({ w with connecting := 1 }, .inside true)
    else some (w, .connectWait)
  | .connectWait => some (w, if w.connecting = 1 then .connectAsleep else .connect)
  | .inside connecting =>
    w.exchange (if connecting then .done else .leave) (.inside connecting) (.inside connecting) c
  | .done => some ({ w with connecting := 0 }, .connectWake)
  | .connectWake => some (w, .leave)
  | .leave =>
    some ({ w with inflight := w.inflight - 1 },
      if w.inflight - 1 = 0 then .leaveWaiters else .out)
  | .leaveWaiters => some (w, if w.inflightWaiters ≠ 0 then .leaveWake else .leaveLoad)
  | .leaveWake => some (w, .leaveLoad)
  | .leaveLoad => some (w, if w.lifecycle = .failed then .finish .leave else .out)
  | .fail f => some (w, w.failRead f)
  | .failSwap f state =>
    if w.lifecycle = state.1 then
      some ({ w with lifecycle := .failed, broken := true }, .failConnecting f)
    else some (w, w.failRead f)
  | .failConnecting f => some ({ w with connecting := 0 }, .failConnectWake f)
  | .failConnectWake f => some (w, .failWake f)
  | .failWake f => some (w, f.next)
  | .failInflight => some (w, if w.inflight = 0 then .finish .fail else .out)
  | .drain d =>
    match w.lifecycle with
    | .opened => some ({ w with lifecycle := .draining }, .idle (.drain d))
    | .refreshing => some (w, .drainWait d)
    | _ => match d with
      | .close abandon => some (w, .closing abandon)
      | .bye => some (w, .out)
  | .drainWait d => some (w, if w.lifecycle = .refreshing then .drainAsleep d else .drain d)
  | .idle i => some (w, if w.inflight = 0 then i.next else .idleAdd i)
  | .idleAdd i => some ({ w with inflightWaiters := w.inflightWaiters + 1 }, .idleLoad i)
  | .idleLoad i =>
    some (w, if h : 0 < w.inflight then .idleWait i ⟨w.inflight, h⟩ else .idleSub i)
  | .idleWait i active => some (w, if w.inflight = active then .idleAsleep i else .idleSub i)
  | .idleSub i => some ({ w with inflightWaiters := w.inflightWaiters - 1 }, .idle i)
  | .byeExchange => w.exchange (.finish (.drain .bye)) .byeExchange .bye c
  | .refresh =>
    match w.lifecycle with
    | .opened => some ({ w with lifecycle := .refreshing }, .idle .refresh)
    | .refreshing => some (w, .refreshWait)
    | _ => some (w, .out)
  | .refreshWait => some (w, if w.lifecycle = .refreshing then .refreshAsleep else .refreshLoad)
  | .refreshLoad => some (w, if w.lifecycle = .refreshing then .refreshWait else .out)
  | .refreshCheck => some (w, if w.lifecycle = .refreshing then .refreshExchange else .out)
  | .refreshExchange => w.exchange .refreshReopen .refreshExchange .refresh c
  | .refreshReopen =>
    if w.lifecycle = .refreshing then some ({ w with lifecycle := .opened }, .refreshWake)
    else some (w, .finish .refresh)
  | .refreshWake => some (w, .out)
  | .finish f => some (w.finishRead f)
  | .finishSwap f state =>
    if w.lifecycle = state.1 then some ({ w with lifecycle := .cleaning }, .tearDown f)
    else some (w.finishRead f)
  -- the accelerator and the handles: nobody else is there
  | .tearDown f => some ({ w with teardowns := w.teardowns ++ [f.abandon] }, .endSession f)
  | .endSession f => some ({ w with session := astraVfsSessionInvalid }, .finishClosed f)
  | .finishClosed f => some ({ w with lifecycle := .closed }, .finishWake f)
  | .finishWake f => some (w.finished f)
  | .closing abandon =>
    match w.lifecycle with
    | .failed => some (w, .idle (.failed abandon))
    | .cleaning => some (w, .closeWait abandon)
    | _ => some (w.closeReturns, .out)
  | .closeWait abandon =>
    some (w, if w.lifecycle = .cleaning then .closeAsleep abandon else .closing abandon)
  | .enterAsleep _ | .connectAsleep | .drainAsleep _ | .idleAsleep _ | .refreshAsleep
  | .closeAsleep _ => none

/-- Where a thread is after those asleep on the word were woken. -/
def PortPc.woken (word : PortWord) : PortPc → PortPc
  | .enterAsleep hello => if word = .lifecycle then .enter hello else .enterAsleep hello
  | .drainAsleep d => if word = .lifecycle then .drain d else .drainAsleep d
  | .refreshAsleep => if word = .lifecycle then .refreshLoad else .refreshAsleep
  | .closeAsleep abandon => if word = .lifecycle then .closing abandon else .closeAsleep abandon
  | .idleAsleep i => if word = .inflight then .idleSub i else .idleAsleep i
  | .connectAsleep => if word = .connecting then .connect else .connectAsleep
  | pc => pc

structure PortClient where
  words : PortWords
  threads : List PortPc

/-- A client that was just connected, and threads that are in no call. -/
def PortClient.start (threads session : ℕ) : PortClient where
  words := ⟨.opened, 0, 0, 0, session, [], [], false⟩
  threads := List.replicate threads .out

/-- The thread `i` takes its next step. -/
def PortClient.step (s : PortClient) (i : ℕ) (c : PortChoice) : Option PortClient := do
  let pc ← s.threads[i]?
  let (words, next) ← pc.step s.words c
  let threads := match pc.wakes with
    | none => s.threads
    | some word => s.threads.map (PortPc.woken word)
  return ⟨words, threads.set i next⟩

/-- The steps of the threads one after another. -/
def PortClient.run (s : PortClient) : List (ℕ × PortChoice) → Option PortClient
  | [] => some s
  | (i, c) :: rest => (s.step i c).bind fun s' => s'.run rest

/-! ## What a thread is to the others -/

/-- What a thread may be to the others: it is counted in flight, it is past a successful enter, it
is counted among those that wait for the count, and so on. One that is settled has seen the lifecycle
at a value from which the client does not open again, and one that is quiet has seen that nobody is
inside it and that nobody can come in. -/
inductive PortRole
  | counted
  | inside
  | waiting
  | connecting
  | settled
  | refreshing
  | draining
  | quiet
  | finishing
  | cleaning
  | torn
  | published
  | refreshAsleep
  | cleanAsleep
  | idleAsleep
  | connectAsleep
  | lifecycleWake
  | inflightWake
  | connectingWake
  deriving DecidableEq

def PortFailure.roles : PortFailure → List PortRole
  | .inside holds => [.counted, .inside] ++ if holds then [.connecting] else []
  | .call => [.finishing]
  | .bye => [.settled, .draining, .quiet, .finishing]
  | .refresh => [.refreshing, .quiet, .finishing]

def PortDrain.roles : PortDrain → List PortRole
  | .close _ => [.finishing]
  | .bye => []

def PortIdle.roles : PortIdle → List PortRole
  | .drain _ => [.settled, .draining, .finishing]
  | .failed _ => [.settled, .finishing]
  | .refresh => [.refreshing]

def PortFinish.roles : PortFinish → List PortRole
  | .drain _ => [.settled, .draining, .quiet, .finishing]
  | _ => [.settled, .quiet, .finishing]

def PortPc.roles : PortPc → List PortRole
  | .out | .enter _ | .enterWait _ | .entering _ | .undone _ => []
  | .enterAsleep _ => [.refreshAsleep]
  | .entered _ | .undo _ => [.counted]
  | .undoWaiters _ | .undoWake _ => [.inflightWake]
  | .connect | .connectLoad | .connectSwap | .connectWait | .leave => [.counted, .inside]
  | .connectAsleep => [.connectAsleep, .counted, .inside]
  | .inside holds => (PortFailure.inside holds).roles
  | .done => [.counted, .inside, .connecting]
  | .connectWake => [.counted, .inside, .connectingWake]
  | .leaveWaiters | .leaveWake => [.finishing, .inflightWake]
  | .leaveLoad => [.finishing]
  | .fail f | .failSwap f _ => f.roles
  | .failConnecting f | .failWake f => [.settled, .lifecycleWake] ++ f.roles
  | .failConnectWake f => [.settled, .lifecycleWake, .connectingWake] ++ f.roles
  | .failInflight => [.settled, .finishing]
  | .drain d | .drainWait d => d.roles
  | .drainAsleep d => .refreshAsleep :: d.roles
  | .idle i | .idleAdd i => i.roles
  | .idleLoad i | .idleWait i _ | .idleSub i => .waiting :: i.roles
  | .idleAsleep i => .idleAsleep :: .waiting :: i.roles
  | .byeExchange => PortFailure.bye.roles
  | .refresh | .refreshWait | .refreshLoad => []
  | .refreshAsleep => [.refreshAsleep]
  | .refreshCheck => [.refreshing, .quiet]
  | .refreshExchange | .refreshReopen => PortFailure.refresh.roles
  | .refreshWake => [.lifecycleWake]
  | .finish f | .finishSwap f _ => f.roles
  | .tearDown _ => [.settled, .quiet, .cleaning]
  | .endSession _ | .finishClosed _ => [.settled, .quiet, .cleaning, .torn]
  | .finishWake _ => [.settled, .published, .lifecycleWake]
  | .closing _ | .closeWait _ => [.settled, .finishing]
  | .closeAsleep _ => [.cleanAsleep, .settled, .finishing]

/-- The word that a thread of the role sleeps on. -/
def PortRole.sleepsOn : PortRole → Option PortWord
  | .refreshAsleep | .cleanAsleep => some .lifecycle
  | .idleAsleep => some .inflight
  | .connectAsleep => some .connecting
  | _ => none

namespace PortLifecycle

/-- The client can still be used, now or after a refresh. -/
def Usable (l : PortLifecycle) : Prop := l = opened ∨ l = refreshing

/-- The tear-down began. -/
def Ended (l : PortLifecycle) : Prop := l = cleaning ∨ l = closed

instance (l : PortLifecycle) : Decidable l.Usable := inferInstanceAs (Decidable (_ ∨ _))

instance (l : PortLifecycle) : Decidable l.Ended := inferInstanceAs (Decidable (_ ∨ _))

end PortLifecycle

attribute [simp] PortFailure.roles PortDrain.roles PortIdle.roles PortFinish.roles PortPc.roles
  PortFailure.next PortIdle.next PortLifecycle.Usable PortLifecycle.Ended

end Astra

import AstraKernel.Vfs.Request

/-!
# Runs of the storage service

Any number of calls are under way at once, each at the point where it has dropped the state lock. A
step starts a call or takes one up, and goes on to where it drops the lock again. The wait hook may
return at any time; the call looks for itself whether the file is free. A call that never ends keeps
the lock, and nothing happens after that.
-/

namespace Astra

open Function

inductive VfsCall
  | dispatch (owner grant features operation : ℕ) (request : AstraVfsRequest)
      (area : Option (List UInt8))
  | readdirFile (session directory : ℕ)
  | readInto (session handle length : ℕ)
  | writePosition (session handle : ℕ) (flags : BitVec 32) (length : ℕ)
  | retain (session handle : ℕ)
  | readRetained (token length : ℕ)
  | statRetained (token : ℕ)
  | writeRetained (token length : ℕ)
  | syncRetained (token : ℕ)
  | releaseRetained (token : ℕ)
  | releaseSession (session : ℕ)
  | releaseGrant (grant : ℕ)
  deriving DecidableEq

def retainReply (r : AstraVfsStatus × ℕ × AstraVfsService) : AstraVfsService × VfsOutcome :=
  (r.2.2, .reply { clearReply astraVfsVersion with status := r.1, file := r.2.1 })

def retainedCloses (s : AstraVfsService) (token : ℕ) : AstraVfsService × VfsOutcome :=
  closerGoes (astraVfsServiceReleaseRetained s token) (.release token) (handleSlot token)

def VfsCall.start (s : AstraVfsService) : VfsCall → AstraVfsService × VfsOutcome
  | .dispatch owner grant features operation request area =>
    astraVfsServiceDispatchGrant s owner grant features operation request area
  | .readdirFile session directory => astraVfsServiceReaddirFileInto s none session directory
  | .readInto session handle length => astraVfsServiceReadInto s session handle length
  | .writePosition session handle flags length =>
    astraVfsServiceWritePositionFrom s session handle flags length
  | .retain session handle => retainReply (astraVfsServiceRetainFile s session handle)
  | .readRetained token length => astraVfsServiceReadRetained s token length
  | .statRetained token => astraVfsServiceStatRetained s token
  | .writeRetained token length => astraVfsServiceWriteRetained s token length
  | .syncRetained token => astraVfsServiceSyncRetained s token
  | .releaseRetained token => retainedCloses s token
  | .releaseSession session =>
    astraVfsServiceReleaseSession s session (.reply (clearReply astraVfsVersion))
  | .releaseGrant grant =>
    if grant = 0 then (s, .reply (clearReply astraVfsVersion)) else (s, .park (.grant 0 grant))

/-- The service and the calls under way. `tokens` are the retentions their holders have: a holder has
one from the reply of the retain to the reply of its release. -/
structure VfsWorld where
  service : AstraVfsService
  points : List VfsPoint
  tokens : List ℕ
  spinning : Bool

inductive VfsEvent
  | start (call : VfsCall)
  | resume (k : ℕ) (a : VfsAnswer)
  deriving DecidableEq

namespace VfsWorld

variable (w : VfsWorld)

/-- The stretch an event sets off. -/
def stretch : VfsEvent → Option (AstraVfsService × VfsOutcome)
  | .start call => if w.spinning then none else some (call.start w.service)
  | .resume k a =>
    if w.spinning then none else w.points[k]?.map fun p => p.resume w.service a

/-- The points of the calls under way, without the one an event takes up. -/
def others : VfsEvent → List VfsPoint
  | .start _ => w.points
  | .resume k _ => w.points.eraseIdx k

/-- The retentions after the reply `r` of the stretch an event sets off. -/
def tokensAfter (ev : VfsEvent) (r : AstraVfsReply) : List ℕ :=
  match ev with
  | .start (.retain _ _) => if r.status = .ok then r.file :: w.tokens else w.tokens
  | .start (.releaseRetained token) => if r.status = .ok then w.tokens.erase token else w.tokens
  | .start _ => w.tokens
  | .resume k _ =>
    match w.points[k]? with
    | some (.closeCall (.release token) _ _) => w.tokens.erase token
    | _ => w.tokens

def step (ev : VfsEvent) : VfsWorld :=
  match w.stretch ev with
  | none => w
  | some (s, .reply r) => { w with service := s, points := w.others ev, tokens := w.tokensAfter ev r }
  | some (s, .park p) => { w with service := s, points := p :: w.others ev }
  | some (s, .spins) => { w with service := s, points := w.others ev, spinning := true }

def run : VfsWorld → List VfsEvent → VfsWorld
  | w, [] => w
  | w, ev :: evs => (w.step ev).run evs

/-- Every event of the list satisfies `P` in the world it is met in. -/
def Along (P : VfsWorld → VfsEvent → Prop) : VfsWorld → List VfsEvent → Prop
  | _, [] => True
  | w, ev :: evs => P w ev ∧ Along P (w.step ev) evs

end VfsWorld

/-- The service right after its initialisation, with no call under way. -/
def vfsBoot (sessionCapacity fileCapacity ownerSessionLimit : ℕ) (stateWait tryLock : Bool) :
    VfsWorld :=
  ⟨astraVfsServiceInit sessionCapacity fileCapacity ownerSessionLimit stateWait tryLock, [], [], false⟩

end Astra

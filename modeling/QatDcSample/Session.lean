import QatDcSample.Cpa
import QatDcSample.Lib.Transition
import QatDcSample.Lib.Tally
import Mathlib.Data.Int.Notation

/-!
# The requests of a compression session

A session counts the requests it waits for. Threads submit with `cpaDcCompressData2` or
`cpaDcDecompressData`, the threads that poll take the responses. A stateful session takes
one request at a time; a lock guards its test. `cpaDcResetSession` and
`cpaDcRemoveSession` read the counters one after the other and store to them, or to the
lock, later. Every access to what the threads share is a step of its own.
-/

namespace QatDcSample
namespace Session

inductive Upkeep where
  | reset | remove
  deriving DecidableEq

/-- Where a thread is: in a call of the API, from `lock` or `prepare` on, in the callback
of a response, or in a reset or a removal, from `readStateless` on. -/
inductive Phase where
  | idle
  | lock
  | locked
  | refuse
  | clear
  | zeroLength
  | counted
  | prepare
  | create
  | send
  | undo (status : CpaStatus)
  | response
  | uncount
  | readStateless (call : Upkeep)
  | readStateful (call : Upkeep) (numPendingStateless : ℤ)
  | storeStateless
  | storeStateful
  | unlock

/-- `dc_session_desc_t`, as far as it counts requests, and the requests. `lost` and `unpaired`
are no variables of the program: the calls that left their count behind, and those that took
one back they had not added. -/
structure State where
  /-- Whether `sessState` is `CPA_DC_STATEFUL`. -/
  stateful : Bool
  sessionLock : Bool
  pendingStatelessCbCount : ℤ
  pendingStatefulCbCount : ℤ
  threads : List Phase
  inFlight : ℕ
  lost : ℕ
  unpaired : ℕ

/-- The decrement of the counter of the session's kind. -/
def State.decrement (s : State) : State :=
  if s.stateful then { s with pendingStatefulCbCount := s.pendingStatefulCbCount - 1 }
  else { s with pendingStatelessCbCount := s.pendingStatelessCbCount - 1 }

/-- One step of a thread: what its call answers, if it returns, and where it is next. What
other parts of the driver answer is open: the pool of cookies, `dcZeroLengthRequests`,
`dcCreateRequest` and the transport. -/
inductive Acts (s : State) : Phase → Option CpaStatus → Phase → State → Prop where
  | spin : s.sessionLock = true → Acts s .lock none .lock s
  | take : s.sessionLock = false → Acts s .lock none .locked { s with sessionLock := true }
  | busy : s.pendingStatefulCbCount ≠ 0 → Acts s .locked none .refuse s
  | free : s.pendingStatefulCbCount = 0 → Acts s .locked none .clear s
  | refused : Acts s .refuse (some CpaStatus.retry) .idle { s with sessionLock := false }
  -- `dcZeroLengthRequests` serves the request and releases the lock itself
  | zeroLength : Acts s .clear none .zeroLength s
  | served : Acts s .zeroLength (some CpaStatus.success) .idle { s with sessionLock := false }
  | count : Acts s .clear none .counted
      { s with pendingStatefulCbCount := s.pendingStatefulCbCount + 1 }
  | release : Acts s .counted none .prepare { s with sessionLock := false }
  -- the pool is empty
  | wait : Acts s .prepare none .prepare s
  -- no synchronous cookie, or a pool that is not active: the call returns at once
  | noCookie (status : CpaStatus) : status ≠ CpaStatus.success →
      Acts s .prepare (some status) .idle
        { s with lost := if s.stateful then s.lost + 1 else s.lost }
  | cookie : Acts s .prepare none .create s
  | notCreated (status : CpaStatus) : status ≠ CpaStatus.success →
      Acts s .create none (.undo status)
        { s with unpaired := if s.stateful then s.unpaired else s.unpaired + 1 }
  | created : Acts s .create none .send
      { s with pendingStatelessCbCount :=
          if s.stateful then s.pendingStatelessCbCount else s.pendingStatelessCbCount + 1 }
  | sent : Acts s .send (some CpaStatus.success) .idle { s with inFlight := s.inFlight + 1 }
  | notSent (status : CpaStatus) : status ≠ CpaStatus.success →
      Acts s .send none (.undo status) s
  | undone (status : CpaStatus) : Acts s (.undo status) (some status) .idle s.decrement
  | answered : s.stateful = false → Acts s .response none .idle s.decrement
  | none : s.stateful = true → s.pendingStatefulCbCount = 0 → Acts s .response none .idle s
  | some : s.stateful = true → s.pendingStatefulCbCount ≠ 0 → Acts s .response none .uncount s
  | uncounted : Acts s .uncount none .idle s.decrement
  | readStateless (call : Upkeep) :
      Acts s (.readStateless call) none (.readStateful call s.pendingStatelessCbCount) s
  | pending (call : Upkeep) (numPendingStateless : ℤ) :
      numPendingStateless ≠ 0 ∨ s.pendingStatefulCbCount ≠ 0 →
      Acts s (.readStateful call numPendingStateless) (some CpaStatus.retry) .idle s
  | resets (numPendingStateless : ℤ) :
      numPendingStateless = 0 → s.pendingStatefulCbCount = 0 →
      Acts s (.readStateful .reset numPendingStateless) none .storeStateless s
  | storeStateless : Acts s .storeStateless none .storeStateful
      { s with pendingStatelessCbCount := 0 }
  | storeStateful : Acts s .storeStateful (some CpaStatus.success) .idle
      { s with pendingStatefulCbCount := 0 }
  | removes (numPendingStateless : ℤ) : s.stateful = true →
      numPendingStateless = 0 → s.pendingStatefulCbCount = 0 →
      Acts s (.readStateful .remove numPendingStateless) none .unlock s
  | unlocked : Acts s .unlock (some CpaStatus.success) .idle { s with sessionLock := false }
  | removed (numPendingStateless : ℤ) : s.stateful = false →
      numPendingStateless = 0 → s.pendingStatefulCbCount = 0 →
      Acts s (.readStateful .remove numPendingStateless) (some CpaStatus.success) .idle s

inductive Event where
  | call
  | response
  | upkeep (call : Upkeep)
  | act (answer : Option CpaStatus)

def Step (s : State) : Event → State → Prop
  | .call, s' => ∃ before after, s.threads = before ++ .idle :: after ∧
      s' = { s with threads := before ++ (if s.stateful then .lock else .prepare) :: after }
  | .response, s' => ∃ before after, s.threads = before ++ .idle :: after ∧ 0 < s.inFlight ∧
      s' = { s with
        inFlight := s.inFlight - 1
        threads := before ++ .response :: after }
  | .upkeep call, s' => ∃ before after, s.threads = before ++ .idle :: after ∧
      s' = { s with threads := before ++ .readStateless call :: after }
  | .act answer, s' => ∃ before phase after phase' t, s.threads = before ++ phase :: after ∧
      Acts s phase answer phase' t ∧ s' = { t with threads := before ++ phase' :: after }

/-- `dcInitSession`, for a number of threads. -/
def State.init (stateful : Bool) (threads : ℕ) : State where
  stateful
  sessionLock := false
  pendingStatelessCbCount := 0
  pendingStatefulCbCount := 0
  threads := List.replicate threads .idle
  inFlight := 0
  lost := 0
  unpaired := 0

/-- In a reset or a removal. -/
def Phase.keeps : Phase → ℕ
  | .readStateless _ | .readStateful _ _ | .storeStateless | .storeStateful | .unlock => 1
  | _ => 0

/-- The users' part: a reset or a removal begins when no thread is in a call or a callback
of the session, and none begins before it returned. -/
def Apart (s : State) : Event → Prop
  | .call | .response => ∀ phase ∈ s.threads, phase.keeps = 0
  | .upkeep _ => ∀ phase ∈ s.threads, phase = .idle
  | .act _ => True

/-- The states of the runs in which resets and removals overlap nothing. -/
def Reachable (stateful : Bool) (threads : ℕ) : State → Prop :=
  Transition.ReachVia Step Apart (State.init stateful threads)

end Session
end QatDcSample

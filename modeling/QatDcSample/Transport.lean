import QatDcSample.Cpa
import QatDcSample.Lib.Transition
import QatDcSample.Lib.Ring
import Mathlib.Data.Int.Notation

/-!
# The transport rings of the driver

A request ring and a response ring that share one count of requests in flight. Producers
put requests with `adf_user_put_msg` under the lock of the ring; a thread that polls
reads responses with `adf_user_notify_msgs_poll`; the device takes requests off the first
ring and writes responses to the second one. Every access to what the threads and the
device share is a step of its own.

The rings are those of a process that writes the tail and head registers itself. Rings
on a queue shared with others (`is_shared_queue`) are left out: there a request copied to
the ring can still be refused, and the head register is not written.
-/

namespace QatDcSample
namespace Transport

abbrev ICP_RINGSIZE_KILO_1 : ℕ := 0x04
abbrev ICP_RINGSIZE_KILO_16 : ℕ := 0x08
abbrev ICP_RINGSIZE_MEG_4 : ℕ := 0x10
abbrev MODULO_SHIFT_FOR_1K : ℕ := 10
abbrev MODULO_SHIFT_FOR_16K : ℕ := 14
abbrev MODULO_SHIFT_FOR_4M : ℕ := 22
abbrev MIN_RESPONSES_PER_HEAD_WRITE : ℕ := 32
abbrev ICP_NO_RESPONSE_QUOTA : ℕ := 10000
abbrev ADF_MSG_SIZE_64_BYTES : ℕ := 64
abbrev ADF_MSG_SIZE_128_BYTES : ℕ := 128
abbrev ICP_ADF_BYTES_PER_WORD : ℕ := 4

/-- Unsigned arithmetic of 32 bits. -/
def add32 (n k : ℕ) : ℕ := (n + k) % UInt32.size

def sub32 (n k : ℕ) : ℕ := (n + (UInt32.size - k)) % UInt32.size

/-! ### The size of a ring -/

/-- `ICP_ET_SIZE_TO_BYTES` -/
def etSizeToBytes (size : ℕ) : ℕ := (64 <<< size) % UInt32.size

/-- `modulo` -/
def modulo (data shift : ℕ) : ℕ := data - (data >>> shift) <<< shift

/-- The loop of `validateRingSize`; 32 rounds are enough for any `kbytes`. -/
def kiloSize : ℕ → ℕ → ℕ → ℕ
  | 0, _, k_size => k_size
  | fuel + 1, kbytes, k_size =>
      if 0 < kbytes then kiloSize fuel (kbytes >>> 1) (k_size + 1) else k_size

structure RingSize where
  size_config : ℕ
  modulo_value : ℕ
  deriving DecidableEq

def validateRingSize (num_msgs_on_ring msg_size_in_bytes : ℕ) : RingSize :=
  let size_in_bytes := num_msgs_on_ring * msg_size_in_bytes % UInt32.size
  if num_msgs_on_ring = 0 ∨ msg_size_in_bytes = 0 ∨ modulo msg_size_in_bytes 4 ≠ 0 then
    ⟨ICP_RINGSIZE_KILO_16, MODULO_SHIFT_FOR_16K⟩
  else if size_in_bytes ≤ etSizeToBytes ICP_RINGSIZE_MEG_4 then
    let k_size := kiloSize 32 (sub32 size_in_bytes 1 >>> MODULO_SHIFT_FOR_1K) 0
    ⟨ICP_RINGSIZE_KILO_1 + k_size, MODULO_SHIFT_FOR_1K + k_size⟩
  else
    ⟨ICP_RINGSIZE_MEG_4, MODULO_SHIFT_FOR_4M⟩

abbrev SAL_64_CONCURR_REQUESTS : ℕ := 64
abbrev SAL_MAX_CONCURR_REQUESTS : ℕ := 65536

/-- The loop of `validateConcurrRequest`; 11 rounds pass the maximum. -/
def baseRequest (numConcurrRequests : ℕ) : ℕ → ℕ → ℕ
  | 0, baseReq => baseReq
  | fuel + 1, baseReq =>
      if SAL_MAX_CONCURR_REQUESTS ≥ baseReq then
        if baseReq ≠ numConcurrRequests then baseRequest numConcurrRequests fuel (baseReq <<< 1)
        else baseReq
      else baseReq

/-- `validateConcurrRequest`: which number of messages an instance can be configured to. -/
def validateConcurrRequest (numConcurrRequests : ℕ) : CpaStatus :=
  if SAL_64_CONCURR_REQUESTS > numConcurrRequests then CpaStatus.fail
  else if SAL_MAX_CONCURR_REQUESTS < baseRequest numConcurrRequests 11 SAL_64_CONCURR_REQUESTS then
    CpaStatus.fail
  else CpaStatus.success

/-- `adf_dev_ring_handle_t` -/
structure RingHandle where
  message_size : ℕ
  ring_size : ℕ
  modulo : ℕ
  head : ℕ
  tail : ℕ
  send_seq : ℕ
  max_requests_inflight : ℕ
  min_resps_per_head_write : ℕ
  coal_write_count : ℕ
  csrTailOffset : ℕ
  /-- Whether `resp` is `ICP_RESP_TYPE_IRQ`. -/
  irq : Bool
  deriving DecidableEq

/-- `adf_init_ring_internal` on a handle fresh from `adf_populate_ring_info_internal`. -/
def adfInitRing (num_msgs msg_size : ℕ) (irq : Bool) : RingHandle :=
  let ring_size := etSizeToBytes (validateRingSize num_msgs msg_size).size_config
  { message_size := msg_size
    ring_size
    modulo := (validateRingSize num_msgs msg_size).modulo_value
    head := 0
    tail := 0
    send_seq := 0
    max_requests_inflight := sub32 num_msgs 1
    min_resps_per_head_write :=
      if (ring_size / msg_size) >>> 1 > MIN_RESPONSES_PER_HEAD_WRITE then
        MIN_RESPONSES_PER_HEAD_WRITE
      else (ring_size / msg_size) >>> 1
    coal_write_count := 0
    csrTailOffset := 0
    irq }

/-- The offset one message on. -/
def RingHandle.advance (ring : RingHandle) (offset : ℕ) : ℕ :=
  Transport.modulo (offset + ring.message_size) ring.modulo

/-! ### Threads and device -/

/-- A response; it names the request it answers. -/
structure Response (M P : Type) where
  request : M
  payload : P
  deriving DecidableEq

/-- The thread that holds `user_lock` of the request ring in `adf_user_put_msg`. -/
inductive Put (M : Type) where
  | full
  | counted (inBuf : M)
  | copied (inBuf : M)

inductive PollPhase where
  | test | mark | advance | settle | report
  deriving DecidableEq

/-- A thread in `adf_user_notify_msgs_poll`. -/
structure Poll where
  phase : PollPhase
  msg_counter : ℕ
  response_quota : ℕ

/-- What the threads, the rings and the device hold, and the history of the messages. -/
structure State (M P : Type) where
  tx : RingHandle
  rx : RingHandle
  txMem : ℕ → Option M
  rxMem : ℕ → Option (Response M P)
  in_flight : ℕ
  put : Option (Put M)
  pollingInProgress : ℤ
  polls : List Poll
  csrTail : ℕ
  csrHead : ℕ
  devHead : ℕ
  devTail : ℕ
  engine : List M
  sent : List M
  taken : List M
  written : List (Response M P)
  delivered : List (Response M P)

variable {M P : Type}

/-- Both rings of an instance, empty. -/
def State.create (tx rx : RingHandle) : State M P where
  tx
  rx
  txMem := fun _ => none
  rxMem := fun _ => none
  in_flight := 0
  put := none
  pollingInProgress := 1
  polls := []
  csrTail := 0
  csrHead := 0
  devHead := 0
  devTail := 0
  engine := []
  sent := []
  taken := []
  written := []
  delivered := []

namespace State

/-- `adf_user_put_msg` up to its test for space. -/
def putStart (s : State M P) (inBuf : M) : State M P :=
  let flight := add32 s.in_flight 1
  { s with
    in_flight := flight
    put := some (if flight > s.tx.max_requests_inflight then .full else .counted inBuf) }

/-- The rest of it: the answer once it returns, with the sequence number of a request
accepted. -/
def putStep (s : State M P) : Put M → Option (CpaStatus × Option ℕ) × State M P
  | .full =>
      (some (CpaStatus.retry, none), { s with
        in_flight := sub32 s.in_flight 1
        put := none })
  | .counted inBuf =>
      if s.tx.message_size = ADF_MSG_SIZE_64_BYTES ∨ s.tx.message_size = ADF_MSG_SIZE_128_BYTES then
        (none, { s with
          txMem := Function.update s.txMem s.tx.tail (some inBuf)
          put := some (.copied inBuf) })
      else
        (some (CpaStatus.fail, none), { s with put := none })
  | .copied inBuf =>
      let tail := s.tx.advance s.tx.tail
      (some (CpaStatus.success, some s.tx.send_seq), { s with
        tx := { s.tx with
          tail
          csrTailOffset := tail
          send_seq := (s.tx.send_seq + 1) % UInt64.size }
        csrTail := tail
        put := none
        sent := s.sent ++ [inBuf] })

/-- `adf_pollRing` up to the loop: one thread at a time gets past the test. -/
def pollStart (s : State M P) (response_quota : ℕ) : State M P :=
  let pollingInProgress := s.pollingInProgress - 1
  if pollingInProgress = 0 then
    { s with
      pollingInProgress
      polls := s.polls ++
        [⟨.test, 0, if response_quota ≠ 0 then response_quota else ICP_NO_RESPONSE_QUOTA⟩] }
  else
    { s with pollingInProgress }

/-- One step of `adf_user_notify_msgs_poll`: where the thread is next, if it has not
returned, and the state. -/
def pollStep (s : State M P) (p : Poll) : Option Poll × State M P :=
  match p.phase with
  | .test =>
      match s.rxMem s.rx.head with
      | none => (some { p with phase := .settle }, s)
      | some msg =>
          if p.msg_counter < p.response_quota then
            -- the callback of the ring
            (some { p with phase := .mark }, { s with delivered := s.delivered ++ [msg] })
          else
            (some { p with phase := .settle }, s)
  | .mark =>
      (some { p with phase := .advance }, { s with
        rxMem := Function.update s.rxMem s.rx.head none })
  | .advance =>
      (some { p with phase := .test, msg_counter := p.msg_counter + 1 }, { s with
        rx := { s.rx with head := s.rx.advance s.rx.head } })
  | .settle =>
      if p.msg_counter > 0 then
        (some { p with phase := .report }, { s with
          in_flight := sub32 s.in_flight p.msg_counter })
      else
        (none, { s with pollingInProgress := 1 })
  | .report =>
      if p.msg_counter > s.rx.coal_write_count ∨ s.rx.irq = true then
        (none, { s with
          rx := { s.rx with coal_write_count := s.rx.min_resps_per_head_write }
          csrHead := s.rx.head
          pollingInProgress := 1 })
      else
        (none, { s with
          rx := { s.rx with coal_write_count := s.rx.coal_write_count - p.msg_counter }
          pollingInProgress := 1 })

/-- The device takes the next request off the ring. -/
def fetch (s : State M P) (m : M) : State M P :=
  { s with
    devHead := s.tx.advance s.devHead
    engine := s.engine ++ [m]
    taken := s.taken ++ [m] }

/-- The device writes a response where the next one goes. -/
def respond (s : State M P) (engine : List M) (r : Response M P) : State M P :=
  { s with
    rxMem := Function.update s.rxMem s.devTail (some r)
    devTail := s.rx.advance s.devTail
    engine
    written := s.written ++ [r] }

end State

inductive Event (M P : Type) where
  | submit (inBuf : M) (bufLen : ℕ)
  | put (answer : Option (CpaStatus × Option ℕ))
  | poll (response_quota : ℕ)
  | notify
  | fetch
  | respond (r : Response M P)

/-- One step of a producer, of a thread that polls or of the device. The device takes
requests as long as the tail it was told is ahead of it, and answers those it took in
any order, each once; it looks at no pointer of the response ring. -/
def Step (s : State M P) : Event M P → State M P → Prop
  | .submit inBuf bufLen, s' =>
      -- any other length is refused by `icp_adf_transPutMsg`
      bufLen * ICP_ADF_BYTES_PER_WORD = s.tx.message_size ∧ s.put = none ∧ s' = s.putStart inBuf
  | .put answer, s' => ∃ phase, s.put = some phase ∧ s.putStep phase = (answer, s')
  | .poll response_quota, s' => s' = s.pollStart response_quota
  | .notify, s' => ∃ before p after, s.polls = before ++ p :: after ∧
      s' = { (s.pollStep p).2 with polls := before ++ (s.pollStep p).1.toList ++ after }
  | .fetch, s' => s.csrTail ≠ s.devHead ∧ ∃ m, s.txMem s.devHead = some m ∧ s' = s.fetch m
  | .respond r, s' => ∃ before after, s.engine = before ++ r.request :: after ∧
      s' = s.respond (before ++ after) r

/-- The states of two rings that any interleaving leads to. -/
def Reachable (tx rx : RingHandle) (s : State M P) : Prop :=
  Transition.Reach Step (State.create tx rx) s

end Transport
end QatDcSample

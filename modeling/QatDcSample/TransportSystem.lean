import QatDcSample.TransportRuns

/-!
# The rings of an instance as a whole

Rings that `adf_init_ring_internal` made for one number of messages: in every
interleaving of producers, of threads that poll and of the device each request reaches
the device once and in order, and each response the callback once and in order.
-/

namespace QatDcSample
namespace Transport

open Ring

variable {M P : Type}

/-! ### Ring sizes -/

/-- The shifts until nothing is left. -/
theorem kiloSize_spec (fuel : ℕ) : ∀ kbytes k_size, kbytes < 1 <<< fuel →
    ∃ r, kiloSize fuel kbytes k_size = k_size + r ∧ kbytes < 1 <<< r ∧
      (r = 0 ∨ ∃ r', r = r' + 1 ∧ 1 <<< r' ≤ kbytes) := by
  induction fuel with
  | zero =>
    intro kbytes k_size h
    exact ⟨0, rfl, h, .inl rfl⟩
  | succ fuel ih =>
    intro kbytes k_size h
    by_cases hpos : 0 < kbytes
    · have hhalf : kbytes >>> 1 = kbytes / 2 := Nat.shiftRight_succ kbytes 0
      rw [Nat.shiftLeft_succ] at h
      obtain ⟨r, hr, hlt, hleast⟩ := ih (kbytes >>> 1) (k_size + 1) (by omega)
      refine ⟨r + 1, ?_, ?_, .inr ⟨r, rfl, ?_⟩⟩
      · rw [kiloSize, if_pos hpos, hr]
        omega
      · rw [Nat.shiftLeft_succ]
        omega
      · obtain hz | ⟨r', hr', hle⟩ := hleast
        · rw [hz]
          exact hpos
        · rw [hr', Nat.shiftLeft_succ]
          omega
    · have hz : kbytes = 0 := by omega
      refine ⟨0, ?_, ?_, .inl rfl⟩
      · rw [kiloSize, if_neg hpos]
        rfl
      · rw [hz]
        exact Nat.one_pos

theorem modulo_eq (data shift : ℕ) : Transport.modulo data shift = data % (1 <<< shift) := by
  unfold Transport.modulo
  have hd := Nat.mod_add_div data (1 <<< shift)
  rw [Nat.one_shiftLeft] at hd ⊢
  rw [Nat.shiftRight_eq_div_pow, Nat.shiftLeft_eq, Nat.mul_comm]
  omega

/-- A number of messages for which there is a ring. -/
structure Fits (num_msgs msg_size : ℕ) : Prop where
  some : 0 < num_msgs
  word : msg_size = 32 ∨ msg_size = 64 ∨ msg_size = 128
  bytes : num_msgs * msg_size ≤ 4194304

/-- The ring is the least power of two from 1K on that holds the messages. -/
theorem validateRingSize_spec {num_msgs msg_size : ℕ} (h : Fits num_msgs msg_size) :
    ∃ r, validateRingSize num_msgs msg_size = ⟨4 + r, 10 + r⟩ ∧
      num_msgs * msg_size ≤ 1024 * 1 <<< r ∧
      (r = 0 ∨ 1024 * 1 <<< r < 2 * (num_msgs * msg_size)) := by
  have hs : UInt32.size = 4294967296 := rfl
  have hm : etSizeToBytes ICP_RINGSIZE_MEG_4 = 4194304 := rfl
  have hbytes := h.bytes
  have hpos : 0 < num_msgs * msg_size := by
    apply Nat.mul_pos h.some
    obtain hw | hw | hw := h.word <;> omega
  have hmod : ¬ (num_msgs = 0 ∨ msg_size = 0 ∨ Transport.modulo msg_size 4 ≠ 0) := by
    have hn := h.some
    obtain rfl | rfl | rfl := h.word
    · have : Transport.modulo 32 4 = 0 := rfl
      omega
    · have : Transport.modulo 64 4 = 0 := rfl
      omega
    · have : Transport.modulo 128 4 = 0 := rfl
      omega
  have hwrap : num_msgs * msg_size % UInt32.size = num_msgs * msg_size :=
    Nat.mod_eq_of_lt (by omega)
  have hsub : sub32 (num_msgs * msg_size) 1 = num_msgs * msg_size - 1 :=
    sub32_of_le hpos (by omega)
  have hkilo : (num_msgs * msg_size - 1) >>> MODULO_SHIFT_FOR_1K =
      (num_msgs * msg_size - 1) / 1024 := Nat.shiftRight_eq_div_pow _ 10
  obtain ⟨r, hr, hlt, hleast⟩ := kiloSize_spec 32 ((num_msgs * msg_size - 1) / 1024) 0 (by
    have hfuel : 1 <<< 32 = 4294967296 := rfl
    omega)
  refine ⟨r, ?_, by omega, ?_⟩
  · rw [validateRingSize, if_neg hmod, hwrap, hm, if_pos hbytes, hsub, hkilo, hr, Nat.zero_add]
  · obtain hz | ⟨r', hr', hle⟩ := hleast
    · exact .inl hz
    · rw [hr', Nat.shiftLeft_succ]
      omega

theorem shiftLeft_add (x a b : ℕ) : x <<< (a + b) = x <<< a * 1 <<< b := by
  rw [Nat.one_shiftLeft, Nat.shiftLeft_eq, Nat.shiftLeft_eq, Nat.pow_add, Nat.mul_assoc]

/-- The messages a ring has room for. -/
def RingHandle.slots (ring : RingHandle) : ℕ := ring.ring_size / ring.message_size

/-- The slots of a new ring: one at least for each message, and the head is written to the
device before half of them are passed. -/
theorem adfInitRing_lawful {num_msgs msg_size : ℕ} (h : Fits num_msgs msg_size) (irq : Bool) :
    (adfInitRing num_msgs msg_size irq).Lawful (adfInitRing num_msgs msg_size irq).slots ∧
      num_msgs ≤ (adfInitRing num_msgs msg_size irq).slots ∧
      2 * (adfInitRing num_msgs msg_size irq).min_resps_per_head_write ≤
        (adfInitRing num_msgs msg_size irq).slots := by
  obtain ⟨r, hsize, hholds, hleast⟩ := validateRingSize_spec h
  have hlt : 1024 * 1 <<< r < UInt32.size := by
    have hbytes := h.bytes
    have hs : UInt32.size = 4294967296 := rfl
    obtain hz | hlt := hleast
    · rw [hz]
      decide
    · omega
  have hring : etSizeToBytes (4 + r) = 1024 * 1 <<< r :=
    (congrArg (· % UInt32.size) (shiftLeft_add 64 4 r)).trans (Nat.mod_eq_of_lt hlt)
  have hround : 1 <<< (10 + r) = 1024 * 1 <<< r := shiftLeft_add 1 10 r
  have hpos : 0 < 1 <<< r := by
    rw [Nat.one_shiftLeft]
    exact Nat.two_pow_pos r
  obtain ⟨n, hn, hslots⟩ : ∃ n, n * msg_size = 1024 * 1 <<< r ∧ 0 < n := by
    obtain rfl | rfl | rfl := h.word
    · exact ⟨32 * 1 <<< r, by omega, by omega⟩
    · exact ⟨16 * 1 <<< r, by omega, by omega⟩
    · exact ⟨8 * 1 <<< r, by omega, by omega⟩
  have hmsg : 0 < msg_size := by
    obtain hw | hw | hw := h.word <;> omega
  have hdiv : 1024 * 1 <<< r / msg_size = n := by
    rw [← hn, Nat.mul_div_cancel n hmsg]
  have hn' : (adfInitRing num_msgs msg_size irq).slots = n := by
    simp only [RingHandle.slots, adfInitRing, hsize, hring, hdiv]
  rw [hn']
  refine ⟨⟨hslots, hmsg, fun offset => ?_⟩, ?_, ?_⟩
  · simp only [adfInitRing, hsize]
    rw [modulo_eq, hround, ← hn]
  · exact Nat.le_of_mul_le_mul_right (by omega) hmsg
  · have hhalf : n >>> 1 = n / 2 := Nat.shiftRight_succ n 0
    simp only [adfInitRing, hsize, hring, hdiv, hhalf]
    split <;> omega

/-! ### Runs -/

section
variable {most n k : ℕ} {tx rx : RingHandle} {s s' : State M P}

theorem Step.inv {e : Event M P} (hs : Step s e s') (h : Inv most n k s) : Inv most n k s' := by
  cases e with
  | submit inBuf bufLen =>
    obtain ⟨_, hput, rfl⟩ := hs
    exact h.submit hput inBuf
  | put answer =>
    obtain ⟨phase, hput, hstep⟩ := hs
    have hinv := h.put hput
    rw [hstep] at hinv
    exact hinv
  | poll response_quota =>
    subst hs
    exact h.poll response_quota
  | notify =>
    obtain ⟨before, p, after, hpolls, rfl⟩ := hs
    obtain ⟨_, _, _, hr⟩ := h.responses
    -- one thread polls at a time
    obtain ⟨hnil, _⟩ | ⟨⟨q, hq⟩, _⟩ := hr.one
    · rw [hnil] at hpolls
      simp at hpolls
    · rw [hq] at hpolls
      obtain ⟨rfl, hpq⟩ | ⟨_, rfl, hrest⟩ := List.cons_eq_append_iff.mp hpolls
      · rw [List.cons.injEq] at hpq
        obtain ⟨rfl, rfl⟩ := hpq
        rw [List.nil_append, List.append_nil]
        exact h.notify hq
      · simp at hrest
  | fetch =>
    obtain ⟨hahead, m, hm, rfl⟩ := hs
    exact h.fetch hahead hm
  | respond r =>
    obtain ⟨before, after, hengine, rfl⟩ := hs
    exact h.respond hengine

/-- What the invariant needs of two new rings. -/
structure Fresh (most n k : ℕ) (tx rx : RingHandle) : Prop where
  limit : tx.max_requests_inflight = most
  wide : most + 1 < UInt32.size
  txRoom : most < n
  rxRoom : most < k
  txLawful : tx.Lawful n
  rxLawful : rx.Lawful k
  word : tx.message_size = ADF_MSG_SIZE_64_BYTES ∨ tx.message_size = ADF_MSG_SIZE_128_BYTES
  txStart : tx.tail = 0 ∧ tx.send_seq = 0
  rxStart : rx.head = 0 ∧ rx.coal_write_count = 0
  half : 2 * rx.min_resps_per_head_write ≤ k

theorem slot_zero (n size : ℕ) : slot n size 0 = 0 := by
  rw [slot, Nat.zero_mod, Nat.zero_mul]

theorem Fresh.inv (h : Fresh most n k tx rx) : Inv most n k (State.create tx rx : State M P) := by
  obtain ⟨htail, hseq⟩ := h.txStart
  obtain ⟨hhead, hcoal⟩ := h.rxStart
  refine ⟨h.limit, h.txRoom, h.rxRoom, ?_, ⟨0, 0, 0, ?_⟩, ?_⟩
  · constructor
    · exact h.txLawful
    · exact h.word
    · exact htail.trans (slot_zero n _).symm
    · exact htail.symm
    · exact (slot_zero n _).symm
    · exact List.prefix_refl []
    · exact window_nil n _ _ _
    · intro m hm
      cases hm
    · exact hseq
  · constructor
    · exact h.rxLawful
    · exact .inl ⟨rfl, rfl⟩
    · exact (slot_zero k _).symm
    · exact List.prefix_refl []
    · exact hhead.trans (slot_zero k _).symm
    · rfl
    · rfl
    · exact window_nil k _ _ _
    · intro i _ _
      rfl
    · exact Nat.zero_le _
    · exact (slot_zero k _).symm
    · simp only [State.create, hcoal]
      exact Nat.zero_le _
    · exact Nat.le_refl 0
    · exact h.half
  · exact ⟨h.wide, List.Perm.refl [], rfl, Nat.zero_le _⟩

theorem Reachable.inv (hf : Fresh most n k tx rx) (hr : Reachable tx rx s) : Inv most n k s :=
  Transition.ReachVia.invariant (I := fun s => Inv most n k s) hf.inv
    (fun _ _ _ _ h hs _ => Step.inv hs h) hr

end

/-- An instance: two new rings for the same number of messages. -/
structure Instance (num_msgs tx_size rx_size : ℕ) : Prop where
  word : tx_size = ADF_MSG_SIZE_64_BYTES ∨ tx_size = ADF_MSG_SIZE_128_BYTES
  tx : Fits num_msgs tx_size
  rx : Fits num_msgs rx_size

/-- The messages of `SalCtrl_CompressionInit`: 32 and 8 long words. -/
abbrev DC_REQ_SIZE : ℕ := 32 * 4
abbrev DC_RESP_SIZE : ℕ := 8 * 4

theorem dc_instance {n : ℕ} (hpos : 0 < n) (hle : n ≤ 32768) :
    Instance n DC_REQ_SIZE DC_RESP_SIZE := by
  have hreq : DC_REQ_SIZE = 128 := rfl
  have hresp : DC_RESP_SIZE = 32 := rfl
  constructor
  · exact .inr rfl
  · exact ⟨hpos, .inr (.inr rfl), by rw [hreq]; omega⟩
  · exact ⟨hpos, .inl rfl, by rw [hresp]; omega⟩

/-! ### Runs by computation -/

/-- Who acts: the thread that polls first, the device on the request it took first. -/
inductive Move (M P : Type) where
  | submit (inBuf : M) (bufLen : ℕ)
  | put
  | poll (response_quota : ℕ)
  | notify
  | fetch
  | respond (payload : P)

def exec (s : State M P) : Move M P → Option (Event M P × State M P)
  | .submit inBuf bufLen =>
      if bufLen * ICP_ADF_BYTES_PER_WORD = s.tx.message_size ∧ s.put.isNone = true then
        some (.submit inBuf bufLen, s.putStart inBuf)
      else none
  | .put =>
      match s.put with
      | none => none
      | some phase => some (.put (s.putStep phase).1, (s.putStep phase).2)
  | .poll response_quota => some (.poll response_quota, s.pollStart response_quota)
  | .notify =>
      match s.polls with
      | [] => none
      | p :: after =>
          some (.notify, { (s.pollStep p).2 with polls := (s.pollStep p).1.toList ++ after })
  | .fetch =>
      match s.txMem s.devHead with
      | none => none
      | some m => if s.csrTail ≠ s.devHead then some (.fetch, s.fetch m) else none
  | .respond payload =>
      match s.engine with
      | [] => none
      | m :: engine => some (.respond ⟨m, payload⟩, s.respond engine ⟨m, payload⟩)

theorem exec_step (s : State M P) (move : Move M P) (e : Event M P) (s' : State M P)
    (h : exec s move = some (e, s')) : Step s e s' := by
  cases move with
  | submit inBuf bufLen =>
    simp only [exec] at h
    split at h
    · next hok =>
      cases h
      exact ⟨hok.1, Option.isNone_iff_eq_none.mp hok.2, rfl⟩
    · cases h
  | put =>
    simp only [exec] at h
    split at h
    · cases h
    · next phase hput =>
      cases h
      exact ⟨phase, hput, rfl⟩
  | poll response_quota =>
    cases h
    rfl
  | notify =>
    simp only [exec] at h
    split at h
    · cases h
    · next p after hpolls =>
      cases h
      exact ⟨[], p, after, hpolls, rfl⟩
  | fetch =>
    simp only [exec] at h
    split at h
    · cases h
    · next m hm =>
      split at h
      · next hahead =>
        cases h
        exact ⟨hahead, m, hm, rfl⟩
      · cases h
  | respond payload =>
    simp only [exec] at h
    split at h
    · cases h
    · next m engine hengine =>
      cases h
      exact ⟨[], engine, hengine, rfl⟩

/-- Two requests are sent and answered; a thread told to read one response reads it and
returns. -/
def deliverMoves : List (Move ℕ Unit) :=
  [.submit 7 32, .put, .put, .submit 8 32, .put, .put, .fetch, .respond (), .fetch, .respond (),
    .poll 1, .notify, .notify, .notify, .notify, .notify, .notify]

theorem delivered_run : ∃ s : State ℕ Unit,
    Reachable (adfInitRing 64 DC_REQ_SIZE false) (adfInitRing 64 DC_RESP_SIZE false) s ∧
      s.sent = [7, 8] ∧ s.written = [⟨7, ()⟩, ⟨8, ()⟩] ∧ s.delivered = [⟨7, ()⟩] ∧
      s.polls.isEmpty = true := by
  have hrun : (Transition.play exec (fun _ _ => true)
      (State.create (adfInitRing 64 DC_REQ_SIZE false) (adfInitRing 64 DC_RESP_SIZE false))
      deliverMoves).any (fun s => s.sent = [7, 8] ∧ s.written = [⟨7, ()⟩, ⟨8, ()⟩] ∧
        s.delivered = [⟨7, ()⟩] ∧ s.polls.isEmpty = true) = true := by decide +kernel
  rw [Option.any_eq_true] at hrun
  obtain ⟨s, hs, hT⟩ := hrun
  exact ⟨s, Transition.play_reaches exec_step (fun _ _ _ => trivial) deliverMoves _ _ hs,
    of_decide_eq_true hT⟩

section
variable {num_msgs tx_size rx_size : ℕ} {irq : Bool} {s : State M P}

theorem Instance.fresh (h : Instance num_msgs tx_size rx_size) (irq : Bool) :
    Fresh (num_msgs - 1) (adfInitRing num_msgs tx_size irq).slots
      (adfInitRing num_msgs rx_size irq).slots (adfInitRing num_msgs tx_size irq)
      (adfInitRing num_msgs rx_size irq) := by
  obtain ⟨hn, hroom, _⟩ := adfInitRing_lawful h.tx irq
  obtain ⟨hk, hroom', hhalf⟩ := adfInitRing_lawful h.rx irq
  have hsome := h.tx.some
  have hbytes := h.tx.bytes
  have hs : UInt32.size = 4294967296 := rfl
  have hle : num_msgs ≤ 4194304 := by
    obtain hw | hw | hw := h.tx.word <;> rw [hw] at hbytes <;> omega
  constructor
  · exact sub32_of_le hsome (by omega)
  · omega
  · omega
  · omega
  · exact hn
  · exact hk
  · exact h.word
  · exact ⟨rfl, rfl⟩
  · exact ⟨rfl, rfl⟩
  · exact hhalf

/-- What the head register of the response ring hides from the device is at most half of
the ring: a device that waits for room waits only for responses not delivered. -/
theorem head_lag (h : Instance num_msgs tx_size rx_size)
    (hr : Reachable (adfInitRing num_msgs tx_size irq) (adfInitRing num_msgs rx_size irq) s)
    (hidle : s.polls = []) :
    ∃ reported, s.csrHead =
        slot (adfInitRing num_msgs rx_size irq).slots s.rx.message_size reported ∧
      reported ≤ s.delivered.length ∧
      2 * (s.delivered.length - reported) ≤ (adfInitRing num_msgs rx_size irq).slots := by
  obtain ⟨_, _, reported, hresp⟩ := (hr.inv (h.fresh irq)).responses
  have hlag := hresp.lag
  have htold := hresp.told
  have hhalf := hresp.half
  rw [hidle, total_nil] at hlag htold
  exact ⟨reported, hresp.csrHead, by omega, by omega⟩

theorem head_lag_delivered : ∃ (s : State ℕ Unit) (reported : ℕ),
    s.delivered = [⟨7, ()⟩] ∧ s.csrHead =
        slot (adfInitRing 64 DC_RESP_SIZE false).slots s.rx.message_size reported ∧
      reported ≤ s.delivered.length ∧
      2 * (s.delivered.length - reported) ≤ (adfInitRing 64 DC_RESP_SIZE false).slots := by
  obtain ⟨s, hr, _, _, hdelivered, hidle⟩ := delivered_run
  obtain ⟨reported, h⟩ := head_lag (dc_instance (by decide) (by decide)) hr
    (List.isEmpty_iff.mp hidle)
  exact ⟨s, reported, hdelivered, h⟩

end

/-! ### The check of the response ring -/

/-- The loop of `adf_user_check_resp_ring`, with the messages left to check. -/
def checkFrom (rx : RingHandle) (rxMem : ℕ → Option (Response M P)) : ℕ → ℕ → Bool
  | 0, _ => true
  | left + 1, cur_head =>
      match rxMem cur_head with
      | some _ => false
      | none => checkFrom rx rxMem left (rx.advance cur_head)

/-- `adf_user_check_resp_ring` -/
def State.checkRespRing (s : State M P) : Bool := checkFrom s.rx s.rxMem s.in_flight s.rx.head

theorem checkFrom_clear {rx : RingHandle} {k : ℕ} (hl : rx.Lawful k)
    {rxMem : ℕ → Option (Response M P)} (left : ℕ) :
    ∀ i, (∀ j, i ≤ j → j < i + left → rxMem (slot k rx.message_size j) = none) →
      checkFrom rx rxMem left (slot k rx.message_size i) = true := by
  induction left with
  | zero =>
    intro i _
    rfl
  | succ left ih =>
    intro i hnone
    rw [checkFrom, hnone i (Nat.le_refl i) (by omega), hl.advance i]
    apply ih
    intro j hj hlt
    exact hnone j (by omega) (by omega)

/-- With no thread polling the check answers whether every response was delivered. -/
theorem checkRespRing_iff {num_msgs tx_size rx_size : ℕ} {irq : Bool} {s : State M P}
    (h : Instance num_msgs tx_size rx_size)
    (hr : Reachable (adfInitRing num_msgs tx_size irq) (adfInitRing num_msgs rx_size irq) s)
    (hidle : s.polls = []) : s.checkRespRing = true ↔ s.delivered = s.written := by
  have hinv := hr.inv (h.fresh irq)
  obtain ⟨read, cleared, _, hresp⟩ := hinv.responses
  obtain ⟨htaken, hdelivered⟩ := hinv.lengths
  have hpassed := hresp.passed
  have hmarked := hresp.marked
  have hexact := hinv.count.exact
  rw [hidle, total_nil] at hpassed hmarked hexact
  have hread : read = s.delivered.length := by omega
  have hcleared : cleared = s.delivered.length := by omega
  subst hread hcleared
  unfold State.checkRespRing
  rw [hresp.head]
  constructor
  · intro hcheck
    apply hresp.order.eq_of_length_le
    by_contra hlt
    -- the first message not delivered is at the head
    have hwin := hresp.window s.delivered.length (Nat.le_refl _) (by omega)
    rw [List.getElem?_eq_getElem (by omega)] at hwin
    obtain ⟨left, hleft⟩ : ∃ left, s.in_flight = left + 1 := ⟨s.in_flight - 1, by omega⟩
    rw [hleft, checkFrom, hwin] at hcheck
    cases hcheck
  · intro hall
    apply checkFrom_clear hresp.lawful
    intro j hj hlt
    apply hresp.clear j
    · rw [← hall]
      exact hj
    · have hbound := hinv.count.bound
      have hrefused := refused_le s.put
      have hrx := hinv.rxRoom
      have hle : refused s.put ≤ 1 := by
        cases s.put with
        | none => exact Nat.zero_le 1
        | some phase => exact refused_le (some phase)
      omega

/-- One of two responses was delivered. -/
theorem checkRespRing_delivered : ∃ s : State ℕ Unit, s.sent = [7, 8] ∧
    s.delivered = [⟨7, ()⟩] ∧ s.checkRespRing = false := by
  obtain ⟨s, hr, hsent, hwritten, hdelivered, hidle⟩ := delivered_run
  have h := checkRespRing_iff (dc_instance (by decide) (by decide)) hr (List.isEmpty_iff.mp hidle)
  rw [hwritten, hdelivered] at h
  refine ⟨s, hsent, hdelivered, ?_⟩
  cases hc : s.checkRespRing with
  | false => rfl
  | true =>
    have hno := h.mp hc
    cases hno

/-! ### The rings of a compression instance -/

theorem baseRequest_shift (n : ℕ) (fuel : ℕ) : ∀ baseReq,
    baseRequest n fuel baseReq ≤ SAL_MAX_CONCURR_REQUESTS →
      SAL_MAX_CONCURR_REQUESTS < baseReq <<< fuel → ∃ i, i < fuel ∧ n = baseReq <<< i := by
  induction fuel with
  | zero =>
    intro baseReq hle hlt
    rw [baseRequest] at hle
    rw [Nat.shiftLeft_zero] at hlt
    omega
  | succ fuel ih =>
    intro baseReq hle hlt
    rw [baseRequest] at hle
    split at hle
    · split at hle
      · rw [Nat.add_comm, Nat.shiftLeft_add] at hlt
        obtain ⟨i, hi, hn⟩ := ih (baseReq <<< 1) hle hlt
        refine ⟨1 + i, by omega, ?_⟩
        rw [hn, Nat.shiftLeft_add]
      · next he =>
        rw [not_not] at he
        exact ⟨0, Nat.succ_pos fuel, he.symm⟩
    · omega

/-- The numbers of messages that the configuration accepts. -/
theorem validateConcurrRequest_eq {n : ℕ} (h : validateConcurrRequest n = CpaStatus.success) :
    0 < n ∧ (n ≤ 32768 ∨ n = 65536) := by
  unfold validateConcurrRequest at h
  split at h
  · cases h
  · split at h
    · cases h
    · next hlow hhigh =>
      obtain ⟨i, hi, hn⟩ := baseRequest_shift n 11 SAL_64_CONCURR_REQUESTS (by omega) (by decide)
      have hall : ∀ i, i < 11 → 0 < SAL_64_CONCURR_REQUESTS <<< i ∧
          (SAL_64_CONCURR_REQUESTS <<< i ≤ 32768 ∨ SAL_64_CONCURR_REQUESTS <<< i = 65536) := by
        decide
      rw [hn]
      exact hall i hi

/-- `j` requests sent to a ring of 32768 slots that nobody reads. -/
structure Flooded (most j : ℕ) (s : State ℕ P) : Prop where
  lawful : s.tx.Lawful 32768
  size : s.tx.message_size = ADF_MSG_SIZE_128_BYTES
  limit : s.tx.max_requests_inflight = most
  tail : s.tx.tail = slot 32768 s.tx.message_size j
  csrTail : s.csrTail = s.tx.tail
  devHead : s.devHead = 0
  in_flight : s.in_flight = j
  put : s.put = none
  sent : s.sent = List.range j
  taken : s.taken = []
  last : ∀ i, j = i + 1 → s.txMem (slot 32768 s.tx.message_size i) = some i

theorem Flooded.more {most j : ℕ} {s s₀ : State ℕ P} (h : Flooded most j s) (hj : j < most)
    (hmost : most < UInt32.size) (hr : Transition.Reach Step s₀ s) :
    ∃ s', Flooded most (j + 1) s' ∧ Transition.Reach Step s₀ s' := by
  have hadd : add32 s.in_flight 1 = j + 1 := by
    rw [h.in_flight]
    exact add32_of_lt (by omega)
  have hput₁ : (s.putStart j).put = some (.counted j) := by
    simp only [State.putStart, hadd, h.limit]
    rw [if_neg (by omega)]
  have hsize : (s.putStart j).tx.message_size = ADF_MSG_SIZE_64_BYTES ∨
      (s.putStart j).tx.message_size = ADF_MSG_SIZE_128_BYTES := .inr h.size
  have hcopy : (s.putStart j).putStep (.counted j) = (none, { s.putStart j with
      txMem := Function.update s.txMem s.tx.tail (some j)
      put := some (.copied j) }) := by
    rw [State.putStep, if_pos hsize]
    rfl
  generalize hs₂ : ({ s.putStart j with
    txMem := Function.update s.txMem s.tx.tail (some j)
    put := some (.copied j) } : State ℕ P) = s₂ at hcopy
  have hput₂ : s₂.put = some (.copied j) := by rw [← hs₂]
  have hstart : Step s (.submit j 32) (s.putStart j) := ⟨h.size.symm, h.put, rfl⟩
  have hstep₁ : Step (s.putStart j) (.put none) s₂ := ⟨_, hput₁, hcopy⟩
  have hstep₂ : Step s₂ (.put (s₂.putStep (.copied j)).1) (s₂.putStep (.copied j)).2 :=
    ⟨_, hput₂, rfl⟩
  refine ⟨_, ?_, .tail (.tail (.tail hr hstart trivial) hstep₁ trivial) hstep₂ trivial⟩
  subst hs₂
  constructor
  · exact ⟨h.lawful.slots, h.lawful.size, h.lawful.wraps⟩
  · exact h.size
  · exact h.limit
  · change s.tx.advance s.tx.tail = _
    rw [h.tail]
    exact h.lawful.advance j
  · rfl
  · exact h.devHead
  · exact hadd
  · rfl
  · change s.sent ++ [j] = _
    rw [h.sent, List.range_succ]
  · exact h.taken
  · intro i hi
    have hij : i = j := by omega
    change Function.update s.txMem s.tx.tail (some j) (slot 32768 s.tx.message_size i) = some i
    rw [hij, ← h.tail, Function.update_self]

theorem flooded {most : ℕ} {s₀ : State ℕ P} (h₀ : Flooded most 0 s₀) (hmost : most < UInt32.size)
    (j : ℕ) (hj : j ≤ most) : ∃ s, Flooded most j s ∧ Transition.Reach Step s₀ s := by
  induction j with
  | zero => exact ⟨s₀, h₀, .refl⟩
  | succ j ih =>
    obtain ⟨s, hs, hr⟩ := ih (by omega)
    exact hs.more (by omega) hmost hr

/-- The request ring for 65536 messages is cut to 4M. -/
theorem cut_lawful (irq : Bool) : (adfInitRing 65536 DC_REQ_SIZE irq).Lawful 32768 := by
  have hsize : (adfInitRing 65536 DC_REQ_SIZE irq).message_size = 128 := rfl
  have hmodulo : (adfInitRing 65536 DC_REQ_SIZE irq).modulo = 22 := rfl
  have hround : 1 <<< 22 = 32768 * 128 := rfl
  constructor
  · decide
  · rw [hsize]
    decide
  · intro offset
    rw [hsize, hmodulo, modulo_eq, hround]

theorem flooded_start (irq : Bool) : Flooded 65535 0 (State.create
    (adfInitRing 65536 DC_REQ_SIZE irq) (adfInitRing 65536 DC_RESP_SIZE irq) : State ℕ P) := by
  constructor
  · exact cut_lawful irq
  · rfl
  · rfl
  · exact (slot_zero 32768 _).symm
  · rfl
  · rfl
  · rfl
  · rfl
  · rfl
  · rfl
  · intro i hi
    omega

/-- One request too many is written over the first one. -/
theorem Flooded.overrun {most : ℕ} {s s₀ : State ℕ P} (h : Flooded most 32769 s)
    (hr : Transition.Reach Step s₀ s) :
    ∃ s', Transition.Reach Step s₀ s' ∧ ¬ s'.taken <+: s'.sent := by
  have hround : slot 32768 s.tx.message_size 32768 = 0 := by
    unfold slot
    rw [Nat.mod_self, Nat.zero_mul]
  have hlast := h.last 32768 rfl
  rw [hround, ← h.devHead] at hlast
  have hahead : s.csrTail ≠ s.devHead := by
    rw [h.csrTail, h.tail, h.devHead, h.size]
    decide
  have hstep : Step s .fetch (s.fetch 32768) := ⟨hahead, 32768, hlast, rfl⟩
  refine ⟨_, .tail hr hstep trivial, fun hpre => ?_⟩
  have htaken : (s.fetch 32768).taken = [32768] := by
    simp only [State.fetch, h.taken, List.nil_append]
  have hsent : (s.fetch 32768).sent = List.range 32769 := h.sent
  rw [htaken, hsent] at hpre
  have hget := hpre.getElem (i := 0) Nat.one_pos
  simp at hget

/-- The rings of a compression instance pass every request on in order, in every
interleaving, if and only if the number of messages configured is not the greatest that
the configuration accepts: the request ring is cut to 4M then, its limit is not. -/
theorem dc_requests_in_order_iff {n : ℕ} (hn : validateConcurrRequest n = CpaStatus.success)
    (irq : Bool) :
    (∀ s : State ℕ P, Reachable (adfInitRing n DC_REQ_SIZE irq) (adfInitRing n DC_RESP_SIZE irq) s →
      s.taken <+: s.sent) ↔ n ≤ 32768 := by
  obtain ⟨hpos, hle⟩ := validateConcurrRequest_eq hn
  constructor
  · intro hall
    obtain hle | rfl := hle
    · exact hle
    · obtain ⟨s, hs, hr⟩ := flooded (flooded_start irq) (by decide) 32769 (by decide)
      obtain ⟨s', hr', hno⟩ := hs.overrun hr
      exact absurd (hall s' hr') hno
  · intro hle s hr
    exact (hr.inv ((dc_instance hpos hle).fresh irq)).requests.order

theorem dc_requests_in_order_4096 : validateConcurrRequest 4096 = CpaStatus.success ∧
    ((∀ s : State ℕ Unit,
      Reachable (adfInitRing 4096 DC_REQ_SIZE false) (adfInitRing 4096 DC_RESP_SIZE false) s →
        s.taken <+: s.sent) ↔ 4096 ≤ 32768) := by
  have hn : validateConcurrRequest 4096 = CpaStatus.success := by decide
  exact ⟨hn, dc_requests_in_order_iff hn false⟩

end Transport
end QatDcSample

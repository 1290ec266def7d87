import QatDcSample.Transport
import Mathlib.Data.List.Perm.Basic

/-!
# What holds of the transport rings in every interleaving

The invariant is in three parts: the request ring, the response ring, and the count that
ties the two together and keeps each ring from being written over.
-/

namespace QatDcSample
namespace Transport

open Ring

variable {M P : Type}

/-- A ring of `n` slots. -/
structure RingHandle.Lawful (ring : RingHandle) (n : ℕ) : Prop where
  slots : 0 < n
  size : 0 < ring.message_size
  wraps : ∀ offset, Transport.modulo offset ring.modulo = offset % (n * ring.message_size)

theorem RingHandle.Lawful.advance {ring : RingHandle} {n : ℕ} (h : ring.Lawful n) (i : ℕ) :
    ring.advance (slot n ring.message_size i) = slot n ring.message_size (i + 1) := by
  rw [RingHandle.advance, h.wraps, slot_succ h.slots]

theorem length_snoc {α : Type} (l : List α) (x : α) : (l ++ [x]).length = l.length + 1 := by
  rw [List.length_append, List.length_singleton]

/-! ### The request ring -/

structure Requests (n : ℕ) (tx : RingHandle) (txMem : ℕ → Option M) (put : Option (Put M))
    (csrTail devHead : ℕ) (sent taken : List M) : Prop where
  lawful : tx.Lawful n
  word : tx.message_size = ADF_MSG_SIZE_64_BYTES ∨ tx.message_size = ADF_MSG_SIZE_128_BYTES
  tail : tx.tail = slot n tx.message_size sent.length
  csrTail : csrTail = tx.tail
  devHead : devHead = slot n tx.message_size taken.length
  order : taken <+: sent
  window : Window n tx.message_size txMem sent taken.length
  copied : ∀ m, put = some (.copied m) → txMem tx.tail = some m
  seq : tx.send_seq = sent.length % UInt64.size

section
variable {n : ℕ} {tx : RingHandle} {txMem : ℕ → Option M} {put put' : Option (Put M)}
  {csrTail devHead : ℕ} {sent taken : List M}

theorem Requests.leave (h : Requests n tx txMem put csrTail devHead sent taken)
    (hput : ∀ m, put' ≠ some (.copied m)) : Requests n tx txMem put' csrTail devHead sent taken :=
  { h with copied := fun m hm => absurd hm (hput m) }

/-- The message is copied to a slot that no request waits in. -/
theorem Requests.copy (h : Requests n tx txMem put csrTail devHead sent taken)
    (hroom : sent.length < taken.length + n) (m : M) :
    Requests n tx (Function.update txMem tx.tail (some m)) (some (.copied m)) csrTail devHead sent
      taken := by
  constructor
  · exact h.lawful
  · exact h.word
  · exact h.tail
  · exact h.csrTail
  · exact h.devHead
  · exact h.order
  · rw [h.tail]
    exact h.window.ahead h.lawful.size hroom (some m)
  · intro m' hm'
    cases hm'
    rw [Function.update_self]
  · exact h.seq

/-- The tail written to the device is what makes a request sent. -/
theorem Requests.publish {m : M}
    (h : Requests n tx txMem (some (.copied m)) csrTail devHead sent taken) :
    Requests n { tx with
      tail := tx.advance tx.tail
      csrTailOffset := tx.advance tx.tail
      send_seq := (tx.send_seq + 1) % UInt64.size } txMem none (tx.advance tx.tail) devHead
      (sent ++ [m]) taken := by
  have hm := h.copied m rfl
  have hlen := length_snoc sent m
  constructor
  · exact ⟨h.lawful.slots, h.lawful.size, h.lawful.wraps⟩
  · exact h.word
  · rw [h.tail, hlen]
    exact h.lawful.advance sent.length
  · rfl
  · exact h.devHead
  · exact h.order.trans (List.prefix_append sent [m])
  · rw [h.tail] at hm
    exact h.window.publish hm
  · intro m' hm'
    cases hm'
  · rw [h.seq, hlen, Nat.mod_add_mod]

/-- What the device takes is the oldest request it has not taken yet. -/
theorem Requests.fetch (h : Requests n tx txMem put csrTail devHead sent taken)
    (hahead : csrTail ≠ devHead) {m : M} (hm : txMem devHead = some m) :
    Requests n tx txMem put csrTail (tx.advance devHead) sent (taken ++ [m]) ∧
      taken.length < sent.length := by
  have hlt : taken.length < sent.length := by
    apply Nat.lt_of_le_of_ne h.order.length_le
    intro he
    apply hahead
    rw [h.csrTail, h.tail, h.devHead, he]
  have hnext := h.window.head hlt
  rw [← h.devHead, hm, Option.some.injEq] at hnext
  have horder : taken ++ [m] <+: sent := by
    obtain ⟨rest, hrest⟩ := h.order
    subst hrest
    rw [List.getElem_append_right (Nat.le_refl _)] at hnext
    cases rest with
    | nil => simp at hlt
    | cons x rest =>
      simp only [Nat.sub_self, List.getElem_cons_zero] at hnext
      subst hnext
      exact ⟨rest, by simp⟩
  refine ⟨⟨h.lawful, h.word, h.tail, h.csrTail, ?_, horder, ?_, h.copied, h.seq⟩, hlt⟩
  · rw [h.devHead, length_snoc]
    exact h.lawful.advance taken.length
  · rw [length_snoc]
    exact h.window.take

end

/-! ### The response ring -/

/-- How far a thread that polls is behind: the message its callback has seen and that it
has not marked, has not passed, and the messages it has not deducted. -/
def Poll.unmarked (p : Poll) : ℕ :=
  match p.phase with
  | .mark => 1
  | _ => 0

def Poll.behind (p : Poll) : ℕ :=
  match p.phase with
  | .mark | .advance => 1
  | _ => 0

def Poll.handled (p : Poll) : ℕ := p.msg_counter + p.behind

def Poll.owed (p : Poll) : ℕ :=
  match p.phase with
  | .report => 0
  | _ => p.handled

def total (f : Poll → ℕ) : List Poll → ℕ
  | [] => 0
  | p :: polls => f p + total f polls

@[simp] theorem total_nil (f : Poll → ℕ) : total f [] = 0 := rfl

@[simp] theorem total_single (f : Poll → ℕ) (p : Poll) : total f [p] = f p := by
  simp [total]

/-- The response ring with the messages read, those marked empty and those whose head was
written to the device counted. -/
structure Responses (k : ℕ) (rx : RingHandle) (rxMem : ℕ → Option (Response M P))
    (pollingInProgress : ℤ) (polls : List Poll) (devTail csrHead : ℕ)
    (written delivered : List (Response M P)) (read cleared reported : ℕ) : Prop where
  lawful : rx.Lawful k
  one : polls = [] ∧ pollingInProgress = 1 ∨ (∃ p, polls = [p]) ∧ pollingInProgress ≤ 0
  devTail : devTail = slot k rx.message_size written.length
  order : delivered <+: written
  head : rx.head = slot k rx.message_size read
  passed : read + total Poll.behind polls = delivered.length
  marked : cleared + total Poll.unmarked polls = delivered.length
  window : Window k rx.message_size rxMem written cleared
  clear : Clear k rx.message_size rxMem written cleared
  round : written.length ≤ cleared + k
  csrHead : csrHead = slot k rx.message_size reported
  lag : delivered.length + rx.coal_write_count ≤
    reported + total Poll.handled polls + rx.min_resps_per_head_write
  told : reported + total Poll.handled polls ≤ delivered.length
  half : 2 * rx.min_resps_per_head_write ≤ k

/-- The clauses of the invariant that count, with one thread polling. -/
structure Polled (p : Poll) (coal min delivered read cleared reported : ℕ) : Prop where
  passed : read + p.behind = delivered
  marked : cleared + p.unmarked = delivered
  lag : delivered + coal ≤ reported + p.handled + min
  told : reported + p.handled ≤ delivered

section
variable {k : ℕ} {rx : RingHandle} {rxMem : ℕ → Option (Response M P)} {pollingInProgress : ℤ}
  {polls : List Poll} {p p' : Poll} {devTail csrHead : ℕ} {written delivered : List (Response M P)}
  {read cleared reported : ℕ}

theorem Responses.polled
    (h : Responses k rx rxMem pollingInProgress [p] devTail csrHead written delivered read cleared
      reported) :
    pollingInProgress ≤ 0 ∧ Polled p rx.coal_write_count rx.min_resps_per_head_write
      delivered.length read cleared reported := by
  constructor
  · obtain ⟨hno, _⟩ | ⟨_, hle⟩ := h.one
    · cases hno
    · exact hle
  · have hp := h.passed
    have hm := h.marked
    have hl := h.lag
    have ht := h.told
    rw [total_single] at hp hm hl ht
    exact ⟨hp, hm, hl, ht⟩

theorem Responses.lawful_congr {rx' : RingHandle} (hl : rx.Lawful k)
    (hsize : rx'.message_size = rx.message_size) (hmod : rx'.modulo = rx.modulo) :
    rx'.Lawful k := by
  constructor
  · exact hl.slots
  · rw [hsize]
    exact hl.size
  · rw [hsize, hmod]
    exact hl.wraps

/-- A step of the thread that leaves the ring as it is. -/
theorem Responses.moves
    (h : Responses k rx rxMem pollingInProgress [p] devTail csrHead written delivered read cleared
      reported)
    (hp : Polled p' rx.coal_write_count rx.min_resps_per_head_write delivered.length read cleared
      reported) :
    Responses k rx rxMem pollingInProgress [p'] devTail csrHead written delivered read cleared
      reported := by
  have hle := h.polled.1
  exact { h with
    one := .inr ⟨⟨p', rfl⟩, hle⟩
    passed := by rw [total_single]; exact hp.passed
    marked := by rw [total_single]; exact hp.marked
    lag := by rw [total_single]; exact hp.lag
    told := by rw [total_single]; exact hp.told }

theorem Responses.start
    (h : Responses k rx rxMem pollingInProgress polls devTail csrHead written delivered read
      cleared reported)
    (hwon : pollingInProgress - 1 = 0) (response_quota : ℕ) :
    polls = [] ∧ Responses k rx rxMem (pollingInProgress - 1) [⟨.test, 0, response_quota⟩] devTail
      csrHead written delivered read cleared reported := by
  obtain ⟨hnil, _⟩ | ⟨_, hle⟩ := h.one
  · subst hnil
    exact ⟨rfl, { h with one := .inr ⟨⟨_, rfl⟩, by omega⟩ }⟩
  · omega

theorem Responses.busy
    (h : Responses k rx rxMem pollingInProgress polls devTail csrHead written delivered read
      cleared reported)
    (hlost : pollingInProgress - 1 ≠ 0) :
    Responses k rx rxMem (pollingInProgress - 1) polls devTail csrHead written delivered read
      cleared reported := by
  refine { h with one := ?_ }
  obtain ⟨_, hone⟩ | ⟨hp, hle⟩ := h.one
  · omega
  · exact .inr ⟨hp, by omega⟩

/-- A message at the head is the oldest response not delivered yet. -/
theorem Responses.oldest {msg : Response M P}
    (h : Responses k rx rxMem pollingInProgress [p] devTail csrHead written delivered read cleared
      reported)
    (hp : p.phase = .test) (hmsg : rxMem rx.head = some msg) :
    delivered ++ [msg] <+: written := by
  obtain ⟨hr, hc, _, _⟩ := h.polled.2
  simp only [Poll.behind, Poll.unmarked, hp, Nat.add_zero] at hr hc
  subst hr
  have hk := h.lawful.slots
  have hlt : delivered.length < written.length := by
    by_contra hge
    have hnone := h.clear delivered.length (by omega) (by omega)
    rw [← h.head, hmsg] at hnone
    cases hnone
  have hwin := h.window delivered.length (by omega) hlt
  rw [← h.head, hmsg] at hwin
  obtain ⟨rest, hrest⟩ := h.order
  subst hrest
  rw [List.getElem?_append_right (Nat.le_refl _), Nat.sub_self] at hwin
  cases rest with
  | nil => cases hwin
  | cons x rest =>
    cases hwin
    exact ⟨rest, by simp⟩

theorem Responses.callback {msg : Response M P}
    (h : Responses k rx rxMem pollingInProgress [p] devTail csrHead written delivered read cleared
      reported)
    (hp : p.phase = .test) (hmsg : rxMem rx.head = some msg) :
    Responses k rx rxMem pollingInProgress [{ p with phase := .mark }] devTail csrHead written
      (delivered ++ [msg]) read cleared reported := by
  obtain ⟨hle, hr, hc, hl, ht⟩ := h.polled
  simp only [Poll.behind, Poll.unmarked, Poll.handled, hp] at hr hc hl ht
  exact { h with
    one := .inr ⟨⟨_, rfl⟩, hle⟩
    order := h.oldest hp hmsg
    passed := by simp only [length_snoc, total_single, Poll.behind]; omega
    marked := by simp only [length_snoc, total_single, Poll.unmarked]; omega
    lag := by simp only [length_snoc, total_single, Poll.handled, Poll.behind]; omega
    told := by simp only [length_snoc, total_single, Poll.handled, Poll.behind]; omega }

theorem Responses.mark
    (h : Responses k rx rxMem pollingInProgress [p] devTail csrHead written delivered read cleared
      reported)
    (hp : p.phase = .mark) :
    Responses k rx (Function.update rxMem rx.head none) pollingInProgress
      [{ p with phase := .advance }] devTail csrHead written delivered read (cleared + 1)
      reported := by
  obtain ⟨hle, hr, hc, hl, ht⟩ := h.polled
  simp only [Poll.behind, Poll.unmarked, Poll.handled, hp] at hr hc hl ht
  have hround := h.round
  have hsame : rx.head = slot k rx.message_size cleared := by
    have he : read = cleared := by omega
    rw [h.head, he]
  have hwindow : Window k rx.message_size (Function.update rxMem rx.head none) written
      (cleared + 1) := by
    rw [hsame]
    exact h.window.take.mark h.lawful.size hround none
  have hclear : Clear k rx.message_size (Function.update rxMem rx.head none) written
      (cleared + 1) := by
    rw [hsame]
    exact h.clear.mark
  exact { h with
    one := .inr ⟨⟨_, rfl⟩, hle⟩
    passed := by simp only [total_single, Poll.behind]; omega
    marked := by simp only [total_single, Poll.unmarked]; omega
    window := hwindow
    clear := hclear
    round := by omega
    lag := by simp only [total_single, Poll.handled, Poll.behind]; omega
    told := by simp only [total_single, Poll.handled, Poll.behind]; omega }

theorem Responses.advance
    (h : Responses k rx rxMem pollingInProgress [p] devTail csrHead written delivered read cleared
      reported)
    (hp : p.phase = .advance) :
    Responses k { rx with head := rx.advance rx.head } rxMem pollingInProgress
      [{ p with phase := .test, msg_counter := p.msg_counter + 1 }] devTail csrHead written
      delivered (read + 1) cleared reported := by
  obtain ⟨hle, hr, hc, hl, ht⟩ := h.polled
  simp only [Poll.behind, Poll.unmarked, Poll.handled, hp] at hr hc hl ht
  exact { h with
    lawful := Responses.lawful_congr h.lawful rfl rfl
    one := .inr ⟨⟨_, rfl⟩, hle⟩
    head := by rw [h.head]; exact h.lawful.advance read
    passed := by simp only [total_single, Poll.behind]; omega
    marked := by simp only [total_single, Poll.unmarked]; omega
    lag := by simp only [total_single, Poll.handled, Poll.behind]; omega
    told := by simp only [total_single, Poll.handled, Poll.behind]; omega }

/-- The thread returns without a message seen. -/
theorem Responses.idle
    (h : Responses k rx rxMem pollingInProgress [p] devTail csrHead written delivered read cleared
      reported)
    (hp : p.phase = .settle) (hz : p.msg_counter = 0) :
    Responses k rx rxMem 1 [] devTail csrHead written delivered read cleared reported := by
  obtain ⟨_, hr, hc, hl, ht⟩ := h.polled
  simp only [Poll.behind, Poll.unmarked, Poll.handled, hp, hz] at hr hc hl ht
  exact { h with one := .inl ⟨rfl, rfl⟩, passed := hr, marked := hc, lag := hl, told := ht }

/-- The head is written to the device. -/
theorem Responses.report
    (h : Responses k rx rxMem pollingInProgress [p] devTail csrHead written delivered read cleared
      reported)
    (hp : p.phase = .report) :
    Responses k { rx with coal_write_count := rx.min_resps_per_head_write } rxMem 1 [] devTail
      rx.head written delivered read cleared read := by
  obtain ⟨_, hr, hc, _, _⟩ := h.polled
  simp only [Poll.behind, Poll.unmarked, hp] at hr hc
  exact { h with
    lawful := Responses.lawful_congr h.lawful rfl rfl
    one := .inl ⟨rfl, rfl⟩
    passed := hr
    marked := hc
    csrHead := h.head
    lag := by simp only [total_nil]; omega
    told := by simp only [total_nil]; omega }

/-- The head is kept for a later poll. -/
theorem Responses.coalesce
    (h : Responses k rx rxMem pollingInProgress [p] devTail csrHead written delivered read cleared
      reported)
    (hp : p.phase = .report) (hle : p.msg_counter ≤ rx.coal_write_count) :
    Responses k { rx with coal_write_count := rx.coal_write_count - p.msg_counter } rxMem 1 []
      devTail csrHead written delivered read cleared reported := by
  obtain ⟨_, hr, hc, hl, ht⟩ := h.polled
  simp only [Poll.behind, Poll.unmarked, Poll.handled, hp] at hr hc hl ht
  exact { h with
    lawful := Responses.lawful_congr h.lawful rfl rfl
    one := .inl ⟨rfl, rfl⟩
    passed := hr
    marked := hc
    lag := by simp only [total_nil]; omega
    told := by simp only [total_nil]; omega }

/-- A response is written where no response waits. -/
theorem Responses.respond
    (h : Responses k rx rxMem pollingInProgress polls devTail csrHead written delivered read
      cleared reported)
    (hroom : written.length < cleared + k) (r : Response M P) :
    Responses k rx (Function.update rxMem devTail (some r)) pollingInProgress polls
      (rx.advance devTail) csrHead (written ++ [r]) delivered read cleared reported := by
  have hc := h.marked
  have hle := h.order.length_le
  have hsize := h.lawful.size
  have htail := h.devTail
  exact { h with
    devTail := by rw [htail, length_snoc]; exact h.lawful.advance written.length
    order := h.order.trans (List.prefix_append written [r])
    window := by rw [htail]; exact h.window.push hsize hroom r
    clear := by rw [htail]; exact h.clear.push hsize (by omega) r
    round := by rw [length_snoc]; exact hroom }

end

/-! ### The count -/

/-- A producer that was counted holds one of the requests in flight, also one that is
about to be refused. -/
def reserved : Option (Put M) → ℕ
  | none => 0
  | some _ => 1

def refused : Option (Put M) → ℕ
  | some .full => 1
  | _ => 0

theorem refused_le (put : Option (Put M)) : refused put ≤ reserved put := by
  cases put with
  | none => exact Nat.le_refl 0
  | some phase =>
    cases phase with
    | full => exact Nat.le_refl 1
    | counted _ => exact Nat.zero_le 1
    | copied _ => exact Nat.zero_le 1

/-- Every request sent is in the request ring, in the device or answered, once, and
`in_flight` counts those whose response was not deducted. -/
structure Count (most in_flight : ℕ) (put : Option (Put M)) (polls : List Poll)
    (engine sent taken : List M) (written delivered : List (Response M P)) : Prop where
  wide : most + 1 < UInt32.size
  once : taken.Perm (engine ++ written.map Response.request)
  exact : in_flight + taken.length + delivered.length =
    sent.length + engine.length + written.length + reserved put + total Poll.owed polls
  bound : in_flight ≤ most + refused put

/-- The three parts together; `most` requests can be in flight, and neither ring is as
short as that. -/
structure Inv (most n k : ℕ) (s : State M P) : Prop where
  limit : s.tx.max_requests_inflight = most
  txRoom : most < n
  rxRoom : most < k
  requests : Requests n s.tx s.txMem s.put s.csrTail s.devHead s.sent s.taken
  responses : ∃ read cleared reported, Responses k s.rx s.rxMem s.pollingInProgress s.polls
    s.devTail s.csrHead s.written s.delivered read cleared reported
  count : Count most s.in_flight s.put s.polls s.engine s.sent s.taken s.written s.delivered

theorem add32_of_lt {x y : ℕ} (h : x + y < UInt32.size) : add32 x y = x + y :=
  Nat.mod_eq_of_lt h

theorem sub32_of_le {x y : ℕ} (h : y ≤ x) (hx : x < UInt32.size) : sub32 x y = x - y := by
  unfold sub32
  have he : x + (UInt32.size - y) = x - y + UInt32.size := by omega
  rw [he, Nat.add_mod_right, Nat.mod_eq_of_lt (by omega)]

section
variable {most n k : ℕ} {s : State M P}

theorem Inv.lengths (h : Inv most n k s) :
    s.taken.length ≤ s.sent.length ∧ s.delivered.length ≤ s.written.length := by
  obtain ⟨_, _, _, hr⟩ := h.responses
  exact ⟨h.requests.order.length_le, hr.order.length_le⟩

/-- The count cannot wrap. -/
theorem Inv.narrow (h : Inv most n k s) : s.in_flight < UInt32.size := by
  have hw := h.count.wide
  have hb := h.count.bound
  have hle : refused s.put ≤ 1 := by
    cases hput : s.put with
    | none => exact Nat.zero_le 1
    | some phase => exact refused_le (some phase)
  omega

theorem Inv.submit (h : Inv most n k s) (hput : s.put = none) (inBuf : M) :
    Inv most n k (s.putStart inBuf) := by
  obtain ⟨hwide, honce, hexact, hbound⟩ := h.count
  rw [hput] at hexact hbound
  simp only [reserved, refused] at hexact hbound
  have hadd : add32 s.in_flight 1 = s.in_flight + 1 := add32_of_lt (by omega)
  unfold State.putStart
  dsimp only
  rw [hadd, h.limit]
  by_cases hfull : s.in_flight + 1 > most
  · rw [if_pos hfull]
    refine ⟨h.limit, h.txRoom, h.rxRoom, ?_, h.responses, hwide, honce, ?_, ?_⟩
    · exact h.requests.leave fun m hm => by cases hm
    · simp only [reserved]
      omega
    · simp only [refused]
      omega
  · rw [if_neg hfull]
    refine ⟨h.limit, h.txRoom, h.rxRoom, ?_, h.responses, hwide, honce, ?_, ?_⟩
    · exact h.requests.leave fun m hm => by cases hm
    · simp only [reserved]
      omega
    · simp only [refused]
      omega

theorem Inv.put (h : Inv most n k s) {phase : Put M} (hput : s.put = some phase) :
    Inv most n k (s.putStep phase).2 := by
  obtain ⟨htaken, hdelivered⟩ := h.lengths
  have hnarrow := h.narrow
  obtain ⟨hwide, honce, hexact, hbound⟩ := h.count
  rw [hput] at hexact hbound
  cases phase with
  | full =>
    simp only [reserved, refused] at hexact hbound
    have hsub : sub32 s.in_flight 1 = s.in_flight - 1 := sub32_of_le (by omega) hnarrow
    simp only [State.putStep, hsub]
    refine ⟨h.limit, h.txRoom, h.rxRoom, ?_, h.responses, hwide, honce, ?_, ?_⟩
    · exact h.requests.leave fun m hm => by cases hm
    · simp only [reserved]
      omega
    · simp only [refused]
      omega
  | counted inBuf =>
    simp only [reserved, refused] at hexact hbound
    have htx := h.txRoom
    simp only [State.putStep, if_pos h.requests.word]
    refine ⟨h.limit, h.txRoom, h.rxRoom, ?_, h.responses, hwide, honce, ?_, ?_⟩
    · exact h.requests.copy (by omega) inBuf
    · exact hexact
    · exact hbound
  | copied inBuf =>
    simp only [reserved, refused] at hexact hbound
    have hreq := h.requests
    rw [hput] at hreq
    simp only [State.putStep]
    refine ⟨h.limit, h.txRoom, h.rxRoom, ?_, h.responses, hwide, honce, ?_, ?_⟩
    · exact hreq.publish
    · simp only [reserved, length_snoc]
      omega
    · exact hbound

theorem Inv.poll (h : Inv most n k s) (response_quota : ℕ) :
    Inv most n k (s.pollStart response_quota) := by
  obtain ⟨read, cleared, reported, hr⟩ := h.responses
  unfold State.pollStart
  dsimp only
  split
  · next hwon =>
    obtain ⟨hnil, hstart⟩ := hr.start hwon
      (if response_quota ≠ 0 then response_quota else ICP_NO_RESPONSE_QUOTA)
    obtain ⟨hwide, honce, hexact, hbound⟩ := h.count
    rw [hnil] at hexact
    simp only [hnil, List.nil_append]
    refine ⟨h.limit, h.txRoom, h.rxRoom, h.requests, ⟨_, _, _, hstart⟩, hwide, honce, ?_, hbound⟩
    simp only [total_single, Poll.owed, Poll.handled, Poll.behind]
    exact hexact
  · next hlost =>
    exact ⟨h.limit, h.txRoom, h.rxRoom, h.requests, ⟨_, _, _, hr.busy hlost⟩, h.count⟩

/-- What the thread that polls does to the count. -/
theorem Inv.deduct (h : Inv most n k s) {p : Poll} (hp : s.polls = [p]) :
    p.owed ≤ s.in_flight := by
  obtain ⟨htaken, hdelivered⟩ := h.lengths
  have hexact := h.count.exact
  rw [hp, total_single] at hexact
  omega

theorem Inv.notify (h : Inv most n k s) {p : Poll} (hp : s.polls = [p]) :
    Inv most n k { (s.pollStep p).2 with polls := (s.pollStep p).1.toList } := by
  have hnarrow := h.narrow
  have howed := h.deduct hp
  obtain ⟨read, cleared, reported, hr⟩ := h.responses
  obtain ⟨hwide, honce, hexact, hbound⟩ := h.count
  rw [hp] at hr hexact
  rw [total_single] at hexact
  obtain ⟨phase, msg_counter, response_quota⟩ := p
  cases phase with
  | test =>
    have hsettle : Polled ⟨.settle, msg_counter, response_quota⟩ s.rx.coal_write_count
        s.rx.min_resps_per_head_write s.delivered.length read cleared reported := by
      obtain ⟨hpass, hmark, hlag, htold⟩ := hr.polled.2
      exact ⟨hpass, hmark, hlag, htold⟩
    cases hmem : s.rxMem s.rx.head with
    | none =>
      simp only [State.pollStep, hmem, Option.toList_some]
      exact ⟨h.limit, h.txRoom, h.rxRoom, h.requests, ⟨_, _, _, hr.moves hsettle⟩, hwide, honce,
        by rw [total_single]; exact hexact, hbound⟩
    | some msg =>
      simp only [State.pollStep, hmem]
      split
      · refine ⟨h.limit, h.txRoom, h.rxRoom, h.requests, ⟨_, _, _, hr.callback rfl hmem⟩, hwide,
          honce, ?_, hbound⟩
        simp only [Option.toList_some, total_single, length_snoc, Poll.owed, Poll.handled,
          Poll.behind] at hexact ⊢
        omega
      · exact ⟨h.limit, h.txRoom, h.rxRoom, h.requests, ⟨_, _, _, hr.moves hsettle⟩, hwide, honce,
          by rw [Option.toList_some, total_single]; exact hexact, hbound⟩
  | mark =>
    simp only [State.pollStep, Option.toList_some]
    exact ⟨h.limit, h.txRoom, h.rxRoom, h.requests, ⟨_, _, _, hr.mark rfl⟩, hwide, honce,
      by rw [total_single]; exact hexact, hbound⟩
  | advance =>
    simp only [State.pollStep, Option.toList_some]
    exact ⟨h.limit, h.txRoom, h.rxRoom, h.requests, ⟨_, _, _, hr.advance rfl⟩, hwide, honce,
      by rw [total_single]; exact hexact, hbound⟩
  | settle =>
    simp only [Poll.owed, Poll.handled, Poll.behind, Nat.add_zero] at howed hexact
    simp only [State.pollStep]
    split
    · have hsub : sub32 s.in_flight msg_counter = s.in_flight - msg_counter :=
        sub32_of_le howed hnarrow
      have hreport : Polled ⟨.report, msg_counter, response_quota⟩ s.rx.coal_write_count
          s.rx.min_resps_per_head_write s.delivered.length read cleared reported := by
        obtain ⟨hpass, hmark, hlag, htold⟩ := hr.polled.2
        exact ⟨hpass, hmark, hlag, htold⟩
      simp only [hsub, Option.toList_some]
      refine ⟨h.limit, h.txRoom, h.rxRoom, h.requests, ⟨_, _, _, hr.moves hreport⟩, hwide, honce,
        ?_, ?_⟩
      · simp only [total_single, Poll.owed]
        omega
      · dsimp only
        omega
    · have hz : msg_counter = 0 := by omega
      refine ⟨h.limit, h.txRoom, h.rxRoom, h.requests, ⟨_, _, _, hr.idle rfl hz⟩, hwide, honce,
        ?_, hbound⟩
      simp only [Option.toList_none, total_nil]
      omega
  | report =>
    simp only [State.pollStep]
    split
    · exact ⟨h.limit, h.txRoom, h.rxRoom, h.requests, ⟨_, _, _, hr.report rfl⟩, hwide, honce,
        hexact, hbound⟩
    · next hno =>
      have hle : msg_counter ≤ s.rx.coal_write_count := by omega
      exact ⟨h.limit, h.txRoom, h.rxRoom, h.requests, ⟨_, _, _, hr.coalesce rfl hle⟩, hwide, honce,
        hexact, hbound⟩

theorem Inv.fetch (h : Inv most n k s) (hahead : s.csrTail ≠ s.devHead) {m : M}
    (hm : s.txMem s.devHead = some m) : Inv most n k (s.fetch m) := by
  obtain ⟨hreq, hlt⟩ := h.requests.fetch hahead hm
  obtain ⟨hwide, honce, hexact, hbound⟩ := h.count
  refine ⟨h.limit, h.txRoom, h.rxRoom, hreq, h.responses, hwide, ?_, ?_, hbound⟩
  · simp only [State.fetch, List.append_assoc]
    apply (honce.append_right [m]).trans
    rw [List.append_assoc]
    exact (List.perm_append_comm).append_left s.engine
  · simp only [State.fetch, length_snoc]
    omega

theorem Inv.respond (h : Inv most n k s) {before after : List M} {r : Response M P}
    (hengine : s.engine = before ++ r.request :: after) :
    Inv most n k (s.respond (before ++ after) r) := by
  obtain ⟨htaken, hdelivered⟩ := h.lengths
  obtain ⟨read, cleared, reported, hr⟩ := h.responses
  obtain ⟨hwide, honce, hexact, hbound⟩ := h.count
  have hlen : s.engine.length = (before ++ after).length + 1 := by
    rw [hengine, List.length_append, List.length_append, List.length_cons]
    omega
  have hrefused := refused_le s.put
  have hroom : s.written.length < cleared + k := by
    have hmarked := hr.marked
    have hrx := h.rxRoom
    have howed : total Poll.unmarked s.polls ≤ total Poll.owed s.polls := by
      obtain ⟨hnil, _⟩ | ⟨⟨p, hp⟩, _⟩ := hr.one
      · rw [hnil]
        exact Nat.le_refl 0
      · rw [hp, total_single, total_single]
        obtain ⟨phase, c, q⟩ := p
        cases phase <;> simp [Poll.unmarked, Poll.owed, Poll.handled, Poll.behind]
    omega
  refine ⟨h.limit, h.txRoom, h.rxRoom, h.requests, ⟨_, _, _, hr.respond hroom r⟩, hwide, ?_, ?_,
    hbound⟩
  · simp only [State.respond, List.map_append, List.map_cons, List.map_nil]
    apply honce.trans
    rw [hengine, List.append_assoc, List.append_assoc, List.cons_append]
    apply List.Perm.append_left
    rw [← List.append_assoc]
    exact (List.perm_append_singleton _ _).symm
  · simp only [State.respond, length_snoc]
    omega

end

end Transport
end QatDcSample

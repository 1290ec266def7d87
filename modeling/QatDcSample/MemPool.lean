import QatDcSample.Cpa
import QatDcSample.Lib.Transition
import QatDcSample.Lib.LinkedList

/-!
# The memory pools of the driver

A pool keeps its free blocks on a stack that threads push and pop without a lock: the top
is a counter with a pointer, both replaced by one compare-and-swap. What the threads share
is read and written in steps of their own, the two words of the top too, in the order of
their addresses: nothing makes that load one access. `W` is where the counter wraps.
-/

namespace QatDcSample
namespace MemPool

/-- `pointer_t` -/
structure Top (B : Type) where
  ctr : ℕ
  ptr : Option B

/-- Where a thread is in `Lac_MemPoolEntryAlloc`, with `pop`, or in `Lac_MemPoolEntryFree`,
with `push`. `since` is no variable of the program: the swaps done when it loaded `ctr`. -/
inductive Phase (B : Type) where
  | idle
  | popLoad
  | popPtr (ctr since : ℕ)
  | popNext (ctr since : ℕ) (next : B)
  | popSwap (ctr since : ℕ) (next : B) (pNext : Option B)
  | popped (next : B)
  | claimed (next : B)
  | pushLoad (val : B)
  | pushPtr (val : B) (ctr since : ℕ)
  | pushLink (val : B) (ctr since : ℕ) (ptr : Option B)
  | pushSwap (val : B) (ctr since : ℕ) (ptr : Option B)
  | pushed (val : B)

/-- What a call did to the stack, at the step at which it did it. -/
inductive Op (B : Type) where
  | pop (b : B)
  | push (b : B)
  | empty

/-- The same calls one after the other. -/
def Op.apply [DecidableEq B] : Op B → List B → Option (List B)
  | .pop _, [] => none
  | .pop b, x :: l => if x = b then some l else none
  | .push b, l => some (b :: l)
  | .empty, l => if l.isEmpty then some l else none

def Op.replay [DecidableEq B] : List (Op B) → List B → Option (List B)
  | [], l => some l
  | op :: ops, l => (op.apply l).bind (replay ops)

inductive Answer (B : Type) where
  | retry
  | block (b : B)
  | freed

/-- A pool, the threads that use it and the blocks they were handed out. `swaps` and `ops`
are no variables of the program: they record what was done to the stack. -/
structure State (B : Type) where
  top : Top B
  pNext : B → Option B
  isInUse : B → Bool
  availBlks : ℕ
  active : Bool
  threads : List (Phase B)
  held : List B
  swaps : ℕ
  ops : List (Op B)

/-- `availBlks` is a `size_t`. -/
def add64 (n k : ℕ) : ℕ := (n + k) % UInt64.size

def sub64 (n k : ℕ) : ℕ := (n + (UInt64.size - k)) % UInt64.size

variable {B : Type} [DecidableEq B]

namespace State

/-- The compare-and-swap of the top: done only if it is what was loaded. -/
def swap (W : ℕ) (s : State B) (ctr : ℕ) (ptr new : Option B) (op : Op B) :
    Option (State B) :=
  if s.top.ctr = ctr ∧ s.top.ptr = ptr then
    some { s with
      top := ⟨(ctr + 1) % W, new⟩
      swaps := s.swaps + 1
      ops := s.ops ++ [op] }
  else none

/-- One step of a thread: what its call answers, if it returns, and where it is next. -/
def act (W : ℕ) (s : State B) : Phase B → Option (Answer B) × Phase B × State B
  | .idle => (none, .idle, s)
  | .popLoad => (none, .popPtr s.top.ctr s.swaps, s)
  | .popPtr ctr since =>
      match s.top.ptr with
      | none => (some .retry, .idle, { s with ops := s.ops ++ [.empty] })
      | some next => (none, .popNext ctr since next, s)
  | .popNext ctr since next => (none, .popSwap ctr since next (s.pNext next), s)
  | .popSwap ctr _ next pNext =>
      match s.swap W ctr (some next) pNext (.pop next) with
      | none => (none, .popLoad, s)
      | some s' => (none, .popped next, s')
  | .popped next => (none, .claimed next, { s with availBlks := sub64 s.availBlks 1 })
  | .claimed next =>
      (some (.block next), .idle, { s with
        isInUse := Function.update s.isInUse next true
        held := next :: s.held })
  | .pushLoad val => (none, .pushPtr val s.top.ctr s.swaps, s)
  | .pushPtr val ctr since => (none, .pushLink val ctr since s.top.ptr, s)
  | .pushLink val ctr since ptr =>
      (none, .pushSwap val ctr since ptr, { s with pNext := Function.update s.pNext val ptr })
  | .pushSwap val ctr _ ptr =>
      match s.swap W ctr ptr (some val) (.push val) with
      | none => (none, .pushLoad val, s)
      | some s' => (none, .pushed val, s')
  | .pushed _ => (some .freed, .idle, { s with availBlks := add64 s.availBlks 1 })

end State

inductive Event (B : Type) where
  | alloc
  | free (b : B)
  | act (answer : Option (Answer B))
  | active (active : Bool)

/-- A thread calls, or goes on; `active` is written by `Lac_MemPoolEnable` and
`Lac_MemPoolDisable`. A block is freed by who holds it. -/
def Step (W : ℕ) (s : State B) : Event B → State B → Prop
  | .alloc, s' => ∃ before after, s.threads = before ++ .idle :: after ∧
      s' = { s with
        threads := before ++ (if s.active = false then .idle else .popLoad) :: after }
  | .free b, s' => ∃ before after, s.threads = before ++ .idle :: after ∧ b ∈ s.held ∧
      s' = { s with
        held := s.held.erase b
        isInUse := Function.update s.isInUse b false
        threads := before ++ .pushLoad b :: after }
  | .act answer, s' => ∃ before phase after, s.threads = before ++ phase :: after ∧
      phase ≠ .idle ∧ (s.act W phase).1 = answer ∧
      s' = { (s.act W phase).2.2 with threads := before ++ (s.act W phase).2.1 :: after }
  | .active active, s' => s' = { s with active }

/-! ### A new pool -/

/-- `push` without another thread. -/
def State.pushFirst (W : ℕ) (s : State B) (val : B) : State B :=
  { s with
    top := ⟨(s.top.ctr + 1) % W, some val⟩
    pNext := Function.update s.pNext val s.top.ptr
    isInUse := Function.update s.isInUse val false
    availBlks := add64 s.availBlks 1
    swaps := s.swaps + 1
    ops := s.ops ++ [.push val] }

/-- `init_stack` in a pool with nothing in it. -/
def State.initStack (threads : ℕ) : State B where
  top := ⟨0, none⟩
  pNext := fun _ => none
  isInUse := fun _ => false
  availBlks := 0
  active := true
  threads := List.replicate threads .idle
  held := []
  swaps := 0
  ops := []

/-- `Lac_MemPoolCreate` of the blocks it allocated, for a number of threads. -/
def State.create (W threads : ℕ) (blocks : List B) : State B :=
  blocks.foldl (State.pushFirst W) (State.initStack threads)

end MemPool
end QatDcSample

import QatDcSample.System

/-!
# Blocks through a call

What a call leaves of a block: its owner and addresses always, its life unless
the call releases it; a released block does not come back.
-/

namespace QatDcSample
open BlockMemory

def Releases : Call → BlockId → Prop
  | .memFree _ b', b => b' = b
  | .leaveFrame b', b => b' = b
  | _, _ => False

theorem live_memAfter {t : Tid} {m : Mem} {c : Call} {r : c.Resp} {b : BlockId} (h : m.Live b)
    (hc : ¬ Releases c b) : (memAfter t m c r).Live b := by
  cases c <;> try exact h
  case memAlloc a n =>
    cases r with
    | none => exact h
    | some x => exact (m.live_alloc _ _ b).mpr (.inl h)
  case memFree a b' => exact (m.live_free b' b).mpr ⟨h, fun he => hc he.symm⟩
  case leaveFrame b' => exact (m.live_free b' b).mpr ⟨h, fun he => hc he.symm⟩
  case enterFrame => exact (m.live_alloc _ _ b).mpr (.inl h)
  case store p f v =>
    cases p with
    | none => exact h
    | some b' => exact (m.write_live b' b f v).mpr h

theorem not_live_memAfter {t : Tid} {m : Mem} {c : Call} {r : c.Resp} {b : BlockId}
    (h : b < m.next) (hd : ¬ m.Live b) : ¬ (memAfter t m c r).Live b := by
  have halloc : ∀ region : Region, ¬ (m.alloc t region).Live b := by
    intro region hl
    rcases (m.live_alloc t region b).mp hl with hl | rfl
    · exact hd hl
    · exact absurd h (Nat.lt_irrefl _)
  cases c <;> try exact hd
  case memAlloc a n =>
    cases r with
    | none => exact hd
    | some x => exact halloc _
  case enterFrame => exact halloc _
  case memFree a b' => exact fun hl => hd ((m.live_free b' b).mp hl).1
  case leaveFrame b' => exact fun hl => hd ((m.live_free b' b).mp hl).1
  case store p f v =>
    cases p with
    | none => exact hd
    | some b' => exact fun hl => hd ((m.write_live b' b f v).mp hl)

def AllocatedBy (m : Mem) (t : Tid) (b : BlockId) : Prop :=
  b < m.next ∧ (m.block b).owner = t

theorem block_memAfter (t : Tid) {m : Mem} (c : Call) (r : c.Resp) {b : BlockId}
    (h : b < m.next) : b < (memAfter t m c r).next ∧
      ((memAfter t m c r).block b).owner = (m.block b).owner ∧
      ((memAfter t m c r).block b).region = (m.block b).region := by
  cases c <;> try exact ⟨h, rfl, rfl⟩
  case memAlloc a n =>
    cases r with
    | none => exact ⟨h, rfl, rfl⟩
    | some x =>
      have hold := congrArg (fun x => (x.owner, x.region))
        (m.alloc_block_old t ⟨x.2, n⟩ h)
      exact ⟨Nat.lt_succ_of_lt h, congrArg Prod.fst hold, congrArg Prod.snd hold⟩
  case enterFrame =>
    have hold := congrArg (fun x => (x.owner, x.region))
      (m.alloc_block_old t ⟨r.2, memAfter.frameSize⟩ h)
    exact ⟨Nat.lt_succ_of_lt h, congrArg Prod.fst hold, congrArg Prod.snd hold⟩
  case memFree a b' => exact ⟨h, m.free_owner b' b, m.free_region b' b⟩
  case leaveFrame b' => exact ⟨h, m.free_owner b' b, m.free_region b' b⟩
  case store p f v =>
    cases p with
    | none => exact ⟨h, rfl, rfl⟩
    | some b' => exact ⟨h, m.write_owner b' b f v, m.write_region b' b f v⟩

theorem AllocatedBy.memAfter {m : Mem} {t : Tid} {b : BlockId} (h : AllocatedBy m t b) (t' : Tid)
    (c : Call) (r : c.Resp) : AllocatedBy (memAfter t' m c r) t b :=
  ⟨(block_memAfter t' c r h.1).1, (block_memAfter t' c r h.1).2.1.trans h.2⟩

theorem separated_memAfter {cfg : Cfg} {s : State} {t : Tid} {c : Call} {r : c.Resp}
    (h : s.world.mem.Separated) (ha : Allowed cfg s t c r) :
    (memAfter t s.world.mem c r).Separated := by
  cases c <;> try exact h
  case memAlloc a n =>
    cases r with
    | none => exact h
    | some x => exact Memory.separated_alloc h ha
  case enterFrame => exact Memory.separated_alloc h ha
  case memFree a b' => exact Memory.separated_free h b'
  case leaveFrame b' => exact Memory.separated_free h b'
  case store p f v =>
    cases p with
    | none => exact h
    | some b' => exact Memory.separated_write h b' f v

end QatDcSample

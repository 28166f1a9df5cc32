import CodeC.Library.BlockRecurrence

/-!
# The random number generator of `memory_reordering.cc`

The buffer holds one block of 624 words. `Integer` hands them out one by one and replaces the whole
block in place when it is used up. The memory of the object is given: what the constructor does not
write is arbitrary.
-/

namespace CodeC.MemoryReordering
open Library

/-- `MT_N` -/
def mtN : ℕ := 624

/-- `MT_M` -/
def mtM : ℕ := 397

structure MersenneTwister where
  buffer : ℕ → UInt32
  index : ℕ

/-- The word at `i` in the constructor, computed in `unsigned long` -/
def seedWord (b : ℕ → UInt32) (i : ℕ) : UInt32 :=
  ((1812433253 : UInt64) * (b (i - 1) ^^^ (b (i - 1) >>> 30)).toUInt64 + UInt64.ofNat i).toUInt32

/-- The constructor; `memory` is what the buffer holds before. -/
def mersenneTwister (memory : ℕ → UInt32) (seed : UInt32) : MersenneTwister :=
  ⟨assign seedWord 1 (mtN - 1) (Function.update memory 0 seed), mtN⟩

/-- `x` with the high bit of one word and the low bits of the next, shifted and reduced -/
def twist (a b : UInt32) : UInt32 :=
  let x := (a &&& 0x80000000) ||| (b &&& 0x7fffffff)
  (x >>> 1) ^^^ ((x &&& 1) * 0x9908b0df)

/-- The bodies of the two loops of `Integer` -/
def lowWord (b : ℕ → UInt32) (i : ℕ) : UInt32 := b (i + mtM) ^^^ twist (b i) (b (i + 1))

def highWord (b : ℕ → UInt32) (i : ℕ) : UInt32 := b (i + mtM - mtN) ^^^ twist (b i) (b (i + 1))

/-- The block that replaces a used one -/
def regenerate (b : ℕ → UInt32) : ℕ → UInt32 :=
  let b := assign lowWord 0 (mtN - mtM) b
  let b := assign highWord (mtN - mtM) (mtM - 1) b
  Function.update b (mtN - 1) (b (mtM - 1) ^^^ twist (b (mtN - 1)) (b 0))

def temper (y : UInt32) : UInt32 :=
  let y := y ^^^ (y >>> 11)
  let y := y ^^^ ((y <<< 7) &&& 0x9d2c5680)
  let y := y ^^^ ((y <<< 15) &&& 0xefc60000)
  y ^^^ (y >>> 18)

def MersenneTwister.integer (m : MersenneTwister) : UInt32 × MersenneTwister :=
  let m := if mtN ≤ m.index then ⟨regenerate m.buffer, 0⟩ else m
  (temper (m.buffer m.index), { m with index := m.index + 1 })

/-- The generator after `n` calls of `Integer` -/
def MersenneTwister.afterCalls (m : MersenneTwister) : ℕ → MersenneTwister
  | 0 => m
  | n + 1 => (m.afterCalls n).integer.2

end CodeC.MemoryReordering

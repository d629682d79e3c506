import Nexus.Wire.Binary

/-!
# Request ids

`NewReplicator` seeds etcd's `idutil.Generator` with `uint16(raftNode.id)` and the start time; `Save` and `Load`
draw their waiter keys from it.  An id is the member id in the high 16 bits and the low 48 bits of a counter
that starts at the low 40 bits of the start time in milliseconds, shifted left by 8.

`Generator.next_eq`: the id drawn by a generator with member id `m` is `m * 2^48` plus the low 48 bits of the
advanced counter, and `Generator.nth_eq` says the same of the `k + 1`-th id drawn.
-/

namespace Nexus

/-- `idutil`'s `tsLen`: the bits of the start time kept. -/
def tsLen : Nat := 5 * 8

/-- `idutil`'s `cntLen`: the bits of the per-millisecond counter. -/
def cntLen : Nat := 8

/-- `idutil`'s `suffixLen`. -/
def suffixLen : Nat := tsLen + cntLen

/-- `lowbit(x, n)`: `x & (math.MaxUint64 >> (64 - n))`. -/
def lowbit (x n : Nat) : Nat := x % 2 ^ n

/-- Modelled from the spec: etcd's `idutil.Generator` (a dependency, not in the sources), "64-bit ids combining
a 16-bit node identifier, time-based suffix, and a per-call counter".  `suffix` is kept as an unbounded counter:
Go's `uint64` wraps at `2^64`, but only its low 48 bits are ever read, and wrapping leaves those unchanged. -/
structure Generator where
  pfx : Nat
  suffix : Nat
  deriving DecidableEq, Repr

/-- Modelled from the spec: `idutil.NewGenerator(memberID, now)`, with `now` in nanoseconds since the epoch. -/
def newGenerator (memberID now : Nat) : Generator :=
  { pfx := memberID <<< suffixLen, suffix := lowbit (now / 1000000) tsLen <<< cntLen }

/-- Modelled from the spec: `Generator.Next`: `atomic.AddUint64(&g.suffix, 1)`, then
`g.prefix | lowbit(suffix, suffixLen)`. -/
def Generator.next (g : Generator) : Nat × Generator :=
  (g.pfx ||| lowbit (g.suffix + 1) suffixLen, { g with suffix := g.suffix + 1 })

/-- A generator seeded with the member id `m`: its prefix is `m` in the high 16 bits. -/
def Generator.SeededBy (g : Generator) (m : Nat) : Prop := g.pfx = m <<< suffixLen

theorem newGenerator_seededBy (m now : Nat) : (newGenerator m now).SeededBy m := rfl

theorem Generator.next_seededBy {g : Generator} {m : Nat} (h : g.SeededBy m) : g.next.2.SeededBy m := h

@[simp] theorem Generator.next_suffix (g : Generator) : g.next.2.suffix = g.suffix + 1 := rfl

theorem Generator.next_eq {g : Generator} {m : Nat} (h : g.SeededBy m) :
    g.next.1 = m * 2 ^ 48 + (g.suffix + 1) % 2 ^ 48 := by
  rw [Generator.next, h, Nat.lor_comm, lowbit, suffixLen, tsLen, cntLen,
    or_shiftLeft_eq_add _ (Nat.mod_lt _ (Nat.two_pow_pos _)), Nat.add_comm]

/-- The id the `k + 1`-th `Next()` of `g` returns. -/
def Generator.nth (g : Generator) (k : Nat) : Nat := ((fun g : Generator => g.next.2)^[k] g).next.1

/-- `k` draws advance the counter by `k`. -/
theorem Generator.iterate_next (g : Generator) (k : Nat) :
    (fun g : Generator => g.next.2)^[k] g = { g with suffix := g.suffix + k } := by
  induction k generalizing g with
  | zero => rfl
  | succ k ih => rw [Function.iterate_succ_apply, ih]; simp [Generator.next, Nat.add_assoc, Nat.add_comm 1 k]

theorem Generator.nth_eq {g : Generator} {m : Nat} (h : g.SeededBy m) (k : Nat) :
    g.nth k = m * 2 ^ 48 + (g.suffix + k + 1) % 2 ^ 48 := by
  rw [Generator.nth, Generator.iterate_next]
  exact Generator.next_eq h

end Nexus

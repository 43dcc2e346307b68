import BracketChain.Keys
import BracketChain.Shuffle

namespace BracketChain.Seeding

open Keys Shuffle

def gamma : UInt64 := 0x9E3779B97F4A7C15

/-- The `splitmix64` finalizer. -/
def mix (z : UInt64) : UInt64 :=
  let z := (z ^^^ (z >>> 30)) * 0xBF58476D1CE4E5B9
  let z := (z ^^^ (z >>> 27)) * 0x94D049BB133111EB
  z ^^^ (z >>> 31)

/-- Absorb the four little-endian words of the seed. -/
def seedState (seedHash : Bytes32) : UInt64 :=
  [0, 8, 16, 24].foldl
    (fun s k => mix (s ^^^ UInt64.ofNat (leNat ((seedHash.toList.drop k).take 8)))) gamma

def nextU64 (state : UInt64) : UInt64 × UInt64 := (mix (state + gamma), state + gamma)

/-- `perm[rank]` is the seed index of the participant placed at `rank`. -/
def seedPermutation (seedHash : Bytes32) (n : Nat) : Array Nat :=
  shuffleFrom (fun state => ((nextU64 state).1.toNat, (nextU64 state).2)) n (seedState seedHash)
    (List.range n).toArray

/-- The seed indices expected in round-0 match `m`, `none` for the second one
of a bye. The outer `none` is an index out of bounds. -/
def round0Expected (perm : Array Nat) (m bracketSize n : Nat) : Option (Nat × Option Nat) := do
  let a ← perm[m]?
  if bracketSize - 1 - m < n then do
    let b ← perm[bracketSize - 1 - m]?
    pure (a, some b)
  else pure (a, none)

theorem seedPermutation_perm (seedHash : Bytes32) (n : Nat) :
    (seedPermutation seedHash n).toList.Perm (List.range n) :=
  shuffle_range _ _ n

/-- The vector that the program shares with its client library. -/
example : seedPermutation ⟨((List.range 32).map UInt8.ofNat).toArray, rfl⟩ 8 = #[4, 0, 3, 1, 5, 6, 7, 2] := by
  decide

end BracketChain.Seeding

import BracketChain.Outcome
import BracketChain.Records

namespace BracketChain.Payout

open Outcome Keys Records

def payoutWta : Vector Nat 8 := #v[10000, 0, 0, 0, 0, 0, 0, 0]

def payoutStandard : Vector Nat 8 := #v[6000, 2500, 1500, 0, 0, 0, 0, 0]

def payoutDeep : Vector Nat 8 := #v[4000, 2500, 1500, 1000, 500, 300, 200, 0]

def basisPoints : PayoutPreset → Vector Nat 8
  | .winnerTakesAll => payoutWta
  | .standard => payoutStandard
  | .deep => payoutDeep
  | .custom slots => slots

def placementCount (preset : PayoutPreset) : Nat :=
  ((basisPoints preset).toList.filter (fun bps => 0 < bps)).length

def minParticipantsOf : PayoutPreset → Nat
  | .winnerTakesAll => 1
  | .standard => 3
  | .deep => 7
  | .custom slots => placementCount (.custom slots)

/-- One slot of the custom split: after the first empty slot, every later
one must be empty. The state is the `ended` flag and the sum so far. -/
def scanSlot (acc : Bool × Nat) (bps : Nat) : Except Error (Bool × Nat) :=
  if bps = 0 then .ok (true, acc.2)
  else do
    require (acc.1 = false) .invalidCustomPayout
    pure (acc.1, acc.2 + bps)

def validateCustom : PayoutPreset → Except Error Unit
  | .custom slots => do
      require (0 < slots[0]) .invalidCustomPayout
      let acc ← each scanSlot (false, 0) slots.toList
      require (acc.2 = bpsDenominator) .invalidCustomPayout
  | _ => .ok ()

/-- Floors of the shares, with the remainder given to the champion. -/
def splitPlacements (netPool : Nat) (bpsTable : List Nat) (placementCount : Nat) :
    Except Error (List Nat) :=
  match (bpsTable.take placementCount).map
      (fun bps => netPool * bps / bpsDenominator % (u64Max + 1)) with
  | [] => .ok []
  | _ :: lower => do
      let lowerSum ← each (fun acc a => orThrow (checkedAdd u64Max acc a) .arithmeticOverflow) 0 lower
      require (lowerSum ≤ netPool) .arithmeticOverflow
      pure ((netPool - lowerSum) :: lower)

/-- The share of the champion absorbs the rounding of the others. -/
example : splitPlacements 101 payoutStandard.toList 3 = .ok [61, 25, 15] := by rfl

end BracketChain.Payout

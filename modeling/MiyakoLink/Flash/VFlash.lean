import Mathlib.Tactic.Common
import MiyakoLink.Flash.Region

/-!
# The flash branches of `handle_v_packet`

They are written over a `FlashPort`, which names what they use of the controller and of its
current target, in any monad.
-/

namespace MiyakoLink.Flash

/-- A `vFlash` packet with its numbers read. -/
inductive VFlash where
  | erase (addr len : UInt32)
  | write (addr : UInt32) (data : List UInt8)
  | done
  deriving DecidableEq, Repr

structure FlashPort (m : Type → Type) where
  /-- `tc->cur_target` is not `NULL`. -/
  hasTarget : m Bool
  flashMode : m Bool
  setFlashMode : Bool → m Unit
  targetReset : m Unit
  targetFlashErase : UInt32 → UInt32 → m Ret
  targetFlashWrite : UInt32 → List UInt8 → UInt32 → m Ret
  targetFlashDone : m Ret

/-- The three branches, with the text they answer. -/
def handleVFlash {m : Type → Type} [Monad m] (P : FlashPort m) : VFlash → m String
  | .erase addr len => do
    if ← P.hasTarget then
      -- Reset target if first flash command!
      if !(← P.flashMode) then
        P.targetReset
        P.setFlashMode true
      if (← P.targetFlashErase addr len) = 0 then
        return "OK"
      else
        P.setFlashMode false
        return "EFF"
    else
      return "EFF"
  | .write addr data => do
    let ok ← do
      if ← P.hasTarget then
        let ret ← P.targetFlashWrite addr data (UInt32.ofNat data.length)
        pure (ret == 0)
      else
        pure false
    if ok then
      return "OK"
    else
      P.setFlashMode false
      return "EFF"
  | .done => do
    let answer := if (← P.targetFlashDone) ≠ 0 then "EFF" else "OK"
    P.setFlashMode false
    return answer

end MiyakoLink.Flash

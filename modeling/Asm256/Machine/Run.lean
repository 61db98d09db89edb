/-
Runs: the machine executes instructions until it halts or fails.
-/
import Asm256.Machine.Step

namespace Asm256

/-- What has become of a run. -/
inductive Ending
  | halted
  | failed (t : Trap)
  | running
  deriving DecidableEq, Repr

namespace Machine

/-- Executes one instruction. -/
def step (m : Machine) : EStateM.Result Trap Machine Opcode := Exec.step.run m

/-- Executes at most `limit` instructions, and none when halted. -/
def run : (limit : Nat) → Machine → Ending × Machine
  | 0, m => (if m.halted then .halted else .running, m)
  | limit + 1, m =>
      if m.halted then (.halted, m)
      else match m.step with
        | .ok _ m => m.run limit
        | .error t m => (.failed t, m)

end Machine

end Asm256

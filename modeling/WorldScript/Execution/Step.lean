import WorldScript.Execution.Api

/-!
Executing instructions. A fault leaves the arguments that were taken off the stack; as long as
the stack is within its limit, nothing else has changed.
-/
set_option autoImplicit false

namespace WorldScript

/-- The action of an instruction, found by taking its arguments and looking at the script and
the world. -/
def Instruction.action (i : Instruction) (s : Script) (w : World) : Taking Action :=
  match i.opcode.family with
  | .math => i.opcode.mathAction
  | .flow => i.opcode.flowAction i.operand
  | .memory => i.opcode.memoryAction i.operand s
  | .stack => i.opcode.stackAction i.operand
  | .world => i.opcode.worldAction s w
  | .gui => i.opcode.guiAction w
  | .combat => i.opcode.combatAction w

namespace Scene

def execute (s : Scene) (i : Instruction) : Except Fault Outcome × Scene :=
  match s.script.take (i.action s.script s.world) with
  | (.ok action, script) => { s with script }.perform action
  | (.error e, script) => (.error e, { s with script })

/-- Execute an instruction; a fault interrupts the script. -/
def settle (s : Scene) (i : Instruction) : Outcome × Scene :=
  match s.execute i with
  | (.ok outcome, s) => (outcome, s)
  | (.error e, s) => (.interrupted, { s with script := s.script.interrupt e })

end Scene

end WorldScript

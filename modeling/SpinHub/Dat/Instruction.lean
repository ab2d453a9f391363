import SpinHub.Evaluation

/-!
# Instructions

An assembly instruction is a long: the opcode template, the effect flags in bits 23 to 25,
the immediate flag in bit 22, the condition in bits 18 to 21, the destination in bits 9 to
17 and the source in bits 0 to 8.
-/

namespace SpinHub

/-- The value of an operand field, which names a cog register; 0 if there is none. -/
def registerField (site : Site) (operand : Operand) : Option Exp → Eval Word
  | none => return 0
  | some e => do
    let v ← site.evalInt e
    if 0 ≤ v ∧ v < 512 then return BitVec.ofInt 32 v
    else failAt e.pos (.registerOutOfRange operand)

namespace Instruction

/-- The destination: CALL of a label without one returns through the label's `_ret`. -/
def destination (instruction : Instruction) : Option Exp :=
  match instruction.dest with
  | some e => some e
  | none =>
    match instruction.source with
    | some (.name _ label) =>
      if nameKey instruction.mnemonic = "CALL" then
        some (.name instruction.pos (label ++ "_ret"))
      else none
    | _ => none

/-- The long of an instruction with the given operand fields. -/
def word (instruction : Instruction) (dest source : Word) : Word :=
  let immediate : Word := if instruction.immediate then 1 <<< 22 else 0
  let fields := instruction.opcode + (dest <<< 9) + source + immediate
  let effects := fields ||| (BitVec.ofNat 32 (instruction.effect.toNat % 8) <<< 23)
  let effects := if instruction.effect.toNat < 8 then effects else effects &&& ~~~(1#32 <<< 23)
  (effects &&& ~~~(0x0f#32 <<< 18)) ||| (BitVec.ofNat 32 instruction.condition.toNat <<< 18)

/-- The long of an instruction. -/
def assemble (instruction : Instruction) (site : Site) : Eval Word := do
  let dest ← registerField site .destination instruction.destination
  let source ← registerField site .source instruction.source
  return instruction.word dest source

/-- The mnemonic if it is that of a jump, for which an operand that is not immediate is
suspicious. -/
def jumpMnemonic? (instruction : Instruction) : Option String :=
  let mnemonic := nameKey instruction.mnemonic
  if mnemonic ∈ ["JMP", "DJNZ", "TJNZ", "TJZ"] then some mnemonic else none

end Instruction

end SpinHub

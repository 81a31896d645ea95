import TapeTree.Proofs.Machine.Runs
import TapeTree.Proofs.Machine.Tape

/-! Machines that differ only in their steps and in entries of zero. An instruction cannot tell
them apart. -/

namespace TapeTree

structure Machine.Resembles (machine other : Machine) : Prop where
  bytes : machine.tape.HoldsBytes
  alike : machine.tape.Alike other.tape
  console : machine.console = other.console

namespace Machine.Resembles

theorem refl {machine : Machine} (bytes : machine.tape.HoldsBytes) : Resembles machine machine :=
  ⟨bytes, .refl _, rfl⟩

theorem trans {first second third : Machine} (left : Resembles first second)
    (right : Resembles second third) : Resembles first third :=
  ⟨left.bytes, left.alike.trans right.alike, left.console.trans right.console⟩

end Machine.Resembles

def Outcome.Resembles : Outcome → Outcome → Prop
  | .finished machine, .finished other => machine.Resembles other
  | .halted halt machine, .halted reason other => halt = reason ∧ machine.Resembles other
  | _, _ => False

theorem Outcome.Resembles.holdsBytes {first second : Outcome} (resembles : first.Resembles second) :
    first.machine.tape.HoldsBytes := by
  cases first <;> cases second
  · exact Machine.Resembles.bytes resembles
  · cases resembles
  · cases resembles
  · exact resembles.2.bytes

theorem inside_byte (byte : UInt8) : 0 ≤ (byte.toNat : Int) ∧ (byte.toNat : Int) < cellSize := by
  have small := byte.toNat_lt
  simp only [cellSize]
  omega

namespace Node

variable {Hole : Type} {setup another : Setup}

theorem effect_resembles (faults : setup.faults = another.faults) (fuel supply : Nat)
    {node : Node Hole} (instruction : node.IsInstruction) (sets : node.SetsBytes)
    {machine other : Machine} (resembles : machine.Resembles other) :
    (node.effect setup fuel machine).Resembles (node.effect another supply other) := by
  have alike := resembles.alike
  have bytes := resembles.bytes
  cases node with
  | block => cases instruction
  | loop => cases instruction
  | move distance => exact ⟨bytes.move distance, alike.move distance, resembles.console⟩
  | add amount =>
      refine ⟨bytes.setCurrent (inside_cell _), ?_, resembles.console⟩
      rw [Machine.add, Machine.add, ← alike.current]
      exact alike.setCurrent _
  | set value => exact ⟨bytes.setCurrent sets, alike.setCurrent value, resembles.console⟩
  | addTo offset =>
      refine ⟨bytes.set offset (inside_cell _), ?_, resembles.console⟩
      rw [Machine.addTo, Machine.addTo, ← alike.current, ← alike.get]
      exact alike.set offset _
  | hole => exact ⟨rfl, resembles⟩
  | print =>
      rw [effect, effect, ← alike.current, ← faults]
      rcases machine.write_cases setup.faults machine.tape.current with
        ⟨byte, console, isByte, called, written⟩ | ⟨byte, cause, console, isByte, called, written⟩ |
        ⟨noByte, written⟩
      · rw [written, Machine.write_done isByte (resembles.console ▸ called)]
        exact ⟨bytes, alike, rfl⟩
      · rw [written, Machine.write_failed isByte (resembles.console ▸ called)]
        exact ⟨rfl, bytes, alike, rfl⟩
      · rw [written, Machine.write_notByte noByte]
        exact ⟨rfl, resembles⟩
  | read =>
      rw [effect, effect, ← faults]
      rcases machine.read_cases setup.faults
          (fun byte machine => .finished (machine.setCurrent byte)) with
        ⟨byte, console, called, taken⟩ | ⟨cause, console, called, taken⟩
      · rw [taken, Machine.read_done (resembles.console ▸ called)]
        exact ⟨bytes.setCurrent (inside_byte byte), alike.setCurrent _, rfl⟩
      · rw [taken, Machine.read_failed (resembles.console ▸ called)]
        exact ⟨rfl, bytes, alike, rfl⟩

end Node

end TapeTree

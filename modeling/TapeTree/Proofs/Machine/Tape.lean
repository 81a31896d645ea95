import TapeTree.Machine.Ends

/-! What the operations on a tape do to its cells, and which tapes look the same. -/

namespace TapeTree.Tape

@[simp] theorem pointer_move (tape : Tape) (distance : Int) :
    (tape.move distance).pointer = tape.pointer + distance := rfl

@[simp] theorem pointer_set (tape : Tape) (offset value : Int) :
    (tape.set offset value).pointer = tape.pointer := rfl

@[simp] theorem pointer_setCurrent (tape : Tape) (value : Int) :
    (tape.setCurrent value).pointer = tape.pointer := rfl

theorem cellAt_set (tape : Tape) (offset value address : Int) :
    (tape.set offset value).cellAt address =
      if address = tape.pointer + offset then value else tape.cellAt address := by
  simp only [cellAt, set, Std.ExtTreeMap.getD_insert, Std.LawfulEqCmp.compare_eq_iff_eq]
  by_cases here : address = tape.pointer + offset
  · simp [here]
  · rw [if_neg here, if_neg (fun same => here same.symm)]

theorem cellAt_setCurrent (tape : Tape) (value address : Int) :
    (tape.setCurrent value).cellAt address =
      if address = tape.pointer then value else tape.cellAt address := by
  rw [← set_zero, cellAt_set, Int.add_zero]

@[simp] theorem current_setCurrent (tape : Tape) (value : Int) :
    (tape.setCurrent value).current = value := by
  simp [current, cellAt_setCurrent]

theorem setCurrent_current_alike (tape : Tape) :
    Alike (tape.setCurrent tape.current) tape := by
  refine ⟨rfl, fun address => ?_⟩
  rw [cellAt_setCurrent]
  split
  · rename_i here
    rw [here]
    rfl
  · rfl

theorem setCurrent_setCurrent_alike (tape : Tape) (first second : Int) :
    Alike ((tape.setCurrent first).setCurrent second) (tape.setCurrent second) := by
  refine ⟨rfl, fun address => ?_⟩
  simp only [cellAt_setCurrent, pointer_setCurrent]
  split <;> rfl

theorem move_move (tape : Tape) (first second : Int) :
    (tape.move first).move second = tape.move (first + second) := by
  simp [move, Int.add_assoc]

theorem move_zero (tape : Tape) : tape.move 0 = tape := by
  simp [move]

def bump (tape : Tape) (offset amount : Int) : Tape :=
  tape.set offset ((tape.get offset + amount) % cellSize)

@[simp] theorem pointer_bump (tape : Tape) (offset amount : Int) :
    (tape.bump offset amount).pointer = tape.pointer := rfl

theorem cellAt_bump (tape : Tape) (offset amount address : Int) :
    (tape.bump offset amount).cellAt address =
      if address = tape.pointer + offset then (tape.cellAt address + amount) % cellSize
      else tape.cellAt address := by
  rw [bump, cellAt_set]
  split
  · rename_i here
    rw [here, get]
  · rfl

theorem current_bump_zero (tape : Tape) (amount : Int) :
    (tape.bump 0 amount).current = (tape.current + amount) % cellSize := by
  simp [current, cellAt_bump]

theorem current_bump {offset : Int} (elsewhere : offset ≠ 0) (tape : Tape) (amount : Int) :
    (tape.bump offset amount).current = tape.current := by
  rw [current, cellAt_bump, pointer_bump, if_neg (by omega)]
  rfl

theorem move_bump_move (tape : Tape) (out amount further : Int) :
    ((tape.move out).bump 0 amount).move further =
      (tape.bump out amount).move (out + further) := by
  simp [bump, move, set, get, cellAt, Int.add_assoc]

namespace Alike

theorem refl (tape : Tape) : Alike tape tape :=
  ⟨rfl, fun _ => rfl⟩

theorem symm {first second : Tape} (alike : Alike first second) : Alike second first :=
  ⟨alike.1.symm, fun address => (alike.2 address).symm⟩

theorem trans {first second third : Tape} (left : Alike first second)
    (right : Alike second third) : Alike first third :=
  ⟨left.1.trans right.1, fun address => (left.2 address).trans (right.2 address)⟩

theorem get {first second : Tape} (alike : Alike first second) (offset : Int) :
    first.get offset = second.get offset := by
  rw [Tape.get, Tape.get, alike.1, alike.2]

theorem current {first second : Tape} (alike : Alike first second) :
    first.current = second.current := by
  rw [Tape.current, Tape.current, alike.1, alike.2]

theorem move {first second : Tape} (alike : Alike first second) (distance : Int) :
    Alike (first.move distance) (second.move distance) :=
  ⟨congrArg (· + distance) alike.1, alike.2⟩

theorem set {first second : Tape} (alike : Alike first second) (offset value : Int) :
    Alike (first.set offset value) (second.set offset value) := by
  refine ⟨alike.1, fun address => ?_⟩
  rw [cellAt_set, cellAt_set, alike.1, alike.2]

theorem setCurrent {first second : Tape} (alike : Alike first second) (value : Int) :
    Alike (first.setCurrent value) (second.setCurrent value) := by
  rw [← set_zero, ← set_zero]
  exact alike.set 0 value

end Alike

theorem setCurrent_zero_alike {tape : Tape} (zero : tape.current = 0) :
    Alike (tape.setCurrent 0) tape := by
  have same := tape.setCurrent_current_alike
  rwa [zero] at same

theorem holdsBytes_iff (tape : Tape) :
    tape.HoldsBytes ↔ ∀ address, 0 ≤ tape.cellAt address ∧ tape.cellAt address < cellSize := by
  constructor
  · intro bytes address
    rw [cellAt, Std.ExtTreeMap.getD_eq_getD_getElem?]
    cases entry : tape.cells[address]? with
    | none => simp [cellSize]
    | some value => exact bytes address value entry
  · intro bytes address value entry
    have inside := bytes address
    rwa [cellAt, Std.ExtTreeMap.getD_eq_getD_getElem?, entry] at inside

namespace HoldsBytes

theorem cellAt {tape : Tape} (bytes : tape.HoldsBytes) (address : Int) :
    0 ≤ tape.cellAt address ∧ tape.cellAt address < cellSize :=
  (holdsBytes_iff tape).mp bytes address

theorem blank : ({} : Tape).HoldsBytes := by
  intro address value entry
  simp at entry

theorem alike {first second : Tape} (bytes : first.HoldsBytes) (alike : Alike first second) :
    second.HoldsBytes := by
  rw [holdsBytes_iff]
  intro address
  rw [← alike.2]
  exact bytes.cellAt address

theorem bump_zero_alike {tape : Tape} (bytes : tape.HoldsBytes) (offset : Int) :
    (tape.bump offset 0).Alike tape := by
  refine ⟨rfl, fun address => ?_⟩
  rw [cellAt_bump, Int.add_zero]
  split
  · exact Int.emod_eq_of_lt (bytes.cellAt address).1 (bytes.cellAt address).2
  · rfl

theorem move {tape : Tape} (bytes : tape.HoldsBytes) (distance : Int) :
    (tape.move distance).HoldsBytes := bytes

theorem set {tape : Tape} (bytes : tape.HoldsBytes) (offset : Int) {value : Int}
    (inside : 0 ≤ value ∧ value < cellSize) : (tape.set offset value).HoldsBytes := by
  rw [holdsBytes_iff]
  intro address
  rw [cellAt_set]
  split
  · exact inside
  · exact bytes.cellAt address

theorem setCurrent {tape : Tape} (bytes : tape.HoldsBytes) {value : Int}
    (inside : 0 ≤ value ∧ value < cellSize) : (tape.setCurrent value).HoldsBytes := by
  rw [← set_zero]
  exact bytes.set 0 inside

end HoldsBytes

end TapeTree.Tape

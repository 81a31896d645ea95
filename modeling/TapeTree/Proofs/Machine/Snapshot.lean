import TapeTree.Machine.Session
import TapeTree.Proofs.Machine.Tape

/-! Windows of the tape as bytes. The entries of a tape have addresses of their own, so the order in
which they are written into a window does not matter. -/

namespace TapeTree

theorem byte?_eq_none_iff (value : Int) :
    byte? value = none ↔ ¬ (0 ≤ value ∧ value < cellSize) := by
  simp only [byte?, cellSize]
  split
  · rename_i inside
    simp [inside]
  · rename_i outside
    simp [outside]

theorem toNat_of_byte? {value : Int} {byte : UInt8} (isByte : byte? value = some byte) :
    (byte.toNat : Int) = value := by
  rw [byte?] at isByte
  split at isByte
  · cases isByte
    rw [UInt8.toNat_ofNat']
    omega
  · cases isByte

theorem scatter_eq_none_iff (start stop : Int) (window : Array UInt8)
    (entries : List (Int × Int)) :
    scatter start stop window entries = none ↔
      ∃ entry ∈ entries, start ≤ entry.1 ∧ entry.1 < stop ∧ byte? entry.2 = none := by
  induction entries generalizing window with
  | nil => simp [scatter]
  | cons entry rest ih =>
      obtain ⟨address, value⟩ := entry
      rw [scatter]
      simp only [List.mem_cons, or_and_right, exists_or, exists_eq_left]
      by_cases inside : start ≤ address ∧ address < stop
      · rw [if_pos inside]
        cases found : byte? value with
        | none => simp [inside]
        | some byte => simp [ih]
      · rw [if_neg inside, ih]
        constructor
        · intro later
          exact Or.inr later
        · rintro (⟨after, before, _⟩ | later)
          · exact absurd ⟨after, before⟩ inside
          · exact later

theorem scatter_size {start stop : Int} {window result : Array UInt8} {entries : List (Int × Int)}
    (scattered : scatter start stop window entries = some result) :
    result.size = window.size := by
  induction entries generalizing window with
  | nil =>
      cases scattered
      rfl
  | cons entry rest ih =>
      rw [scatter] at scattered
      split at scattered
      · split at scattered
        · rw [ih scattered, Array.size_setIfInBounds]
        · cases scattered
      · exact ih scattered

theorem scatter_untouched {start stop : Int} {window result : Array UInt8}
    {entries : List (Int × Int)} (scattered : scatter start stop window entries = some result)
    {index : Nat} (noEntry : ∀ entry ∈ entries, entry.1 ≠ start + index) :
    result[index]? = window[index]? := by
  induction entries generalizing window with
  | nil =>
      cases scattered
      rfl
  | cons entry rest ih =>
      obtain ⟨elsewhere, noEntry⟩ := List.forall_mem_cons.mp noEntry
      rw [scatter] at scattered
      split at scattered
      · split at scattered
        · rw [ih scattered noEntry, Array.getElem?_setIfInBounds_ne]
          omega
        · cases scattered
      · exact ih scattered noEntry

theorem scatter_entry {start stop : Int} {window result : Array UInt8}
    {entries : List (Int × Int)}
    (distinct : entries.Pairwise fun first second => first.1 ≠ second.1)
    (scattered : scatter start stop window entries = some result) {index : Nat}
    (inside : index < window.size) (before : start + index < stop) {value : Int}
    (member : (start + index, value) ∈ entries) :
    result[index]?.map (fun byte => (byte.toNat : Int)) = some value := by
  induction entries generalizing window with
  | nil => cases member
  | cons entry rest ih =>
      obtain ⟨others, distinct⟩ := List.pairwise_cons.mp distinct
      rw [scatter] at scattered
      rcases List.mem_cons.mp member with here | later
      · subst here
        rw [if_pos (by omega)] at scattered
        split at scattered
        · rename_i byte isByte
          have kept := scatter_untouched scattered
            (fun other member same => others other member same.symm)
          have place : (start + index - start).toNat = index := by omega
          rw [kept, place, Array.getElem?_setIfInBounds_self_of_lt inside]
          exact congrArg some (toNat_of_byte? isByte)
        · cases scattered
      · split at scattered
        · split at scattered
          · exact ih distinct scattered (by simpa using inside) later
          · cases scattered
        · exact ih distinct scattered inside later

/-! The order of the entries. -/

theorem scatter_swap (start stop : Int) (window : Array UInt8) {first second : Int × Int}
    (different : first.1 ≠ second.1) (rest : List (Int × Int)) :
    scatter start stop window (first :: second :: rest) =
      scatter start stop window (second :: first :: rest) := by
  obtain ⟨address, value⟩ := first
  obtain ⟨place, other⟩ := second
  by_cases here : start ≤ address ∧ address < stop
  · by_cases there : start ≤ place ∧ place < stop
    · have apart : (address - start).toNat ≠ (place - start).toNat := by
        simp only at different
        omega
      cases isByte : byte? value <;> cases alsoByte : byte? other <;>
        simp [scatter, here, there, isByte, alsoByte, Array.setIfInBounds_comm _ _ apart]
    · cases isByte : byte? value <;> simp [scatter, here, there, isByte]
  · by_cases there : start ≤ place ∧ place < stop
    · cases alsoByte : byte? other <;> simp [scatter, here, there, alsoByte]
    · simp [scatter, here, there]

theorem scatter_of_perm {entries others : List (Int × Int)} (perm : entries.Perm others)
    (distinct : entries.Pairwise fun first second => first.1 ≠ second.1) (start stop : Int)
    (window : Array UInt8) :
    scatter start stop window entries = scatter start stop window others := by
  induction perm generalizing window with
  | nil => rfl
  | cons entry perm ih =>
      have onward := ih (List.pairwise_cons.mp distinct).2
      rw [scatter, scatter]
      simp only [onward]
  | swap first second rest =>
      have different := (List.pairwise_cons.mp distinct).1 first List.mem_cons_self
      exact scatter_swap start stop window different rest
  | trans perm _ ih later =>
      rw [ih distinct]
      exact later (perm.pairwise distinct (fun different => different.symm)) window

/-! Windows. -/

namespace Tape

variable {zeros : ArrayMaker} {tape : Tape} {start stop : Int} {window cells : Array UInt8}

theorem distinct_entries (tape : Tape) :
    tape.cells.toList.Pairwise fun first second => first.1 ≠ second.1 := by
  refine tape.cells.distinct_keys_toList.imp ?_
  intro first second different same
  exact different (Std.LawfulEqCmp.compare_eq_iff_eq.mpr same)

theorem snapshot_refused {why : SizeFault} (refused : zeros (stop - start).toNat = .error why)
    (tape : Tape) : tape.snapshot zeros start stop = .error (.noArray why) := by
  rw [snapshot, refused]

theorem snapshot_made (made : zeros (stop - start).toNat = .ok window) (tape : Tape) :
    tape.snapshot zeros start stop =
      match scatter start stop window tape.cells.toList with
      | some cells => .ok cells
      | none => .error .notByte := by
  cases scattered : scatter start stop window tape.cells.toList <;>
    simp only [snapshot, made, scattered]

theorem snapshot_eq_ok_iff (made : zeros (stop - start).toNat = .ok window) :
    tape.snapshot zeros start stop = .ok cells ↔
      scatter start stop window tape.cells.toList = some cells := by
  rw [snapshot_made made]
  cases scatter start stop window tape.cells.toList <;> simp

theorem snapshot_eq_notByte_iff (made : zeros (stop - start).toNat = .ok window) :
    tape.snapshot zeros start stop = .error .notByte ↔
      ∃ address value : Int, tape.cells[address]? = some value ∧ start ≤ address ∧
        address < stop ∧ ¬ (0 ≤ value ∧ value < cellSize) := by
  have refused : tape.snapshot zeros start stop = .error .notByte ↔
      scatter start stop window tape.cells.toList = none := by
    rw [snapshot_made made]
    cases scatter start stop window tape.cells.toList <;> simp
  rw [refused, scatter_eq_none_iff]
  constructor
  · rintro ⟨⟨address, value⟩, member, after, before, refused⟩
    have entry := Std.ExtTreeMap.mem_toList_iff_getElem?_eq_some.mp member
    exact ⟨address, value, entry, after, before, (byte?_eq_none_iff value).mp refused⟩
  · rintro ⟨address, value, entry, after, before, outside⟩
    have member := Std.ExtTreeMap.mem_toList_iff_getElem?_eq_some.mpr entry
    exact ⟨(address, value), member, after, before, (byte?_eq_none_iff value).mpr outside⟩

theorem snapshot_ne_notByte (bytes : tape.HoldsBytes) (zeros : ArrayMaker) (start stop : Int) :
    tape.snapshot zeros start stop ≠ .error .notByte := by
  cases made : zeros (stop - start).toNat with
  | error why =>
      rw [snapshot_refused made]
      simp
  | ok window =>
      rw [ne_eq, snapshot_eq_notByte_iff made]
      rintro ⟨address, value, entry, _, _, outside⟩
      exact outside (bytes address value entry)

theorem exists_snapshot (bytes : tape.HoldsBytes)
    (made : zeros (stop - start).toNat = .ok window) :
    ∃ cells, tape.snapshot zeros start stop = .ok cells := by
  cases scattered : scatter start stop window tape.cells.toList with
  | some cells => exact ⟨cells, (snapshot_eq_ok_iff made).mpr scattered⟩
  | none =>
      refine absurd ?_ (snapshot_ne_notByte bytes zeros start stop)
      rw [snapshot_made made, scattered]

theorem snapshot_size (makes : MakesZeros zeros)
    (taken : tape.snapshot zeros start stop = .ok cells) : cells.size = (stop - start).toNat := by
  cases made : zeros (stop - start).toNat with
  | error why =>
      rw [snapshot_refused made] at taken
      cases taken
  | ok window =>
      rw [scatter_size ((snapshot_eq_ok_iff made).mp taken), makes _ _ made, Array.size_replicate]

theorem snapshot_getElem? (makes : MakesZeros zeros)
    (taken : tape.snapshot zeros start stop = .ok cells) {index : Nat}
    (inside : index < (stop - start).toNat) :
    cells[index]?.map (fun cell => (cell.toNat : Int)) = some (tape.cellAt (start + index)) := by
  cases made : zeros (stop - start).toNat with
  | error why =>
      rw [snapshot_refused made] at taken
      cases taken
  | ok window =>
      have scattered := (snapshot_eq_ok_iff made).mp taken
      have blank := makes _ _ made
      subst blank
      rw [cellAt, Std.ExtTreeMap.getD_eq_getD_getElem?]
      cases entry : tape.cells[start + (index : Int)]? with
      | none =>
          rw [scatter_untouched scattered]
          · simp [inside]
          · rintro ⟨address, value⟩ member rfl
            rw [Std.ExtTreeMap.mem_toList_iff_getElem?_eq_some.mp member] at entry
            cases entry
      | some value =>
          have member := Std.ExtTreeMap.mem_toList_iff_getElem?_eq_some.mpr entry
          rw [scatter_entry tape.distinct_entries scattered (by simpa using inside) (by omega)
            member]
          rfl

theorem map_snapshot (makes : MakesZeros zeros)
    (taken : tape.snapshot zeros start stop = .ok cells) :
    cells.toList.map (fun cell => (cell.toNat : Int)) =
      (List.range (stop - start).toNat).map fun index : Nat => tape.cellAt (start + index) := by
  have size := snapshot_size makes taken
  apply List.ext_getElem?
  intro index
  rw [List.getElem?_map, List.getElem?_map, Array.getElem?_toList]
  by_cases inside : index < (stop - start).toNat
  · rw [snapshot_getElem? makes taken inside, List.getElem?_range inside]
    rfl
  · rw [Array.getElem?_eq_none (by omega), List.getElem?_eq_none (by simpa using inside)]
    rfl

end Tape

def Answer.ofEntries (start stop : Int) (window : Array UInt8) (entries : List (Int × Int)) :
    Answer :=
  match scatter start stop window entries with
  | some cells => .bytes cells
  | none => .notBytes

namespace Tape

variable {zeros : ArrayMaker} {tape : Tape} {start stop : Int} {window : Array UInt8}

theorem showCells_eq_bytes_iff {cells : Array UInt8} :
    tape.showCells zeros start stop = .bytes cells ↔
      tape.snapshot zeros start stop = .ok cells := by
  rw [showCells]
  rcases tape.snapshot zeros start stop with (why | _) | taken <;> simp

theorem showCells_eq_notBytes_iff :
    tape.showCells zeros start stop = .notBytes ↔
      tape.snapshot zeros start stop = .error .notByte := by
  rw [showCells]
  rcases tape.snapshot zeros start stop with (why | _) | taken <;> simp

theorem showCells_refused {why : SizeFault} (refused : zeros (stop - start).toNat = .error why)
    (tape : Tape) : tape.showCells zeros start stop = .tooWide why := by
  rw [showCells, snapshot_refused refused]

theorem showCells_of_perm (made : zeros (stop - start).toNat = .ok window)
    {entries : List (Int × Int)} (listed : entries.Perm tape.cells.toList) :
    tape.showCells zeros start stop = .ofEntries start stop window entries := by
  have same : scatter start stop window tape.cells.toList = scatter start stop window entries :=
    scatter_of_perm listed.symm tape.distinct_entries start stop window
  rw [showCells, snapshot_made made, same, Answer.ofEntries]
  cases scatter start stop window entries <;> rfl

theorem showCells_bytes (makes : MakesZeros zeros)
    (made : zeros (stop - start).toNat = .ok window)
    (bytes : ∀ address value : Int, tape.cells[address]? = some value → start ≤ address →
      address < stop → 0 ≤ value ∧ value < cellSize) :
    ∃ cells, tape.showCells zeros start stop = .bytes cells ∧
      (cells.size : Int) = max 0 (stop - start) ∧
      ∀ index < cells.size, cells[index]?.map (fun cell => (cell.toNat : Int)) =
        some (tape.cellAt (start + index)) := by
  cases scattered : scatter start stop window tape.cells.toList with
  | none =>
      have refused : tape.snapshot zeros start stop = .error .notByte := by
        rw [snapshot_made made, scattered]
      obtain ⟨address, value, entry, after, before, outside⟩ :=
        (snapshot_eq_notByte_iff made).mp refused
      exact absurd (bytes address value entry after before) outside
  | some cells =>
      have taken := (snapshot_eq_ok_iff made).mpr scattered
      have size := snapshot_size makes taken
      exact ⟨cells, showCells_eq_bytes_iff.mpr taken, by omega,
        fun index inside => snapshot_getElem? makes taken (by omega)⟩

end Tape

namespace Machine

variable {Hole : Type}

/-- A window of the tape is answered with its cells, each of them in its place, if the entries in it
are bytes. If one of them is not, and only then, it is refused for that. The order in which the
entries are gone through makes no difference. Only where no array of that size is made, the window
is refused whatever the cells are. In no case does the machine change. -/
theorem snapshot_scatters_window {zeros : ArrayMaker} (makes : MakesZeros zeros) (setup : Setup)
    (fuel : Nat) (machine : Machine) (start stop : Int) :
    let result := machine.perform zeros setup fuel (.snapshot start (some stop) : Request Hole)
    result.2 = machine ∧
    (∀ window, zeros (stop - start).toNat = .ok window →
      ((∀ address value : Int, machine.tape.cells[address]? = some value → start ≤ address →
          address < stop → 0 ≤ value ∧ value < cellSize) →
        ∃ cells, result.1 = .bytes cells ∧ (cells.size : Int) = max 0 (stop - start) ∧
          ∀ index < cells.size, cells[index]?.map (fun cell => (cell.toNat : Int)) =
            some (machine.tape.cellAt (start + index))) ∧
      (result.1 = .notBytes ↔
        ∃ address value : Int, machine.tape.cells[address]? = some value ∧ start ≤ address ∧
          address < stop ∧ ¬ (0 ≤ value ∧ value < cellSize)) ∧
      ∀ entries, entries.Perm machine.tape.cells.toList →
        result.1 = .ofEntries start stop window entries) ∧
    ∀ why, zeros (stop - start).toNat = .error why → result.1 = .tooWide why := by
  refine ⟨rfl, fun window made => ⟨?_, ?_, ?_⟩, ?_⟩
  · intro bytes
    exact Tape.showCells_bytes makes made bytes
  · exact Tape.showCells_eq_notBytes_iff.trans (Tape.snapshot_eq_notByte_iff made)
  · intro entries listed
    exact Tape.showCells_of_perm made listed
  · intro why refused
    exact Tape.showCells_refused refused machine.tape

/-- A tape with bytes at -1 and 2 and a larger number at 7. -/
theorem snapshot_beside_larger_number :
    let machine : Machine := { tape := ((({} : Tape).set (-1) 5).set 2 9).set 7 300 }
    let zeros := zerosWithin fun _ => true
    MakesZeros zeros ∧
    (∃ cells, (machine.perform zeros {} 0 (.snapshot (-2) (some 4) : Request Empty)).1 =
        .bytes cells ∧
      cells.size = 6 ∧ cells[1]?.map (fun cell => (cell.toNat : Int)) = some 5 ∧
      cells[3]?.map (fun cell => (cell.toNat : Int)) = some 0) ∧
    (machine.perform zeros {} 0 (.snapshot 2 (some 8) : Request Empty)).1 = .notBytes := by
  intro machine zeros
  have makes : MakesZeros zeros := makesZeros_zerosWithin _
  have entries (address value : Int) :
      machine.tape.cells[address]? = some value ↔
        (address = 7 ∧ value = 300) ∨ (address = 2 ∧ value = 9) ∨ (address = -1 ∧ value = 5) := by
    simp only [machine, Tape.set, Std.ExtTreeMap.getElem?_insert, Std.LawfulEqCmp.compare_eq_iff_eq]
    grind
  have bytes : ∀ address value : Int, machine.tape.cells[address]? = some value → -2 ≤ address →
      address < 4 → 0 ≤ value ∧ value < cellSize := by
    intro address value entry _ before
    rcases (entries address value).mp entry with ⟨rfl, _⟩ | ⟨_, rfl⟩ | ⟨_, rfl⟩
    · omega
    · decide
    · decide
  obtain ⟨_, narrow, _⟩ := @snapshot_scatters_window Empty zeros makes {} 0 machine (-2) 4
  obtain ⟨_, other, _⟩ := @snapshot_scatters_window Empty zeros makes {} 0 machine 2 8
  refine ⟨makes, ?_, ?_⟩
  · obtain ⟨cells, shown, size, each⟩ := (narrow _ rfl).1 bytes
    have six : cells.size = 6 := by
      have width : max 0 ((4 : Int) - -2) = 6 := by decide
      omega
    refine ⟨cells, shown, six, ?_, ?_⟩
    · rw [each 1 (by omega)]
      simp [machine, Tape.cellAt_set]
    · have blank : ({} : Tape).cellAt 1 = 0 := rfl
      rw [each 3 (by omega)]
      simp [machine, Tape.cellAt_set, blank]
  · exact (other _ rfl).2.1.mpr ⟨7, 300, (entries 7 300).mpr (Or.inl ⟨rfl, rfl⟩), by decide⟩

/-- A cell in the window is no byte, but the window is refused for its width. -/
theorem wide_snapshot_with_larger_number :
    ∃ machine : Machine, machine.tape.cells[(0 : Int)]? = some 300 ∧
      (machine.perform (zerosWithin fun _ => true) {} 0
        (.snapshot 0 (some 0x8000000000000000) : Request Empty)).1 = .tooWide .beyondIndex ∧
      (machine.perform (zerosWithin fun _ => true) {} 0
        (.snapshot 0 (some 0x8000000000000000) : Request Empty)).1 ≠ .notBytes := by
  refine ⟨{ tape := ({} : Tape).set 0 300 }, by simp [Tape.set], rfl, ?_⟩
  intro same
  cases same

end Machine

end TapeTree

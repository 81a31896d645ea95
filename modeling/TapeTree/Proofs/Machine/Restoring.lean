import TapeTree.Proofs.Machine.Silent

/-! When the end of one run shows that another run ends as well. There is no step limit here, and
the other run may take any number of steps. -/

namespace TapeTree

def Outcome.EndsLike : Outcome → Outcome → Prop
  | .finished machine, ending => ∃ other, ending = .finished other ∧ machine.Resembles other
  | .halted (.fault cause) machine, ending =>
      ∃ other, ending = .halted (.fault cause) other ∧ machine.Resembles other
  | .halted _ _, _ => True

namespace Outcome

theorem Resembles.endsLike {outcome ending : Outcome} (resembles : outcome.Resembles ending) :
    outcome.EndsLike ending := by
  cases outcome with
  | finished machine =>
      cases ending with
      | finished other => exact ⟨other, rfl, resembles⟩
      | halted => cases resembles
  | halted halt machine =>
      cases ending with
      | finished => cases resembles
      | halted reason other =>
          obtain ⟨rfl, same⟩ := resembles
          cases halt with
          | fault cause => exact ⟨other, rfl, same⟩
          | notByte | stepLimit | hole | outOfFuel => trivial

namespace EndsLike

theorem finished {machine other : Machine} (resembles : machine.Resembles other) :
    EndsLike (.finished machine) (.finished other) :=
  ⟨other, rfl, resembles⟩

theorem resembles {machine other : Machine}
    (like : EndsLike (.finished machine) (.finished other)) : machine.Resembles other := by
  obtain ⟨_, ⟨⟩, resembles⟩ := like
  exact resembles

theorem trans {first second third : Outcome} (left : EndsLike first second)
    (right : EndsLike second third) : EndsLike first third := by
  unfold EndsLike at left ⊢
  split at left
  · obtain ⟨_, rfl, resembles⟩ := left
    obtain ⟨last, rfl, again⟩ := right
    exact ⟨last, rfl, resembles.trans again⟩
  · obtain ⟨_, rfl, resembles⟩ := left
    obtain ⟨last, rfl, again⟩ := right
    exact ⟨last, rfl, resembles.trans again⟩
  · trivial

theorem next {outcome ending : Outcome} {rest others : Machine → Outcome}
    (like : EndsLike outcome ending)
    (onward : ∀ machine other, machine.Resembles other →
      EndsLike (rest machine) (others other)) :
    EndsLike (outcome.next rest) (ending.next others) := by
  cases outcome with
  | finished machine =>
      obtain ⟨other, rfl, resembles⟩ := like
      exact onward machine other resembles
  | halted halt machine =>
      cases halt with
      | fault cause =>
          obtain ⟨other, rfl, resembles⟩ := like
          exact ⟨other, rfl, resembles⟩
      | notByte | stepLimit | hole | outOfFuel => trivial

theorem halt? {outcome ending : Outcome} (like : EndsLike outcome ending)
    {cause : Option IoFault} (own : outcome.halt? = cause.map Halt.fault) :
    ending.halt? = cause.map Halt.fault := by
  cases outcome with
  | finished machine =>
      obtain ⟨other, rfl, _⟩ := like
      exact own
  | halted halt machine =>
      cases cause with
      | none => cases own
      | some cause =>
          cases own
          obtain ⟨other, rfl, _⟩ := like
          rfl

end EndsLike

end Outcome

theorem endsLike_coupling (faults : Faults) :
    Coupling { faults } { faults } Outcome.EndsLike where
  tick := fun like => .finished ⟨like.resembles.bytes, like.resembles.alike, like.resembles.console⟩
  current := fun like => by rw [like.resembles.alike.current]
  next := fun like onward _ => like.next fun machine other resembles =>
    onward machine other (.finished resembles)
  starved := fun _ _ => trivial

def mostRounds : Nat := 255

namespace Node

variable {Hole : Type}

/-- If runs of the second sequence end, runs of the first do. -/
def Restores (nodes others : List (Node Hole)) : Prop :=
  ∀ (faults : Faults) (fuel : Nat), mostRounds ≤ fuel → ∀ machine other : Machine,
    machine.Resembles other →
    (executeAll { faults } fuel others machine).EndsLike (executeAll { faults } fuel nodes other)

namespace Restores

theorem refl {nodes : List (Node Hole)} (sets : EverywhereAll SetsByte nodes) :
    Restores nodes nodes := by
  intro faults fuel _ machine other resembles
  refine executeAll_coupled (endsLike_coupling faults) (Nat.le_refl fuel) nodes ?_
    (.finished resembles)
  refine EverywhereAll.mono (fun node sets instruction machine other like => ?_) nodes sets
  have setsBytes := (everywhere_iff_of_isInstruction instruction).mpr sets
  exact (effect_resembles rfl fuel fuel instruction setsBytes like.resembles).endsLike

theorem trans {first second third : List (Node Hole)} (left : Restores first second)
    (right : Restores second third) : Restores first third := by
  intro faults fuel enough machine other resembles
  have same : machine.Resembles machine := .refl resembles.bytes
  exact (right faults fuel enough machine machine same).trans
    (left faults fuel enough machine other resembles)

theorem append {nodes others rest further : List (Node Hole)} (front : Restores nodes others)
    (back : Restores rest further) : Restores (nodes ++ rest) (others ++ further) := by
  intro faults fuel enough machine other resembles
  rw [executeAll_append, executeAll_append]
  exact (front faults fuel enough machine other resembles).next (back faults fuel enough)

theorem of_effects {node another : Node Hole}
    (ends : ∀ (faults : Faults) (fuel : Nat), mostRounds ≤ fuel → ∀ machine other : Machine,
      machine.Resembles other →
      (another.effect { faults } fuel machine).EndsLike (node.effect { faults } fuel other)) :
    Restores [node] [another] := by
  intro faults fuel enough machine other resembles
  rw [executeAll_singleton, executeAll_singleton, execute_eq, execute_eq]
  apply ends faults fuel enough
  exact ⟨resembles.bytes, resembles.alike, resembles.console⟩

theorem block {nodes others : List (Node Hole)} (restores : Restores nodes others) :
    Restores [.block nodes] [.block others] :=
  of_effects restores

theorem unblock {nodes others : List (Node Hole)} (restores : Restores nodes others) :
    Restores [.block nodes] others := by
  intro faults fuel enough machine other resembles
  rw [executeAll_singleton, execute_eq]
  apply restores faults fuel enough
  exact ⟨resembles.bytes, resembles.alike, resembles.console⟩

theorem loop {body another : Node Hole} (restores : Restores [body] [another]) :
    Restores [.loop body] [.loop another] := by
  apply of_effects
  intro faults fuel enough machine other resembles
  refine (endsLike_coupling faults).rounds (fun machine other like => ?_)
    (execute_precedes { faults } fuel body) (Nat.le_refl fuel) (.finished resembles)
  have round := restores faults fuel enough machine other like.resembles
  rwa [executeAll_singleton, executeAll_singleton] at round

theorem silent {nodes others : List (Node Hole)} (same : SameShape nodes others)
    (sets : EverywhereAll SetsByte others) : Restores nodes others := by
  intro faults fuel _ machine other resembles
  have first := (executeAll_silent { faults } fuel others same.alsoSilent
    machine).finished_of_allowed (by simp)
  have second := (executeAll_silent { faults } fuel nodes same.silent
    other).finished_of_allowed (by simp)
  have bytes := resembles.bytes.alike resembles.alike
  have alike := (reshapeAll_alike others resembles.alike).trans (same.alike other.tape bytes).symm
  rw [first, second]
  exact .finished ⟨reshapeAll_holdsBytes others sets resembles.bytes, alike, resembles.console⟩

end Restores

/-- A loop over a silent body ends if every round brings it one round closer to its end, which is
where the current cell is zero. -/
theorem rounds_silent_finish {faults : Faults} {fuel : Nat} {body : Node Hole}
    (silent : body.IsSilent) (kept : Tape → Prop) (left : Tape → Nat)
    (round : ∀ tape : Tape, kept tape → tape.current ≠ 0 →
      kept (body.reshape tape) ∧ left (body.reshape tape) + 1 = left tape)
    (done : ∀ tape : Tape, tape.current = 0 → left tape = 0)
    (count : Nat) {machine : Machine} (start : kept machine.tape)
    (enough : left machine.tape ≤ count) :
    ∃ after, machine.rounds none (body.execute { faults } fuel) count = .finished after ∧
      kept after.tape ∧ after.tape.current = 0 ∧ after.console = machine.console ∧
      after.steps = machine.steps + left machine.tape * (1 + body.size) := by
  induction count generalizing machine with
  | zero =>
      by_cases zero : machine.tape.current = 0
      · refine ⟨machine, by simp [Machine.rounds, zero], start, zero, rfl, ?_⟩
        rw [done machine.tape zero, Nat.zero_mul, Nat.add_zero]
      · have closer := (round machine.tape start zero).2
        omega
  | succ count ih =>
      by_cases zero : machine.tape.current = 0
      · refine ⟨machine, by simp [Machine.rounds, zero], start, zero, rfl, ?_⟩
        rw [done machine.tape zero, Nat.zero_mul, Nat.add_zero]
      · obtain ⟨keeps, closer⟩ := round machine.tape start zero
        have once := (execute_silent { faults } fuel body silent
          { machine with steps := machine.steps + 1 }).finished_of_allowed (by simp)
        obtain ⟨after, ended, kept, ends, console, steps⟩ :=
          @ih ⟨body.reshape machine.tape, machine.steps + 1 + body.size, machine.console⟩ keeps
            (by simp only; omega)
        refine ⟨after, ?_, kept, ends, console, ?_⟩
        · simp only [Machine.rounds, zero, if_false]
          rw [← ended]
          exact congrArg (Outcome.next · _) once
        · rw [steps, ← closer, Nat.succ_mul]
          simp only
          omega

end Node

end TapeTree

import TapeTree.Machine.Session
import TapeTree.Proofs.Machine.Coupling

/-! Runs under a step limit. Every one comes to an end, at a count that depends on the limit and on
the steps before it only, and a looser limit lets it go on from where it was stopped. -/

namespace TapeTree

namespace Outcome

def OverLimit (outcome : Outcome) : Prop :=
  ∃ most steps, outcome.halt? = some (.stepLimit most steps)

/-- A run that began after `start` steps has counted no further than a limit of `most` lets it. -/
structure CountedWithin (most : Int) (start : Nat) (outcome : Outcome) : Prop where
  stopped : ∀ limit steps, outcome.halt? = some (.stepLimit limit steps) →
    limit = most ∧ steps = outcome.machine.steps ∧ (steps : Int) = max most start + 1
  own : ¬ outcome.OverLimit → max most outcome.machine.steps = max most start

theorem not_overLimit_finished (machine : Machine) : ¬ (finished machine).OverLimit := by
  rintro ⟨_, _, exceeded⟩
  cases exceeded

end Outcome

theorem countedWithin_lasting (most : Int) :
    Lasting (some most) fun machine outcome => outcome.CountedWithin most machine.steps where
  here := by
    intro machine
    constructor
    · intro limit steps exceeded
      cases exceeded
    · intro _
      rfl
  next := by
    intro first middle outcome before behind
    have same := before.own (Outcome.not_overLimit_finished middle)
    rw [Outcome.machine_finished] at same
    constructor
    · intro limit steps exceeded
      rw [← same]
      exact behind.stopped limit steps exceeded
    · intro own
      rw [← same]
      exact behind.own own
  tick := by
    intro machine
    rcases machine.tick_cases (some most) with ⟨counted, allowed⟩ | ⟨limit, same, low, exceeded⟩
    · have within := allowed most rfl
      rw [counted]
      constructor
      · intro limit steps exceeded
        cases exceeded
      · intro _
        simp only [Outcome.machine_finished] at within ⊢
        omega
    · cases same
      rw [exceeded]
      constructor
      · intro _ _ exceeded
        cases exceeded
        simp only [Outcome.machine_halted, true_and]
        omega
      · intro own
        exact absurd ⟨_, _, rfl⟩ own
  starved := by
    intro machine
    constructor
    · intro limit steps exceeded
      cases exceeded
    · intro _
      rfl

namespace Node

variable {Hole : Type} {faults : Faults} {most : Int} {fuel : Nat}

theorem effect_not_overLimit (setup : Setup) {node : Node Hole}
    (instruction : node.IsInstruction) (machine : Machine) :
    ¬ (node.effect setup fuel machine).OverLimit := by
  rintro ⟨limit, steps, exceeded⟩
  rcases (effect_acts setup fuel instruction machine).halts exceeded with
    ⟨_, other⟩ | ⟨_, _, other⟩ | ⟨_, other⟩ <;> cases other

theorem execute_countedWithin (tree : Node Hole) (machine : Machine) :
    (tree.execute ⟨faults, some most⟩ fuel machine).CountedWithin most machine.steps := by
  apply execute_lasts (countedWithin_lasting most)
  apply everywhere_of_forall
  intro node instruction start
  constructor
  · intro limit steps exceeded
    exact absurd ⟨limit, steps, exceeded⟩ (effect_not_overLimit _ instruction start)
  · intro _
    rw [steps_effect _ _ instruction]

theorem exists_ends_of_limited (faults : Faults) (most : Int) (tree : Node Hole)
    (machine : Machine) : ∃ outcome, tree.Ends ⟨faults, some most⟩ machine outcome := by
  have enough : most < machine.steps + ((most + 1).toNat : Nat) := by omega
  exact ⟨_, ends_of_limited rfl tree machine enough⟩

theorem Ends.countedWithin {tree : Node Hole} {machine : Machine} {outcome : Outcome}
    (ends : tree.Ends ⟨faults, some most⟩ machine outcome) :
    outcome.CountedWithin most machine.steps := by
  obtain ⟨_, fuel, rfl⟩ := ends
  exact tree.execute_countedWithin machine

theorem Ends.steps_le {tree : Node Hole} {machine : Machine} {outcome : Outcome}
    (ends : tree.Ends ⟨faults, some most⟩ machine outcome) (own : ¬ outcome.OverLimit) :
    (outcome.machine.steps : Int) ≤ most := by
  obtain ⟨_, fuel, rfl⟩ := ends
  have same := (tree.execute_countedWithin machine).own own
  rcases machine.tick_cases (some most) with ⟨_, allowed⟩ | ⟨limit, _, _, exceeded⟩
  · have within := allowed most rfl
    simp only at within
    omega
  · rw [execute_eq, exceeded] at own
    exact absurd ⟨_, _, rfl⟩ own

theorem execute_spent {machine : Machine} (spent : most ≤ machine.steps) (tree : Node Hole) :
    tree.execute ⟨faults, some most⟩ fuel machine =
      .halted (.stepLimit most (machine.steps + 1))
        { machine with steps := machine.steps + 1 } := by
  have exceeded : most < machine.steps + 1 := by omega
  simp [execute_eq, Machine.tick, exceeded]

end Node

/-! Sessions after the limit was hit. -/

def Request.Executes {Hole : Type} : Request Hole → Prop
  | .execute _ => True
  | .executeSource source _ => ∃ tree, Tree.parse false source = .ok tree
  | _ => False

namespace Machine

variable {Hole : Type} {zeros : ArrayMaker} {faults : Faults} {most : Int} {fuel : Nat}

theorem perform_cases (zeros : ArrayMaker) (setup : Setup) (fuel : Nat) (machine : Machine)
    (request : Request Hole) :
    (∃ (Mark : Type) (tree : Node Mark),
      machine.perform zeros setup fuel request = answered (tree.execute setup fuel machine)) ∨
    (¬ request.Executes ∧
      (∀ limit steps,
        (machine.perform zeros setup fuel request).1 ≠ .halted (.stepLimit limit steps)) ∧
      (request ≠ .reset → (machine.perform zeros setup fuel request).2.steps = machine.steps)) := by
  cases request with
  | execute tree => exact Or.inl ⟨Hole, tree, rfl⟩
  | executeSource source passes =>
      rw [perform]
      cases parsed : Tree.parse false source with
      | error error => exact Or.inr ⟨by simp [Request.Executes, parsed], by simp, fun _ => rfl⟩
      | ok tree =>
          cases passes with
          | none => exact Or.inl ⟨Empty, tree, rfl⟩
          | some count => exact Or.inl ⟨Empty, (tree.runPasses count).tree, rfl⟩
  | move | get | set => exact Or.inr ⟨id, by simp [perform], fun _ => rfl⟩
  | reset => exact Or.inr ⟨id, by simp [perform], fun other => absurd rfl other⟩
  | write value =>
      rw [perform]
      rcases machine.write_cases setup.faults value with
        ⟨_, _, _, _, written⟩ | ⟨_, _, _, _, _, written⟩ | ⟨_, written⟩ <;>
      · rw [written]
        exact Or.inr ⟨id, by simp [answered], fun _ => rfl⟩
  | read =>
      rw [perform]
      split
      · exact Or.inr ⟨id, by simp, fun _ => rfl⟩
      · exact Or.inr ⟨id, by simp, fun _ => rfl⟩
  | snapshot start stop =>
      refine Or.inr ⟨id, ?_, fun _ => rfl⟩
      intro limit steps
      rw [perform, Tape.showCells]
      split <;> simp

theorem perform_spent {machine : Machine} (spent : most ≤ machine.steps) {request : Request Hole}
    (executes : request.Executes) :
    machine.perform zeros ⟨faults, some most⟩ fuel request =
      (.halted (.stepLimit most (machine.steps + 1)),
        { machine with steps := machine.steps + 1 }) := by
  rcases machine.perform_cases zeros ⟨faults, some most⟩ fuel request with
    ⟨_, tree, performed⟩ | ⟨none, _, _⟩
  · rw [performed, Node.execute_spent spent]
    rfl
  · exact absurd executes none

theorem perform_stays_spent {machine : Machine} (spent : most ≤ machine.steps)
    {request : Request Hole} (noReset : request ≠ .reset) :
    most ≤ (machine.perform zeros ⟨faults, some most⟩ fuel request).2.steps := by
  rcases machine.perform_cases zeros ⟨faults, some most⟩ fuel request with
    ⟨_, tree, performed⟩ | ⟨_, _, same⟩
  · rw [performed, Node.execute_spent spent]
    simp only [answered]
    omega
  · rw [same noReset]
    exact spent

theorem perform_hit {machine after : Machine} {request : Request Hole} {limit : Int} {steps : Nat}
    (hit : machine.perform zeros ⟨faults, some most⟩ fuel request =
      (.halted (.stepLimit limit steps), after)) : most ≤ after.steps := by
  rcases machine.perform_cases zeros ⟨faults, some most⟩ fuel request with
    ⟨_, tree, performed⟩ | ⟨_, other, _⟩
  · rw [performed] at hit
    have counted : (tree.execute ⟨faults, some most⟩ fuel machine).CountedWithin most _ :=
      tree.execute_countedWithin machine
    cases ended : tree.execute ⟨faults, some most⟩ fuel machine with
    | finished after =>
        rw [ended] at hit
        cases hit
    | halted halt after =>
        rw [ended] at hit counted
        cases hit
        obtain ⟨_, _, exact⟩ := counted.stopped limit steps rfl
        simp only [Outcome.machine_halted] at *
        omega
  · rw [hit] at other
    exact absurd rfl (other limit steps)

theorem performAll_origin {setup : Setup} {machine : Machine} {requests : List (Request Hole)}
    {index : Nat} {result : Answer × Machine}
    (found : (machine.performAll zeros setup fuel requests)[index]? = some result) :
    ∃ (before : Machine) (request : Request Hole),
      result = before.perform zeros setup fuel request := by
  induction requests generalizing machine index with
  | nil => simp [performAll] at found
  | cons request rest ih =>
      cases index with
      | zero => exact ⟨machine, request, by simpa [performAll] using found.symm⟩
      | succ index => exact ih (by simpa [performAll] using found)

theorem performAll_next {setup : Setup} {machine before : Machine}
    {requests : List (Request Hole)} {index : Nat} {answer : Answer}
    (found : (machine.performAll zeros setup fuel requests)[index]? = some (answer, before)) :
    (machine.performAll zeros setup fuel requests)[index + 1]? =
      requests[index + 1]?.map (before.perform zeros setup fuel) := by
  induction requests generalizing machine index with
  | nil => simp [performAll] at found
  | cons request rest ih =>
      cases index with
      | zero =>
          have first : machine.perform zeros setup fuel request = (answer, before) := by
            simpa [performAll] using found
          cases rest <;> simp [performAll, first]
      | succ index =>
          have later := ih (show (performAll zeros setup fuel _ rest)[index]? = _ by
            simpa [performAll] using found)
          simpa [performAll] using later

/-- From a machine with no steps left, none are left until a reset. -/
theorem performAll_spent {machine : Machine} {requests : List (Request Hole)} {hit later : Nat}
    {answer : Answer} {stopped : Machine}
    (found :
      (machine.performAll zeros ⟨faults, some most⟩ fuel requests)[hit]? = some (answer, stopped))
    (spent : most ≤ stopped.steps) (order : hit ≤ later) (inside : later < requests.length)
    (noReset : ∀ index, hit < index → index ≤ later → requests[index]? ≠ some .reset) :
    ∃ answer before, (machine.performAll zeros ⟨faults, some most⟩ fuel requests)[later]? =
      some (answer, before) ∧ most ≤ before.steps := by
  induction later with
  | zero =>
      obtain rfl : hit = 0 := by omega
      exact ⟨answer, stopped, found, spent⟩
  | succ later ih =>
      by_cases here : hit = later + 1
      · subst hit
        exact ⟨answer, stopped, found, spent⟩
      · have earlier (index : Nat) (behind : hit < index) (before : index ≤ later) :=
          noReset index behind (by omega)
        obtain ⟨_, before, reached, left⟩ := ih (by omega) (by omega) earlier
        have performed := performAll_next reached
        rw [List.getElem?_eq_getElem inside, Option.map_some] at performed
        have goesOn := noReset (later + 1) (by omega) (Nat.le_refl _)
        rw [List.getElem?_eq_getElem inside] at goesOn
        refine ⟨_, _, performed, perform_stays_spent left ?_⟩
        intro reset
        exact goesOn (congrArg some reset)

end Machine

/-- Every run under a step limit comes to an end. One that the limit did not stop has counted no
more steps than it allows; one that it stopped has counted one more, or one more than before where
there were too many already. In a session, every tree that is to be run after that until a reset
is stopped at its first step, and nothing but the count of the steps changes. -/
theorem limited_run_stops {Hole : Type} (faults : Faults) (most : Int) :
    (∀ (tree : Node Hole) (machine : Machine),
      (∃ outcome, tree.Ends ⟨faults, some most⟩ machine outcome) ∧
      ∀ outcome, tree.Ends ⟨faults, some most⟩ machine outcome →
        (¬ outcome.OverLimit → (outcome.machine.steps : Int) ≤ most) ∧
        ∀ limit steps, outcome.halt? = some (.stepLimit limit steps) →
          limit = most ∧ steps = outcome.machine.steps ∧
            (steps : Int) = max most machine.steps + 1) ∧
    ∀ (zeros : ArrayMaker) (fuel : Nat) (machine : Machine) (requests : List (Request Hole))
      (hit later : Nat) (limit : Int) (steps : Nat) (stopped : Machine) (request : Request Hole),
      (machine.performAll zeros ⟨faults, some most⟩ fuel requests)[hit]? =
        some (.halted (.stepLimit limit steps), stopped) →
      hit < later → requests[later]? = some request → request.Executes →
      (∀ index, hit < index → index < later → requests[index]? ≠ some .reset) →
      ∃ answer before,
        (machine.performAll zeros ⟨faults, some most⟩ fuel requests)[later - 1]? =
          some (answer, before) ∧
        (machine.performAll zeros ⟨faults, some most⟩ fuel requests)[later]? =
          some (.halted (.stepLimit most (before.steps + 1)),
            { before with steps := before.steps + 1 }) := by
  constructor
  · intro tree machine
    refine ⟨Node.exists_ends_of_limited faults most tree machine, ?_⟩
    intro outcome ends
    exact ⟨ends.steps_le, ends.countedWithin.stopped⟩
  · intro zeros fuel machine requests hit later limit steps stopped request found order here executes
      noReset
    obtain ⟨previous, rfl⟩ : ∃ previous, later = previous + 1 := ⟨later - 1, by omega⟩
    obtain ⟨start, hitting, performed⟩ := Machine.performAll_origin found
    have spent := Machine.perform_hit performed.symm
    have inside := (List.getElem?_eq_some_iff.mp here).1
    obtain ⟨answer, before, reached, left⟩ := Machine.performAll_spent found spent
      (show hit ≤ previous by omega) (by omega)
      (fun index behind ahead => noReset index behind (by omega))
    have next := Machine.performAll_next reached
    rw [here, Option.map_some, Machine.perform_spent left executes] at next
    exact ⟨answer, before, reached, next⟩

theorem endless_loop_stops :
    ((.loop (.block []) : Tree).execute { stepLimit := some 8 } 9
      { tape := ({} : Tape).setCurrent 1, steps := 3 }).machine.steps = 9 ∧
    ∃ answer before,
      (({} : Machine).performAll (zerosWithin fun _ => true) { stepLimit := some 4 } 9
        ([.executeSource "+[]" none, .move 2, .executeSource "." (some none)] :
          List (Request Empty)))[1]? = some (answer, before) ∧
      (({} : Machine).performAll (zerosWithin fun _ => true) { stepLimit := some 4 } 9
        ([.executeSource "+[]" none, .move 2, .executeSource "." (some none)] :
          List (Request Empty)))[2]? =
        some (.halted (.stepLimit 4 (before.steps + 1)),
          { before with steps := before.steps + 1 }) := by
  constructor
  · obtain ⟨_, run⟩ := (limited_run_stops {} 8).1 (.loop (.block []) : Tree)
      { tape := ({} : Tape).setCurrent 1, steps := 3 }
    have ends : (.loop (.block []) : Tree).Ends { stepLimit := some 8 }
        { tape := ({} : Tape).setCurrent 1, steps := 3 } _ :=
      Node.ends_of_limited rfl _ _ (show (8 : Int) < (3 : Nat) + (9 : Nat) by decide)
    obtain ⟨_, same, exact⟩ := (run _ ends).2 8 9 rfl
    exact same.symm
  · refine (limited_run_stops {} 4).2 _ 9 {} _ 0 2 4 5 _ _ rfl (by decide) rfl ⟨_, rfl⟩ ?_
    intro index after before
    obtain rfl : index = 1 := by omega
    simp

/-! Looser limits. -/

namespace Node

variable {Hole : Type} {faults : Faults} {limit wider : Option Int} {tree : Node Hole}
  {machine : Machine} {outcome ending : Outcome}

theorem Ends.looser (ends : tree.Ends ⟨faults, limit⟩ machine outcome)
    (also : tree.Ends ⟨faults, wider⟩ machine ending)
    (looser : ∀ most, wider = some most → ∃ least, limit = some least ∧ least ≤ most) :
    (outcome.OverLimit ∧ outcome.machine.Precedes ending.machine) ∨ outcome = ending := by
  obtain ⟨fuel, ran, went⟩ := ends.together also
  have fed := ends.1
  have together : SameUnless CutShort (tree.execute ⟨faults, limit⟩ fuel machine)
      (tree.execute ⟨faults, wider⟩ fuel machine) :=
    execute_looser looser tree machine
  rw [ran, went] at together
  rcases together with ⟨halt, after, rfl, rfl | ⟨most, steps, rfl⟩, wentOn⟩ | same
  · exact absurd rfl fed
  · exact Or.inl ⟨⟨most, steps, rfl⟩, wentOn⟩
  · exact Or.inr same

theorem Ends.under_looser (ends : tree.Ends ⟨faults, limit⟩ machine outcome)
    (looser : ∀ most, wider = some most → ∃ least, limit = some least ∧ least ≤ most)
    (own : ¬ outcome.OverLimit) : tree.Ends ⟨faults, wider⟩ machine outcome := by
  obtain ⟨fed, fuel, ran⟩ := ends
  have together : SameUnless CutShort (tree.execute ⟨faults, limit⟩ fuel machine)
      (tree.execute ⟨faults, wider⟩ fuel machine) :=
    execute_looser looser tree machine
  rw [ran] at together
  rcases together with ⟨halt, after, rfl, rfl | ⟨most, steps, rfl⟩, _⟩ | same
  · exact absurd rfl fed
  · exact absurd ⟨most, steps, rfl⟩ own
  · exact ⟨fed, fuel, same.symm⟩

theorem Ends.under_stricter {least : Int} (ends : tree.Ends ⟨faults, wider⟩ machine ending)
    (looser : ∀ most, wider = some most → least ≤ most)
    (few : (ending.machine.steps : Int) ≤ least) :
    tree.Ends ⟨faults, some least⟩ machine ending := by
  obtain ⟨cut, limited⟩ := exists_ends_of_limited faults least tree machine
  rcases limited.looser ends (fun most wide => ⟨least, rfl, looser most wide⟩) with
    ⟨⟨most, steps, exceeded⟩, wentOn⟩ | same
  · obtain ⟨_, rfl, exact⟩ := limited.countedWithin.stopped most steps exceeded
    have further := wentOn.steps
    omega
  · rwa [same] at limited

end Node

/-- A looser limit, or none, changes nothing about a run that ends by itself within the stricter
one. Of a run that does not, the output and the input taken from the start are what the stricter
limit lets through first. -/
theorem looser_limit_goes_on {Hole : Type} (faults : Faults) (tree : Node Hole)
    (machine : Machine) (least : Int) (wider : Option Int)
    (looser : ∀ most, wider = some most → least ≤ most) :
    (∀ outcome, tree.Ends ⟨faults, some least⟩ machine outcome → ¬ outcome.OverLimit →
      tree.Ends ⟨faults, wider⟩ machine outcome) ∧
    (∀ outcome, tree.Ends ⟨faults, wider⟩ machine outcome → ¬ outcome.OverLimit →
      (outcome.machine.steps : Int) ≤ least → tree.Ends ⟨faults, some least⟩ machine outcome) ∧
    ∀ outcome ending, tree.Ends ⟨faults, some least⟩ machine outcome →
      tree.Ends ⟨faults, wider⟩ machine ending →
      outcome.machine.console.output.toList <+: ending.machine.console.output.toList ∧
      ∃ taken further,
        machine.console.input = taken ++ outcome.machine.console.input ∧
        machine.console.input = (taken ++ further) ++ ending.machine.console.input := by
  have order (most : Int) (wide : wider = some most) :
      ∃ stricter, some least = some stricter ∧ stricter ≤ most := ⟨least, rfl, looser most wide⟩
  refine ⟨fun outcome ends own => ends.under_looser order own,
    fun outcome ends _ few => ends.under_stricter looser few, ?_⟩
  intro outcome ending ends also
  have precedes : outcome.machine.Precedes ending.machine := by
    rcases ends.looser also order with ⟨_, wentOn⟩ | rfl
    · exact wentOn
    · exact .refl _
  obtain ⟨_, fuel, ran⟩ := ends
  have fromStart := tree.execute_precedes ⟨faults, some least⟩ fuel machine
  rw [ran] at fromStart
  obtain ⟨taken, first⟩ := fromStart.input
  obtain ⟨further, rest⟩ := precedes.input
  exact ⟨precedes.output, taken, further, first.symm, by rw [← first, ← rest, List.append_assoc]⟩

theorem echoing_loop_goes_on :
    ∃ ending, (.loop (.block [.read, .print]) : Tree).Ends {}
      { tape := ({} : Tape).setCurrent 1, console := { input := [5, 7, 0, 3] } } ending ∧
      ending.machine.console.output = #[5, 7, 0] ∧
      ∃ outcome, (.loop (.block [.read, .print]) : Tree).Ends { stepLimit := some 7 }
        { tape := ({} : Tape).setCurrent 1, console := { input := [5, 7, 0, 3] } } outcome ∧
        outcome.OverLimit ∧
        outcome.machine.console.output.toList <+: ending.machine.console.output.toList := by
  let echo : Tree := .loop (.block [.read, .print])
  let start : Machine :=
    { tape := ({} : Tape).setCurrent 1, console := { input := [5, 7, 0, 3] } }
  have finished : (echo.execute {} 4 start).halt? = none := by decide +kernel
  have echoed : (echo.execute {} 4 start).machine.console.output = #[5, 7, 0] := by decide +kernel
  have stopped : (echo.execute { stepLimit := some 7 } 8 start).halt? =
    some (.stepLimit 7 8) := by decide +kernel
  have ends : echo.Ends {} start (echo.execute {} 4 start) :=
    ⟨by rw [finished]; simp, 4, rfl⟩
  have limited : echo.Ends { stepLimit := some 7 } start
      (echo.execute { stepLimit := some 7 } 8 start) :=
    Node.ends_of_limited rfl echo start (show (7 : Int) < (0 : Nat) + (8 : Nat) by decide)
  refine ⟨_, ends, echoed, _, limited, ⟨7, 8, stopped⟩, ?_⟩
  exact ((looser_limit_goes_on {} _ _ 7 none (by simp)).2.2 _ _ limited ends).1

end TapeTree

/-
Assembling is correct.

The image of a text does what the statements of the text say: the machine that
runs it and the interpreter of its statements start in corresponding states, and
stay in corresponding states with each step.
-/
import Asm256.Proofs.Program.Simulation

namespace Asm256

variable {w : Nat} {text : List Char} {a : Assembly} {m : Machine} {s : Program.State}

/-- A program that leaves a byte of data has no label at the end of the memory. -/
theorem Assembly.Sound.targetsFit (h : a.Sound .standard) (hlt : a.image.codeSize < 256) :
    a.TargetsFit := by
  intro s _ o _ name _ l hl
  obtain ⟨front, back, heq, haddress, -⟩ := h.label l (List.mem_of_find?_eq_some hl)
  rw [h.codeSize_eq, heq, Statement.totalSize_append] at hlt
  omega

/-- The interpreter stops where the machine fails. -/
theorem Agree.of_stop {α β : Type} {R : α → β → Prop} {r : EStateM.Result Trap Machine α}
    {stop : Program.Stop} (h : Agree a R r (.error stop s)) :
    ∃ t m, r = .error t m ∧ stop.trap? a.program = some t := by
  cases h with
  | error ht h => exact ⟨_, _, rfl, ht⟩

/-- **Assembling is correct.**  The machine that runs the image of a text starts as the interpreter
of its statements does, executes the same statements one by one, and comes to the same end, as long
as no branch goes to the end of a memory that is full of code.  Neither gets stuck, and on input
with short lines neither meets a numeral that is too long. -/
theorem assemble_correct (h : assemble .standard w text = .ok a) (hfit : a.TargetsFit)
    (input : List Char) :
    Corresponds a (.ofImage a.image input) { input } ∧
      (∀ m s, Corresponds a m s → Agree a Opcode.Encodes m.step (a.program.step s)) ∧
      (∀ n, Agree a Eq ((Machine.ofImage a.image input).iterate n)
        (a.program.iterate n { input })) ∧
      (∀ limit,
        (a.program.run limit { input }).1.ending? a.program =
            some ((Machine.ofImage a.image input).run limit).1 ∧
          Corresponds a ((Machine.ofImage a.image input).run limit).2
            (a.program.run limit { input }).2) ∧
      (LineStream.Short input → ∀ n e,
        (∀ s, a.program.iterate n { input } ≠ .error (.tooLong e) s) ∧
          (a.program.run n { input }).1 ≠ .stopped (.tooLong e)) := by
  have hsound := Assembly.sound_of_assemble h
  have hstart := Corresponds.start hsound input
  refine ⟨hstart, fun m s hms => hms.step hsound hfit, hstart.iterate hsound hfit,
    hstart.run hsound hfit, fun hshort n e => ?_⟩
  have hbetween : (Machine.ofImage a.image input).Between a :=
    Machine.between_start (Machine.runs_ofImage a input) rfl
  -- the machine would have come to that numeral too, in as many steps
  constructor
  · intro s hstop
    have hagree := hstart.iterate hsound hfit n
    rw [hstop] at hagree
    obtain ⟨t, m, hm, ht⟩ := hagree.of_stop
    cases ht
    exact hbetween.iterate_short hsound hshort hm e rfl
  · intro hstop
    have hending := (hstart.run hsound hfit n).1
    rw [hstop] at hending
    have hm : (Machine.ofImage a.image input).run n =
        (.failed (.tooLong e), ((Machine.ofImage a.image input).run n).2) :=
      Prod.ext (Option.some_inj.1 hending).symm rfl
    obtain ⟨k, hk⟩ := Machine.exists_iterate_of_run hm
    exact hbetween.iterate_short hsound hshort hk e rfl

/-- A program that reads a number, branches over a statement and prints the number. -/
theorem assemble_correct_echo : ∃ a,
    assemble .standard 4 "INPUT R0;B x;NOP;x:PRINT R0;HALT".toList = .ok a ∧ a.TargetsFit ∧
    (a.program.run 9 { input := ['7'] }).1 = .halted ∧
    (Machine.run 9 (.ofImage a.image ['7'])).1 = .halted ∧
    (Machine.run 9 (.ofImage a.image ['7'])).2.output = "7\n" := by
  have hrun : ((assemble .standard 4 "INPUT R0;B x;NOP;x:PRINT R0;HALT".toList).toOption.any
      fun a => decide (a.image.codeSize < 256) &&
        decide ((a.program.run 9 { input := ['7'] }).1 = .halted) &&
        decide ((a.program.run 9 { input := ['7'] }).2.output = "7\n")) = true := by
    decide +kernel
  obtain ⟨a, ha, hrun⟩ := exists_ok_of_any hrun
  simp only [Bool.and_eq_true, decide_eq_true_eq] at hrun
  obtain ⟨⟨hsize, hhalted⟩, houtput⟩ := hrun
  have hfit := (Assembly.sound_of_assemble ha).targetsFit hsize
  obtain ⟨-, -, -, hruns, -⟩ := assemble_correct ha hfit ['7']
  obtain ⟨hending, hfinal⟩ := hruns 9
  rw [hhalted] at hending
  exact ⟨a, ha, hfit, hhalted, (Option.some_inj.1 hending).symm, hfinal.output_eq.trans houtput⟩

end Asm256

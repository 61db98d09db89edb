/-
Assembled code never goes wrong.

From the first instruction of an assembled program on, however it branches, the
machine stands between two statements after each step, or behind the last one
(`Machine.Between.iterate`).  So it never takes an operand for an opcode, and
never misses an operand.
-/
import Asm256.Proofs.Program.Boundary

namespace Asm256

open Statement (totalSize)

variable {a : Assembly} {m m' : Machine} {n : Nat}

/-- **Assembled code never goes wrong.**  After any number of steps from its start, the machine is
in front of a statement or behind all of them.  No step finds an invalid opcode or register there,
and only a machine behind all statements finds no instruction, before it takes a byte. -/
theorem assembled_never_goes_wrong {w : Nat} {text : List Char}
    (h : assemble .standard w text = .ok a) (hmemory : m.memory = a.image.memory)
    (hsize : m.codeSize = a.image.codeSize) (hpc : m.pc = 0) (hrun : m.iterate n = .ok () m') :
    ((∃ front s back, a.statements = front ++ s :: back ∧ m'.pc = totalSize front) ∨
        m'.pc = a.image.codeSize) ∧
      ∀ t m'', m'.step = .error t m'' →
        (∀ byte pc, t ≠ .fault (.invalidOpcode byte pc)) ∧
        (∀ index pc, t ≠ .fault (.invalidRegister index pc)) ∧
        ∀ pc : Int, t = .fault (.readPastMemory pc) →
          pc = a.image.codeSize ∧ m'.pc = a.image.codeSize ∧ m'' = m' := by
  have hsound := Assembly.sound_of_assemble h
  have hcode : m.code = a.image.code := by rw [Machine.code, hmemory, hsize, Image.code]
  have hbetween := (Machine.between_start ⟨hsize, hcode⟩ hpc).iterate hsound hrun
  constructor
  · obtain ⟨-, front, back, heq, hpc'⟩ := hbetween
    rcases back with _ | ⟨s, back⟩
    · right
      rw [hpc', hsound.codeSize_eq, heq, List.append_nil]
    · exact .inl ⟨front, s, back, heq, hpc'⟩
  · intro t m'' hstep
    rcases hbetween.step_error hsound hstep with ⟨hend, rfl, rfl⟩ | hdata
    · refine ⟨fun _ _ => by simp, fun _ _ => by simp, fun pc heq => ?_⟩
      simp only [Trap.fault.injEq, Fault.readPastMemory.injEq] at heq
      rw [← heq, hsound.codeSize_eq, hend]
      exact ⟨rfl, rfl, rfl⟩
    · -- the failure is none of reading the code
      refine ⟨?_, ?_, ?_⟩
      · rintro byte pc rfl
        exact hdata trivial
      · rintro index pc rfl
        exact hdata trivial
      · rintro pc rfl
        exact absurd trivial hdata

/-- A program that halts finds no instruction when it goes on. -/
theorem assembled_never_goes_wrong_behind_halt : ∃ a m t m',
    assemble .standard 4 "B x;x:HALT".toList = .ok a ∧
    (Machine.ofImage a.image []).iterate 2 = .ok () m ∧ m.step = .error t m' ∧
    m.pc = a.image.codeSize ∧ m' = m := by
  have hrun : ((assemble .standard 4 "B x;x:HALT".toList).toOption.any fun a =>
      decide (((Exec.iterate 2 >>= fun _ => get).run' (.ofImage a.image [])).map
        (fun m => m.pc) = some a.image.codeSize)) = true := by
    decide +kernel
  obtain ⟨a, ha, hrun⟩ := exists_ok_of_any hrun
  have hsound := Assembly.sound_of_assemble ha
  cases hm : (Machine.ofImage a.image []).iterate 2 with
  | error t m =>
    have hm' : (Exec.iterate 2).run (.ofImage a.image []) = .error t m := hm
    simp [EStateM.run', EStateM.run_bind, hm'] at hrun
  | ok u m =>
    have hm' : (Exec.iterate 2).run (.ofImage a.image []) = .ok u m := hm
    have hpc : m.pc = a.image.codeSize := by
      simpa [EStateM.run', EStateM.run_bind, hm'] using hrun
    have hbetween := (Machine.between_start (Machine.runs_ofImage a []) rfl).iterate hsound hm
    have hstep := hbetween.toRuns.step_behind hsound (hpc.trans hsound.codeSize_eq)
    have hsafe := (assembled_never_goes_wrong ha rfl rfl rfl hm).2 _ m hstep
    obtain ⟨-, hend, heq⟩ := hsafe.2.2 m.pc rfl
    exact ⟨a, m, _, m, ha, hm, hstep, hend, heq⟩

end Asm256

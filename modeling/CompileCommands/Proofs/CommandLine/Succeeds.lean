import CompileCommands.Proofs.CommandLine.Task
import CompileCommands.Proofs.Database.RoundTrip

set_option autoImplicit false

/- When a run succeeds: the packages that are installed will do, there are workers, and there is a plan
that is carried out. -/
namespace CompileCommands

/-- On a sound disk it makes no difference what the entries are. -/
theorem Database.exists_write_eq_ok {disk : FileSystem.Disk} {files after : FileSystem}
    {path : String} {entries : List Entry} {count : Nat} (sound : disk.IsSound)
    (written : write disk files path entries = (after, .ok count)) (others : List Entry) :
    ∃ later, write disk files path others = (later, .ok others.length) := by
  obtain ⟨_, stored⟩ := write_eq_ok written
  obtain ⟨later, again⟩ :=
    FileSystem.exists_writeFile_eq_ok sound stored (Text.Utf8.encode (chars others))
  refine ⟨later, ?_⟩
  rw [write, again]

namespace CommandLine

theorem exitCodeOf_beq_zero (result : Except Failure Unit) :
    (exitCodeOf result == 0) = result.isOk := by
  cases result with
  | ok => rfl
  | error failure => cases failure <;> rfl

theorem exitCodeOf_eq_zero_iff (result : Except Failure Unit) :
    exitCodeOf result = 0 ↔ result = .ok () := by
  rw [← beq_iff_eq, exitCodeOf_beq_zero]
  cases result <;> simp [Except.isOk, Except.toBool]

namespace Options

theorem performs_iff (options : Options) (machine : Machine) (schedule : Schedule)
    (files after : FileSystem) :
    (options.perform machine schedule files).1 = after ∧
        (options.perform machine schedule files).2.result = .ok () ↔
      options.HasWorkers ∧ options.done machine files = (after, .ok ()) := by
  constructor
  · rintro ⟨left, ended⟩
    have enough : options.HasWorkers := by
      rw [perform] at ended
      cases made : (options.prepared machine schedule files).result with
      | error failure => simp [made] at ended
      | ok plan => exact options.hasWorkers_of_result_prepared made
    obtain ⟨same, answer⟩ := options.perform_eq_done enough machine schedule files
    exact ⟨enough, Prod.ext (same.symm.trans left) (answer.symm.trans ended)⟩
  · rintro ⟨enough, done⟩
    obtain ⟨same, answer⟩ := options.perform_eq_done enough machine schedule files
    rw [same, answer, done]
    exact ⟨rfl, rfl⟩

/-- Whether a plan is carried out: a database of its entries is written, and it is shown that it was. -/
structure CarriesOut (options : Options) (machine : Machine) (files : FileSystem) (plan : Plan)
    (output : String) (after : FileSystem) : Prop where
  place : options.output = .value output
  stored : Database.write machine.disk files output plan.entries = (after, .ok plan.entries.length)
  told : (Event.wroteCommands plan.entries.length plan.targets output).shownOn machine.screen =
    .ok ()

theorem written_eq_ok_iff (options : Options) (machine : Machine) (files after : FileSystem)
    (plan : Plan) :
    (options.written machine files plan).1 = after ∧
        (options.written machine files plan).2.result = .ok () ↔
      ∃ output, options.CarriesOut machine files plan output after := by
  unfold written
  split
  · next withheld =>
    simp only [Account.result_quiet, reduceCtorEq, and_false, false_iff]
    rintro ⟨output, place, _, _⟩
    cases withheld.symm.trans place
  · next output place =>
    split
    · next failed =>
      simp only [Account.result_quiet, reduceCtorEq, and_false, false_iff]
      rintro ⟨_, placeToo, stored, _⟩
      cases place.symm.trans placeToo
      cases failed.symm.trans stored
    · next left count stored =>
      obtain ⟨rfl, _⟩ := Database.write_eq_ok stored
      simp only [Account.result_bind, Account.result_tell, Account.result_print, ok_bind]
      constructor
      · rintro ⟨rfl, told⟩
        exact ⟨output, place, stored, told⟩
      · rintro ⟨_, placeToo, storedToo, told⟩
        cases place.symm.trans placeToo
        cases stored.symm.trans storedToo
        exact ⟨rfl, told⟩

/-- All is done if there is a plan, and it is carried out. -/
theorem done_eq_ok_iff (options : Options) (machine : Machine) (files after : FileSystem) :
    options.done machine files = (after, .ok ()) ↔ ∃ plan output,
      options.plan machine files = .ok plan ∧
        options.CarriesOut machine files plan output after := by
  rw [done]
  cases options.plan machine files with
  | error failure => simp
  | ok plan =>
      rw [Prod.mk.injEq, written_eq_ok_iff]
      simp

end Options

namespace Environment

/-- Whether the packages that are installed will do. -/
def Satisfies (environment : Environment) (options : Options) : Prop :=
  ∃ installed least,
    environment.verdict (environment.isColoured options) = .ok (.satisfied installed least)

theorem succeeds_iff (environment : Environment) (options : Options) (files after : FileSystem) :
    (environment.runWith options files).exitCode = 0 ∧
        (environment.runWith options files).files = after ↔
      environment.Satisfies options ∧ options.HasWorkers ∧
        options.done environment.toMachine files = (after, .ok ()) := by
  rw [← Options.performs_iff options _ environment.schedule, runWith, Satisfies]
  dsimp only
  split
  · next faulty => simp [faulty]
  · next refused => simp [refused]
  · next satisfied => simp [satisfied, exitCodeOf_eq_zero_iff, and_comm]

theorem run_of_parse {environment : Environment} {arguments : List String} {options : Options}
    {files : FileSystem} (accepted : Options.parse arguments = .ok options) :
    environment.run arguments files = environment.runWith options files := by
  rw [run, accepted]

end Environment

end CommandLine

end CompileCommands

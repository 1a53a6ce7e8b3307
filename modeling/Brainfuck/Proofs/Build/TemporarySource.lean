import Brainfuck.Build
import Brainfuck.Proofs.Emit.Writing
import Brainfuck.Proofs.Execution.Progress

/-! The temporary source of a build: the toolchain finds the program in it, and it is gone however the
build ends. As in `generate`, sizes and counts are taken to be written at any length. -/
namespace Brainfuck

/-- What a computation comes to, whatever state it leaves. -/
def outcome {ε σ α : Type} : EStateM.Result ε σ α → Except ε α
  | .ok a _ => .ok a
  | .error e _ => .error e

namespace Build

/-- What a build comes to once the toolchain has been called. -/
def Verdict.outcome (source destination : Path) : Verdict → Except BuildError Path
  | .accepted => .ok destination
  | .rejected => .error (.rejected source destination)
  | .raised f => .error (.raised f)

/-- The warning about a source that is gone before it is removed. -/
def goneWarning (source : Path) : Log.Record :=
  Compiler.record .warning ("Could not remove temporary source " ++ source.text ++
    ": [Errno 2] No such file or directory: " ++ Text.quoted source.text)

def compiled (destination : Path) : Log.Record :=
  Compiler.record .debug ("Compiled executable -> " ++ destination.text)

/-- The writes that a program is written in, and after them the one that closes the file. -/
def closingWrite (p : Program) : Nat := 2 + 2 * (1 + p.size + p.loops)

/-- No write to the temporary source fails. -/
def Workspace.Writes (w : Workspace) (p : Program) : Prop :=
  ∀ n ≤ closingWrite p, w.writeFault n = none

/-- This is the fault of the first write that fails. -/
def Workspace.FailsToWrite (w : Workspace) (p : Program) (f : Fault) : Prop :=
  ∃ k ≤ closingWrite p, w.writeFault k = some f ∧ ∀ n < k, w.writeFault n = none

variable {m : Int} {p : Program} {t : Toolchain} {src dst : Path} {w : Workspace} {text : String}
  {e : Emit.EmitError} {v : Verdict} {f : Fault}

theorem outcome_eq_ok_iff : v.outcome src dst = .ok dst ↔ v = .accepted := by
  cases v <;> simp [Verdict.outcome]

theorem outcome_eq_rejected_iff :
    v.outcome src dst = .error (.rejected src dst) ↔ v = .rejected := by
  cases v <;> simp [Verdict.outcome]

theorem outcome_eq_raised_iff : v.outcome src dst = .error (.raised f) ↔ v = .raised f := by
  cases v <;> simp [Verdict.outcome]

theorem remove_source (src : Path) (w : Workspace) : (w.remove src).source = none := by
  unfold Workspace.remove
  split
  · rfl
  · assumption

theorem remove_invocations (src : Path) (w : Workspace) :
    (w.remove src).invocations = w.invocations := by
  unfold Workspace.remove
  split <;> rfl

/-- A removal warns if there is nothing to remove, and only then. -/
theorem remove_log (src : Path) (w : Workspace) :
    (w.remove src).log = w.log ++ if w.source.isSome then [] else [goneWarning src] := by
  unfold Workspace.remove
  cases hs : w.source with
  | some text => exact (List.append_nil w.log).symm
  | none => rfl

/-- Whatever the compilation leaves, the source is removed from it. -/
theorem build_source (m : Int) (p : Program) (t : Toolchain) (src dst : Path) (w : Workspace) :
    (leaves (build m p t src dst w)).source = none := by
  unfold build
  cases compile m p t src dst w with
  | ok _ done => exact remove_source src done
  | error e done => exact remove_source src done

/-- Nothing is written if there is no program to be generated. -/
theorem writeSource_of_error (h : Emit.pieces m p = .error e) :
    writeSource m p w = .error (.emit e) { w with source := some "" } := by
  rw [writeSource, Emit.generate_of_error h]

theorem writeSource_of_writes (hm : 1 ≤ m) (hp : p.isKnown = true) (hw : w.Writes p) :
    writeSource m p w = .ok () { w with source := some (String.join (Emit.laidOut m p)) } := by
  have hlength : (Emit.laidOut m p).length = closingWrite p := Emit.length_laidOut hp
  have hwrites := Emit.TextOutput.writeAll_ok (j := 0) (Emit.laidOut m p) "" fun n _ hn =>
    hw n (by omega)
  rw [Nat.zero_add, String.empty_append] at hwrites
  have hgenerate := Emit.generate_of_written (Emit.pieces_of_known hm hp) hwrites
  have hclosing : w.writeFault (Emit.laidOut m p).length = none := hw _ (Nat.le_of_eq hlength)
  simp only [writeSource, hgenerate, hclosing]

/-- The write that fails is one of the program's pieces, or the one that closes the file. -/
theorem writeSource_of_fault (hm : 1 ≤ m) (hp : p.isKnown = true) (hw : w.FailsToWrite p f) :
    ∃ text, writeSource m p w = .error (.raised f) { w with source := some text } := by
  obtain ⟨k, hk, hf, hbefore⟩ := hw
  have hlength : (Emit.laidOut m p).length = closingWrite p := Emit.length_laidOut hp
  rcases Nat.eq_or_lt_of_le hk with rfl | hlt
  · have hwrites := Emit.TextOutput.writeAll_ok (j := 0) (Emit.laidOut m p) "" fun n _ hn =>
      hbefore n (by omega)
    rw [Nat.zero_add] at hwrites
    have hgenerate := Emit.generate_of_written (Emit.pieces_of_known hm hp) hwrites
    rw [← hlength] at hf
    exact ⟨_, by simp only [writeSource, hgenerate, hf]; rfl⟩
  · have hwrites := Emit.TextOutput.writeAll_error (Emit.laidOut m p) "" (Nat.zero_le k)
      (by omega) hf fun n _ => hbefore n
    have hgenerate := Emit.generate_of_fault (Emit.pieces_of_known hm hp) hwrites
    exact ⟨_, by simp only [writeSource, hgenerate]; rfl⟩

/-- What could not be written is not compiled. -/
theorem compile_of_unwritten {x : BuildError} {done : Workspace}
    (h : writeSource m p w = .error x done) : compile m p t src dst w = .error x done := by
  change EStateM.bind _ _ _ = _
  rw [EStateM.bind, h]

theorem compile_of_written {done : Workspace} (h : writeSource m p w = .ok () done) :
    compile m p t src dst w = invoke t src dst done := by
  change EStateM.bind _ _ _ = _
  rw [EStateM.bind, h]

/-- What is not generated is not compiled: the toolchain is never called. -/
theorem build_of_error (h : Emit.pieces m p = .error e) :
    build m p t src dst w = .error (.emit e) { w with source := none } := by
  unfold build
  rw [compile_of_unwritten (writeSource_of_error h)]
  rfl

/-- Neither is what could not be written. -/
theorem build_of_fault (hm : 1 ≤ m) (hp : p.isKnown = true) (hw : w.FailsToWrite p f) :
    build m p t src dst w = .error (.raised f) { w with source := none } := by
  obtain ⟨text, hwrite⟩ := writeSource_of_fault hm hp hw
  unfold build
  rw [compile_of_unwritten hwrite]
  rfl

/-- What the toolchain was given, and what it left. -/
def Workspace.invoked (t : Toolchain) (src dst : Path) (w : Workspace) : Workspace where
  writeFault := w.writeFault
  source := if (t src dst).deletesSource then none else w.source
  invocations := w.invocations ++ [⟨(t src dst).command, dst, w.source⟩]
  log := w.log ++ (t src dst).log

theorem invoke_eq (t : Toolchain) (src dst : Path) (w : Workspace) : invoke t src dst w =
    match (t src dst).verdict with
    | .accepted => .ok () (w.invoked t src dst)
    | .rejected => .error (.rejected src dst) (w.invoked t src dst)
    | .raised f => .error (.raised f) (w.invoked t src dst) := rfl

theorem record_nil (w : Workspace) : w.record [] = w := by
  cases w
  simp [Workspace.record]

/-- After the toolchain has been called, the source is removed whatever the verdict was, and the verdict
stands whatever the removal finds. -/
theorem build_of_writes (t : Toolchain) (src dst : Path) (hm : 1 ≤ m) (hp : p.isKnown = true)
    (hw : w.Writes p) :
    outcome (build m p t src dst w) = (t src dst).verdict.outcome src dst ∧
    leaves (build m p t src dst w) =
      ((Workspace.invoked t src dst { w with source := some (String.join (Emit.laidOut m p)) }).remove
        src).record (if (t src dst).verdict = .accepted then [compiled dst] else []) := by
  unfold build
  rw [compile_of_written (writeSource_of_writes hm hp hw), invoke_eq]
  cases (t src dst).verdict with
  | accepted => exact ⟨rfl, rfl⟩
  | rejected => exact ⟨rfl, (record_nil _).symm⟩
  | raised f => exact ⟨rfl, (record_nil _).symm⟩

theorem build_invocations (hm : 1 ≤ m) (hp : p.isKnown = true) (hw : w.Writes p) :
    (leaves (build m p t src dst w)).invocations =
      w.invocations ++ [⟨(t src dst).command, dst, some (String.join (Emit.laidOut m p))⟩] := by
  obtain ⟨-, hleaves⟩ := build_of_writes t src dst hm hp hw
  rw [hleaves]
  exact remove_invocations src _

theorem build_log (hm : 1 ≤ m) (hp : p.isKnown = true) (hw : w.Writes p) :
    (leaves (build m p t src dst w)).log = w.log ++ (t src dst).log ++
      (if (t src dst).deletesSource then [goneWarning src] else []) ++
      (if (t src dst).verdict = .accepted then [compiled dst] else []) := by
  obtain ⟨-, hleaves⟩ := build_of_writes t src dst hm hp hw
  rw [hleaves, Workspace.record, remove_log, Workspace.invoked]
  cases (t src dst).deletesSource <;> rfl

/-- A compiler accepts a source if its process could be started and ended with status zero. -/
theorem verdict_eq_accepted_iff (c : Compiler) (run : ToolRun) (src dst : Path) :
    (c.toolchain run src dst).verdict = .accepted ↔ run.ending = .ok 0 := by
  unfold Compiler.toolchain
  cases hrun : run.ending with
  | error f => by_cases hf : f.isSystem = true <;> simp [hf]
  | ok status => by_cases hs : status = 0 <;> simp [hs]

/-- It raises nothing where the process is started or the system says why not. -/
theorem verdict_eq_rejected_iff (c : Compiler) (run : ToolRun) (src dst : Path) :
    (c.toolchain run src dst).verdict = .rejected ↔
      (∃ f : Fault, run.ending = .error f ∧ f.isSystem = true) ∨
      ∃ status, run.ending = .ok status ∧ status ≠ 0 := by
  unfold Compiler.toolchain
  cases hrun : run.ending with
  | error f => by_cases hf : f.isSystem = true <;> simp [hf]
  | ok status => by_cases hs : status = 0 <;> simp [hs]

/-- The temporary source is gone after every build. The toolchain is called once, on a source that holds
the generated program, if there is one and no write of it fails, and otherwise never. What it says decides
what the build comes to, also when the source is gone before it is removed: then a warning is all there is of
it. Where a write fails, its fault is what the build comes to. -/
theorem build_removes_source (m : Int) (p : Program) (t : Toolchain) (src dst : Path)
    (w : Workspace) : ∃ r done, build m p t src dst w = r ∧ leaves r = done ∧ done.source = none ∧
    (1 ≤ m ∧ p.isKnown = true → ∃ text, Emit.source m p = .ok text ∧
      (w.Writes p →
        done.invocations = w.invocations ++ [⟨(t src dst).command, dst, some text⟩] ∧
        (outcome r = .ok dst ↔ (t src dst).verdict = .accepted) ∧
        (outcome r = .error (.rejected src dst) ↔ (t src dst).verdict = .rejected) ∧
        (∀ f, outcome r = .error (.raised f) ↔ (t src dst).verdict = .raised f) ∧
        done.log = w.log ++ (t src dst).log ++
          (if (t src dst).deletesSource then [goneWarning src] else []) ++
          (if (t src dst).verdict = .accepted then [compiled dst] else [])) ∧
      ∀ f, w.FailsToWrite p f →
        outcome r = .error (.raised f) ∧ done.invocations = w.invocations ∧ done.log = w.log) ∧
    (¬ (1 ≤ m ∧ p.isKnown = true) → ∃ e, Emit.source m p = .error e ∧
      outcome r = .error (.emit e) ∧ done.invocations = w.invocations ∧ done.log = w.log) ∧
    ∀ c run, t = Compiler.toolchain c run →
      ((t src dst).verdict = .accepted ↔ run.ending = .ok 0) ∧
      ((t src dst).verdict = .rejected ↔
        (∃ f : Fault, run.ending = .error f ∧ f.isSystem = true) ∨
        ∃ status, run.ending = .ok status ∧ status ≠ 0) := by
  refine ⟨_, _, rfl, rfl, build_source m p t src dst w, ?generated, ?refused, ?compiler⟩
  case generated =>
    rintro ⟨hm, hp⟩
    refine ⟨_, Emit.source_eq_join hm hp, fun hw => ?_, fun f hf => ?_⟩
    · obtain ⟨houtcome, -⟩ := build_of_writes t src dst hm hp hw
      rw [houtcome]
      exact ⟨build_invocations hm hp hw, outcome_eq_ok_iff, outcome_eq_rejected_iff,
        fun _ => outcome_eq_raised_iff, build_log hm hp hw⟩
    · rw [build_of_fault hm hp hf]
      exact ⟨rfl, rfl, rfl⟩
  case refused =>
    intro hmp
    obtain ⟨e, he⟩ : ∃ e, Emit.pieces m p = .error e := by
      by_cases hm : m < 1
      · exact ⟨_, Emit.pieces_of_tooSmall hm⟩
      · have hp : p.isKnown = false := by
          rw [← Bool.not_eq_true]
          exact fun hp => hmp ⟨by omega, hp⟩
        exact ⟨_, Emit.pieces_of_unknown (by omega) hp⟩
    have hsource : Emit.source m p = .error e := by
      rw [Emit.source, he]
      rfl
    rw [build_of_error he]
    exact ⟨e, hsource, rfl, rfl, rfl⟩
  case compiler =>
    rintro c run rfl
    exact ⟨verdict_eq_accepted_iff c run src dst, verdict_eq_rejected_iff c run src dst⟩

end Build

end Brainfuck

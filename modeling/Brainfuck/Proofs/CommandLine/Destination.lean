import Brainfuck.Proofs.Build.TemporarySource
import Brainfuck.Proofs.CommandLine.Interpret
import Brainfuck.Proofs.Path

/-! Where an executable is built, and when that is the path of its source. -/
namespace Brainfuck.CommandLine

variable {source dir : String} {w : World} {argv : List String} {set : Settings}

/-! The last component of a destination. -/

theorem destination_of_stem (h : Path.Component (Path.ofString source).stem) :
    destination source dir =
      ⟨(Path.ofString dir).root, (Path.ofString dir).parts ++ [(Path.ofString source).stem]⟩ := by
  unfold destination
  dsimp only
  rw [if_neg h.ne_empty, Path.ofString_component h]
  rfl

theorem destination_of_nameless (h : (Path.ofString source).stem = "") :
    destination source dir =
      ⟨(Path.ofString dir).root, (Path.ofString dir).parts ++ ["program.out"]⟩ := by
  unfold destination
  rw [h]
  rfl

/-- A lone dot vanishes, and what is left is the directory. -/
theorem destination_of_dot (h : (Path.ofString source).stem = ".") :
    destination source dir = Path.ofString dir := by
  unfold destination
  rw [h]
  exact congrArg (Path.mk _) (List.append_nil _)

theorem destination_normal (source dir : String) : (destination source dir).Normal :=
  Path.normal_join (Path.normal_ofString dir) (Path.normal_ofString _)

/-- There is a name, the stem is all of it, and the directory is the one that the source is in; or the stem
vanishes, and the directory is given as the source itself. -/
def Coincides (source dir : String) : Prop :=
  ((Path.ofString source).parts ≠ [] ∧ Path.Suffixless (Path.ofString source).name.toList ∧
    Path.ofString dir = (Path.ofString source).parent) ∨
  Path.TwoDotted (Path.ofString source).name.toList ∧ Path.ofString dir = Path.ofString source

theorem destination_eq_source_iff (source dir : String) :
    destination source dir = Path.ofString source ↔ Coincides source dir := by
  unfold Coincides
  rcases Path.stem_cases (Path.normal_ofString source)
    with ⟨hparts, hstem⟩ | ⟨init, c, hparts, hname, hstem⟩
  · rw [destination_of_nameless hstem]
    constructor
    · intro h
      have hempty := congrArg Path.parts h
      simp [hparts] at hempty
    · rintro (⟨hne, -⟩ | ⟨⟨rest, -, -, hname⟩, -⟩)
      · exact (hne hparts).elim
      · simp [Path.name, hparts] at hname
  · have hc : Path.Component c := Path.normal_ofString source c (by simp [hparts])
    have hdot := Path.stem_eq_dot_iff (hname.symm ▸ hc.ne_dot)
    have hwhole := Path.stem_eq_name_iff (p := Path.ofString source)
    rw [← hdot, ← hwhole]
    rcases hstem with hstem | hstem
    · rw [destination_of_dot hstem, hstem, hname]
      simp [hc.ne_dot.symm]
    · have hne : (Path.ofString source).parts ≠ [] := by simp [hparts]
      rw [destination_of_stem hstem, Path.extend_eq_iff hparts, hname]
      simp [hstem.ne_dot, hne]

/-! What the compiler is called with. -/

/-- What a command line asks for that is to build an executable, of a file that holds a program. -/
structure Compiles (w : World) (argv : List String) (set : Settings) (dir : String) : Prop where
  read : Settings.read argv = .settings set
  mode : set.mode = .compile
  outputDir : set.outputDir = some dir
  memory : ∃ n, set.memory = some n
  readable : ∃ text p, decodeSource set.source (w.read set.source) = .ok text ∧
    Program.parse text = .ok p

/-- The compiler that settings choose. -/
def compilerOf (w : World) (set : Settings) : Build.Compiler :=
  Build.Compiler.choose set.compiler w.environment Build.Compiler.defaultFlags

theorem compile_reports {n : Int} (w : World) (p : Program) (log : String)
    (hdir : set.outputDir = some dir) (hmemory : set.memory = some n) :
    ∃ r, r = Build.build n p ((compilerOf w set).toolchain w.tool) w.temporary
        (destination set.source dir) .empty ∧
      (compile set w p log).invocations = (leaves r).invocations ∧
      (outcome r = .ok (destination set.source dir) → (compile set w p log).exit = .status 0) := by
  refine ⟨_, rfl, ?_⟩
  unfold compile compilerOf
  rw [hdir, hmemory]
  dsimp only
  cases Build.build n p (Build.Compiler.toolchain _ w.tool) w.temporary _ .empty with
  | ok _ done => exact ⟨rfl, fun _ => rfl⟩
  | error e done =>
    refine ⟨?_, fun h => by cases h⟩
    cases e <;> rfl

theorem command_of_toolchain (c : Build.Compiler) (tool : Build.ToolRun) (src dst : Path) :
    (c.toolchain tool src dst).command = some (c.command src dst) := by
  unfold Build.Compiler.toolchain
  dsimp only
  split
  · split <;> rfl
  · split <;> rfl

/-- The compiler is called once, with the destination, and if it accepts the source the status is zero. -/
theorem run_of_compiles (h : Compiles w argv set dir) (rounds : Nat) :
    ∃ inv, (run rounds w argv).invocations = [inv] ∧
      inv.destination = destination set.source dir ∧
      inv.command = some ((compilerOf w set).command w.temporary inv.destination) ∧
      (w.tool.ending = .ok 0 → (run rounds w argv).exit = .status 0) := by
  obtain ⟨n, hmemory⟩ := h.memory
  obtain ⟨text, p, htext, hp⟩ := h.readable
  have hn := Settings.memory_pos_of_read h.read n hmemory
  have hknown := isKnown_optimize_of_parse hp
  have hrun : run rounds w argv = compile set w p.optimize
      (logText set.verbose (Log.parsed text p :: Log.optimized p p.optimize)) := by
    simp only [run, h.read, plan, htext, hp, h.mode]
    rfl
  obtain ⟨r, hr, hinvocations, hexit⟩ := compile_reports w p.optimize
    (logText set.verbose (Log.parsed text p :: Log.optimized p p.optimize)) h.outputDir hmemory
  rw [hrun, hinvocations, hr, Build.build_invocations hn hknown fun _ _ => rfl, command_of_toolchain]
  generalize destination set.source dir = dst at hr hexit ⊢
  refine ⟨_, rfl, rfl, rfl, fun hended => hexit ?_⟩
  obtain ⟨houtcome, -⟩ :=
    Build.build_of_writes (w := .empty) ((compilerOf w set).toolchain w.tool) w.temporary dst hn hknown
      fun _ _ => rfl
  rw [hr, houtcome, Build.outcome_eq_ok_iff, Build.verdict_eq_accepted_iff]
  exact hended

/-- The compiler is called once, and told to write to the destination. That is the path of the source in two
cases only: the name of the source has no suffix that its stem would lose, and the directory is the one
that the source is in; or that name is two dots before a suffix, and the directory is given as the source.
Paths that differ have different texts, so in all other cases the compiler is told another path. Which file a
path leads to is not looked at. -/
theorem destination_coincides_iff (h : Compiles w argv set dir) (rounds : Nat) :
    ∃ inv, (run rounds w argv).invocations = [inv] ∧
      inv.destination = destination set.source dir ∧
      inv.command = some ((compilerOf w set).command w.temporary inv.destination) ∧
      (w.tool.ending = .ok 0 → (run rounds w argv).exit = .status 0) ∧
      (inv.destination = Path.ofString set.source ↔ Coincides set.source dir) ∧
      (inv.destination.text = (Path.ofString set.source).text ↔ Coincides set.source dir) := by
  obtain ⟨inv, hinvocations, hdestination, hcommand, hexit⟩ := run_of_compiles h rounds
  have hcoincides := destination_eq_source_iff set.source dir
  have htexts := Path.text_inj (destination_normal set.source dir) (Path.normal_ofString set.source)
  refine ⟨inv, hinvocations, hdestination, hcommand, hexit, ?_⟩
  rw [hdestination]
  exact ⟨hcoincides, htexts.trans hcoincides⟩

/-- Every file holds a program of one instruction. -/
def smallFiles : World := { emptyFile with read := fun _ => .ok (Text.utf8 "+") }

def building (source dir : String) : Settings :=
  { Settings.start with source := source, mode := .compile, outputDir := some dir }

theorem compiles_small {source dir : String}
    (h : Settings.read argv = .settings (building source dir)) :
    Compiles smallFiles argv (building source dir) dir where
  read := h
  mode := rfl
  outputDir := rfl
  memory := ⟨4096, rfl⟩
  readable := ⟨Text.unified "+", [.act (.apply .increment .one)], decodeSource_utf8 source "+", rfl⟩

theorem destination_coincides_iff_suffixed :
    Compiles smallFiles ["-x", "compile", "-o", "out", "bin/hello.bf"]
      (building "bin/hello.bf" "out") "out" ∧
    ∃ inv, (run 0 smallFiles ["-x", "compile", "-o", "out", "bin/hello.bf"]).invocations = [inv] ∧
      inv.command = some ["cc", "-O2", "-o", "out/hello", "/tmp/p.c"] ∧
      ¬ Coincides "bin/hello.bf" "out" := by
  have h : Compiles smallFiles ["-x", "compile", "-o", "out", "bin/hello.bf"]
      (building "bin/hello.bf" "out") "out" := compiles_small rfl
  obtain ⟨inv, hinvocations, hdestination, hcommand, -, hcoincides, -⟩ :=
    destination_coincides_iff h 0
  refine ⟨h, inv, hinvocations, ?_, fun hsame => ?_⟩
  · rw [hcommand, hdestination]
    decide
  · have hne : destination "bin/hello.bf" "out" ≠ Path.ofString "bin/hello.bf" := by decide
    exact hne (hdestination.symm.trans (hcoincides.mpr hsame))

/-- The compiler is told to write to the path of a source without a suffix, and the status is zero; and so it
is for a source whose stem vanishes. -/
theorem suffixless_source_coincides :
    (run 0 smallFiles ["-x", "compile", "hello"]).exit = .status 0 ∧
    (∃ inv, (run 0 smallFiles ["-x", "compile", "hello"]).invocations = [inv] ∧
      inv.destination = Path.ofString "hello" ∧
      inv.command = some ["cc", "-O2", "-o", "hello", "/tmp/p.c"]) ∧
    (run 0 smallFiles ["-x", "compile", "-o", "..bf", "..bf"]).exit = .status 0 ∧
    ∃ inv, (run 0 smallFiles ["-x", "compile", "-o", "..bf", "..bf"]).invocations = [inv] ∧
      inv.destination = Path.ofString "..bf" ∧
      inv.command = some ["cc", "-O2", "-o", "..bf", "/tmp/p.c"] := by
  have hplain : Compiles smallFiles ["-x", "compile", "hello"] (building "hello" ".") "." :=
    compiles_small rfl
  have hdotted : Compiles smallFiles ["-x", "compile", "-o", "..bf", "..bf"]
      (building "..bf" "..bf") "..bf" := compiles_small rfl
  obtain ⟨plain, hplainCalls, hplainDestination, hplainCommand, hplainExit⟩ :=
    run_of_compiles hplain 0
  obtain ⟨dotted, hdottedCalls, hdottedDestination, hdottedCommand, hdottedExit⟩ :=
    run_of_compiles hdotted 0
  have hplainSame : destination "hello" "." = Path.ofString "hello" := by decide
  have hdottedSame : destination "..bf" "..bf" = Path.ofString "..bf" := by decide
  refine ⟨hplainExit rfl, ⟨plain, hplainCalls, hplainDestination.trans hplainSame, ?_⟩,
    hdottedExit rfl, dotted, hdottedCalls, hdottedDestination.trans hdottedSame, ?_⟩
  · rw [hplainCommand, hplainDestination]
    decide
  · rw [hdottedCommand, hdottedDestination]
    decide

end Brainfuck.CommandLine

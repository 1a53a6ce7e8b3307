import Brainfuck.Emit.Statement
import Brainfuck.Program.Text
import Brainfuck.Proofs.Execution.Settling
import Brainfuck.Proofs.Walk.Traversal

/-! Walking with a stack of open passes is the recursive traversal: each round is one encounter. -/
namespace Brainfuck

variable {ε σ : Type} {v : Visitor ε σ} {eager : Bool} {pending : σ → List Bool}
  {answers : List Bool} {s : σ}

namespace Visitor

/-- The answers of the visitor are those pending in its state, taken in order; once none is left, it enters
loops or not, and never walks one again. -/
structure Follows (v : Visitor ε σ) (eager : Bool) (pending : σ → List Bool) : Prop where
  act : ∀ {a s s'}, v.act a s = .ok () s' → pending s' = pending s
  enter : ∀ {body answer s s'}, v.enter body s = .ok answer s' →
    answer = (pending s).headD eager ∧ pending s' = (pending s).tail
  again : ∀ {body answer s s'}, v.again body s = .ok answer s' →
    answer = (pending s).headD false ∧ pending s' = (pending s).tail

/-- What a call returns if it gives this answer unless it fails. -/
def answering (answer : Bool) : EStateM.Result ε σ Unit → EStateM.Result ε σ Bool
  | .ok _ s => .ok answer s
  | .error x s => .error x s

/-- The handler call of an encounter ends like this, with the answer that belongs to it. -/
def Meets (v : Visitor ε σ) (s : σ) (r : EStateM.Result ε σ Unit) : Encounter → Prop
  | .act a => v.act a s = r
  | .enter body answer => v.enter body s = answering answer r
  | .again body answer => v.again body s = answering answer r

/-- The handler calls of a list of encounters, one after the other, end like this; the first that fails is the
last one made. -/
inductive MeetsAll (v : Visitor ε σ) : σ → List Encounter → EStateM.Result ε σ Unit → Prop
  | done {s : σ} : MeetsAll v s [] (.ok () s)
  | next {s s' : σ} {e es r} (now : v.Meets s (.ok () s') e) (later : MeetsAll v s' es r) :
    MeetsAll v s (e :: es) r
  | fails {s s' : σ} {x e es} (now : v.Meets s (.error x s') e) : MeetsAll v s (e :: es) (.error x s')

/-- One round for each encounter: the walk fails where the calls do, and otherwise it comes to these frames
with these answers pending. -/
def Plays (v : Visitor ε σ) (pending : σ → List Bool) (frames : List Frame) (s : σ)
    (es : List Encounter) (frames' : List Frame) (left : List Bool) : Prop :=
  (∃ s', v.MeetsAll s es (.ok () s') ∧ v.rounds es.length frames s = .ok frames' s' ∧
    pending s' = left) ∨
  ∃ x s', v.MeetsAll s es (.error x s') ∧ v.rounds es.length frames s = .error x s'

section plays

variable {es es' : List Encounter} {e : Encounter} {frames frames₁ frames₂ : List Frame}
  {middle left : List Bool} {s' : σ} {x : ε} {r : EStateM.Result ε σ Unit}

theorem meetsAll_append (h : v.MeetsAll s es (.ok () s')) (h' : v.MeetsAll s' es' r) :
    v.MeetsAll s (es ++ es') r := by
  generalize hr : EStateM.Result.ok () s' = r₁ at h
  induction h with
  | done =>
    cases hr
    exact h'
  | next now _ ih => exact .next now (ih hr)
  | fails => cases hr

theorem meetsAll_append_error (h : v.MeetsAll s es (.error x s')) (es' : List Encounter) :
    v.MeetsAll s (es ++ es') (.error x s') := by
  generalize hr : EStateM.Result.error x s' = r at h
  induction h with
  | done => cases hr
  | next now _ ih => exact .next now (ih hr)
  | fails now => exact .fails now

theorem plays_append (h : v.Plays pending frames s es frames₁ middle)
    (h' : ∀ s', pending s' = middle → v.Plays pending frames₁ s' es' frames₂ left) :
    v.Plays pending frames s (es ++ es') frames₂ left := by
  rw [Plays, List.length_append, rounds_add]
  rcases h with ⟨s₁, hmet, hrounds, hs₁⟩ | ⟨x, s₁, hmet, hrounds⟩
  · rw [hrounds]
    rcases h' s₁ hs₁ with ⟨s₂, hmet', hrounds', hs₂⟩ | ⟨x, s₂, hmet', hrounds'⟩
    · exact .inl ⟨s₂, meetsAll_append hmet hmet', hrounds', hs₂⟩
    · exact .inr ⟨x, s₂, meetsAll_append hmet hmet', hrounds'⟩
  · rw [hrounds]
    exact .inr ⟨x, s₁, meetsAll_append_error hmet es', rfl⟩

theorem plays_cons (h : v.Plays pending frames s [e] frames₁ middle)
    (h' : ∀ s', pending s' = middle → v.Plays pending frames₁ s' es frames₂ left) :
    v.Plays pending frames s (e :: es) frames₂ left :=
  plays_append h h'

/-- A round that asks about a loop. -/
theorem plays_ask {ask : EStateM ε σ Bool} {answer : Bool} {inner : Frame} {outer : List Frame}
    (hmeets : ∀ r, v.Meets s r e ↔ ask s = answering answer r)
    (hround : v.round inner outer = do if ← ask then pure frames₁ else pure frames₂)
    (hask : ∀ {given s'}, ask s = .ok given s' → given = answer ∧ pending s' = left) :
    v.Plays pending (inner :: outer) s [e] (if answer then frames₁ else frames₂) left := by
  cases h : ask s with
  | error x s' =>
    refine .inr ⟨x, s', .fails ((hmeets _).mpr h), ?_⟩
    simp [rounds, hround, bind, EStateM.bind, h]
  | ok given s' =>
    obtain ⟨rfl, hleft⟩ := hask h
    refine .inl ⟨s', .next ((hmeets _).mpr h) .done, ?_, hleft⟩
    cases given <;> simp [rounds, hround, bind, EStateM.bind, pure, EStateM.pure, h]

variable {outer : List Frame}

theorem plays_act (hv : v.Follows eager pending) (a : Action) (rest : Program) (loop : Option Program)
    (hs : pending s = answers) :
    v.Plays pending (⟨.act a :: rest, loop⟩ :: outer) s [.act a] (⟨rest, loop⟩ :: outer) answers := by
  cases h : v.act a s with
  | error x s' =>
    refine .inr ⟨x, s', .fails h, ?_⟩
    simp [rounds, round, bind, EStateM.bind, h]
  | ok _ s' =>
    refine .inl ⟨s', .next h .done, ?_, (hv.act h).trans hs⟩
    simp [rounds, round, bind, EStateM.bind, pure, EStateM.pure, h]

theorem plays_enter (hv : v.Follows eager pending) (body rest : Program) (loop : Option Program)
    (hs : pending s = answers) :
    v.Plays pending (⟨.loop body :: rest, loop⟩ :: outer) s [.enter body (answers.headD eager)]
      (if answers.headD eager then ⟨body, some body⟩ :: ⟨rest, loop⟩ :: outer
        else ⟨rest, loop⟩ :: outer) answers.tail := by
  subst hs
  exact plays_ask (fun _ => Iff.rfl) rfl hv.enter

theorem plays_again (hv : v.Follows eager pending) (body : Program) (hs : pending s = answers) :
    v.Plays pending (⟨[], some body⟩ :: outer) s [.again body (answers.headD false)]
      (if answers.headD false then ⟨body, some body⟩ :: outer else outer) answers.tail := by
  subst hs
  exact plays_ask (fun _ => Iff.rfl) rfl hv.again

/-- From the start of a first pass over a body to the end of the last, when its frame is dropped. -/
theorem plays_passes (hv : v.Follows eager pending) {body : Program}
    {once : ∀ answers, Traversal answers} (honce : ∀ {answers s}, pending s = answers →
      v.Plays pending (⟨body, some body⟩ :: outer) s (once answers).met (⟨[], some body⟩ :: outer)
        (once answers).left) {answers : List Bool} {s : σ} (hs : pending s = answers) :
    v.Plays pending (⟨body, some body⟩ :: outer) s (Traversal.passes body once answers).met outer
      (Traversal.passes body once answers).left := by
  rw [Traversal.passes]
  split
  case h_1 rest hleft =>
    refine plays_append (honce hs) fun s₁ hs₁ => ?_
    refine plays_cons (plays_again hv body (hs₁.trans hleft)) fun s₂ hs₂ => ?_
    have hless := (once answers).length_lt hleft
    exact plays_passes hv honce hs₂
  case h_2 rest hleft =>
    exact plays_append (honce hs) fun s₁ hs₁ => plays_again hv body (hs₁.trans hleft)
  case h_3 hleft =>
    exact plays_append (honce hs) fun s₁ hs₁ => plays_again hv body (hs₁.trans hleft)
termination_by answers.length

mutual

theorem plays_instruction (hv : v.Follows eager pending) : ∀ (i : Instruction) {rest : Program}
    {loop : Option Program} {outer : List Frame} {answers : List Bool} {s : σ},
    pending s = answers →
    v.Plays pending (⟨i :: rest, loop⟩ :: outer) s (i.traverse eager answers).met
      (⟨rest, loop⟩ :: outer) (i.traverse eager answers).left
  | .act a, rest, loop, _, _, _, hs => plays_act hv a rest loop hs
  | .loop body, rest, loop, outer, answers, s, hs => by
    have hask : v.Plays _ (_ :: outer) _ _ _ _ := plays_enter hv body rest loop hs
    rw [Instruction.traverse]
    split
    case h_1 hyes =>
      rw [hyes] at hask
      refine plays_cons hask fun s₁ hs₁ => ?_
      exact plays_passes hv (plays_program hv body) hs₁
    case h_2 hno =>
      rw [hno] at hask
      exact hask

/-- The walk through what is left of an open pass is the traversal of it. -/
theorem plays_program (hv : v.Follows eager pending) : ∀ (p : Program) {loop : Option Program}
    {outer : List Frame} {answers : List Bool} {s : σ}, pending s = answers →
    v.Plays pending (⟨p, loop⟩ :: outer) s (p.traverse eager answers).met
      (⟨[], loop⟩ :: outer) (p.traverse eager answers).left
  | [], _, _, _, s, hs => .inl ⟨s, .done, rfl, hs⟩
  | i :: p, _, _, _, _, hs =>
    plays_append (plays_instruction hv i hs) fun _ hs₁ => plays_program hv p hs₁

end

/-- A walk makes the calls of the traversal and ends as they do, whether one of them fails or not. -/
theorem walk_traverse (hv : v.Follows eager pending) (p : Program) (hs : pending s = answers) {n : Nat}
    (hn : (p.traverse eager answers).met.length < n) :
    ∃ r, v.MeetsAll s (p.traverse eager answers).met r ∧ Yields (v.walk n p s) r := by
  obtain ⟨k, rfl⟩ := Nat.exists_eq_add_of_lt hn
  rw [walk, Nat.add_assoc]
  have hplays : v.Plays _ [⟨p, none⟩] _ _ _ _ := plays_program hv p hs
  rcases hplays with ⟨s', hmet, hrounds, _⟩ | ⟨x, s', hmet, hrounds⟩
  · refine ⟨_, hmet, ?_⟩
    rw [Yields, rounds_add, hrounds]
    exact rounds_nil v k s'
  · exact ⟨_, hmet, yields_add (r := .error x s') hrounds (k + 1)⟩

end plays

section recorder

theorem follows_recorder : recorder.Follows false Recording.answers where
  act := by
    intro a s s' h
    cases a <;> cases h <;> rfl
  enter := by
    rintro body answer ⟨_ | ⟨b, bs⟩, calls⟩ s' h <;> cases h <;> exact ⟨rfl, rfl⟩
  again := by
    rintro body answer ⟨_ | ⟨b, bs⟩, calls⟩ s' h <;> cases h <;> exact ⟨rfl, rfl⟩

/-- The recorder adds the call it is given, or stops where an instruction is unknown. -/
theorem recorder_meets {t : Recording} {r : EStateM.Result WalkError Recording Unit} {e : Encounter}
    (h : recorder.Meets t r e) :
    match r with
    | .ok _ t' => e.isKnown = true ∧ t'.calls = t.calls.push e.call
    | .error x t' => e.isKnown = false ∧ x = .unsupported ∧ t' = t := by
  obtain ⟨pending, calls⟩ := t
  cases e with
  | act a =>
    change recorder.act a ⟨pending, calls⟩ = r at h
    subst h
    cases a with
    | unknown => exact ⟨rfl, rfl, rfl⟩
    | _ => exact ⟨rfl, rfl⟩
  | enter body given | again body given =>
    rcases r with ⟨_, t'⟩ | ⟨x, t'⟩ <;> rcases pending with _ | ⟨b, pending⟩ <;> cases h <;>
      exact ⟨rfl, rfl⟩

theorem recorder_meetsAll {t : Recording} {r : EStateM.Result WalkError Recording Unit}
    {es : List Encounter} (h : recorder.MeetsAll t es r) :
    (Trace.ofResult r).calls.toList =
      t.calls.toList ++ (es.takeWhile Encounter.isKnown).map Encounter.call ∧
    (Trace.ofResult r).failure = if es.all Encounter.isKnown then none else some .unsupported := by
  induction h with
  | done => simp [Trace.ofResult]
  | next now later ih =>
    obtain ⟨hknown, hcalls⟩ := recorder_meets now
    simpa [hknown, hcalls] using ih
  | fails now =>
    obtain ⟨hknown, rfl, rfl⟩ := recorder_meets now
    simp [Trace.ofResult, hknown]

end recorder

section folding

variable {f : σ → Visit → Except ε σ}

/-- Feeds one visit to `f`. -/
def feed (f : σ → Visit → Except ε σ) (now : Visit) : EStateM ε σ Unit := fun s =>
  match f s now with
  | .ok s => .ok () s
  | .error x => .error x s

/-- Enters every loop once and feeds each visit to `f`. -/
def folding (f : σ → Visit → Except ε σ) : Visitor ε σ where
  act a := feed f (.act a)
  enter _ := do
    feed f .enter
    pure true
  again _ := do
    feed f .leave
    pure false

/-- One more visit, unless an earlier one failed. -/
def extend (f : σ → Visit → Except ε σ) (done : Except ε σ) (now : Visit) : Except ε σ :=
  done.bind (f · now)

/-- The state a walk comes to, or why it fails. -/
def outcome {α : Type} : EStateM.Result ε σ α → Except ε σ
  | .ok _ s => .ok s
  | .error x _ => .error x

theorem outcome_feed (f : σ → Visit → Except ε σ) (now : Visit) (s : σ) :
    outcome (feed f now s) = f s now := by
  rw [feed]
  cases f s now <;> rfl

theorem feed_answering (f : σ → Visit → Except ε σ) (now : Visit) (answer : Bool) (s : σ) :
    (do feed f now; pure answer : EStateM ε σ Bool) s = answering answer (feed f now s) := by
  change EStateM.bind (feed f now) (fun _ => pure answer) s = _
  rw [EStateM.bind]
  cases feed f now s <;> rfl

theorem eq_of_answering {answer given : Bool} {r r' : EStateM.Result ε σ Unit}
    (h : answering answer r = answering given r') : r = r' := by
  cases r <;> cases r' <;> cases h <;> rfl

theorem follows_folding (f : σ → Visit → Except ε σ) : (folding f).Follows true fun _ => [] where
  act _ := rfl
  enter := by
    intro body answer s s' h
    have hfed := (feed_answering f .enter true s).symm.trans h
    cases hf : feed f .enter s <;> rw [hf] at hfed <;> cases hfed
    exact ⟨rfl, rfl⟩
  again := by
    intro body answer s s' h
    have hfed := (feed_answering f .leave false s).symm.trans h
    cases hf : feed f .leave s <;> rw [hf] at hfed <;> cases hfed
    exact ⟨rfl, rfl⟩

theorem folding_meets {r : EStateM.Result ε σ Unit} {e : Encounter} (h : (folding f).Meets s r e) :
    f s e.visit = outcome r := by
  rw [← outcome_feed f]
  cases e with
  | act a => exact congrArg outcome h
  | enter body given =>
    have hfed := (feed_answering f .enter true s).symm.trans h
    exact congrArg outcome (eq_of_answering hfed)
  | again body given =>
    have hfed := (feed_answering f .leave false s).symm.trans h
    exact congrArg outcome (eq_of_answering hfed)

theorem folding_meetsAll {r : EStateM.Result ε σ Unit} {es : List Encounter}
    (h : (folding f).MeetsAll s es r) :
    outcome r = (es.map Encounter.visit).foldl (extend f) (.ok s) := by
  induction h with
  | done => rfl
  | next now later ih =>
    rw [List.map_cons, List.foldl_cons, extend, Except.bind, folding_meets now]
    exact ih
  | fails now =>
    rw [List.map_cons, List.foldl_cons, extend, Except.bind, folding_meets now]
    exact (foldl_bind_error f _ _).symm

theorem foldl_ok (g : σ → Visit → σ) (vs : List Visit) (s : σ) :
    vs.foldl (extend fun s now => (.ok (g s now) : Except ε σ)) (.ok s) = .ok (vs.foldl g s) := by
  induction vs generalizing s with
  | nil => rfl
  | cons now vs ih => exact ih (g s now)

end folding

theorem yields_cases {w : EStateM.Result ε σ (List Frame)} {r : EStateM.Result ε σ Unit}
    (h : Yields w r) :
    (∃ s, r = .ok () s ∧ w = .ok [] s) ∨ ∃ x s, r = .error x s ∧ w = .error x s := by
  cases r with
  | ok _ s => exact .inl ⟨s, rfl, h⟩
  | error x s => exact .inr ⟨x, s, rfl, h⟩

/-- A visitor that enters every loop once meets the tree in order. -/
theorem walk_encounters (hv : v.Follows true fun _ => []) (p : Program) (s : σ) {n : Nat}
    (hn : p.encounters.length < n) : ∃ r, v.MeetsAll s p.encounters r ∧ Yields (v.walk n p s) r := by
  rw [← Program.met_traverse_nil] at hn ⊢
  exact walk_traverse hv p rfl hn

/-- A pass over a program with one state is what a walk does with its stack. -/
theorem walk_folding (f : σ → Visit → Except ε σ) (p : Program) (s : σ) {n : Nat}
    (hn : p.visits.length < n) :
    outcome ((folding f).walk n p s) = p.fold (extend f) (.ok s) := by
  rw [← Program.visit_encounters, List.length_map] at hn
  obtain ⟨r, hmet, hwalk⟩ := walk_encounters (follows_folding f) p s hn
  have houtcome : outcome ((folding f).walk n p s) = outcome r := by
    rcases yields_cases hwalk with ⟨t, rfl, hw⟩ | ⟨x, t, rfl, hw⟩ <;> rw [hw] <;> rfl
  rw [houtcome, folding_meetsAll hmet, Program.visit_encounters, Program.fold_eq]

end Visitor

namespace Program

theorem calls_trace (answers : List Bool) (p : Program) :
    (p.trace answers).calls.toList =
      ((p.traverse false answers).met.takeWhile Encounter.isKnown).map Encounter.call ∧
    (p.trace answers).failure =
      if (p.traverse false answers).met.all Encounter.isKnown then none else some .unsupported := by
  obtain ⟨r, hmet, hwalk⟩ := Visitor.walk_traverse Visitor.follows_recorder p
    (s := ⟨answers, #[]⟩) rfl (p.met_traverse_lt answers)
  have hcalls := Visitor.recorder_meetsAll hmet
  have htrace : p.trace answers = Trace.ofResult r := by
    rw [trace]
    rcases Visitor.yields_cases hwalk with ⟨t, rfl, hw⟩ | ⟨x, t, rfl, hw⟩ <;> rw [hw] <;> rfl
  rw [htrace]
  simpa using hcalls

/-- A walk is the recursive traversal: it ends, and makes its calls in its order, up to the first that fails.
A visitor that enters every loop once meets each node once, with the body of a loop between its two calls;
the text, the measure and the generated lines of a program are what such walks find. -/
theorem walk_is_traversal (p : Program) :
    (∀ {ε σ : Type} {v : Visitor ε σ} {pending : σ → List Bool}, v.Follows false pending →
      ∀ (s : σ) (n : Nat), p.traceRounds (pending s) ≤ n →
        ∃ r, v.MeetsAll s (p.traverse false (pending s)).met r ∧ Visitor.Yields (v.walk n p s) r) ∧
    (∀ answers : List Bool,
      (p.trace answers).calls.toList =
        ((p.traverse false answers).met.takeWhile Encounter.isKnown).map Encounter.call ∧
      (p.trace answers).failure =
        if (p.traverse false answers).met.all Encounter.isKnown then none else some .unsupported) ∧
    (∀ {ε σ : Type} {v : Visitor ε σ}, v.Follows true (fun _ => []) →
      ∀ (s : σ) (n : Nat), p.encounters.length < n →
        ∃ r, v.MeetsAll s p.encounters r ∧ Visitor.Yields (v.walk n p s) r) ∧
    p.encounters.filterMap Encounter.node? = p.preorder ∧
    p.encounters.map Encounter.visit = p.visits ∧
    ∀ n, p.visits.length < n →
      (∀ memory : TextMemory,
        (Visitor.outcome ((Visitor.folding (Draft.write memory)).walk n p .blank)).bind
          (Draft.join memory) = p.text memory) ∧
      Visitor.outcome ((Visitor.folding fun m now => (.ok (m.visit now) : Except Empty Measure)).walk
        n p .start) = .ok p.measure ∧
      ∀ size : Int, 1 ≤ size →
        (Visitor.outcome ((Visitor.folding Emit.Listing.visit).walk n p
          ⟨#[⟨1, .allocate size⟩], 1⟩)).map (·.lines.toList) = Emit.lines size p := by
  refine ⟨?scripted, ?recorded, ?once, p.node_encounters, p.visit_encounters, ?passes⟩
  case scripted =>
    intro ε σ v pending hv s n hn
    exact Visitor.walk_traverse hv p rfl (Nat.lt_of_lt_of_le (p.met_traverse_lt _) hn)
  case recorded =>
    intro answers
    exact calls_trace answers p
  case once =>
    intro ε σ v hv s n hn
    exact Visitor.walk_encounters hv p s hn
  case passes =>
    intro n hn
    refine ⟨?text, ?measure, ?lines⟩
    case text =>
      intro memory
      rw [Visitor.walk_folding _ p _ hn]
      rfl
    case measure =>
      rw [Visitor.walk_folding _ p _ hn, measure, fold_eq, fold_eq]
      exact Visitor.foldl_ok _ _ _
    case lines =>
      intro size hsize
      rw [Visitor.walk_folding _ p _ hn, Emit.lines, if_neg (by omega)]
      rfl

/-- A loop walked twice, and then once by a visitor that never walks a loop again. -/
theorem walk_is_traversal_output :
    (∃ r, Visitor.recorder.MeetsAll ⟨[true, true], #[]⟩
        (traverse false [.loop [.act .output]] [true, true]).met r ∧
      Visitor.Yields (Visitor.recorder.walk 9 [.loop [.act .output]] ⟨[true, true], #[]⟩) r) ∧
    (∃ r, (Visitor.folding (Draft.write .usual)).MeetsAll .blank
        (encounters [.loop [.act .output]]) r ∧
      Visitor.Yields ((Visitor.folding (Draft.write .usual)).walk 4 [.loop [.act .output]] .blank) r) ∧
    (Visitor.outcome ((Visitor.folding Emit.Listing.visit).walk 4 [.loop [.act .output]]
        ⟨#[⟨1, .allocate 30⟩], 1⟩)).map (·.lines.toList) =
      Emit.lines 30 [.loop [.act .output]] := by
  obtain ⟨hscripted, -, honce, -, -, hpasses⟩ := walk_is_traversal [.loop [.act .output]]
  refine ⟨hscripted Visitor.follows_recorder _ 9 (by decide), ?_, ?_⟩
  · exact honce (Visitor.follows_folding _) Draft.blank 4 (by decide)
  · exact (hpasses 4 (by decide)).2.2 30 (by decide)

end Program

end Brainfuck

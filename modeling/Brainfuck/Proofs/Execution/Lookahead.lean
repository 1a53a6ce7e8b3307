import Brainfuck.Proofs.Execution.Discipline

/-! A run depends on its streams only through the answers to the calls it makes: it never looks ahead. -/
namespace Brainfuck

namespace Streams

/-- Both scripts have the same answer to each of these calls. -/
def Agree (s s' : Streams) (calls : List StreamCall) : Prop :=
  ∀ earlier c, earlier ++ [c] <+: calls → s.answer earlier c = s'.answer earlier c

/-- Each goes by its own script, and the same has been called and written. -/
structure Alike (s s' t t' : Streams) : Prop where
  left : s.Follows t
  right : s'.Follows t'
  calls : t.calls = t'.calls
  written : t.written = t'.written

variable {s s' t t' : Streams} {calls more : List StreamCall} {c : StreamCall}

theorem agree_of_prefix (h : Agree s s' more) (hcalls : calls <+: more) : Agree s s' calls :=
  fun _ _ hearlier => h _ _ (hearlier.trans hcalls)

theorem alike_of_unused (h : s.Unused) (h' : s'.Unused) : Alike s s' s s' :=
  ⟨follows_of_unused h, follows_of_unused h', h.calls.trans h'.calls.symm,
    h.written.trans h'.written.symm⟩

theorem alike_called (h : Alike s s' t t') (c : StreamCall) :
    Alike s s' (t.called c) (t'.called c) := by
  refine ⟨follows_called h.left c, follows_called h.right c, ?_, ?_⟩
  · apply Array.toList_inj.mp
    rw [calls_called, calls_called, h.calls]
  · rw [written_called, written_called, h.written]

theorem alike_keep (h : Alike s s' t t') (v : UInt8) : Alike s s' (t.keep v) (t'.keep v) :=
  ⟨follows_keep h.left v, follows_keep h.right v, h.calls, congrArg (·.push v) h.written⟩

end Streams

namespace Machine

variable {α β : Type} {s s' : Streams} {m m' : Machine} {b : Option Int}

/-- Machines that differ in nothing but what their streams still hold. -/
structure Alike (s s' : Streams) (m m' : Machine) : Prop where
  tape : m.tape = m'.tape
  streams : s.Alike s' m.streams m'.streams
  steps : m.steps = m'.steps

/-- The same error on machines that are alike. -/
def FailsAlike (s s' : Streams) (e : RunError) (m : Machine) (e' : RunError) (m' : Machine) : Prop :=
  e = e' ∧ Alike s s' m m'

/-- Machines that are alike stay so, as long as the answers to their calls do. -/
def GoesAlike (s s' : Streams) (x : EStateM RunError Machine α) : Prop :=
  ∀ m m', Alike s s' m m' → s.Agree s' (leaves (x m)).streams.calls.toList →
    Related (Alike s s') (FailsAlike s s') (x m) (x m')

theorem goesAlike_pure (a : α) : GoesAlike s s' (pure a) :=
  fun _ _ hm _ => ⟨rfl, hm⟩

theorem goesAlike_throw (e : RunError) : GoesAlike s s' (throw e : EStateM RunError Machine α) :=
  fun _ _ hm _ => ⟨rfl, hm⟩

/-- What comes later only adds calls, so the answers to the first ones have agreed. -/
theorem goesAlike_bind {x : EStateM RunError Machine α} {f : α → EStateM RunError Machine β}
    (hx : GoesAlike s s' x) (hf : ∀ a, GoesAlike s s' (f a)) (hkeeps : ∀ a, Keeps Extends (f a)) :
    GoesAlike s s' (x >>= f) := by
  intro m m' hm hagree
  cases hfirst : x m with
  | ok a m₁ =>
    rw [bind_of_ok hfirst] at hagree ⊢
    have hbefore : s.Agree s' m₁.streams.calls.toList :=
      Streams.agree_of_prefix hagree (hkeeps a m₁).calls
    have hrelated := hx m m' hm (by rwa [hfirst])
    obtain ⟨m₁', hfirst', hm₁⟩ := related_ok_left hrelated hfirst
    rw [bind_of_ok hfirst']
    exact hf a m₁ m₁' hm₁ hagree
  | error e m₁ =>
    rw [bind_of_error hfirst] at hagree ⊢
    have hrelated := hx m m' hm (by rwa [hfirst])
    obtain ⟨e', m₁', hfirst', he⟩ := related_error_left hrelated hfirst
    rw [bind_of_error hfirst']
    exact he

theorem goesAlike_onTape (x : EStateM TapeError Tape α) : GoesAlike s s' (onTape x) := by
  intro m m' hm _
  rw [onTape_apply, onTape_apply, ← hm.tape]
  cases x m.tape with
  | ok a t => exact ⟨rfl, rfl, hm.streams, hm.steps⟩
  | error e t => exact ⟨rfl, rfl, hm.streams, hm.steps⟩

theorem goesAlike_countStep (b : Option Int) : GoesAlike s s' (countStep b) := by
  intro m m' hm _
  have hnext : Alike s s' { m with steps := m.steps + 1 } { m' with steps := m.steps + 1 } :=
    ⟨hm.tape, hm.streams, rfl⟩
  rcases countStep_both b hm.steps with ⟨hgoes, hgoes'⟩ | ⟨hstops, hstops'⟩
  · rw [hgoes, hgoes']
    exact ⟨rfl, hnext⟩
  · rw [hstops, hstops']
    exact ⟨rfl, hnext⟩

/-- A call that leaves what its answer makes of the streams. -/
theorem goesAlike_call {wrap : Fault → RunError} {x : EStateM Fault Streams α} (c : StreamCall)
    (g : Streams.Answer → Streams → EStateM.Result Fault Streams α)
    (hx : ∀ t, s.Follows t → x t = g (s.answer t.calls.toList c) (t.called c))
    (hx' : ∀ t, s'.Follows t → x t = g (s'.answer t.calls.toList c) (t.called c))
    (hcalls : ∀ a t, (leaves (g a t)).calls = t.calls)
    (hg : ∀ a t t', s.Alike s' t t' →
      Related (s.Alike s') (fun f u f' u' => f = f' ∧ s.Alike s' u u') (g a t) (g a t')) :
    GoesAlike s s' (onStreams wrap x) := by
  intro m m' hm hagree
  have hcalled := Streams.alike_called hm.streams c
  have hsame : s'.answer m'.streams.calls.toList c = s.answer m.streams.calls.toList c := by
    have hlast : (leaves (onStreams wrap x m)).streams.calls.toList =
        m.streams.calls.toList ++ [c] := by
      have hleaves := hcalls (s.answer m.streams.calls.toList c) (m.streams.called c)
      rw [onStreams_apply, hx _ hm.streams.left, ← Streams.calls_called, ← hleaves]
      cases g (s.answer m.streams.calls.toList c) (m.streams.called c) <;> rfl
    rw [hlast] at hagree
    rw [← hm.streams.calls]
    exact (hagree _ _ List.prefix_rfl).symm
  have hrelated := hg (s.answer m.streams.calls.toList c) _ _ hcalled
  rw [onStreams_apply, onStreams_apply, hx _ hm.streams.left, hx' _ hm.streams.right, hsame]
  cases hleft : g (s.answer m.streams.calls.toList c) (m.streams.called c) with
  | ok a u =>
    obtain ⟨u', hright, hu⟩ := related_ok_left hrelated hleft
    rw [hright]
    exact ⟨rfl, hm.tape, hu, hm.steps⟩
  | error f u =>
    obtain ⟨f', u', hright, rfl, hu⟩ := related_error_left hrelated hleft
    rw [hright]
    exact ⟨rfl, hm.tape, hu, hm.steps⟩

theorem goesAlike_write (v : UInt8) : GoesAlike s s' (onStreams .cannotWrite (Streams.write v)) := by
  refine goesAlike_call .write (Streams.Answer.toWrite v) (fun t ht => Streams.write_eq ht v)
    (fun t ht => Streams.write_eq ht v) (fun a t => ?_) (fun a t t' ht => ?_)
  · cases a <;> rfl
  · cases a with
    | fault f => exact ⟨rfl, ht⟩
    | done | byte | ended => exact ⟨rfl, Streams.alike_keep ht v⟩

theorem goesAlike_flush (hable : s.output.canFlush = s'.output.canFlush) :
    GoesAlike s s' (onStreams .cannotFlush Streams.flush) := by
  cases hcan : s.output.canFlush with
  | false =>
    intro m m' hm _
    rw [onStreams_apply, onStreams_apply, Streams.flush_unable hm.streams.left hcan,
      Streams.flush_unable hm.streams.right (hable ▸ hcan)]
    exact ⟨rfl, hm.tape, hm.streams, hm.steps⟩
  | true =>
    refine goesAlike_call .flush Streams.Answer.toFlush (fun t ht => Streams.flush_eq ht hcan)
      (fun t ht => Streams.flush_eq ht (hable ▸ hcan)) (fun a t => ?_) (fun a t t' ht => ?_)
    · cases a <;> rfl
    · cases a <;> exact ⟨rfl, ht⟩

theorem goesAlike_read : GoesAlike s s' (onStreams .cannotRead Streams.read) := by
  refine goesAlike_call .read Streams.Answer.toRead (fun t ht => Streams.read_eq ht)
    (fun t ht => Streams.read_eq ht) (fun a t => ?_) (fun a t t' ht => ?_)
  · cases a <;> rfl
  · cases a <;> exact ⟨rfl, ht⟩

theorem take_extends : Keeps Extends take := by
  apply keeps_bind extends_trans
  · exact fun m => (onStreams_acts Streams.read_precedes m).streams
  · intro v
    cases v with
    | none => exact extends_refl
    | some v => exact fun m => (onTape_acts _ m).streams

theorem goesAlike_take : GoesAlike s s' take := by
  apply goesAlike_bind goesAlike_read
  · intro v
    cases v with
    | none => exact goesAlike_throw _
    | some v => exact goesAlike_onTape _
  · intro v
    cases v with
    | none => exact extends_refl
    | some v => exact fun m => (onTape_acts _ m).streams

theorem goesAlike_act (hable : s.output.canFlush = s'.output.canFlush) (a : Action) :
    GoesAlike s s' (act a) := by
  cases a with
  | apply op n => exact goesAlike_onTape _
  | output =>
    apply goesAlike_bind (goesAlike_onTape _) goesAlike_write
    intro v m
    exact (onStreams_acts (Streams.write_precedes v) m).streams
  | input =>
    have hinput : input = onStreams .cannotFlush Streams.flush >>= fun _ => take := rfl
    change GoesAlike s s' input
    rw [hinput]
    exact goesAlike_bind (goesAlike_flush hable) (fun _ => goesAlike_take) fun _ => take_extends
  | unknown => exact goesAlike_throw _

theorem goesAlike_perform (hable : s.output.canFlush = s'.output.canFlush) (a : Action) :
    GoesAlike s s' (perform b a) :=
  goesAlike_bind (goesAlike_countStep b) (fun _ => goesAlike_act hable a)
    fun _ m => (act_acts a m).streams

theorem goesAlike_check : GoesAlike s s' (check b) := by
  have htest : GoesAlike s s' test :=
    goesAlike_bind (goesAlike_onTape _) (fun _ => goesAlike_pure _) fun _ => extends_refl
  exact goesAlike_bind (goesAlike_countStep b) (fun _ => htest) fun _ m => (test_acts m).streams

theorem goesAlike_round (hable : s.output.canFlush = s'.output.canFlush) (inner : Frame)
    (outer : List Frame) : GoesAlike s s' ((runner b).round inner outer) := by
  obtain ⟨_ | ⟨_ | body, rest⟩, loop⟩ := inner
  · cases loop with
    | none => exact goesAlike_pure _
    | some body =>
      apply goesAlike_bind goesAlike_check
      · intro c
        cases c <;> exact goesAlike_pure _
      · intro c
        cases c <;> exact extends_refl
  · exact goesAlike_bind (goesAlike_perform hable _) (fun _ => goesAlike_pure _) fun _ => extends_refl
  · apply goesAlike_bind goesAlike_check
    · intro c
      cases c <;> exact goesAlike_pure _
    · intro c
      cases c <;> exact extends_refl

/-- Walks go alike as long as the answers agree to all the calls that the first has made. -/
theorem goesAlike_rounds (hable : s.output.canFlush = s'.output.canFlush) (n : Nat)
    (frames : List Frame) : GoesAlike s s' ((runner b).rounds n frames) := by
  induction n generalizing frames with
  | zero => exact goesAlike_pure frames
  | succ n ih =>
    cases frames with
    | nil => exact goesAlike_pure []
    | cons inner outer =>
      have hbind : (runner b).rounds (n + 1) (inner :: outer) =
          (runner b).round inner outer >>= fun frames => (runner b).rounds n frames := by
        funext m
        change _ = EStateM.bind _ _ m
        rw [Visitor.rounds]
        unfold EStateM.bind
        cases (runner b).round inner outer m <;> rfl
      rw [hbind]
      exact goesAlike_bind (goesAlike_round hable inner outer) ih fun frames => rounds_extends n frames

end Machine

/-- Of the calls of one kind, each comes after as many as its number says. -/
theorem exists_snoc_of_lt_count {α : Type} [DecidableEq α] {a : α} {l : List α} {k : Nat}
    (h : k < l.count a) : ∃ early, early ++ [a] <+: l ∧ early.count a = k := by
  induction l generalizing k with
  | nil => simp at h
  | cons b l ih =>
    by_cases hb : b = a
    · subst hb
      cases k with
      | zero => exact ⟨[], ⟨l, rfl⟩, rfl⟩
      | succ k =>
        rw [List.count_cons_self] at h
        obtain ⟨early, hearly, hk⟩ := ih (k := k) (by omega)
        exact ⟨b :: early, List.prefix_cons_inj b |>.mpr hearly, by rw [List.count_cons_self, hk]⟩
    · rw [List.count_cons_of_ne hb] at h
      obtain ⟨early, hearly, hk⟩ := ih h
      exact ⟨b :: early, List.prefix_cons_inj b |>.mpr hearly, by rw [List.count_cons_of_ne hb, hk]⟩

namespace Streams

/-- Input held in memory, one byte for each read, beside any output. -/
def held (input : List UInt8) (output : OutputScript) : Streams :=
  start (input.map fun v => .bytes [v]) output

variable {x y : List UInt8} {output : OutputScript} {calls earlier : List StreamCall} {v : UInt8}
  {k : Nat}

theorem unused_held (x : List UInt8) (output : OutputScript) : (held x output).Unused :=
  unused_start _ _

theorem answer_held (x : List UInt8) (output : OutputScript) (earlier : List StreamCall) :
    (held x output).answer earlier .read = x[earlier.count .read]?.elim .ended .byte := by
  rw [answer, held, start, List.getElem?_map]
  cases x[earlier.count .read]? <;> rfl

theorem ended_held_iff :
    (held x output).answer earlier .read = .ended ↔ x.length ≤ earlier.count .read := by
  rw [answer_held, ← List.getElem?_eq_none_iff]
  cases x[earlier.count .read]? <;> simp

/-- Reads that do not come to the end of the stream are no more than there are bytes. -/
theorem reads_le_length (output : OutputScript) (h : ∀ earlier, earlier ++ [.read] <+: calls →
    (held x output).answer earlier .read ≠ .ended) : calls.count .read ≤ x.length := by
  by_contra hlt
  obtain ⟨earlier, hearlier, hcount⟩ :=
    exists_snoc_of_lt_count (a := StreamCall.read) (l := calls) (k := x.length) (by omega)
  exact h earlier hearlier (ended_held_iff.mpr (by omega))

/-- Inputs that start alike answer alike to no more reads than that. -/
theorem agree_held (hcalls : calls.count .read ≤ k) (h : y.take k = x.take k) :
    (held x output).Agree (held y output) calls := by
  intro earlier c hearlier
  cases c with
  | write => rfl
  | flush => rfl
  | read =>
    have hcount := hearlier.sublist.count_le .read
    rw [List.count_append, List.count_singleton_self] at hcount
    have hbyte := congrArg (·[earlier.count .read]?) h
    simp only [List.getElem?_take, if_pos (show earlier.count .read < k by omega)] at hbyte
    rw [answer_held, answer_held, hbyte]

theorem count_read_of_comes {s t u : Streams} {c : StreamCall} (h : Comes s t c u) :
    u.calls.toList.count .read = t.calls.toList.count .read := by
  cases h with
  | write | flush | read => rfl
  | flushed =>
    rw [calls_called, List.count_append]
    rfl

end Streams

/-- Runs that end alike, with the same tape, output, calls and count of steps. -/
structure Run.Alike (r r' : Run) : Prop where
  ending : r.ending = r'.ending
  interpreter : r.interpreter = r'.interpreter
  written : r.streams.written = r'.streams.written
  calls : r.streams.calls = r'.streams.calls
  steps : r.steps = r'.steps

namespace Interpreter

open Machine

variable {i : Interpreter} {p : Program} {s s' : Streams} {n : Nat} {r r' : Run}

/-- Where the answers agree to all the calls of a run, the other run is the same. -/
theorem run_alike (hs : s.Unused) (hs' : s'.Unused) (hable : s.output.canFlush = s'.output.canFlush)
    (h : s.Agree s' (i.run n p s).streams.calls.toList) : (i.run n p s).Alike (i.run n p s') := by
  cases hc : Tape.create i.room i.memorySize with
  | error e =>
    rw [run_of_create_error hc, run_of_create_error hc]
    exact ⟨rfl, rfl, hs.written.trans hs'.written.symm, hs.calls.trans hs'.calls.symm, rfl⟩
  | ok t =>
    have hstart : Alike s s' ⟨t, s, 0⟩ ⟨t, s', 0⟩ := ⟨rfl, Streams.alike_of_unused hs hs', rfl⟩
    have hcalls : (i.run n p s).streams.calls =
        (leaves ((runner i.budget).rounds n [⟨p, none⟩] ⟨t, s, 0⟩)).streams.calls :=
      congrArg (fun m => m.streams.calls) (machine_run hc n)
    rw [hcalls] at h
    have hrounds := goesAlike_rounds hable n [⟨p, none⟩] _ _ hstart h
    rw [run_of_create_ok hc, run_of_create_ok hc, Visitor.walk, Visitor.walk]
    cases hleft : (runner i.budget).rounds n [⟨p, none⟩] ⟨t, s, 0⟩ with
    | ok frames m =>
      obtain ⟨m', hright, hm⟩ := related_ok_left hrounds hleft
      rw [hright]
      exact ⟨rfl, congrArg (fun t => { i with tape := t }) hm.tape, hm.streams.written,
        hm.streams.calls, hm.steps⟩
    | error e m =>
      obtain ⟨e', m', hright, rfl, hm⟩ := related_error_left hrounds hleft
      rw [hright]
      exact ⟨rfl, congrArg (fun t => { i with tape := t }) hm.tape, hm.streams.written,
        hm.streams.calls, hm.steps⟩

/-- What a run has written and called is the start of what it ever writes and calls. -/
theorem precedes_of_ends (h : i.Ends p s r) (j : Nat) :
    (i.run j p s).streams.Precedes r.streams := by
  obtain ⟨n, rfl, hne⟩ := h
  rw [← run_add hne j, Nat.add_comm n j]
  cases hc : Tape.create i.room i.memorySize with
  | error e =>
    rw [run_of_create_error hc, run_of_create_error hc]
    exact Streams.precedes_refl s
  | ok t =>
    have hlater : Extends (i.run j p s).machine (i.run (j + n) p s).machine := by
      rw [machine_run hc, machine_run hc]
      exact keeps_rounds_later extends_refl rounds_extends j (j + n) (by omega)
    exact hlater

variable {x : List UInt8} {output : OutputScript}

theorem supplies_held (hroom : i.room ≤ maxIndex) (h : i.Ends p (.held x output) r) :
    r.streams.supplies = (x.drop r.streams.reads).map fun v => .bytes [v] := by
  obtain ⟨n, rfl, -⟩ := h
  have hfollows := follows_run (Streams.unused_held x output) hroom p n
  rw [List.map_drop, Streams.reads, ← Array.count_toList]
  exact hfollows.supplies

/-- A run that does not come to the end of its input has read no more bytes than there are, and is the
same on every input that starts with those. -/
theorem alike_of_take (hroom : i.room ≤ maxIndex) (h : i.Ends p (.held x output) r)
    (hending : r.ending ≠ .failed .endOfInput) :
    r.streams.reads ≤ x.length ∧ ∀ y, y.take r.streams.reads = x.take r.streams.reads →
      ∃ r', i.Ends p (.held y output) r' ∧ r.Alike r' := by
  obtain ⟨n, rfl, hne⟩ := h
  have hs := Streams.unused_held x output
  rw [Streams.reads, ← Array.count_toList]
  refine ⟨Streams.reads_le_length output fun earlier hearlier hended => ?_, ?_⟩
  · exact hending ((endOfInput_iff hs hroom p n).mpr ⟨earlier, hearlier, hended⟩)
  · intro y hy
    have halike := run_alike hs (Streams.unused_held y output) rfl
      (Streams.agree_held (Nat.le_refl _) hy)
    exact ⟨_, ⟨n, rfl, halike.ending ▸ hne⟩, halike⟩

/-- A run that comes to the end of its input has read all of it, and with more input it writes at least
what it has written. -/
theorem prefix_of_endOfInput (hroom : i.room ≤ maxIndex) (h : i.Ends p (.held x output) r)
    (hending : r.ending = .failed .endOfInput) :
    r.streams.reads = x.length + 1 ∧ ∀ z r', i.Ends p (.held (x ++ z) output) r' →
      r.streams.written.toList <+: r'.streams.written.toList := by
  obtain ⟨n, rfl, -⟩ := h
  have hs := Streams.unused_held x output
  rcases run_fluent_or_fails hs hroom p n with
    ⟨-, hother⟩ | ⟨j, -, hfluent, -, -, c, u, e, he, hfails⟩
  · exact (hother .endOfInput hending trivial).elim
  · rw [he] at hending
    cases hending
    have hended := Streams.error_eq_endOfInput.mp hfails.error
    obtain rfl := Streams.read_of_ended hended
    have hcount : u.calls.toList.count .read =
        (i.run j p (.held x output)).streams.calls.toList.count .read :=
      Streams.count_read_of_comes hfails.comes
    have hle : (i.run j p (.held x output)).streams.calls.toList.count .read ≤ x.length := by
      apply Streams.reads_le_length output
      intro earlier hearlier hended
      have hgood := hfluent.good earlier .read hearlier
      rw [hended] at hgood
      cases hgood
    have hge := Streams.ended_held_iff.mp hended
    refine ⟨?_, fun z r' h' => ?_⟩
    · have hcalls : (i.run n p (.held x output)).streams.calls.toList = u.calls.toList ++ [.read] :=
        calls_of_fails hfails
      rw [Streams.reads, ← Array.count_toList, hcalls, List.count_append, List.count_singleton_self]
      omega
    · have htake : (x ++ z).take x.length = x.take x.length := by
        rw [List.take_left, List.take_length]
      have halike := run_alike hs (Streams.unused_held (x ++ z) output) rfl
        (Streams.agree_held hle htake)
      have hwritten : (i.run n p (.held x output)).streams.written =
          (i.run j p (.held x output)).streams.written := by
        have hcalled := congrArg Streams.written hfails.streams
        rw [Streams.written_called, Streams.written_of_comes hfails.comes] at hcalled
        exact hcalled
      rw [hwritten, halike.written]
      exact (precedes_of_ends h' j).written

/-- A run never looks ahead in its input. If it ends in any way but at the end of its input, it ends in
the same way, with the same tape and output, on every input that starts with the bytes it has read. If it
comes to the end of its input, it has read all of it, and more input only lets it write more. -/
theorem run_never_looks_ahead (hroom : i.room ≤ maxIndex) (h : i.Ends p (.held x output) r) :
    (r.ending ≠ .failed .endOfInput →
      ∃ k ≤ x.length, r.streams.reads = k ∧
        r.streams.supplies = (x.drop k).map (fun v => .bytes [v]) ∧
        ∀ y, y.take k = x.take k → ∃ r', i.Ends p (.held y output) r' ∧ r.Alike r') ∧
    (r.ending = .failed .endOfInput →
      r.streams.reads = x.length + 1 ∧ r.streams.supplies = [] ∧
        ∀ z r', i.Ends p (.held (x ++ z) output) r' →
          r.streams.written.toList <+: r'.streams.written.toList) := by
  have hsupplies := supplies_held hroom h
  refine ⟨fun hending => ?_, fun hending => ?_⟩
  · obtain ⟨hle, hsame⟩ := alike_of_take hroom h hending
    exact ⟨_, hle, rfl, hsupplies, hsame⟩
  · obtain ⟨hreads, hprefix⟩ := prefix_of_endOfInput hroom h hending
    refine ⟨hreads, ?_, hprefix⟩
    rw [hsupplies, hreads, List.drop_eq_nil_of_le (by omega), List.map_nil]

/-- A loop that copies its input up to a zero reads no further, and without a zero it comes to the end. -/
theorem run_never_looks_ahead_past_zero :
    ∃ p r r₀, Program.parse ",[.,]" = .ok p ∧
      (single Tape.usualRoom (by decide)).Ends p (.held [3, 0, 7] .faultless) r ∧
      r.ending = .finished ∧ r.streams.written.toList = [3] ∧
      (∃ r', (single Tape.usualRoom (by decide)).Ends p (.held [3, 0, 5, 6] .faultless) r' ∧
        r.Alike r') ∧
      (single Tape.usualRoom (by decide)).Ends p (.held [3] .faultless) r₀ ∧
      r₀.ending = .failed .endOfInput ∧ r₀.streams.reads = 2 ∧
      ∀ z r', (single Tape.usualRoom (by decide)).Ends p (.held ([3] ++ z) .faultless) r' →
        r₀.streams.written.toList <+: r'.streams.written.toList := by
  let p : Program := [.act .input, .loop [.act .output, .act .input]]
  let i : Interpreter := single Tape.usualRoom (by decide)
  have hr : i.Ends p (.held [3, 0, 7] .faultless) (i.run 12 p (.held [3, 0, 7] .faultless)) :=
    ⟨12, rfl, by decide +kernel⟩
  have hr₀ : i.Ends p (.held [3] .faultless) (i.run 12 p (.held [3] .faultless)) :=
    ⟨12, rfl, by decide +kernel⟩
  obtain ⟨k, -, hk, -, hsame⟩ :=
    (run_never_looks_ahead (by decide) hr).1 (by decide +kernel)
  obtain ⟨hreads, -, hprefix⟩ :=
    (run_never_looks_ahead (by decide) hr₀).2 (by decide +kernel)
  have htwo : k = 2 := hk.symm.trans (by decide +kernel)
  exact ⟨p, _, _, by rfl, hr, by decide +kernel, by decide +kernel,
    hsame [3, 0, 5, 6] (by rw [htwo]; rfl), hr₀, by decide +kernel, hreads, hprefix⟩

end Interpreter

end Brainfuck

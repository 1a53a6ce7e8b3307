import Brainfuck.Proofs.Execution.Structured

/-! Runs that correspond to each other, step by step or in all. -/
namespace Brainfuck

section Related

variable {ε ε' σ σ' α β : Type} {R S : σ → σ' → Prop} {E : ε → σ → ε' → σ' → Prop}
  {s : σ} {s' : σ'} {a : α} {e : ε}

/-- Results that correspond: equal values in corresponding states, or corresponding errors. -/
def Related (R : σ → σ' → Prop) (E : ε → σ → ε' → σ' → Prop) :
    EStateM.Result ε σ α → EStateM.Result ε' σ' α → Prop
  | .ok a s, .ok a' s' => a = a' ∧ R s s'
  | .error e s, .error e' s' => E e s e' s'
  | _, _ => False

theorem related_ok_left {x : EStateM.Result ε σ α} {y : EStateM.Result ε' σ' α}
    (h : Related R E x y) (hx : x = .ok a s) : ∃ s', y = .ok a s' ∧ R s s' := by
  subst hx
  cases y with
  | ok a' s' =>
    obtain ⟨rfl, hs⟩ := h
    exact ⟨s', rfl, hs⟩
  | error e' s' => exact h.elim

theorem related_error_left {x : EStateM.Result ε σ α} {y : EStateM.Result ε' σ' α}
    (h : Related R E x y) (hx : x = .error e s) : ∃ e' s', y = .error e' s' ∧ E e s e' s' := by
  subst hx
  cases y with
  | ok a' s' => exact h.elim
  | error e' s' => exact ⟨e', s', rfl, h⟩

theorem related_ok_right {x : EStateM.Result ε σ α} {y : EStateM.Result ε' σ' α}
    (h : Related R E x y) (hy : y = .ok a s') : ∃ s, x = .ok a s ∧ R s s' := by
  subst hy
  cases x with
  | ok a' s =>
    obtain ⟨rfl, hs⟩ := h
    exact ⟨s, rfl, hs⟩
  | error e s => exact h.elim

theorem related_error_right {e' : ε'} {x : EStateM.Result ε σ α} {y : EStateM.Result ε' σ' α}
    (h : Related R E x y) (hy : y = .error e' s') : ∃ e s, x = .error e s ∧ E e s e' s' := by
  subst hy
  cases x with
  | ok a s => exact h.elim
  | error e s => exact ⟨e, s, rfl, h⟩

theorem related_of_error {E' : ε → σ → ε' → σ' → Prop} {x : EStateM.Result ε σ α}
    {y : EStateM.Result ε' σ' α} (he : ∀ e s e' s', E e s e' s' → E' e s e' s')
    (h : Related R E x y) : Related R E' x y := by
  cases x with
  | ok a s =>
    obtain ⟨s', rfl, hs⟩ := related_ok_left h rfl
    exact ⟨rfl, hs⟩
  | error e s =>
    obtain ⟨e', s', rfl, hs⟩ := related_error_left h rfl
    exact he e s e' s' hs

theorem related_symm {R' : σ' → σ → Prop} {E' : ε' → σ' → ε → σ → Prop}
    {x : EStateM.Result ε σ α} {y : EStateM.Result ε' σ' α} (hr : ∀ s s', R s s' → R' s' s)
    (he : ∀ e s e' s', E e s e' s' → E' e' s' e s) (h : Related R E x y) : Related R' E' y x := by
  cases x with
  | ok a s =>
    obtain ⟨s', rfl, hs⟩ := related_ok_left h rfl
    exact ⟨rfl, hr s s' hs⟩
  | error e s =>
    obtain ⟨e', s', rfl, hs⟩ := related_error_left h rfl
    exact he e s e' s' hs

theorem related_bind {x : EStateM ε σ α} {x' : EStateM ε' σ' α} {f : α → EStateM ε σ β}
    {f' : α → EStateM ε' σ' β} (hx : Related R E (x s) (x' s'))
    (hf : ∀ a s s', R s s' → Related S E (f a s) (f' a s')) :
    Related S E ((x >>= f) s) ((x' >>= f') s') := by
  change Related S E (EStateM.bind x f s) (EStateM.bind x' f' s')
  unfold EStateM.bind
  cases h : x s with
  | ok a t =>
    obtain ⟨t', ht, hr⟩ := related_ok_left hx h
    simp only [ht]
    exact hf a t t' hr
  | error e t =>
    obtain ⟨e', t', ht, hr⟩ := related_error_left hx h
    simp only [ht]
    exact hr

end Related

namespace Machine

variable {b b' : Option Int} {R : Machine → Machine → Prop}
  {E : RunError → Machine → RunError → Machine → Prop} {p p' q q' body body' : Program} {a : Action}

/-- Equal instructions keep machines in correspondence. -/
structure Lockstep (b b' : Option Int) (R : Machine → Machine → Prop)
    (E : RunError → Machine → RunError → Machine → Prop) : Prop where
  perform : ∀ a m m', R m m' → Related R E (perform b a m) (perform b' a m')
  check : ∀ m m', R m m' → Related R E (check b m) (check b' m')

/-- Whatever the first program ends with, the second ends with something that corresponds to it. -/
def Simulates (b b' : Option Int) (R : Machine → Machine → Prop)
    (E : RunError → Machine → RunError → Machine → Prop) (p q : Program) : Prop :=
  ∀ m m' r, R m m' → Executes b p m r → ∃ r', Executes b' q m' r' ∧ Related R E r r'

theorem simulates_nil : Simulates b b' R E [] [] := by
  intro m m' r hm hx
  rw [executes_nil] at hx
  subst hx
  exact ⟨.ok () m', .done, rfl, hm⟩

theorem simulates_act (h : Lockstep b b' R E) : Simulates b b' R E [.act a] [.act a] := by
  intro m m' r hm hx
  have hr := h.perform a m m' hm
  rw [executes_act] at hx
  cases hp : perform b a m with
  | ok u m₁ =>
    rw [hp] at hx
    obtain ⟨m₁', hp', hm₁⟩ := related_ok_left hr hp
    rw [executes_nil.mp hx]
    exact ⟨.ok () m₁', .act hp' .done, rfl, hm₁⟩
  | error e m₁ =>
    rw [hp] at hx
    obtain ⟨e', m₁', hp', he⟩ := related_error_left hr hp
    subst hx
    exact ⟨.error e' m₁', .actFails hp', he⟩

theorem simulates_append (hp : Simulates b b' R E p p') (hq : Simulates b b' R E q q') :
    Simulates b b' R E (p ++ q) (p' ++ q') := by
  intro m m' r hm hx
  obtain ⟨m₁, hx, hy⟩ | ⟨e, m₁, rfl, hx⟩ := executes_append.mp hx
  · obtain ⟨r', hx', hr⟩ := hp m m' _ hm hx
    obtain ⟨m₁', rfl, hm₁⟩ := related_ok_left hr rfl
    obtain ⟨r', hy', hr⟩ := hq m₁ m₁' r hm₁ hy
    exact ⟨r', executes_append_ok hx' hy', hr⟩
  · obtain ⟨r', hx', hr⟩ := hp m m' _ hm hx
    obtain ⟨e', m₁', rfl, he⟩ := related_error_left hr rfl
    exact ⟨_, executes_append_error hx', he⟩

/-- A loop is simulated pass by pass. -/
theorem simulates_loop (h : Lockstep b b' R E) (hb : Simulates b b' R E body body') :
    Simulates b b' R E [.loop body] [.loop body'] := by
  intro m m' r hm hx
  generalize hl : [Instruction.loop body] = l at hx
  induction hx generalizing m' with
  | done | act | actFails => cases hl
  | @skip _ _ m _ _ test later =>
    cases hl
    obtain ⟨m₁', test', hm₁⟩ := related_ok_left (h.check m m' hm) test
    rw [executes_nil.mp later]
    exact ⟨_, .skip test' .done, rfl, hm₁⟩
  | @pass _ _ m _ _ _ test once _ _ ih =>
    cases hl
    obtain ⟨m₁', test', hm₁⟩ := related_ok_left (h.check m m' hm) test
    obtain ⟨r', once', hr⟩ := hb _ _ _ hm₁ once
    obtain ⟨m₂', rfl, hm₂⟩ := related_ok_left hr rfl
    obtain ⟨r', again', hr⟩ := ih m₂' hm₂ rfl
    exact ⟨r', .pass test' once' again', hr⟩
  | @passFails _ _ m _ _ _ test once =>
    cases hl
    obtain ⟨m₁', test', hm₁⟩ := related_ok_left (h.check m m' hm) test
    obtain ⟨r', once', hr⟩ := hb _ _ _ hm₁ once
    obtain ⟨e', m₂', rfl, he⟩ := related_error_left hr rfl
    exact ⟨_, .passFails test' once', he⟩
  | @checkFails _ _ m _ _ test =>
    cases hl
    obtain ⟨e', m₁', test', he⟩ := related_error_left (h.check m m' hm) test
    exact ⟨_, .checkFails test', he⟩

mutual

theorem simulates_instruction (h : Lockstep b b' R E) :
    ∀ i : Instruction, Simulates b b' R E [i] [i]
  | .act _ => simulates_act h
  | .loop body => simulates_loop h (simulates_refl h body)

/-- In lockstep a program simulates itself. -/
theorem simulates_refl (h : Lockstep b b' R E) : ∀ p : Program, Simulates b b' R E p p
  | [] => simulates_nil
  | i :: is => simulates_append (p := [i]) (simulates_instruction h i) (simulates_refl h is)

end

end Machine

end Brainfuck

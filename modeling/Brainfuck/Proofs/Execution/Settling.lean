import Brainfuck.Walk

/-! Walks that come to an end, whatever number of rounds they take. -/
namespace Brainfuck.Visitor

variable {ε σ : Type} {v : Visitor ε σ} {inner : Frame} {outer frames : List Frame} {s : σ}
  {r r' : EStateM.Result ε σ Unit}

/-- What a round that does not fail can do: end a pass that belongs to no loop, do an instruction, or ask at
the start of a loop or at the end of a pass over it whether to walk its body. -/
inductive Turns (v : Visitor ε σ) : Frame → List Frame → σ → List Frame → σ → Prop
  | close {fs : List Frame} {t : σ} : Turns v ⟨[], none⟩ fs t fs t
  | act {a rest loop fs t t'} (now : v.act a t = .ok () t') :
    Turns v ⟨.act a :: rest, loop⟩ fs t (⟨rest, loop⟩ :: fs) t'
  | skip {body rest loop fs t t'} (now : v.enter body t = .ok false t') :
    Turns v ⟨.loop body :: rest, loop⟩ fs t (⟨rest, loop⟩ :: fs) t'
  | enter {body rest loop fs t t'} (now : v.enter body t = .ok true t') :
    Turns v ⟨.loop body :: rest, loop⟩ fs t (⟨body, some body⟩ :: ⟨rest, loop⟩ :: fs) t'
  | leave {body fs t t'} (now : v.again body t = .ok false t') :
    Turns v ⟨[], some body⟩ fs t fs t'
  | again {body fs t t'} (now : v.again body t = .ok true t') :
    Turns v ⟨[], some body⟩ fs t (⟨body, some body⟩ :: fs) t'

theorem turns_of_round {s' : σ} (h : v.round inner outer s = .ok frames s') :
    v.Turns inner outer s frames s' := by
  obtain ⟨_ | ⟨a | body, rest⟩, loop⟩ := inner
  · cases loop with
    | none =>
      cases h
      exact .close
    | some body =>
      change EStateM.bind (v.again body) (fun b =>
        if b then pure (⟨body, some body⟩ :: outer) else pure outer) s = _ at h
      unfold EStateM.bind at h
      rcases hc : v.again body s with ⟨_ | _, s₁⟩ | ⟨e, s₁⟩ <;> rw [hc] at h <;> cases h
      · exact .leave hc
      · exact .again hc
  · change EStateM.bind (v.act a) (fun _ => pure (⟨rest, loop⟩ :: outer)) s = _ at h
    unfold EStateM.bind at h
    cases ha : v.act a s <;> rw [ha] at h <;> cases h
    exact .act ha
  · change EStateM.bind (v.enter body) (fun b =>
      if b then pure (⟨body, some body⟩ :: ⟨rest, loop⟩ :: outer)
      else pure (⟨rest, loop⟩ :: outer)) s = _ at h
    unfold EStateM.bind at h
    rcases hc : v.enter body s with ⟨_ | _, s₁⟩ | ⟨e, s₁⟩ <;> rw [hc] at h <;> cases h
    · exact .skip hc
    · exact .enter hc

/-- The frames and the state that are left have one property, or the error and the state the other. -/
def Satisfies (P : List Frame → σ → Prop) (Q : ε → σ → Prop) :
    EStateM.Result ε σ (List Frame) → Prop
  | .ok frames s => P frames s
  | .error e s => Q e s

/-- What every round keeps holds wherever a walk comes to. -/
theorem satisfies_rounds {P : List Frame → σ → Prop} {Q : ε → σ → Prop}
    (hround : ∀ inner outer s, P (inner :: outer) s → Satisfies P Q (v.round inner outer s))
    (n : Nat) (h : P frames s) : Satisfies P Q (v.rounds n frames s) := by
  induction n generalizing frames s with
  | zero => exact h
  | succ n ih =>
    cases frames with
    | nil => exact h
    | cons inner outer =>
      have hfirst := hround inner outer s h
      rw [rounds]
      cases hr : v.round inner outer s with
      | ok frames s₁ =>
        rw [hr] at hfirst
        exact ih hfirst
      | error e s₁ =>
        rw [hr] at hfirst
        exact hfirst

/-- The result of rounds that leave no frame, or that fail. -/
def Yields (x : EStateM.Result ε σ (List Frame)) : EStateM.Result ε σ Unit → Prop
  | .ok _ s => x = .ok [] s
  | .error e s => x = .error e s

/-- After some number of rounds the walk has ended with this result. -/
def Settles (v : Visitor ε σ) (frames : List Frame) (s : σ) (r : EStateM.Result ε σ Unit) : Prop :=
  ∃ n, Yields (v.rounds n frames s) r

theorem settles_nil : v.Settles [] s r ↔ r = .ok () s := by
  constructor
  · rintro ⟨n, hn⟩
    rw [rounds_nil] at hn
    cases r <;> simp_all [Yields]
  · rintro rfl
    exact ⟨0, rfl⟩

/-- The walk goes on from what its first round leaves. -/
theorem settles_cons :
    v.Settles (inner :: outer) s r ↔
      match v.round inner outer s with
      | .ok frames s => v.Settles frames s r
      | .error e s => r = .error e s := by
  constructor
  · rintro ⟨n, hn⟩
    cases n with
    | zero => cases r <;> simp [Yields, rounds] at hn
    | succ n =>
      rw [rounds] at hn
      cases h : v.round inner outer s with
      | ok frames s' => exact ⟨n, by simpa [h] using hn⟩
      | error e s' => cases r <;> simp_all [Yields]
  · cases h : v.round inner outer s with
    | ok frames s' =>
      rintro ⟨n, hn⟩
      exact ⟨n + 1, by simpa [rounds, h] using hn⟩
    | error e s' =>
      rintro rfl
      exact ⟨1, by simp [Yields, rounds, h]⟩

theorem yields_add {m : Nat} (h : Yields (v.rounds m frames s) r) (n : Nat) :
    Yields (v.rounds (m + n) frames s) r := by
  rw [rounds_add]
  cases r <;> simp_all [Yields, rounds_nil]

theorem yields_unique {x : EStateM.Result ε σ (List Frame)} (h : Yields x r) (h' : Yields x r') :
    r = r' := by
  cases r <;> cases r' <;> simp_all [Yields]

theorem settles_unique (h : v.Settles frames s r) (h' : v.Settles frames s r') : r = r' := by
  obtain ⟨m, hm⟩ := h
  obtain ⟨n, hn⟩ := h'
  have hn' := yields_add hn m
  rw [Nat.add_comm] at hn'
  exact yields_unique (yields_add hm n) hn'

end Brainfuck.Visitor

import Brainfuck.CommandLine.Settings

/-! What holds of all settings that a command line can give: whatever each option and the operand keep. -/
namespace Brainfuck.CommandLine

variable {σ : Type} {P : σ → Prop} {g : Grammar σ} {e : Entry σ} {r : Reading σ} {s s' : σ}
  {u : Use σ} {us : List (Use σ)} {text : String} {next : Option String} {used : Bool}
  {cs : List Char} {ws : List String} {xs : List (Word σ)}

/-- An option that leaves settings with a property only with that property. -/
def Entry.Keeps (P : σ → Prop) (e : Entry σ) : Prop :=
  match e.effect with
  | .switch change => ∀ s, P s → P (change s)
  | .value change => ∀ v s s', P s → change v s = .ok s' → P s'
  | .help => True

namespace Grammar

structure Keeps (P : σ → Prop) (g : Grammar σ) : Prop where
  entries : ∀ e ∈ g.entries, e.Keeps P
  operand : ∀ o, g.operand = some o → ∀ text s, P s → P (o.change text s)

/-! Every option that is carried out is one of the grammar. -/

theorem mem_of_mem_names {name : String} (h : (name, e) ∈ g.names) : e ∈ g.entries := by
  obtain ⟨e', he', hmem⟩ := List.mem_flatMap.mp h
  obtain ⟨n, hn, hpair⟩ := List.mem_map.mp hmem
  cases hpair
  exact he'

theorem mem_of_find? {name : String} (h : g.find? name = some e) : e ∈ g.entries := by
  obtain ⟨⟨n, e'⟩, hfind, rfl⟩ := Option.map_eq_some_iff.mp h
  exact mem_of_mem_names (List.mem_of_find?_eq_some hfind)

/-- What is selected by name is the grammar's, whatever value is attached to it. -/
theorem mem_of_selected {select : String × Entry σ → Option (Reading σ)}
    (hselect : ∀ name e r, select (name, e) = some r → r.entry = e)
    (h : r ∈ g.names.filterMap select) : r.entry ∈ g.entries := by
  obtain ⟨⟨name, e⟩, hmem, hr⟩ := List.mem_filterMap.mp h
  rw [hselect _ _ _ hr]
  exact mem_of_mem_names hmem

theorem mem_of_candidates (h : r ∈ g.candidates cs) : r.entry ∈ g.entries := by
  unfold candidates at h
  split at h
  next rest =>
    obtain ⟨⟨start, attached⟩, hsplit⟩ : ∃ v, splitValue ('-' :: '-' :: rest) = v := ⟨_, rfl⟩
    rw [hsplit] at h
    apply mem_of_selected _ h
    intro name e r hr
    dsimp only at hr
    split at hr <;> cases hr
    rfl
  next =>
    apply mem_of_selected _ h
    intro name e r hr
    dsimp only at hr
    split at hr
    · cases hr
      rfl
    · split at hr <;> cases hr
      rfl

theorem mem_of_abbreviated (h : g.abbreviated text = .ok (.option r)) : r.entry ∈ g.entries := by
  unfold abbreviated at h
  dsimp only at h
  split at h
  next r' hc =>
    cases h
    exact mem_of_candidates (hc ▸ List.mem_singleton_self r)
  next => split at h <;> cases h
  next => cases h

theorem mem_of_word (h : g.word text = .ok (.option r)) : r.entry ∈ g.entries := by
  unfold word at h
  split at h
  next e hfind =>
    cases h
    exact mem_of_find? hfind
  next =>
    split at h
    · split at h
      next e hfind =>
        cases h
        exact mem_of_find? hfind
      next => exact mem_of_abbreviated h
    · exact mem_of_abbreviated h
  next => cases h

theorem mem_of_words (h : g.words ws = .ok xs) (hr : .option r ∈ xs) : r.entry ∈ g.entries := by
  induction ws generalizing xs with
  | nil =>
    cases h
    cases hr
  | cons w ws ih =>
    by_cases hw : w = "--"
    · subst hw
      cases h
      simp at hr
    · rw [words] at h
      · cases hword : g.word w with
        | error e =>
          rw [hword] at h
          cases h
        | ok x =>
          cases hwords : g.words ws with
          | error e =>
            rw [hword, hwords] at h
            cases h
          | ok ys =>
            rw [hword, hwords] at h
            cases h
            rcases List.mem_cons.mp hr with hx | hys
            · exact mem_of_word (hx ▸ hword)
            · exact ih hwords hys
      · exact hw

theorem entry_of_lone (h : lone e next = .ok (us, used)) (hu : u ∈ us) : u.entry = e := by
  unfold lone at h
  split at h
  · split at h
    · cases h
      rw [List.mem_singleton.mp hu]
    · cases h
  · cases h
    rw [List.mem_singleton.mp hu]

theorem mem_of_cluster (he : e ∈ g.entries) (h : g.cluster next e cs = .ok (us, used))
    (hu : u ∈ us) : u.entry ∈ g.entries := by
  induction cs generalizing e us used with
  | nil =>
    rw [entry_of_lone h hu]
    exact he
  | cons c cs ih =>
    unfold cluster at h
    split at h
    · cases h
      rw [List.mem_singleton.mp hu]
      exact he
    · split at h
      next => cases h
      next e' hfind =>
        cases hrest : g.cluster next e' cs with
        | error m =>
          rw [hrest] at h
          cases h
        | ok rest =>
          rw [hrest] at h
          cases h
          rcases List.mem_cons.mp hu with rfl | hu
          · exact he
          · exact ih (mem_of_find? hfind) hrest hu

theorem mem_of_uses (hr : r.entry ∈ g.entries) (h : g.uses next r = .ok (us, used))
    (hu : u ∈ us) : u.entry ∈ g.entries := by
  unfold uses at h
  split at h
  · rw [entry_of_lone h hu]
    exact hr
  · split at h
    · cases h
      rw [List.mem_singleton.mp hu]
      exact hr
    · split at h
      · cases h
      · exact mem_of_cluster hr h hu

/-! So settings keep what the options and the operand keep. -/

theorem carryOut_keeps (hus : ∀ u ∈ us, u.entry.Keeps P) (hs : P s)
    (h : carryOut us s = .settings s') : P s' := by
  induction us generalizing s with
  | nil =>
    cases h
    exact hs
  | cons u us ih =>
    obtain ⟨hu, hrest⟩ := List.forall_mem_cons.mp hus
    unfold Entry.Keeps at hu
    unfold carryOut at h
    cases heffect : u.entry.effect with
    | help =>
      rw [heffect] at h
      cases h
    | switch change =>
      rw [heffect] at h hu
      exact ih hrest (hu s hs) h
    | value change =>
      rw [heffect] at h hu
      dsimp only at h
      split at h
      next s₁ hs₁ => exact ih hrest (hu _ s s₁ hs hs₁) h
      next => cases h

theorem finish_keeps {p : Progress σ} (hp : P p.settings) (h : finish p = .settings s') : P s' := by
  unfold finish at h
  split at h
  · cases h
  · split at h
    · cases h
      exact hp
    · cases h

/-- What is kept in the course of carrying out words. -/
structure Holds (P : σ → Prop) (g : Grammar σ) (p : Progress σ) : Prop where
  settings : P p.settings
  wanted : ∀ o, p.wanted = some o → g.operand = some o

theorem carryOutWords_keeps (hg : g.Keeps P) (hxs : ∀ r, .option r ∈ xs → r.entry ∈ g.entries)
    (skip : Bool) (p : Progress σ) (hp : Holds P g p)
    (h : g.carryOutWords xs skip p = .settings s') : P s' := by
  induction xs generalizing skip p with
  | nil => exact finish_keeps hp.settings h
  | cons x xs ih =>
    have ih := ih fun r hr => hxs r (List.mem_cons_of_mem x hr)
    cases skip with
    | true => exact ih false p hp h
    | false =>
      cases x with
      | operand text =>
        unfold carryOutWords at h
        split at h
        next o ho =>
          have hchange := hg.operand o (hp.wanted o ho) text _ hp.settings
          exact ih _ _ ⟨hchange, fun _ hnone => by cases hnone⟩ h
        next => exact ih _ { p with extras := text :: p.extras } ⟨hp.settings, hp.wanted⟩ h
      | separator =>
        unfold carryOutWords at h
        split at h
        · exact ih _ _ hp h
        · exact ih _ { p with extras := "--" :: p.extras } ⟨hp.settings, hp.wanted⟩ h
      | unknown text => exact ih _ { p with extras := text :: p.extras } ⟨hp.settings, hp.wanted⟩ h
      | option r =>
        have hr := hxs r List.mem_cons_self
        unfold carryOutWords at h
        split at h
        next => cases h
        next us used huses =>
          split at h
          next s₁ hs₁ =>
            have hus : ∀ u ∈ us, u.entry.Keeps P :=
              fun u hu => hg.entries _ (mem_of_uses hr huses hu)
            have hs := carryOut_keeps hus hp.settings hs₁
            exact ih _ { p with settings := s₁ } ⟨hs, hp.wanted⟩ h
          next => cases h
          next => cases h

/-- Settings that are read have whatever property the first ones have and every option keeps. -/
theorem read_keeps (hg : g.Keeps P) (hs : P s) {argv : List String}
    (h : g.read s argv = .settings s') : P s' := by
  unfold read at h
  split at h
  next => cases h
  next xs hwords =>
    exact carryOutWords_keeps hg (fun r hr => mem_of_words hwords hr) false _ ⟨hs, fun _ => id⟩ h

end Grammar

theorem one_le_of_positiveInteger {n : Int} (h : positiveInteger text = .ok n) : 1 ≤ n := by
  unfold positiveInteger at h
  split at h
  · cases h
  · split at h
    · cases h
    · cases h
      omega

namespace Settings

/-- A size that is not positive is refused. -/
def HasPositiveMemory (s : Settings) : Prop := ∀ n, s.memory = some n → 1 ≤ n

theorem grammar_keeps_positiveMemory : grammar.Keeps HasPositiveMemory where
  entries := by
    intro e he
    simp only [grammar, List.mem_cons, List.not_mem_nil, or_false] at he
    rcases he with rfl | rfl | rfl | rfl | rfl | rfl
    · trivial
    · intro v s s' hs h
      unfold takeMemory at h
      split at h
      · cases h
        rintro n ⟨⟩
      · split at h
        next m hm =>
          cases h
          rintro n ⟨⟩
          exact one_le_of_positiveInteger hm
        next => cases h
    · intro v s s' hs h
      unfold takeMode at h
      split at h <;> cases h <;> exact hs
    · intro v s s' hs h
      cases h
      exact hs
    · intro v s s' hs h
      cases h
      exact hs
    · exact fun s hs => hs
  operand := by
    rintro o ⟨⟩ text s hs
    exact hs

theorem memory_pos_of_read {argv : List String} {s : Settings} (h : read argv = .settings s) :
    s.HasPositiveMemory :=
  Grammar.read_keeps grammar_keeps_positiveMemory (by rintro n ⟨⟩; decide) h

end Settings

end Brainfuck.CommandLine

import Brainfuck.Text.Integer

/-! An integer that is read can also be written if the limit on digits holds for writing too. -/
namespace Brainfuck.Text

variable {cs : List Char} {ds : List Nat}

theorem digit?_lt {c : Char} {d : Nat} (h : digit? c = some d) : d < 10 := by
  unfold digit? at h
  obtain ⟨z, hz, rfl⟩ := Option.map_eq_some_iff.mp h
  have hfound := List.find?_some hz
  simp only [Bool.and_eq_true, decide_eq_true_eq] at hfound
  omega

/-- There is at least one digit, and none is larger than nine. -/
theorem lt_of_digitRun? (h : digitRun? digit? cs = some ds) : ds ≠ [] ∧ ∀ d ∈ ds, d < 10 := by
  have next {c : Char} {cs : List Char} {ds : List Nat}
      (ih : ∀ {ds}, digitRun? digit? cs = some ds → ds ≠ [] ∧ ∀ d ∈ ds, d < 10)
      (h : (do
        let d ← digit? c
        let ds ← digitRun? digit? cs
        return d :: ds) = some ds) : ds ≠ [] ∧ ∀ d ∈ ds, d < 10 := by
    obtain ⟨d, hd, h⟩ := Option.bind_eq_some_iff.mp h
    obtain ⟨rest, hrest, h⟩ := Option.bind_eq_some_iff.mp h
    cases h
    refine ⟨List.cons_ne_nil d rest, ?_⟩
    intro e he
    rcases List.mem_cons.mp he with rfl | he
    · exact digit?_lt hd
    · exact (ih hrest).2 e he
  fun_induction digitRun? digit? cs generalizing ds with
  | case1 => cases h
  | case2 c =>
    obtain ⟨d, hd, rfl⟩ := Option.map_eq_some_iff.mp h
    exact ⟨by simp, by simpa using digit?_lt hd⟩
  | case3 c cs ih => exact next ih h
  | case4 c cs _ _ ih => exact next ih h

/-- Each digit makes a number longer by one at most. -/
theorem length_toDigits_foldl (ds : List Nat) (n : Nat) (h : ∀ d ∈ ds, d < 10) :
    (Nat.toDigits 10 (ds.foldl (fun n d => 10 * n + d) n)).length ≤
      (Nat.toDigits 10 n).length + ds.length := by
  induction ds generalizing n with
  | nil => exact Nat.le_refl _
  | cons d ds ih =>
    have hd : d < 10 := h d List.mem_cons_self
    have hrest := ih (10 * n + d) fun e he => h e (List.mem_cons_of_mem d he)
    have hone : (Nat.toDigits 10 d).length = 1 := by
      rw [Nat.toDigits_of_lt_base hd]
      rfl
    have hstep : (Nat.toDigits 10 (10 * n + d)).length ≤ (Nat.toDigits 10 n).length + 1 := by
      rcases Nat.eq_zero_or_pos n with rfl | hn
      · rw [Nat.mul_zero, Nat.zero_add, hone]
        exact Nat.le_add_left _ _
      · have hlength := congrArg List.length (Nat.toDigits_append_toDigits (b := 10) (by decide) hn hd)
        rw [List.length_append, hone] at hlength
        omega
    rw [List.foldl_cons, List.length_cons]
    omega

/-- An integer that is read has no more digits than may be read. -/
theorem length_toDigits_of_integer? {text : String} {n : Int} (h : integer? text = some n) :
    (Nat.toDigits 10 n.natAbs).length ≤ maxDigits := by
  unfold integer? at h
  obtain ⟨ds, hds, h⟩ := Option.bind_eq_some_iff.mp h
  split at h
  next => cases h
  next hshort =>
    cases h
    obtain ⟨hne, hlt⟩ := lt_of_digitRun? hds
    obtain ⟨d, rest, rfl⟩ := List.exists_cons_of_ne_nil hne
    have hd : (Nat.toDigits 10 d).length = 1 := by
      rw [Nat.toDigits_of_lt_base (hlt d List.mem_cons_self)]
      rfl
    have hlength := length_toDigits_foldl rest d fun e he => hlt e (List.mem_cons_of_mem d he)
    have habs (negative : Bool) (m : Nat) : (signed negative m).natAbs = m := by
      cases negative <;> simp [signed]
    rw [habs, ofDigits, List.foldl_cons, Nat.mul_zero, Nat.zero_add]
    rw [List.length_cons] at hshort
    omega

end Brainfuck.Text

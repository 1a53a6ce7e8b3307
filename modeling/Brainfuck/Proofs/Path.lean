import Mathlib.Data.List.Basic
import Brainfuck.Path

/-! Paths that are read from texts: what their components can be, that their texts tell them apart, and what
their stems are. -/
namespace Brainfuck.Path

/-- What a text can have between two slashes that does not vanish. -/
structure Component (c : String) : Prop where
  ne_empty : c ≠ ""
  ne_dot : c ≠ "."
  no_slash : '/' ∉ c.toList

def Normal (p : Path) : Prop := ∀ c ∈ p.parts, Component c

def parent (p : Path) : Path := ⟨p.root, p.parts.dropLast⟩

/-- The component that a piece is, unless it vanishes. -/
def component? (piece : List Char) : Option String :=
  if piece = [] ∨ piece = ['.'] then none else some (String.ofList piece)

def components (cs : List Char) : List String := (pieces cs).filterMap component?

variable {c s : String} {cs ds xs ys : List Char} {p q : Path} {ps : List String}

theorem ofString_eq (s : String) : ofString s = ⟨rootOf s.toList, components s.toList⟩ := rfl

theorem pieces_of_no_slash (h : '/' ∉ cs) : pieces cs = [cs] := by
  induction cs with
  | nil => rfl
  | cons c cs ih =>
    obtain ⟨hc, hcs⟩ := not_or.mp (mt List.mem_cons.mpr h)
    rw [pieces, if_neg (Ne.symm hc), ih hcs]

theorem pieces_append (h : '/' ∉ xs) (ys : List Char) :
    pieces (xs ++ '/' :: ys) = xs :: pieces ys := by
  induction xs with
  | nil => rfl
  | cons c xs ih =>
    obtain ⟨hc, hxs⟩ := not_or.mp (mt List.mem_cons.mpr h)
    rw [List.cons_append, pieces, if_neg (Ne.symm hc), ih hxs]

theorem no_slash_of_mem_pieces (h : xs ∈ pieces cs) : '/' ∉ xs := by
  induction cs generalizing xs with
  | nil =>
    rw [List.mem_singleton.mp h]
    exact List.not_mem_nil
  | cons c cs ih =>
    unfold pieces at h
    split at h
    next =>
      rcases List.mem_cons.mp h with rfl | h
      · exact List.not_mem_nil
      · exact ih h
    next hc =>
      split at h
      next =>
        rw [List.mem_singleton.mp h]
        simpa using Ne.symm hc
      next y ys hy =>
        rw [hy] at ih
        rcases List.mem_cons.mp h with rfl | h
        · exact mt List.mem_cons.mp (not_or.mpr ⟨Ne.symm hc, ih List.mem_cons_self⟩)
        · exact ih (List.mem_cons_of_mem y h)

theorem component?_toList (h : Component c) : component? c.toList = some c := by
  have hempty : c.toList ≠ [] := fun hc => h.ne_empty (String.toList_eq_nil_iff.mp hc)
  have hdot : c.toList ≠ ['.'] := fun hc => h.ne_dot (String.toList_injective hc)
  rw [component?, if_neg (not_or.mpr ⟨hempty, hdot⟩), String.ofList_toList]

theorem component_of_component? (h : component? xs = some c) (hxs : '/' ∉ xs) : Component c := by
  unfold component? at h
  split at h
  · cases h
  · next hne =>
    obtain ⟨hempty, hdot⟩ := not_or.mp hne
    cases h
    refine ⟨fun hc => hempty ?_, fun hc => hdot ?_, by rwa [String.toList_ofList]⟩
    · rw [← String.toList_ofList (l := xs), hc]
      rfl
    · rw [← String.toList_ofList (l := xs), hc]
      rfl

/-- A text is read as components only. -/
theorem normal_ofString (s : String) : (ofString s).Normal := by
  intro c hc
  obtain ⟨xs, hxs, hcomponent⟩ := List.mem_filterMap.mp hc
  exact component_of_component? hcomponent (no_slash_of_mem_pieces hxs)

theorem rootOf_of_head (h : cs.head? ≠ some '/') (r : Root) : rootOf (r.text.toList ++ cs) = r := by
  cases cs with
  | nil => cases r <;> rfl
  | cons c cs =>
    have hc : c ≠ '/' := fun hc => h (congrArg some hc)
    cases r <;> simp [rootOf, Root.text, hc]

theorem components_root (r : Root) (cs : List Char) :
    components (r.text.toList ++ cs) = components cs := by
  cases r <;> rfl

theorem components_intercalate (h : ∀ c ∈ ps, Component c) :
    components ("/".intercalate ps).toList = ps := by
  induction ps with
  | nil => rfl
  | cons c ps ih =>
    obtain ⟨hc, hps⟩ := List.forall_mem_cons.mp h
    cases ps with
    | nil =>
      rw [String.intercalate_singleton, components, pieces_of_no_slash hc.no_slash,
        List.filterMap_cons_some (component?_toList hc), List.filterMap_nil]
    | cons d ps =>
      have htext : ("/".intercalate (c :: d :: ps)).toList =
          c.toList ++ '/' :: ("/".intercalate (d :: ps)).toList := by
        rw [String.intercalate_cons_cons, String.toList_append, String.toList_append,
          List.append_assoc]
        rfl
      rw [htext, components, pieces_append hc.no_slash,
        List.filterMap_cons_some (component?_toList hc)]
      exact congrArg (c :: ·) (ih hps)

theorem head_intercalate (h : ∀ c ∈ ps, Component c) :
    ("/".intercalate ps).toList.head? ≠ some '/' := by
  cases ps with
  | nil => simp
  | cons c ps =>
    have hc := h c List.mem_cons_self
    obtain ⟨d, ds, hd⟩ : ∃ d ds, c.toList = d :: ds :=
      List.exists_cons_of_ne_nil fun hnil => hc.ne_empty (String.toList_eq_nil_iff.mp hnil)
    have hslash : d ≠ '/' := fun hslash => hc.no_slash (by simp [hd, hslash])
    cases ps <;> simp [hd, hslash]

theorem ofString_component (h : Component c) : ofString c = ⟨.none, [c]⟩ := by
  have hone : ∀ d ∈ [c], Component d := fun d hd => List.mem_singleton.mp hd ▸ h
  have hparts := components_intercalate hone
  have hroot := rootOf_of_head (head_intercalate hone) .none
  rw [String.intercalate_singleton] at hparts hroot
  rw [ofString_eq, hparts]
  exact congrArg (fun r => Path.mk r [c]) hroot

/-- A path is read back from its text. -/
theorem ofString_text (h : p.Normal) : ofString p.text = p := by
  unfold text
  split
  · next hnone =>
    cases p
    obtain ⟨rfl, rfl⟩ := hnone
    rfl
  · rw [ofString_eq, String.toList_append, rootOf_of_head (head_intercalate h), components_root,
      components_intercalate h]

theorem text_inj (hp : p.Normal) (hq : q.Normal) : p.text = q.text ↔ p = q := by
  refine ⟨fun h => ?_, congrArg text⟩
  rw [← ofString_text hp, h, ofString_text hq]

theorem normal_join (hp : p.Normal) (hq : q.Normal) : (p.join q).Normal := by
  unfold join
  split
  · intro c hc
    exact (List.mem_append.mp hc).elim (hp c) (hq c)
  · exact hq

/-- A path with a last component is its parent and that component. -/
theorem extend_eq_iff {init : List String} (h : p.parts = init ++ [c]) :
    (⟨q.root, q.parts ++ [s]⟩ : Path) = p ↔ s = c ∧ q = p.parent := by
  obtain ⟨root, parts⟩ := p
  obtain rfl : parts = init ++ [c] := h
  cases q
  simp only [parent, List.dropLast_concat, mk.injEq, List.append_singleton_inj]
  tauto

/-! A stem is the name up to the last dot, unless that is nothing or all of the name. -/

/-- No dot of a name has something on both sides. -/
def Suffixless (name : List Char) : Prop := name.getLast? = some '.' ∨ '.' ∉ name.tail

/-- A name that begins with two dots and has no other. -/
def TwoDotted (name : List Char) : Prop := ∃ rest, rest ≠ [] ∧ '.' ∉ rest ∧ name = '.' :: '.' :: rest

theorem exists_last_dot (h : '.' ∈ cs) : ∃ xs ys, cs = xs ++ '.' :: ys ∧ '.' ∉ ys := by
  obtain ⟨ys, xs, hreverse, hys⟩ := List.eq_append_cons_of_mem (List.mem_reverse.mpr h)
  refine ⟨xs.reverse, ys.reverse, ?_, fun hmem => hys (List.mem_reverse.mp hmem)⟩
  rw [← List.reverse_reverse cs, hreverse]
  simp

/-- The search for the last dot passes what has none. -/
theorem takeWhile_reverse (h : '.' ∉ ys) (xs : List Char) :
    (ys.reverse ++ xs).takeWhile (· != '.') = ys.reverse ++ xs.takeWhile (· != '.') := by
  apply List.takeWhile_append_of_pos
  intro c hc
  simpa using fun hdot : c = '.' => h (hdot ▸ List.mem_reverse.mp hc)

theorem stemOf_of_no_dot (h : '.' ∉ cs) : stemOf cs = cs := by
  have hall : cs.reverse.takeWhile (· != '.') = cs.reverse := by
    simpa using takeWhile_reverse h []
  rw [stemOf, hall, List.length_reverse]
  exact if_pos (Or.inr (Or.inl rfl))

theorem stemOf_append (xs : List Char) (h : '.' ∉ ys) :
    stemOf (xs ++ '.' :: ys) = if ys = [] ∨ xs = [] then xs ++ '.' :: ys else xs := by
  have hending : (xs ++ '.' :: ys).reverse.takeWhile (· != '.') = ys.reverse := by
    rw [List.reverse_append, List.reverse_cons, List.append_assoc, takeWhile_reverse h]
    simp
  have hstem : (xs ++ '.' :: ys).take ((xs ++ '.' :: ys).length - ys.length - 1) = xs := by
    have hlength : (xs ++ '.' :: ys).length - ys.length - 1 = xs.length := by
      rw [List.length_append, List.length_cons]
      omega
    rw [hlength, List.take_left]
  have hlong : ys.length ≠ (xs ++ '.' :: ys).length := by
    simp
    omega
  simp only [stemOf, hending, List.length_reverse, hstem, List.reverse_eq_nil_iff, hlong, false_or]

theorem stemOf_starts (cs : List Char) : stemOf cs <+: cs := by
  unfold stemOf
  dsimp only
  split
  · exact List.prefix_refl cs
  · exact List.take_prefix _ cs

theorem stemOf_eq_nil_iff : stemOf cs = [] ↔ cs = [] := by
  constructor
  · unfold stemOf
    dsimp only
    split
    · exact id
    · next h => exact fun hstem => (h (Or.inr (Or.inr hstem))).elim
  · rintro rfl
    rfl

theorem stemOf_eq_self_iff : stemOf cs = cs ↔ Suffixless cs := by
  by_cases hdot : '.' ∈ cs
  · obtain ⟨xs, ys, rfl, hys⟩ := exists_last_dot hdot
    rw [stemOf_append xs hys]
    rcases List.eq_nil_or_concat ys with rfl | ⟨zs, z, rfl⟩
    · simp [Suffixless]
    · rw [List.concat_eq_append] at hys ⊢
      have hz : z ≠ '.' := by
        rintro rfl
        exact hys (by simp)
      cases xs with
      | nil => simpa [Suffixless] using Or.inr hys
      | cons x xs => simp [Suffixless, hz, List.getLast?_cons, List.getLast?_append]
  · rw [stemOf_of_no_dot hdot]
    exact ⟨fun _ => Or.inr fun h => hdot (List.mem_of_mem_tail h), fun _ => rfl⟩

theorem stemOf_eq_dot_iff (h : cs ≠ ['.']) : stemOf cs = ['.'] ↔ TwoDotted cs := by
  constructor
  · intro hstem
    have hdot : '.' ∈ cs := (stemOf_starts cs).subset (by simp [hstem])
    obtain ⟨xs, ys, rfl, hys⟩ := exists_last_dot hdot
    rw [stemOf_append xs hys] at hstem
    split at hstem
    · exact (h hstem).elim
    · next hne =>
      obtain ⟨hnil, -⟩ := not_or.mp hne
      rw [hstem]
      exact ⟨ys, hnil, hys, rfl⟩
  · rintro ⟨rest, hne, hrest, rfl⟩
    have happend := stemOf_append ['.'] hrest
    rwa [if_neg (by simp [hne])] at happend

theorem stem_eq_name_iff : p.stem = p.name ↔ Suffixless p.name.toList := by
  rw [stem, ← stemOf_eq_self_iff, ← String.toList_inj, String.toList_ofList]

theorem stem_eq_dot_iff (h : p.name ≠ ".") :
    p.stem = "." ↔ TwoDotted p.name.toList := by
  have hne : p.name.toList ≠ ['.'] := fun hdot => h (String.toList_injective hdot)
  rw [stem, ← stemOf_eq_dot_iff hne, ← String.toList_inj, String.toList_ofList]
  rfl

/-- A path without components has no stem, and otherwise its stem is a component or vanishes. -/
theorem stem_cases (h : p.Normal) :
    (p.parts = [] ∧ p.stem = "") ∨
    ∃ init c, p.parts = init ++ [c] ∧ p.name = c ∧ (p.stem = "." ∨ Component p.stem) := by
  rcases List.eq_nil_or_concat p.parts with hparts | ⟨init, c, hparts⟩
  · left
    have hname : p.name = "" := by rw [name, hparts]; rfl
    exact ⟨hparts, by rw [stem, hname]; rfl⟩
  · right
    have hname : p.name = c := by simp [name, hparts]
    have hc : Component c := h c (by simp [hparts])
    refine ⟨init, c, by rw [hparts, List.concat_eq_append], hname, ?_⟩
    by_cases hdot : p.stem = "."
    · exact Or.inl hdot
    · refine Or.inr ⟨fun hempty => hc.ne_empty ?_, hdot, fun hslash => hc.no_slash ?_⟩
      · rw [stem, hname, String.ofList_eq_empty_iff, stemOf_eq_nil_iff] at hempty
        exact String.toList_eq_nil_iff.mp hempty
      · rw [stem, hname, String.toList_ofList] at hslash
        exact (stemOf_starts _).subset hslash

end Brainfuck.Path

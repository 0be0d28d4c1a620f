/-
Pieces of text between separators.

- `cutAt`: what stands before the first separator and what stands after it.
- `pieces`: all pieces, also empty ones; a text without a separator is one piece.
- `not_mem_pieces`, `intercalate_pieces`: no piece holds a separator, and the pieces with separators between them are
  the text.
-/
namespace ReplicatedOrders.Text

/-- the characters before the first `c`, and those after it if there is one -/
def cutAt (c : Char) : List Char → List Char × Option (List Char)
  | [] => ([], none)
  | d :: ds =>
    if d = c then ([], some ds)
    else ((cutAt c ds).map (d :: ·) id)

/-- the pieces between the separators `c` -/
def pieces (c : Char) : List Char → List (List Char)
  | [] => [[]]
  | d :: ds =>
    if d = c then [] :: pieces c ds
    else match pieces c ds with
      | [] => [[d]]
      | p :: ps => (d :: p) :: ps

/-! ## Laws -/

theorem cutAt_eq_some {c : Char} {cs a b : List Char} (h : cutAt c cs = (a, some b)) : cs = a ++ c :: b ∧ c ∉ a := by
  induction cs generalizing a with
  | nil => simp [cutAt] at h
  | cons d ds ih =>
    by_cases hd : d = c
    · simp only [cutAt, hd, if_true, Prod.mk.injEq, Option.some.injEq] at h
      obtain ⟨rfl, rfl⟩ := h
      exact ⟨by simp [hd], by simp⟩
    · simp only [cutAt, hd, if_false, Prod.map, id, Prod.mk.injEq] at h
      obtain ⟨rfl, hb⟩ := h
      obtain ⟨hds, hc⟩ := ih (Prod.ext rfl hb)
      exact ⟨by rw [List.cons_append, ← hds], by simp [Ne.symm hd, hc]⟩

theorem cutAt_of_not_mem {c : Char} {cs : List Char} (h : c ∉ cs) : cutAt c cs = (cs, none) := by
  induction cs with
  | nil => rfl
  | cons d ds ih =>
    rw [List.mem_cons, not_or] at h
    simp [cutAt, Ne.symm h.1, ih h.2]

theorem cutAt_append {c : Char} {a b : List Char} (h : c ∉ a) : cutAt c (a ++ c :: b) = (a, some b) := by
  induction a with
  | nil => simp [cutAt]
  | cons d ds ih =>
    rw [List.mem_cons, not_or] at h
    simp [cutAt, Ne.symm h.1, ih h.2]

theorem pieces_ne_nil (c : Char) (cs : List Char) : pieces c cs ≠ [] := by
  cases cs with
  | nil => simp [pieces]
  | cons d ds =>
    by_cases hd : d = c
    · simp [pieces, hd]
    · simp only [pieces, hd, if_false]
      split <;> simp

/-- no piece holds the separator -/
theorem not_mem_pieces {c : Char} {cs p : List Char} (h : p ∈ pieces c cs) : c ∉ p := by
  induction cs generalizing p with
  | nil => simp_all [pieces]
  | cons d ds ih =>
    by_cases hd : d = c
    · simp only [pieces, hd, if_true, List.mem_cons] at h
      rcases h with rfl | h
      · simp
      · exact ih h
    · cases hp : pieces c ds with
      | nil => exact absurd hp (pieces_ne_nil c ds)
      | cons q qs =>
        simp only [pieces, hd, if_false, hp, List.mem_cons] at h
        rcases h with rfl | h
        · have hq : c ∉ q := ih (by simp [hp])
          simp [Ne.symm hd, hq]
        · exact ih (by simp [hp, h])

/-- the pieces with separators between them are the text -/
theorem intercalate_pieces (c : Char) (cs : List Char) : [c].intercalate (pieces c cs) = cs := by
  induction cs with
  | nil => simp [pieces]
  | cons d ds ih =>
    cases hp : pieces c ds with
    | nil => exact absurd hp (pieces_ne_nil c ds)
    | cons q qs =>
      rw [hp] at ih
      by_cases hd : d = c
      · simp [pieces, hd, hp, List.intercalate_cons_cons, ih]
      · cases qs with
        | nil => simp_all [pieces]
        | cons r rs =>
          simp only [pieces, hd, if_false, hp, List.intercalate_cons_cons, List.cons_append] at ih ⊢
          rw [ih]

example : pieces ',' "a,,b".toList = [['a'], [], ['b']] := by decide

end ReplicatedOrders.Text

/-
Trimming: what is left of a text without the blanks around it, and which word a text says.

Blanks are dropped from one end and then from the other. `Trims` says what is left without saying how: blanks, then
what is left, then blanks, where what is left neither starts nor ends with a blank.
- `dropWhile_isBlank`: blanks at the start.
- `trims_iff`: every text has exactly one such part, and it is what trimming leaves.
- `trimList_eq_nil_iff`: nothing is left of blanks, and of blanks only.
- `says_iff`: words between blanks and in any case.
- `pieces_eq_splitOn`: the pieces between separators.
-/
import Mathlib.Data.List.DropRight
import ReplicatedOrders.Text.Blank
import ReplicatedOrders.Text.Piece

namespace ReplicatedOrders.Text

/-- nothing but blanks -/
def Blank (cs : List Char) : Prop := ∀ c ∈ cs, isBlank c = true

/-- no blank at either end -/
structure Bare (cs : List Char) : Prop where
  head : ∀ c ∈ cs.head?, isBlank c = false
  last : ∀ c ∈ cs.getLast?, isBlank c = false

/-- blanks around `core` make `cs`, and `core` has none at its ends -/
def Trims (cs core : List Char) : Prop :=
  Bare core ∧ ∃ before after, Blank before ∧ Blank after ∧ cs = before ++ core ++ after

variable {cs core before after : List Char}

theorem Blank.nil : Blank [] := List.forall_mem_nil _

theorem Blank.append (hbefore : Blank before) (hafter : Blank after) : Blank (before ++ after) :=
  List.forall_mem_append.2 ⟨hbefore, hafter⟩

theorem Blank.not_mem {c : Char} (h : Blank cs) (hc : isBlank c = false) : c ∉ cs := by
  intro hmem
  rw [h c hmem] at hc
  cases hc

/-! ## One end -/

/-- blanks at the start are dropped up to a character that is none -/
theorem dropWhile_isBlank (hbefore : Blank before) (hhead : ∀ c ∈ cs.head?, isBlank c = false) :
    (before ++ cs).dropWhile isBlank = cs := by
  rw [List.dropWhile_append_of_pos hbefore]
  cases cs with
  | nil => rfl
  | cons c cs =>
    have hc : ¬ isBlank c = true := by simp [hhead c rfl]
    exact List.dropWhile_cons_of_neg hc

theorem rdropWhile_isBlank (hafter : Blank after) (hlast : ∀ c ∈ cs.getLast?, isBlank c = false) :
    (cs ++ after).rdropWhile isBlank = cs := by
  have hblank : Blank after.reverse := fun c hc => hafter c (List.mem_reverse.1 hc)
  have hhead : ∀ c ∈ cs.reverse.head?, isBlank c = false := by rwa [List.head?_reverse]
  rw [List.rdropWhile, List.reverse_append, dropWhile_isBlank hblank hhead, List.reverse_reverse]

/-! ## Both ends -/

theorem trimList_of_blank (h : Blank cs) : trimList cs = [] := by
  have hdrop : cs.dropWhile isBlank = [] := List.dropWhile_eq_nil_iff.2 h
  rw [trimList, hdrop]
  rfl

theorem trimList_of_trims (h : Trims cs core) : trimList cs = core := by
  obtain ⟨hbare, before, after, hbefore, hafter, rfl⟩ := h
  cases core with
  | nil =>
    rw [List.append_nil]
    exact trimList_of_blank (hbefore.append hafter)
  | cons c core =>
    have hdrop : (before ++ (c :: core ++ after)).dropWhile isBlank = c :: core ++ after :=
      dropWhile_isBlank hbefore hbare.head
    rw [trimList, List.append_assoc, hdrop]
    exact rdropWhile_isBlank hafter hbare.last

/-- every text has a part without blanks at its ends -/
theorem trims_trimList (cs : List Char) : Trims cs (trimList cs) := by
  have hmid : ∀ c ∈ (cs.dropWhile isBlank).head?, isBlank c = false := by
    intro c hc
    have hnot := List.head?_dropWhile_not isBlank cs
    rwa [Option.mem_def.1 hc] at hnot
  have hrest : trimList cs ++ (cs.dropWhile isBlank).rtakeWhile isBlank = cs.dropWhile isBlank :=
    List.rdropWhile_append_rtakeWhile
  refine ⟨⟨?_, ?_⟩, cs.takeWhile isBlank, (cs.dropWhile isBlank).rtakeWhile isBlank, ?_, ?_, ?_⟩
  · intro c hc
    apply hmid
    rw [← hrest, List.head?_append, Option.mem_def.1 hc]
    rfl
  · intro c hc
    have hne : trimList cs ≠ [] := by
      intro hnil
      rw [hnil] at hc
      cases hc
    have hlast := List.rdropWhile_last_not isBlank _ hne
    rw [List.getLast?_eq_some_getLast hne] at hc
    rw [← Option.some.inj hc]
    exact Bool.eq_false_iff.2 hlast
  · exact fun c hc => List.mem_takeWhile_imp hc
  · exact fun c hc => List.mem_rtakeWhile_imp hc
  · rw [List.append_assoc, hrest, List.takeWhile_append_dropWhile]

/-- **Trimming leaves the one part that has no blanks at its ends.** -/
theorem trims_iff : Trims cs core ↔ trimList cs = core :=
  ⟨trimList_of_trims, fun h => h ▸ trims_trimList cs⟩

theorem Trims.unique {core' : List Char} (h : Trims cs core) (h' : Trims cs core') : core = core' :=
  (trims_iff.1 h).symm.trans (trims_iff.1 h')

theorem trimList_eq_nil_iff : trimList cs = [] ↔ Blank cs := by
  refine ⟨fun h => ?_, trimList_of_blank⟩
  obtain ⟨-, before, after, hbefore, hafter, rfl⟩ := trims_iff.2 h
  rw [List.append_nil]
  exact hbefore.append hafter

namespace Trims

theorem bare (h : Bare cs) : Trims cs cs := ⟨h, [], [], .nil, .nil, by simp⟩

theorem prepend (h : Trims cs core) (hbefore : Blank before) : Trims (before ++ cs) core := by
  obtain ⟨hbare, front, back, hfront, hback, rfl⟩ := h
  exact ⟨hbare, before ++ front, back, hbefore.append hfront, hback, by simp⟩

theorem append (h : Trims cs core) (hafter : Blank after) : Trims (cs ++ after) core := by
  obtain ⟨hbare, front, back, hfront, hback, rfl⟩ := h
  exact ⟨hbare, front, back ++ after, hfront, hback.append hafter, by simp⟩

theorem mem_of_mem {c : Char} (h : Trims cs core) (hc : c ∈ core) : c ∈ cs := by
  obtain ⟨-, front, back, -, -, rfl⟩ := h
  simp [hc]

theorem not_blank (h : Trims cs core) (hne : core ≠ []) : ¬ Blank cs := fun hblank =>
  hne ((trims_iff.1 h).symm.trans (trimList_of_blank hblank))

/-- a character that is not blank stays -/
theorem mem_of_not_blank {c : Char} (h : Trims cs core) (hc : c ∈ cs) (hblank : isBlank c = false) : c ∈ core := by
  obtain ⟨-, front, back, hfront, hback, rfl⟩ := h
  simpa [hfront.not_mem hblank, hback.not_mem hblank] using hc

end Trims

/-! ## Words -/

/-- the text is the word in lower case, with blanks around it and letters of either case -/
def Says (text word : String) : Prop := ∃ core, Trims text.toList core ∧ core.map Char.toLower = word.toList

theorem says_iff {text word : String} : Says text word ↔ lower (trim text) = word := by
  have hlower : (lower (trim text)).toList = (trimList text.toList).map Char.toLower := by
    rw [lower, trim, String.toList_map, String.toList_ofList]
  rw [← String.toList_inj, hlower]
  constructor
  · rintro ⟨core, hcore, hword⟩
    rwa [trims_iff.1 hcore]
  · intro hword
    exact ⟨_, trims_trimList _, hword⟩

theorem Says.unique {text word word' : String} (h : Says text word) (h' : Says text word') : word = word' :=
  (says_iff.1 h).symm.trans (says_iff.1 h')

/-! ## Pieces -/

theorem pieces_eq_splitOn (c : Char) (cs : List Char) : pieces c cs = cs.splitOn c := by
  have hfree : ∀ piece ∈ pieces c cs, c ∉ piece := fun _ => not_mem_pieces
  rw [← List.splitOn_intercalate c hfree (pieces_ne_nil c cs), intercalate_pieces]

end ReplicatedOrders.Text

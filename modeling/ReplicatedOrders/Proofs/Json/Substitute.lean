/-
Substitution: a number in a text and the quoted string of its digits have the same normal form.

Two texts that differ in such a place give tokens that are alike one by one. The stack machine makes alike documents of
alike tokens, or goes wrong on the first of them; alike documents have the same normal form.
- `Doc.Alike.array`, `Doc.Alike.object`: alike parts make alike wholes.
- `build_alike`: the stack machine on alike tokens.
- `parse?_substitute`: a number that stands between tokens may be replaced by the string of its digits.
-/
import ReplicatedOrders.Proofs.Json.Written

namespace ReplicatedOrders.Json

/-! ## Normal forms of members -/

namespace Value

theorem textualMembers_put (key : String) (v : Value) (ms : Members) :
    textualMembers (Members.put key v ms) = Members.put key v.textual (textualMembers ms) := by
  induction ms with
  | nil => rfl
  | cons m ms ih =>
    obtain ⟨k, w⟩ := m
    simp only [Members.put, textualMembers]
    split
    · rfl
    · split
      · rfl
      · rw [textualMembers, ih]

/-- putting members in order does not look at their values -/
theorem textualMembers_ofList (ms : Members) :
    textualMembers (Members.ofList ms) = Members.ofList (textualMembers ms) := by
  have hfold : ∀ acc : Members, textualMembers (ms.foldl (fun acc m => Members.put m.1 m.2 acc) acc) =
      (textualMembers ms).foldl (fun acc m => Members.put m.1 m.2 acc) (textualMembers acc) := by
    induction ms with
    | nil => intro acc; rfl
    | cons m ms ih =>
      intro acc
      rw [List.foldl_cons, ih, textualMembers_put]
      rfl
  exact hfold []

end Value

/-! ## Alike documents -/

/-- at every depth both have the same normal form, or neither has a value -/
def Doc.Alike (d d' : Doc) : Prop :=
  ∀ levels, (d.value? levels).map Value.textual = (d'.value? levels).map Value.textual

/-- the same key and alike values -/
def MembersAlike : List (Option String × Doc) → List (Option String × Doc) → Prop :=
  List.Forall₂ fun m m' => m.1 = m'.1 ∧ m.2.Alike m'.2

namespace Doc.Alike

theorem refl (d : Doc) : d.Alike d := fun _ => rfl

/-- a number and the text of its digits -/
theorem digits (n : Number) : (Doc.number n).Alike (.text n.digits) := fun _ => rfl

theorem itemValues {ds ds' : List Doc} (h : List.Forall₂ Alike ds ds') (levels : Nat) :
    (itemValues? levels ds).map Value.textualItems = (itemValues? levels ds').map Value.textualItems := by
  induction h with
  | nil => rfl
  | cons hd _ ih =>
    have hcons : ∀ (v : Option Value) (vs : Option (List Value)),
        (v.bind fun v => vs.bind fun vs => some (v :: vs)).map Value.textualItems =
          (v.map Value.textual).bind fun w => (vs.map Value.textualItems).bind fun ws => some (w :: ws) := by
      intro v vs
      cases v <;> cases vs <;> rfl
    exact (hcons _ _).trans (by rw [hd levels, ih]; exact (hcons _ _).symm)

theorem memberValues {ms ms' : List (Option String × Doc)} (h : MembersAlike ms ms') (levels : Nat) :
    (memberValues? levels ms).map Value.textualMembers = (memberValues? levels ms').map Value.textualMembers := by
  induction h with
  | nil => rfl
  | @cons m m' ms ms' hm _ ih =>
    obtain ⟨key, d⟩ := m
    obtain ⟨key', d'⟩ := m'
    obtain ⟨rfl, hd⟩ := hm
    have hcons : ∀ (v : Option Value) (ms : Option Members),
        (key.bind fun k => v.bind fun v => ms.bind fun ms => some ((k, v) :: ms)).map Value.textualMembers =
          key.bind fun k => (v.map Value.textual).bind fun w =>
            (ms.map Value.textualMembers).bind fun ws => some ((k, w) :: ws) := by
      intro v ms
      cases key <;> cases v <;> cases ms <;> rfl
    exact (hcons _ _).trans (by rw [hd levels, ih]; exact (hcons _ _).symm)

theorem array {ds ds' : List Doc} (h : List.Forall₂ Alike ds ds') : (Doc.array ds).Alike (.array ds') := by
  intro levels
  cases levels with
  | zero => rfl
  | succ levels =>
    have hitems := congrArg (Option.map Value.array) (itemValues h levels)
    simp only [Option.map_map] at hitems
    simp only [value?, Option.map_map]
    exact hitems

theorem object {ms ms' : List (Option String × Doc)} (h : MembersAlike ms ms') :
    (Doc.object ms).Alike (.object ms') := by
  intro levels
  cases levels with
  | zero => rfl
  | succ levels =>
    have hnormal : (Value.textual ∘ fun ms => .object (Members.ofList ms)) =
        (fun ms => .object (Members.ofList ms)) ∘ Value.textualMembers := by
      funext ms
      exact congrArg Value.object (Value.textualMembers_ofList ms)
    have hmembers := congrArg (Option.map fun ms => Value.object (Members.ofList ms)) (memberValues h levels)
    simp only [Option.map_map, ← hnormal] at hmembers
    simp only [value?, Option.map_map]
    exact hmembers

end Doc.Alike

/-! ## Alike runs of the stack machine -/

/-- the same token, or a number and the text of its digits -/
inductive Token.Alike : Token → Token → Prop where
  | refl (t : Token) : Alike t t
  | digits (n : Number) : Alike (.number (some n)) (.text (some n.digits))

/-- the same open container with alike contents -/
inductive Frame.Alike : Frame → Frame → Prop where
  | array {before before' : List Doc} (h : List.Forall₂ Doc.Alike before before') :
    Alike (.array before) (.array before')
  | object {before before' : List (Option String × Doc)} (h : MembersAlike before before') :
    Alike (.object before) (.object before')
  | member {before before' : List (Option String × Doc)} (key : Option String) (h : MembersAlike before before') :
    Alike (.member before key) (.member before' key)

abbrev FramesAlike : List Frame → List Frame → Prop := List.Forall₂ Frame.Alike

/-- the second step leads on as the first one does, unless the first is wrong -/
inductive Progress.Alike : Progress → Progress → Prop where
  | on (need : Need) {fs fs' : List Frame} (h : FramesAlike fs fs') : Alike (.on need fs) (.on need fs')
  | complete {d d' : Doc} (h : d.Alike d') : Alike (.complete d) (.complete d')
  | wrong (p : Progress) : Alike .wrong p

theorem place_alike {d d' : Doc} (hd : d.Alike d') {fs fs' : List Frame} (hfs : FramesAlike fs fs') :
    (place d fs).Alike (place d' fs') := by
  cases hfs with
  | nil => exact .complete hd
  | cons hf hfs =>
    cases hf with
    | array h => exact .on _ (.cons (.array (.cons hd h)) hfs)
    | object h => exact .wrong _
    | member key h => exact .on _ (.cons (.object (.cons ⟨rfl, hd⟩ h)) hfs)

theorem startValue_alike {t t' : Token} (ht : t.Alike t') {fs fs' : List Frame} (hfs : FramesAlike fs fs') :
    (startValue fs t).Alike (startValue fs' t') := by
  cases ht with
  | digits n => exact place_alike (.digits n) hfs
  | refl t =>
    cases t with
    | null | bool | number | text => exact place_alike (.refl _) hfs
    | openArray => exact .on _ (.cons (.array .nil) hfs)
    | openObject => exact .on _ (.cons (.object .nil) hfs)
    | closeArray | closeObject | colon | comma | bad => exact .wrong _

/-- a number is no key -/
theorem startKey_alike {t t' : Token} (ht : t.Alike t') {fs fs' : List Frame} (hfs : FramesAlike fs fs') :
    (startKey fs t).Alike (startKey fs' t') := by
  cases hfs with
  | nil => exact .wrong _
  | cons hf hfs =>
    cases hf with
    | array h | member key h => exact .wrong _
    | object h =>
      cases ht with
      | digits n => exact .wrong _
      | refl t =>
        cases t with
        | text key => exact .on _ (.cons (.member key h) hfs)
        | _ => exact .wrong _

/-- where a key may come first, every token but the end of the object starts a key -/
theorem step_firstKey (fs : List Frame) {t : Token} (hne : t ≠ .closeObject) : step .firstKey fs t = startKey fs t := by
  cases fs with
  | nil => rfl
  | cons f fs => cases f <;> cases t <;> first | rfl | exact absurd rfl hne

/-- **One step on alike tokens.** -/
theorem step_alike {t t' : Token} (ht : t.Alike t') {fs fs' : List Frame} (hfs : FramesAlike fs fs') (need : Need) :
    (step need fs t).Alike (step need fs' t') := by
  cases need with
  | value => exact startValue_alike ht hfs
  | firstItem =>
    cases hfs with
    | nil => exact startValue_alike ht .nil
    | cons hf hfs =>
      cases hf with
      | object h => exact startValue_alike ht (.cons (.object h) hfs)
      | member key h => exact startValue_alike ht (.cons (.member key h) hfs)
      | array h =>
        cases ht with
        | digits n => exact startValue_alike (.digits n) (.cons (.array h) hfs)
        | refl t =>
          by_cases hclose : t = .closeArray
          · subst hclose
            exact place_alike (.refl _) hfs
          · rw [step_value (Or.inr rfl) _ hclose, step_value (Or.inr rfl) _ hclose]
            exact startValue_alike (.refl t) (.cons (.array h) hfs)
  | separator =>
    cases hfs with
    | nil => exact .wrong _
    | cons hf hfs =>
      cases hf with
      | member key h => exact .wrong _
      | array h =>
        cases ht with
        | digits n => exact .wrong _
        | refl t =>
          cases t with
          | comma => exact .on _ (.cons (.array h) hfs)
          | closeArray => exact place_alike (.array (List.rel_reverse h)) hfs
          | _ => exact .wrong _
      | object h =>
        cases ht with
        | digits n => exact .wrong _
        | refl t =>
          cases t with
          | comma => exact .on _ (.cons (.object h) hfs)
          | closeObject => exact place_alike (.object (List.rel_reverse h)) hfs
          | _ => exact .wrong _
  | key => exact startKey_alike ht hfs
  | firstKey =>
    cases hfs with
    | nil => exact startKey_alike ht .nil
    | cons hf hfs =>
      cases hf with
      | array h => exact startKey_alike ht (.cons (.array h) hfs)
      | member key h => exact startKey_alike ht (.cons (.member key h) hfs)
      | object h =>
        cases ht with
        | digits n => exact startKey_alike (.digits n) (.cons (.object h) hfs)
        | refl t =>
          by_cases hclose : t = .closeObject
          · subst hclose
            exact place_alike (.refl _) hfs
          · rw [step_firstKey _ hclose, step_firstKey _ hclose]
            exact startKey_alike (.refl t) (.cons (.object h) hfs)
  | colon =>
    cases ht with
    | digits n => exact .wrong _
    | refl t =>
      cases t with
      | colon => exact .on _ hfs
      | _ => exact .wrong _

/-! ## Alike runs -/

theorem itemValues?_append_none {d : Doc} {levels : Nat} (hd : d.value? levels = none) (ds : List Doc) :
    Doc.itemValues? levels (ds ++ [d]) = none := by
  induction ds with
  | nil => simp [Doc.itemValues?, hd]
  | cons d' ds ih => simp [Doc.itemValues?, ih]

theorem memberValues?_append_none {d : Doc} {levels : Nat} (hd : d.value? levels = none) (key : Option String)
    (ms : List (Option String × Doc)) : Doc.memberValues? levels (ms ++ [(key, d)]) = none := by
  induction ms with
  | nil => simp [Doc.memberValues?, hd]
  | cons m ms ih => simp [Doc.memberValues?, ih]

/-- around a part without a value no container has one -/
theorem value?_unwind {d : Doc} (hd : ∀ levels, d.value? levels = none) (fs : List Frame) (levels : Nat) :
    (unwind d fs).value? levels = none := by
  induction fs generalizing d with
  | nil => exact hd levels
  | cons f fs ih =>
    cases f with
    | array before =>
      refine ih fun levels => ?_
      cases levels with
      | zero => rfl
      | succ levels => rw [Doc.value?, itemValues?_append_none (hd levels)]; rfl
    | object before | member before key =>
      refine ih fun levels => ?_
      cases levels with
      | zero => rfl
      | succ levels => rw [Doc.value?, memberValues?_append_none (hd levels)]; rfl

/-- **Alike tokens make alike documents,** or the first of them make none that has a value. -/
theorem build_alike {ts ts' : List Token} (hts : List.Forall₂ Token.Alike ts ts') (need : Need) {fs fs' : List Frame}
    (hfs : FramesAlike fs fs') :
    (∀ levels, (build need fs ts).1.value? levels = none) ∨
      (build need fs ts).1.Alike (build need fs' ts').1 ∧
        List.Forall₂ Token.Alike (build need fs ts).2 (build need fs' ts').2 := by
  have hcut : ∀ levels, (unwind .cut fs).value? levels = none := value?_unwind (fun _ => rfl) fs
  induction hts generalizing need fs fs' with
  | nil => exact Or.inl hcut
  | @cons t t' ts ts' ht hts ih =>
    have hstep := step_alike ht hfs need
    simp only [build]
    generalize step need fs t = p at hstep ⊢
    generalize step need fs' t' = p' at hstep ⊢
    cases hstep with
    | on need' h => exact ih need' h (value?_unwind (fun _ => rfl) _)
    | complete h => exact Or.inr ⟨h, hts⟩
    | wrong p' => exact Or.inl hcut

/-! ## Alike texts -/

/-- the tokens that are complete after some characters, and the state after them -/
def scanOver : Scan → List Char → List Token × Scan
  | s, [] => ([], s)
  | s, c :: cs => ((feed s c).1 ++ (scanOver (feed s c).2 cs).1, (scanOver (feed s c).2 cs).2)

theorem lexFrom_append (s : Scan) (cs rest : List Char) :
    lexFrom s (cs ++ rest) = (scanOver s cs).1 ++ lexFrom (scanOver s cs).2 rest := by
  induction cs generalizing s with
  | nil => rfl
  | cons c cs ih => rw [List.cons_append, lexFrom, ih, scanOver, List.append_assoc]

/-- after this text a token may start: it does not end within one -/
def Between (pre : String) : Prop := (scanOver .gap pre.toList).2 = .gap

/-- a text has a value if its document has one and nothing follows the document -/
theorem parse?_eq_some {t : String} {v : Value} :
    parse? t = some v ↔
      (Doc.ofTokens (lex t)).1.value? maxDepth = some v ∧ (Doc.ofTokens (lex t)).2 = [] := by
  unfold parse? decode Decoder.value
  generalize Doc.ofTokens (lex t) = p
  obtain ⟨d, rest⟩ := p
  cases hd : d.value? maxDepth with
  | none => simp [bind, Except.bind, hd]
  | some w => cases rest <;> simp [bind, Except.bind, pure, Except.pure, throw, throwThe, MonadExceptOf.throw, hd]

/-- **A number may be replaced by the string of its digits** wherever it stands: the normal form of the text stays. -/
theorem parse?_substitute {pre post : String} (hpre : Between pre) (hpost : Stops post.toList) {l : Literal}
    (hl : l.WellFormed) (plus : Bool) {n : Number} (hn : l.number? = some n) {v : Value}
    (hv : parse? (pre ++ String.ofList (l.chars plus) ++ post) = some v) :
    ∃ v', parse? (pre ++ String.ofList (quote n.digits) ++ post) = some v' ∧ v'.textual = v.textual := by
  have hlex : ∀ cs t, lexFrom .gap (cs ++ post.toList) = t :: lexFrom .gap post.toList →
      lex (pre ++ String.ofList cs ++ post) = (scanOver .gap pre.toList).1 ++ t :: lexFrom .gap post.toList := by
    intro cs t hcs
    rw [lex, String.toList_append, String.toList_append, String.toList_ofList, List.append_assoc, lexFrom_append,
      show (scanOver .gap pre.toList).2 = .gap from hpre, hcs]
  have hnumber := hlex _ _ (hn ▸ l.lexFrom_chars hl plus hpost)
  have htext := hlex _ _ (lexFrom_quote n.digits post.toList)
  have hrefl : ∀ ts, List.Forall₂ Token.Alike ts ts := fun ts => List.forall₂_same.2 fun t _ => .refl t
  have htokens : List.Forall₂ Token.Alike (lex (pre ++ String.ofList (l.chars plus) ++ post))
      (lex (pre ++ String.ofList (quote n.digits) ++ post)) := by
    rw [hnumber, htext]
    exact List.rel_append (hrefl _) (.cons (.digits n) (hrefl _))
  obtain ⟨hvalue, hrest⟩ := parse?_eq_some.1 hv
  rcases build_alike htokens .value .nil with hnone | ⟨halike, hrests⟩
  · rw [Doc.ofTokens, hnone] at hvalue
    cases hvalue
  · have hmap := halike maxDepth
    rw [← Doc.ofTokens, hvalue, Option.map_some] at hmap
    obtain ⟨v', hv', htextual⟩ := Option.map_eq_some_iff.1 hmap.symm
    rw [← Doc.ofTokens, hrest] at hrests
    exact ⟨v', parse?_eq_some.2 ⟨hv', List.forall₂_nil_left_iff.1 hrests⟩, htextual⟩

end ReplicatedOrders.Json

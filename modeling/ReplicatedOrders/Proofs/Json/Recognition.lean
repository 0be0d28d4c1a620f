/-
Recognition: the stack machine puts tokens together to the document that they are written for, and to no other.

One way `Doc.Spelling.assembles` runs the machine over the tokens of a document, with whatever follows them. The other
way `Reads` says what was read for every state that the machine can be in, and one token keeps it; a run that goes wrong
ends with a document that has a cut in it.
- `Doc.Spelling.assembles`: the tokens of a document give the document.
- `Reads.step`, `Reads.build`: what one token adds to what was read, and what a whole run has read.
- `Doc.writtenAs_iff`: a text is written for the document that the machine finds.
- `wellFormed_iff`: the texts of the grammar are those that are read to the end without a fault of form.
-/
import ReplicatedOrders.Proofs.Json.Lexing
import ReplicatedOrders.Json.Doc

namespace ReplicatedOrders.Json

/-! ## From tokens to the document -/

/-- the machine goes on with a complete value `d` -/
def resume (d : Doc) (frames : List Frame) (ts : List Token) : Doc × List Token :=
  match place d frames with
  | .on need frames' => build need frames' ts
  | .complete d => (d, ts)
  | .wrong => (unwind .cut frames, [])

/-- a value may stand here -/
def Hosts (frames : List Frame) : Prop := ∀ before fs, frames ≠ .object before :: fs

theorem hosts_nil : Hosts [] := by
  intro b f h
  cases h

theorem hosts_array (before : List Doc) (fs : List Frame) : Hosts (.array before :: fs) := by
  intro b f h
  cases h

theorem hosts_member (before : List (Option String × Doc)) (key : Option String) (fs : List Frame) :
    Hosts (.member before key :: fs) := by
  intro b f h
  cases h

/-- the end of a value that stands where a value may stand -/
theorem resume_of_place {d d' : Doc} {frames inner : List Frame} {need : Need} {t : Token} {ts : List Token}
    (hf : Hosts frames) (h : step need inner t = place d' frames) (hd : d' = d) :
    build need inner (t :: ts) = resume d frames ts := by
  subst hd
  rw [build, h, resume]
  cases frames with
  | nil => rfl
  | cons f fs =>
    cases f with
    | object before => exact absurd rfl (hf before fs)
    | array before => rfl
    | member before key => rfl

/-- where an item may come first, every token but the end of the array starts a value -/
theorem step_value {need : Need} (hneed : need = .value ∨ need = .firstItem) (frames : List Frame) {t : Token}
    (hne : t ≠ .closeArray) : step need frames t = startValue frames t := by
  rcases hneed with rfl | rfl
  · rfl
  · cases frames with
    | nil => rfl
    | cons f fs => cases f <;> cases t <;> first | rfl | exact absurd rfl hne

/-- the machine puts the tokens together to the document -/
def Assembles (d : Doc) (ts : List Token) : Prop :=
  ∀ need, need = .value ∨ need = .firstItem → ∀ frames, Hosts frames → ∀ rest,
    build need frames (ts ++ rest) = resume d frames rest

namespace Assembles

/-- a value that is one token -/
theorem leaf {d : Doc} {t : Token} (ht : ∀ frames, startValue frames t = place d frames) (hne : t ≠ .closeArray) :
    Assembles d [t] := by
  intro need hneed frames hf rest
  refine resume_of_place hf ?_ rfl
  rw [step_value hneed frames hne, ht]

/-- items after the first, each behind a comma, and the end of the array -/
theorem build_items {items : List (Doc × List Token)} (h : ∀ i ∈ items, Assembles i.1 i.2) (before : List Doc)
    {fs : List Frame} (hf : Hosts fs) (rest : List Token) :
    build .separator (.array before :: fs) ((items.map fun i => i.2).flatMap (.comma :: ·) ++ .closeArray :: rest) =
      resume (.array (before.reverse ++ items.map fun i => i.1)) fs rest := by
  induction items generalizing before with
  | nil => exact resume_of_place hf rfl (by simp)
  | cons i items ih =>
    have hi := h i List.mem_cons_self .value (Or.inl rfl) _ (hosts_array before fs)
      ((items.map fun i => i.2).flatMap (.comma :: ·) ++ .closeArray :: rest)
    have hrest := ih (fun j hj => h j (List.mem_cons_of_mem i hj)) (i.1 :: before)
    rw [List.reverse_cons, List.append_assoc, List.singleton_append] at hrest
    rw [List.map_cons, List.map_cons, ← hrest, List.flatMap_cons, List.cons_append, List.cons_append, List.append_assoc]
    exact hi

/-- members after the first, each behind a comma, and the end of the object -/
theorem build_members {members : List ((Option String × Doc) × List Token)} (h : ∀ m ∈ members, Assembles m.1.2 m.2)
    (before : List (Option String × Doc)) {fs : List Frame} (hf : Hosts fs) (rest : List Token) :
    build .separator (.object before :: fs)
        ((members.map memberTokens).flatMap (.comma :: ·) ++ .closeObject :: rest) =
      resume (.object (before.reverse ++ members.map fun m => m.1)) fs rest := by
  induction members generalizing before with
  | nil => exact resume_of_place hf rfl (by simp)
  | cons m members ih =>
    have hm := h m List.mem_cons_self .value (Or.inl rfl) _ (hosts_member before m.1.1 fs)
      ((members.map memberTokens).flatMap (.comma :: ·) ++ .closeObject :: rest)
    have hrest := ih (fun n hn => h n (List.mem_cons_of_mem m hn)) (m.1 :: before)
    rw [List.reverse_cons, List.append_assoc, List.singleton_append] at hrest
    rw [List.map_cons, List.map_cons, ← hrest, List.flatMap_cons]
    simp only [List.cons_append, List.append_assoc]
    exact hm

theorem array {items : List (Doc × List Token)} (h : ∀ i ∈ items, Assembles i.1 i.2) :
    Assembles (.array (items.map fun i => i.1))
      (.openArray :: ([.comma].intercalate (items.map fun i => i.2) ++ [.closeArray])) := by
  intro need hneed frames hf rest
  rw [List.cons_append, build, step_value hneed frames (by simp), startValue]
  cases items with
  | nil => exact resume_of_place hf rfl rfl
  | cons i items =>
    have hi := h i List.mem_cons_self .firstItem (Or.inr rfl) _ (hosts_array [] frames)
      ((items.map fun i => i.2).flatMap (.comma :: ·) ++ .closeArray :: rest)
    have hrest := build_items (fun j hj => h j (List.mem_cons_of_mem i hj)) [i.1] hf rest
    simp only [List.map_cons, intercalate_cons, List.append_assoc, List.singleton_append]
    exact hi.trans hrest

theorem object {members : List ((Option String × Doc) × List Token)} (h : ∀ m ∈ members, Assembles m.1.2 m.2) :
    Assembles (.object (members.map fun m => m.1))
      (.openObject :: ([.comma].intercalate (members.map memberTokens) ++ [.closeObject])) := by
  intro need hneed frames hf rest
  rw [List.cons_append, build, step_value hneed frames (by simp), startValue]
  cases members with
  | nil => exact resume_of_place hf rfl rfl
  | cons m members =>
    have hm := h m List.mem_cons_self .value (Or.inl rfl) _ (hosts_member [] m.1.1 frames)
      ((members.map memberTokens).flatMap (.comma :: ·) ++ .closeObject :: rest)
    have hrest := build_members (fun n hn => h n (List.mem_cons_of_mem m hn)) [m.1] hf rest
    simp only [List.map_cons, intercalate_cons, List.append_assoc, List.cons_append]
    exact hm.trans hrest

end Assembles

/-- **The tokens of a document give the document.** -/
theorem Doc.Spelling.assembles {d : Doc} {ts : List Token} (h : d.Spelling ts) : Assembles d ts := by
  induction h with
  | null | bool | number | text => exact .leaf (fun _ => rfl) (by simp)
  | array _ ih => exact .array ih
  | object _ ih => exact .object ih

/-! ## What was read -/

/-- what was read when a value has to come next inside the open containers -/
inductive Awaits : List Frame → List Token → Prop where
  | nil : Awaits [] []
  | array {frames : List Frame} {read : List Token} {items : List (Doc × List Token)} (h : Awaits frames read)
    (hitems : ∀ i ∈ items, i.1.Spelling i.2) :
    Awaits (.array (items.map fun i => i.1).reverse :: frames)
      (read ++ .openArray :: (items.map fun i => i.2).flatMap (· ++ [.comma]))
  | member {frames : List Frame} {read : List Token} {members : List ((Option String × Doc) × List Token)}
    (key : Option String) (h : Awaits frames read) (hmembers : ∀ m ∈ members, m.1.2.Spelling m.2) :
    Awaits (.member (members.map fun m => m.1).reverse key :: frames)
      (read ++ .openObject :: ((members.map memberTokens).flatMap (· ++ [.comma]) ++
        [.text key, .colon]))

/-- what was read when the machine needs something -/
inductive Reads : Need → List Frame → List Token → Prop where
  | value {frames : List Frame} {read : List Token} (h : Awaits frames read) : Reads .value frames read
  | firstItem {frames : List Frame} {read : List Token} (h : Awaits frames read) :
    Reads .firstItem (.array [] :: frames) (read ++ [.openArray])
  | items {frames : List Frame} {read : List Token} {items : List (Doc × List Token)} (h : Awaits frames read)
    (hitems : ∀ i ∈ items, i.1.Spelling i.2) (hne : items ≠ []) :
    Reads .separator (.array (items.map fun i => i.1).reverse :: frames)
      (read ++ .openArray :: [.comma].intercalate (items.map fun i => i.2))
  | members {frames : List Frame} {read : List Token} {members : List ((Option String × Doc) × List Token)}
    (h : Awaits frames read) (hmembers : ∀ m ∈ members, m.1.2.Spelling m.2) (hne : members ≠ []) :
    Reads .separator (.object (members.map fun m => m.1).reverse :: frames)
      (read ++ .openObject :: [.comma].intercalate (members.map memberTokens))
  | firstKey {frames : List Frame} {read : List Token} (h : Awaits frames read) :
    Reads .firstKey (.object [] :: frames) (read ++ [.openObject])
  | key {frames : List Frame} {read : List Token} {members : List ((Option String × Doc) × List Token)}
    (h : Awaits frames read) (hmembers : ∀ m ∈ members, m.1.2.Spelling m.2) :
    Reads .key (.object (members.map fun m => m.1).reverse :: frames)
      (read ++ .openObject :: (members.map memberTokens).flatMap (· ++ [.comma]))
  | colon {frames : List Frame} {read : List Token} {members : List ((Option String × Doc) × List Token)}
    (key : Option String) (h : Awaits frames read) (hmembers : ∀ m ∈ members, m.1.2.Spelling m.2) :
    Reads .colon (.member (members.map fun m => m.1).reverse key :: frames)
      (read ++ .openObject :: ((members.map memberTokens).flatMap (· ++ [.comma]) ++
        [.text key]))

theorem no_items : ∀ i ∈ ([] : List (Doc × List Token)), i.1.Spelling i.2 := by
  intro i hi
  cases hi

theorem no_members : ∀ m ∈ ([] : List ((Option String × Doc) × List Token)), m.1.2.Spelling m.2 := by
  intro m hm
  cases hm

/-- what was read when a token leads on or completes a document -/
def Progress.Reads (read : List Token) : Progress → Prop
  | .on need frames => Json.Reads need frames read
  | .complete d => d.Spelling read
  | .wrong => True

theorem Awaits.place {frames : List Frame} {read : List Token} (h : Awaits frames read) {d : Doc} {ts : List Token}
    (hd : d.Spelling ts) : (place d frames).Reads (read ++ ts) := by
  cases h with
  | nil => exact hd
  | @array frames read items h hitems =>
    have hsnoc : ∀ i ∈ items ++ [(d, ts)], i.1.Spelling i.2 :=
      List.forall_mem_append.2 ⟨hitems, by simpa using hd⟩
    have hnext := Reads.items h hsnoc (by simp)
    rw [List.map_append, List.reverse_append, List.map_append, List.map_singleton, List.map_singleton,
      intercalate_snoc] at hnext
    rw [List.append_assoc]
    exact hnext
  | @member frames read members key h hmembers =>
    have hsnoc : ∀ m ∈ members ++ [((key, d), ts)], m.1.2.Spelling m.2 :=
      List.forall_mem_append.2 ⟨hmembers, by simpa using hd⟩
    have hnext := Reads.members h hsnoc (by simp)
    rw [List.map_append, List.reverse_append, List.map_append, List.map_singleton, List.map_singleton,
      intercalate_snoc] at hnext
    rw [List.append_assoc, List.cons_append, List.append_assoc]
    exact hnext

theorem Awaits.startValue {frames : List Frame} {read : List Token} (h : Awaits frames read) (t : Token) :
    (startValue frames t).Reads (read ++ [t]) := by
  cases t with
  | null => exact h.place .null
  | bool b => exact h.place (.bool b)
  | number n => exact h.place (.number n)
  | text s => exact h.place (.text s)
  | openArray => exact .firstItem h
  | openObject => exact .firstKey h
  | closeArray | closeObject | colon | comma | bad => trivial

/-- **One token.** -/
theorem Reads.step {need : Need} {frames : List Frame} {read : List Token} (h : Reads need frames read) (t : Token) :
    (step need frames t).Reads (read ++ [t]) := by
  cases h with
  | value h => exact h.startValue t
  | @firstItem frames read h =>
    by_cases hclose : t = .closeArray
    · subst hclose
      have hplace := h.place (.array no_items)
      rw [List.append_assoc]
      exact hplace
    · rw [step_value (Or.inr rfl) _ hclose]
      exact (Awaits.array h no_items).startValue t
  | @items frames read items h hitems hne =>
    rw [List.append_assoc, List.cons_append]
    cases t with
    | comma =>
      rw [intercalate_append _ (by simpa using hne)]
      exact .value (.array h hitems)
    | closeArray =>
      have hplace := h.place (.array hitems)
      rw [Json.step, List.reverse_reverse]
      exact hplace
    | _ => trivial
  | @members frames read members h hmembers hne =>
    rw [List.append_assoc, List.cons_append]
    cases t with
    | comma =>
      rw [intercalate_append _ (by simpa using hne)]
      exact .key h hmembers
    | closeObject =>
      have hplace := h.place (.object hmembers)
      rw [Json.step, List.reverse_reverse]
      exact hplace
    | _ => trivial
  | @firstKey frames read h =>
    rw [List.append_assoc]
    cases t with
    | closeObject => exact h.place (.object no_members)
    | text key => exact .colon key h no_members
    | _ => trivial
  | @key frames read members h hmembers =>
    rw [List.append_assoc, List.cons_append]
    cases t with
    | text key => exact .colon key h hmembers
    | _ => trivial
  | @colon frames read members key h hmembers =>
    rw [List.append_assoc, List.cons_append, List.append_assoc]
    cases t with
    | colon => exact .value (.member key h hmembers)
    | _ => trivial

theorem Doc.wellFormedItems_eq_all (ds : List Doc) : wellFormedItems ds = ds.all wellFormed := by
  induction ds with
  | nil => rfl
  | cons d ds ih => rw [wellFormedItems, ih, List.all_cons]

theorem Doc.wellFormedMembers_eq_all (ms : List (Option String × Doc)) :
    wellFormedMembers ms = ms.all fun m => wellFormed m.2 := by
  induction ms with
  | nil => rfl
  | cons m ms ih => rw [wellFormedMembers, ih, List.all_cons]

/-- the containers around a fault have it too -/
theorem wellFormed_unwind {d : Doc} (h : d.wellFormed = false) (frames : List Frame) :
    (unwind d frames).wellFormed = false := by
  induction frames generalizing d with
  | nil => exact h
  | cons f fs ih =>
    cases f with
    | array before => exact ih (by simp [Doc.wellFormed, Doc.wellFormedItems_eq_all, h])
    | object before | member before key => exact ih (by simp [Doc.wellFormed, Doc.wellFormedMembers_eq_all, h])

/-- **A whole run.** -/
theorem Reads.build {need : Need} {frames : List Frame} {read : List Token} (h : Reads need frames read)
    {ts rest : List Token} {d : Doc} (hbuild : build need frames ts = (d, rest)) (hd : d.wellFormed = true) :
    ∃ used, ts = used ++ rest ∧ d.Spelling (read ++ used) := by
  induction ts generalizing need frames read with
  | nil =>
    cases hbuild
    rw [wellFormed_unwind rfl] at hd
    cases hd
  | cons t ts ih =>
    have hstep := h.step t
    rw [Json.build] at hbuild
    split at hbuild
    · next need' frames' hon =>
      rw [hon] at hstep
      obtain ⟨used, rfl, hused⟩ := ih hstep hbuild
      exact ⟨t :: used, rfl, by simpa using hused⟩
    · next d' hcomplete =>
      rw [hcomplete] at hstep
      cases hbuild
      exact ⟨[t], rfl, hstep⟩
    · cases hbuild
      rw [wellFormed_unwind rfl] at hd
      cases hd

/-! ## Texts -/

theorem Doc.Spelling.wellFormed {d : Doc} {ts : List Token} (h : d.Spelling ts) : d.wellFormed = true := by
  induction h with
  | null | bool => rfl
  | number n => cases n <;> rfl
  | text s => cases s <;> rfl
  | array _ ih =>
    rw [Doc.wellFormed, wellFormedItems_eq_all, List.all_map]
    exact List.all_eq_true.2 ih
  | object _ ih =>
    rw [Doc.wellFormed, wellFormedMembers_eq_all, List.all_map]
    exact List.all_eq_true.2 ih

/-- **A text is written for the document that is found in it.** -/
theorem Doc.writtenAs_iff {d : Doc} {t : String} :
    d.WrittenAs t ↔ Doc.ofTokens (lex t) = (d, []) ∧ d.wellFormed = true := by
  constructor
  · rintro ⟨ts, hd, hts⟩
    have hlex := (lex_eq_iff hd.apart hd.bad_not_mem t).2 hts
    have hbuild := hd.assembles .value (Or.inl rfl) [] hosts_nil []
    rw [List.append_nil] at hbuild
    rw [hlex]
    exact ⟨hbuild, hd.wellFormed⟩
  · rintro ⟨hbuild, hd⟩
    obtain ⟨used, hused, hspelling⟩ := (Reads.value .nil).build hbuild hd
    rw [List.append_nil] at hused
    exact ⟨used, hspelling, (lex_eq_iff hspelling.apart hspelling.bad_not_mem t).1 hused⟩

/-- **The texts of the grammar are read to the end without a fault of form.** -/
theorem wellFormed_iff (t : String) :
    WellFormed t ↔ (Doc.ofTokens (lex t)).1.wellFormed = true ∧ (Doc.ofTokens (lex t)).2 = [] := by
  constructor
  · rintro ⟨d, hd⟩
    obtain ⟨hbuild, hform⟩ := Doc.writtenAs_iff.1 hd
    rw [hbuild]
    exact ⟨hform, rfl⟩
  · rintro ⟨hform, hrest⟩
    exact ⟨_, Doc.writtenAs_iff.2 ⟨Prod.ext rfl hrest, hform⟩⟩

end ReplicatedOrders.Json

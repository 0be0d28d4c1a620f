/-
Spenders: which texts list which pairs, and which segment of any other text is reported.

A text is cut at its commas into segments. A segment is blank, or it shows a pair (`Shows`), or it is faulty
(`Faulty`): the three kinds are apart, because a name has no `=` and neither side of a pair is blank.
- `First.unique`: the first element of a kind.
- `Shows.unique`: a segment shows one pair at most.
- `segment_cases`: the three kinds, and what is read from each.
- `segments_cases`, `parse_cases`: all segments of a text, up to the first faulty one.
- `parse_eq_ok_iff`, `parse_eq_error_iff`: what is read from a text.
- `parse_written`: a written list is read back.
- `parse_as_listed`: all of it.
-/
import ReplicatedOrders.Proofs.Trimming
import ReplicatedOrders.Settings

namespace ReplicatedOrders

/-! ## The first of a kind -/

/-- the first element of a list with a property -/
def First {α : Type} (P : α → Prop) (xs : List α) (x : α) : Prop :=
  ∃ before after, xs = before ++ x :: after ∧ (∀ y ∈ before, ¬ P y) ∧ P x

namespace First

variable {α : Type} {P : α → Prop} {xs : List α} {x y : α}

theorem head (h : P x) : First P (x :: xs) x := ⟨[], xs, rfl, nofun, h⟩

theorem cons (h : First P xs x) (hy : ¬ P y) : First P (y :: xs) x := by
  obtain ⟨before, after, rfl, hbefore, hx⟩ := h
  exact ⟨y :: before, after, rfl, List.forall_mem_cons.2 ⟨hy, hbefore⟩, hx⟩

theorem holds (h : First P xs x) : P x := by
  obtain ⟨_, _, -, -, hx⟩ := h
  exact hx

theorem mem (h : First P xs x) : x ∈ xs := by
  obtain ⟨before, after, rfl, -, -⟩ := h
  simp

open Classical in
theorem unique (hx : First P xs x) (hy : First P xs y) : x = y := by
  have hfind : ∀ {z}, First P xs z → xs.find? (P ·) = some z := by
    rintro z ⟨before, after, hxs, hbefore, hz⟩
    exact List.find?_eq_some_iff_append.2 ⟨by simpa using hz, before, after, hxs, by simpa using hbefore⟩
  exact Option.some.inj ((hfind hx).symm.trans (hfind hy))

/-- where there is one, there is a first one -/
theorem exists_iff : (∃ x, First P xs x) ↔ ∃ x ∈ xs, P x := by
  constructor
  · rintro ⟨x, hx⟩
    exact ⟨x, hx.mem, hx.holds⟩
  · rintro ⟨x, hmem, hx⟩
    induction xs with
    | nil => cases hmem
    | cons y xs ih =>
      by_cases hy : P y
      · exact ⟨y, head hy⟩
      · obtain ⟨z, hz⟩ := ih ((List.mem_cons.1 hmem).resolve_left fun h => hy (h ▸ hx))
        exact ⟨z, hz.cons hy⟩

end First

namespace Spenders

open Text

/-! ## Pairs and segments -/

/-- a pair that a list can hold -/
structure Proper (p : Spender) : Prop where
  name_ne : p.1 ≠ ""
  name_bare : Bare p.1.toList
  name_comma : ',' ∉ p.1.toList
  name_equals : '=' ∉ p.1.toList
  address_ne : p.2 ≠ ""
  address_bare : Bare p.2.toList
  address_comma : ',' ∉ p.2.toList

/-- the name and the address of a pair with blanks around each, and `=` between them -/
def Shows (segment : List Char) (p : Spender) : Prop :=
  ∃ name address, segment = name ++ '=' :: address ∧ Trims name p.1.toList ∧ Trims address p.2.toList

/-- a segment that says something, but no pair: it has no `=`, or nothing on one side of the first one -/
inductive Faulty (segment : List Char) : Prop where
  | whole (hblank : ¬ Blank segment) (hwhole : '=' ∉ segment)
  | half {name address : List Char} (hsegment : segment = name ++ '=' :: address) (hfirst : '=' ∉ name)
    (hblank : Blank name ∨ Blank address)

/-- segments that show some pairs in order, with blank ones anywhere among them -/
inductive Lists : List (List Char) → List Spender → Prop where
  | nil : Lists [] []
  | blank {segment : List Char} {segments : List (List Char)} {ps : List Spender} (h : Blank segment)
    (rest : Lists segments ps) : Lists (segment :: segments) ps
  | pair {segment : List Char} {segments : List (List Char)} {p : Spender} {ps : List Spender} (h : Shows segment p)
    (rest : Lists segments ps) : Lists (segment :: segments) (p :: ps)

/-- the pairs that a text lists between its commas -/
def Listed (text : String) (ps : List Spender) : Prop :=
  (∀ p ∈ ps, Proper p) ∧ ∃ segments, Lists segments ps ∧ text.toList = [','].intercalate segments

variable {segment : List Char} {p q : Spender}

theorem not_blank_of_mem_equals (h : '=' ∈ segment) : ¬ Blank segment := fun hblank => hblank.not_mem (by decide) h

theorem Faulty.not_blank (h : Faulty segment) : ¬ Blank segment := by
  cases h with
  | whole hblank _ => exact hblank
  | half hsegment _ _ => exact not_blank_of_mem_equals (by simp [hsegment])

namespace Shows

theorem not_blank (h : Shows segment p) : ¬ Blank segment := by
  obtain ⟨name, address, rfl, -, -⟩ := h
  exact not_blank_of_mem_equals (by simp)

/-- the `=` of a pair is the first one, so it is where the segment is cut -/
theorem cutAt_eq (h : Shows segment p) (hp : Proper p) :
    ∃ name address, cutAt '=' segment = (name, some address) ∧ Trims name p.1.toList ∧ Trims address p.2.toList := by
  obtain ⟨name, address, rfl, hname, haddress⟩ := h
  have hequals : '=' ∉ name := fun hmem => hp.name_equals (hname.mem_of_not_blank hmem (by decide))
  exact ⟨name, address, cutAt_append hequals, hname, haddress⟩

theorem unique (h : Shows segment p) (hp : Proper p) (h' : Shows segment q) (hq : Proper q) : p = q := by
  obtain ⟨name, address, hcut, hname, haddress⟩ := h.cutAt_eq hp
  obtain ⟨name', address', hcut', hname', haddress'⟩ := h'.cutAt_eq hq
  obtain ⟨rfl, hsome⟩ := Prod.mk.inj (hcut.symm.trans hcut')
  obtain rfl := Option.some.inj hsome
  exact Prod.ext (String.toList_inj.1 (hname.unique hname')) (String.toList_inj.1 (haddress.unique haddress'))

theorem not_faulty (h : Shows segment p) (hp : Proper p) : ¬ Faulty segment := by
  obtain ⟨name, address, hcut, hname, haddress⟩ := h.cutAt_eq hp
  have hleft : ¬ Blank name := hname.not_blank (mt String.toList_eq_nil_iff.1 hp.name_ne)
  have hright : ¬ Blank address := haddress.not_blank (mt String.toList_eq_nil_iff.1 hp.address_ne)
  rintro (⟨-, hwhole⟩ | ⟨hsegment, hfirst, hblank⟩)
  · rw [cutAt_of_not_mem hwhole] at hcut
    cases hcut
  · -- both are cut at the first `=`, so the blank side is one of the pair
    rw [hsegment, cutAt_append hfirst] at hcut
    obtain ⟨rfl, hsome⟩ := Prod.mk.inj hcut
    obtain rfl := Option.some.inj hsome
    exact hblank.elim hleft hright

end Shows

/-! ## One segment -/

section Sides

variable {name address n a : List Char}

/-- what is read on both sides of the first `=` -/
theorem pair_sides (hfirst : '=' ∉ name) :
    pair (name ++ '=' :: address) =
      if trimList name = [] ∨ trimList address = [] then .error (.notAPair (String.ofList (name ++ '=' :: address)))
      else .ok (String.ofList (trimList name), String.ofList (trimList address)) := by
  rw [pair, cutAt_append hfirst]
  dsimp only
  cases trimList name with
  | nil => simp
  | cons n ns => cases trimList address <;> simp

theorem proper_sides (hname : Trims name n) (hn : n ≠ []) (hequals : '=' ∉ name) (hnameComma : ',' ∉ name)
    (haddress : Trims address a) (ha : a ≠ []) (haddressComma : ',' ∉ address) :
    Proper (String.ofList n, String.ofList a) := by
  constructor <;> simp only [String.toList_ofList, ne_eq, String.ofList_eq_empty_iff]
  · exact hn
  · exact hname.1
  · exact fun hmem => hnameComma (hname.mem_of_mem hmem)
  · exact fun hmem => hequals (hname.mem_of_mem hmem)
  · exact ha
  · exact haddress.1
  · exact fun hmem => haddressComma (haddress.mem_of_mem hmem)

end Sides

/-- a segment is blank, or a pair is read from it that it shows, or it is faulty and reported as what is left of it -/
theorem segment_cases (hcomma : ',' ∉ segment) :
    Blank segment ∨
      (∃ p, Proper p ∧ Shows segment p ∧ pair (trimList segment) = .ok p) ∨
        Faulty segment ∧ pair (trimList segment) = .error (.notAPair (String.ofList (trimList segment))) := by
  by_cases hblank : Blank segment
  · exact Or.inl hblank
  refine Or.inr ?_
  have htrims := trims_trimList segment
  generalize trimList segment = core at htrims
  by_cases hequals : '=' ∈ core
  · obtain ⟨name, address, rfl, hfirst⟩ := List.eq_append_cons_of_mem hequals
    obtain ⟨-, before, after, hbefore, hafter, hsegment⟩ := htrims
    -- the blanks around the segment are blanks around the name and the address
    have hsides : segment = (before ++ name) ++ '=' :: (address ++ after) := by simp [hsegment]
    have hname := (trims_trimList name).prepend hbefore
    have haddress := (trims_trimList address).append hafter
    have hfirst' : '=' ∉ before ++ name := by
      rw [List.mem_append, not_or]
      exact ⟨hbefore.not_mem (by decide), hfirst⟩
    rw [pair_sides hfirst]
    by_cases hside : trimList name = [] ∨ trimList address = []
    · rw [if_pos hside]
      refine Or.inr ⟨.half hsides hfirst' ?_, rfl⟩
      refine hside.imp (fun hn => ?_) fun ha => ?_
      · exact hbefore.append (trimList_eq_nil_iff.1 hn)
      · exact (trimList_eq_nil_iff.1 ha).append hafter
    · rw [if_neg hside]
      obtain ⟨hn, ha⟩ := not_or.1 hside
      have hleft : ',' ∉ before ++ name := fun hmem => hcomma (hsides ▸ List.mem_append_left _ hmem)
      have hright : ',' ∉ address ++ after :=
        fun hmem => hcomma (hsides ▸ List.mem_append_right _ (List.mem_cons_of_mem _ hmem))
      refine Or.inl ⟨_, proper_sides hname hn hfirst' hleft haddress ha hright, ⟨_, _, hsides, ?_, ?_⟩, rfl⟩
      · rwa [String.toList_ofList]
      · rwa [String.toList_ofList]
  · have hwhole : '=' ∉ segment := fun hmem => hequals (htrims.mem_of_not_blank hmem (by decide))
    refine Or.inr ⟨.whole hblank hwhole, ?_⟩
    rw [pair, cutAt_of_not_mem hequals]

/-! ## All segments -/

/-- what is read from the segments of a text -/
def ofSegments (segments : List (List Char)) : Except SettingsError (List Spender) :=
  ((segments.map trimList).filter (· ≠ [])).mapM pair

theorem parse_eq_ofSegments (text : String) : parse text = ofSegments (text.toList.splitOn ',') := by
  rw [parse, pieces_eq_splitOn, ofSegments]

theorem ofSegments_blank (h : Blank segment) (segments : List (List Char)) :
    ofSegments (segment :: segments) = ofSegments segments := by
  simp [ofSegments, trimList_of_blank h]

theorem ofSegments_cons (h : ¬ Blank segment) (segments : List (List Char)) :
    ofSegments (segment :: segments) = do
      let p ← pair (trimList segment)
      let ps ← ofSegments segments
      return p :: ps := by
  have hne : trimList segment ≠ [] := fun hnil => h (trimList_eq_nil_iff.1 hnil)
  rw [ofSegments, List.map_cons, List.filter_cons_of_pos (by simpa using hne), List.mapM_cons]
  rfl

/-- all pairs that the segments show, or the first faulty segment -/
theorem segments_cases {segments : List (List Char)} (hcomma : ∀ s ∈ segments, ',' ∉ s) :
    (∃ ps, (∀ p ∈ ps, Proper p) ∧ Lists segments ps ∧ (∀ s ∈ segments, ¬ Faulty s) ∧ ofSegments segments = .ok ps) ∨
      ∃ s, First Faulty segments s ∧ ofSegments segments = .error (.notAPair (String.ofList (trimList s))) := by
  induction segments with
  | nil => exact Or.inl ⟨[], nofun, .nil, nofun, rfl⟩
  | cons segment segments ih =>
    obtain ⟨hsegment, hrest⟩ := List.forall_mem_cons.1 hcomma
    rcases segment_cases hsegment with hblank | ⟨p, hp, hshows, hpair⟩ | ⟨hfaulty, hpair⟩
    · have hsound : ¬ Faulty segment := fun h => h.not_blank hblank
      rw [ofSegments_blank hblank]
      rcases ih hrest with ⟨ps, hps, hlists, hsounds, hread⟩ | ⟨s, hfirst, hread⟩
      · exact Or.inl ⟨ps, hps, .blank hblank hlists, List.forall_mem_cons.2 ⟨hsound, hsounds⟩, hread⟩
      · exact Or.inr ⟨s, hfirst.cons hsound, hread⟩
    · have hsound : ¬ Faulty segment := hshows.not_faulty hp
      rw [ofSegments_cons hshows.not_blank, hpair]
      rcases ih hrest with ⟨ps, hps, hlists, hsounds, hread⟩ | ⟨s, hfirst, hread⟩
      · refine Or.inl ⟨p :: ps, List.forall_mem_cons.2 ⟨hp, hps⟩, .pair hshows hlists,
          List.forall_mem_cons.2 ⟨hsound, hsounds⟩, ?_⟩
        rw [hread]
        rfl
      · refine Or.inr ⟨s, hfirst.cons hsound, ?_⟩
        rw [hread]
        rfl
    · refine Or.inr ⟨segment, .head hfaulty, ?_⟩
      rw [ofSegments_cons hfaulty.not_blank, hpair]
      rfl

/-- segments list one list of pairs at most -/
theorem Lists.unique {segments : List (List Char)} {ps qs : List Spender} (h : Lists segments ps)
    (hps : ∀ p ∈ ps, Proper p) (h' : Lists segments qs) (hqs : ∀ q ∈ qs, Proper q) : ps = qs := by
  induction h generalizing qs with
  | nil =>
    cases h'
    rfl
  | blank hblank _ ih =>
    cases h' with
    | blank _ rest' => exact ih hps rest' hqs
    | pair hshows' _ => exact absurd hblank hshows'.not_blank
  | pair hshows _ ih =>
    cases h' with
    | blank hblank' _ => exact absurd hblank' hshows.not_blank
    | pair hshows' rest' =>
      obtain ⟨hp, hps⟩ := List.forall_mem_cons.1 hps
      obtain ⟨hq, hqs⟩ := List.forall_mem_cons.1 hqs
      rw [hshows.unique hp hshows' hq, ih hps rest' hqs]

/-- segments that list pairs have no faulty one among them -/
theorem Lists.not_faulty {segments : List (List Char)} {ps : List Spender} (h : Lists segments ps)
    (hps : ∀ p ∈ ps, Proper p) : ∀ s ∈ segments, ¬ Faulty s := by
  induction h with
  | nil => exact nofun
  | blank hblank _ ih => exact List.forall_mem_cons.2 ⟨fun h => h.not_blank hblank, ih hps⟩
  | pair hshows _ ih =>
    obtain ⟨hp, hps⟩ := List.forall_mem_cons.1 hps
    exact List.forall_mem_cons.2 ⟨hshows.not_faulty hp, ih hps⟩

/-- neither a blank segment nor a pair has a comma -/
theorem Lists.comma_not_mem {segments : List (List Char)} {ps : List Spender} (h : Lists segments ps)
    (hps : ∀ p ∈ ps, Proper p) : ∀ s ∈ segments, ',' ∉ s := by
  induction h with
  | nil => exact nofun
  | blank hblank _ ih => exact List.forall_mem_cons.2 ⟨hblank.not_mem (by decide), ih hps⟩
  | pair hshows _ ih =>
    obtain ⟨hp, hps⟩ := List.forall_mem_cons.1 hps
    refine List.forall_mem_cons.2 ⟨fun hmem => ?_, ih hps⟩
    obtain ⟨name, address, rfl, hname, haddress⟩ := hshows
    rcases List.mem_append.1 hmem with hmem | hmem
    · exact hp.name_comma (hname.mem_of_not_blank hmem (by decide))
    · rcases List.mem_cons.1 hmem with hmem | hmem
      · exact absurd hmem (by decide)
      · exact hp.address_comma (haddress.mem_of_not_blank hmem (by decide))

/-! ## Texts -/

variable {text : String} {ps : List Spender}

theorem comma_not_mem_splitOn (text : String) : ∀ s ∈ text.toList.splitOn ',', ',' ∉ s := by
  intro s hs
  rw [← pieces_eq_splitOn] at hs
  exact not_mem_pieces hs

/-- segments with commas between them are found again, except that no segments at all are one that is empty -/
theorem Lists.splitOn {segments : List (List Char)} (h : Lists segments ps) (hps : ∀ p ∈ ps, Proper p)
    (htext : text.toList = [','].intercalate segments) : Lists (text.toList.splitOn ',') ps := by
  rw [htext]
  by_cases hnil : segments = []
  · subst hnil
    cases h
    exact .blank .nil .nil
  · rwa [List.splitOn_intercalate ',' (h.comma_not_mem hps) hnil]

/-- a text lists pairs and they are read, or one of its segments is faulty and the first of them is reported -/
theorem parse_cases (text : String) :
    (∃ ps, Listed text ps ∧ (∀ s ∈ text.toList.splitOn ',', ¬ Faulty s) ∧ parse text = .ok ps) ∨
      ∃ s, First Faulty (text.toList.splitOn ',') s ∧
        parse text = .error (.notAPair (String.ofList (trimList s))) := by
  rw [parse_eq_ofSegments]
  rcases segments_cases (comma_not_mem_splitOn text) with ⟨ps, hps, hlists, hsound, hread⟩ | hfirst
  · exact Or.inl ⟨ps, ⟨hps, _, hlists, (List.intercalate_splitOn ',').symm⟩, hsound, hread⟩
  · exact Or.inr hfirst

/-- **The texts from which a list of pairs is read:** those that list it. -/
theorem parse_eq_ok_iff : parse text = .ok ps ↔ Listed text ps := by
  constructor
  · intro h
    rcases parse_cases text with ⟨qs, hlisted, -, hread⟩ | ⟨s, -, hread⟩
    · obtain rfl : qs = ps := Except.ok.inj (hread.symm.trans h)
      exact hlisted
    · rw [hread] at h
      cases h
  · rintro ⟨hps, segments, hlists, htext⟩
    have hlists' := hlists.splitOn hps htext
    rcases parse_cases text with ⟨qs, ⟨hqs, segments', hqlists, htext'⟩, -, hread⟩ | ⟨s, hfirst, -⟩
    · rw [hread, (hqlists.splitOn hqs htext').unique hqs hlists' hps]
    · exact absurd hfirst.holds (hlists'.not_faulty hps s hfirst.mem)

/-- **Every other text is refused,** and what is left of its first faulty segment is reported. -/
theorem parse_eq_error_iff {e : SettingsError} :
    parse text = .error e ↔
      ∃ segment core, First Faulty (text.toList.splitOn ',') segment ∧ Trims segment core ∧
        e = .notAPair (String.ofList core) := by
  rcases parse_cases text with ⟨qs, -, hsound, hread⟩ | ⟨s, hfirst, hread⟩
  · rw [hread]
    refine iff_of_false nofun ?_
    rintro ⟨segment, core, hfirst, -, -⟩
    exact hsound segment hfirst.mem hfirst.holds
  · rw [hread, Except.error.injEq]
    constructor
    · rintro rfl
      exact ⟨s, _, hfirst, trims_trimList s, rfl⟩
    · rintro ⟨segment, core, hfirst', hcore, rfl⟩
      rw [hfirst.unique hfirst', trims_iff.1 hcore]

/-! ## Written lists -/

/-- the pairs with commas between them, and `=` between name and address -/
def written (ps : List Spender) : String := ",".intercalate (ps.map fun p => p.1 ++ "=" ++ p.2)

theorem lists_written (hps : ∀ p ∈ ps, Proper p) :
    Lists (ps.map fun p => p.1.toList ++ '=' :: p.2.toList) ps := by
  induction ps with
  | nil => exact .nil
  | cons p ps ih =>
    obtain ⟨hp, hps⟩ := List.forall_mem_cons.1 hps
    exact .pair ⟨_, _, rfl, .bare hp.name_bare, .bare hp.address_bare⟩ (ih hps)

theorem parse_written (hps : ∀ p ∈ ps, Proper p) : parse (written ps) = .ok ps := by
  refine parse_eq_ok_iff.2 ⟨hps, _, lists_written hps, ?_⟩
  rw [written, String.toList_intercalate, List.map_map]
  congr 2
  funext p
  simp

/-- **A text is read as the list of spenders that it lists,** in order and with all repetitions, whatever blanks stand
around names, addresses and pairs and wherever blank segments stand. It is refused exactly if one of its segments says
something but no pair, and what is left of the first such segment is reported. A list that was read can be written and
read again. -/
theorem parse_as_listed :
    (∀ (text : String) (ps : List Spender), parse text = .ok ps ↔
        (∀ p ∈ ps, Proper p) ∧ ∃ segments, Lists segments ps ∧ text.toList = [','].intercalate segments) ∧
      (∀ text : String, (∃ e, parse text = .error e) ↔ ∃ segment ∈ text.toList.splitOn ',', Faulty segment) ∧
      (∀ (text : String) (e : SettingsError), parse text = .error e ↔
        ∃ segment core, First Faulty (text.toList.splitOn ',') segment ∧ Trims segment core ∧
          e = .notAPair (String.ofList core) ∧
          e.message = "Invalid configuration: " ++ ("expected name=address, got '" ++ String.ofList core ++ "'")) ∧
      ∀ (text : String) (ps : List Spender), parse text = .ok ps → parse (written ps) = .ok ps := by
  refine ⟨fun text ps => parse_eq_ok_iff, fun text => ?_, fun text e => ?_, fun text ps h => ?_⟩
  · rw [← First.exists_iff]
    constructor
    · rintro ⟨e, he⟩
      obtain ⟨segment, core, hfirst, -, -⟩ := parse_eq_error_iff.1 he
      exact ⟨segment, hfirst⟩
    · rintro ⟨segment, hfirst⟩
      exact ⟨_, parse_eq_error_iff.2 ⟨segment, _, hfirst, trims_trimList segment, rfl⟩⟩
  · rw [parse_eq_error_iff]
    constructor
    · rintro ⟨segment, core, hfirst, hcore, rfl⟩
      exact ⟨segment, core, hfirst, hcore, rfl, rfl⟩
    · rintro ⟨segment, core, hfirst, hcore, he, -⟩
      exact ⟨segment, core, hfirst, hcore, he⟩
  · exact parse_written (parse_eq_ok_iff.1 h).1

/-- blanks around everything, a blank segment, a repeated name, and an address with `=` in it -/
theorem parse_as_listed_spaced :
    parse " zrx=0x1 ,, tempo =\t0x2=3,zrx = 0x1 ," = .ok [("zrx", "0x1"), ("tempo", "0x2=3"), ("zrx", "0x1")] ∧
      parse "zrx=0x1,tempo=0x2=3,zrx=0x1" = .ok [("zrx", "0x1"), ("tempo", "0x2=3"), ("zrx", "0x1")] := by
  have hread : parse " zrx=0x1 ,, tempo =\t0x2=3,zrx = 0x1 ," =
      .ok [("zrx", "0x1"), ("tempo", "0x2=3"), ("zrx", "0x1")] := by decide +kernel
  have hwritten : written [("zrx", "0x1"), ("tempo", "0x2=3"), ("zrx", "0x1")] = "zrx=0x1,tempo=0x2=3,zrx=0x1" := by
    decide +kernel
  obtain ⟨-, -, -, hagain⟩ := parse_as_listed
  exact ⟨hread, hwritten ▸ hagain _ _ hread⟩

end Spenders

end ReplicatedOrders

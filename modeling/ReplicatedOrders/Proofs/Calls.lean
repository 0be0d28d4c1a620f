/-
Calls: what the data of a call says about its arguments.

`IsAddress` says which texts are an address, and `Call.wordOf` which word each of them takes, both by the characters of
the text alone. Every word has 64 digits, so each argument is found in the data at its own place, and the data of a call
tell its arguments up to the case of their digits.
- `Hex.bytes_eq_some_iff`: bytes are read from digits that are theirs but for the case.
- `Address.exists_parse?_iff`, `Address.word_eq`: what is read as an address, and the word that it takes.
- `Address.denoted_word`: the number that a word denotes.
- `Call.words_eq_ok_iff`, `Call.words_eq_error_iff`: the words of all arguments, and the first that is no address.
- `Call.wordAt_encode`, `Call.wordOf_read`: the word of an argument in the data, and what is read from it.
- `Call.flatMap_wordOf_eq_iff`: which arguments have equal words.
- `Call.encode_faithful`: all of it.
-/
import ReplicatedOrders.Proofs.Bytes
import ReplicatedOrders.Proofs.Quantities

namespace ReplicatedOrders

/-! ## Bytes as digits -/

namespace Hex

theorem length_digits (bs : List UInt8) : (digits bs).length = 2 * bs.length := by
  induction bs with
  | nil => rfl
  | cons b bs ih =>
    rw [digits, List.flatMap_cons, List.length_append, ← digits, ih, List.length_cons]
    show 2 + 2 * bs.length = _
    omega

theorem exists_of_mem_digits {bs : List UInt8} {c : Char} (h : c ∈ digits bs) : ∃ d, d < 16 ∧ c = digit d := by
  obtain ⟨b, -, hb⟩ := List.mem_flatMap.1 h
  have hbyte := b.toNat_lt
  rcases List.mem_pair.1 hb with hb | hb
  · exact ⟨_, by omega, hb⟩
  · exact ⟨_, by omega, hb⟩

theorem digits_append (bs bs' : List UInt8) : digits (bs ++ bs') = digits bs ++ digits bs' := List.flatMap_append

theorem bytes_map_toLower (cs : List Char) : bytes (cs.map Char.toLower) = bytes cs := by
  fun_induction bytes cs with
  | case1 => rfl
  | case2 => rfl
  | case3 a b cs ih =>
    rw [List.map_cons, List.map_cons, bytes, digitIn_toLower, digitIn_toLower, ih]

/-- bytes are read from digits that are theirs but for the case -/
theorem bytes_eq_some_iff {cs : List Char} {bs : List UInt8} :
    bytes cs = some bs ↔ cs.map Char.toLower = digits bs := by
  constructor
  · intro h
    fun_induction bytes cs generalizing bs with
    | case1 =>
      obtain rfl := Option.some.inj h
      rfl
    | case2 => cases h
    | case3 a b cs ih =>
      simp only [bind, Option.bind_eq_some_iff, pure, Option.some.injEq] at h
      obtain ⟨high, hhigh, low, hlow, rest, hrest, rfl⟩ := h
      obtain ⟨hhigh, ha⟩ := toLower_of_digitIn hhigh
      obtain ⟨hlow, hb⟩ := toLower_of_digitIn hlow
      have hbyte : (UInt8.ofNat (16 * high + low)).toNat = 16 * high + low :=
        UInt8.toNat_ofNat_of_lt' (show 16 * high + low < 256 by omega)
      have hpair : pair (UInt8.ofNat (16 * high + low)) = [digit high, digit low] := by
        rw [pair, hbyte, show (16 * high + low) / 16 = high by omega, show (16 * high + low) % 16 = low by omega]
      rw [List.map_cons, List.map_cons, ha, hb, ih hrest, digits, digits, List.flatMap_cons, hpair]
      rfl
  · intro h
    rw [← bytes_map_toLower, h, bytes_digits]

/-- digits in pairs are read -/
theorem exists_bytes {cs : List Char} {n : Nat} (hlength : cs.length = 2 * n) (h : ∀ c ∈ cs, isDigit c = true) :
    ∃ bs, bytes cs = some bs ∧ bs.length = n := by
  induction n generalizing cs with
  | zero =>
    obtain rfl := List.eq_nil_of_length_eq_zero hlength
    exact ⟨[], rfl, rfl⟩
  | succ n ih =>
    obtain ⟨a, b, cs, rfl⟩ : ∃ a b cs', cs = a :: b :: cs' := by
      match cs, hlength with
      | a :: b :: cs', _ => exact ⟨a, b, cs', rfl⟩
    obtain ⟨ha, hb, hcs⟩ : isDigit a = true ∧ isDigit b = true ∧ ∀ c ∈ cs, isDigit c = true := by simpa using h
    obtain ⟨bs, hbs, hn⟩ := ih (by simpa [Nat.mul_succ] using hlength) hcs
    refine ⟨UInt8.ofNat (16 * valueOf a + valueOf b) :: bs, ?_, congrArg (· + 1) hn⟩
    rw [bytes, digitIn_sixteen, digitIn_sixteen, ha, hb, hbs]
    rfl

theorem digits_injective {bs bs' : List UInt8} (h : digits bs = digits bs') : bs = bs' := by
  have hread := congrArg bytes h
  rw [bytes_digits, bytes_digits] at hread
  exact Option.some.inj hread

end Hex

/-! ## Addresses -/

/-- `0x` or `0X` and forty digits of either case -/
def IsAddress (text : String) : Prop :=
  (text.toList.take 2 = ['0', 'x'] ∨ text.toList.take 2 = ['0', 'X']) ∧ (text.toList.drop 2).length = 40 ∧
    ∀ c ∈ text.toList.drop 2, Hex.isDigit c = true

instance (text : String) : Decidable (IsAddress text) :=
  have : Decidable (∀ c ∈ text.toList.drop 2, Hex.isDigit c = true) := List.decidableBAll _ _
  inferInstanceAs (Decidable (_ ∧ _ ∧ _))

/-- the number that bytes denote, the first byte counting most -/
def bigEndian (bs : List UInt8) : Nat := bs.foldl (fun v b => 256 * v + b.toNat) 0

/-- the word that a text of an address takes as an argument: zeros and its digits in lower case -/
def Call.wordOf (text : String) : List Char := List.replicate 24 '0' ++ (text.toList.drop 2).map Char.toLower

namespace Address

variable {text : String} {a : Address} {ds : List Char}

theorem digits?_eq_some_iff {cs : List Char} :
    digits? cs = some ds ↔ (cs.take 2 = ['0', 'x'] ∨ cs.take 2 = ['0', 'X']) ∧ cs.drop 2 = ds := by
  unfold digits?
  split
  · simp
  · simp
  · next hlower hupper =>
    refine iff_of_false nofun ?_
    rintro ⟨h | h, -⟩
    · exact hlower (cs.drop 2) (by rw [← List.take_append_drop 2 cs, h]; rfl)
    · exact hupper (cs.drop 2) (by rw [← List.take_append_drop 2 cs, h]; rfl)

theorem parse?_eq_some_iff :
    parse? text = some a ↔ (text.toList.take 2 = ['0', 'x'] ∨ text.toList.take 2 = ['0', 'X']) ∧
      (text.toList.drop 2).map Char.toLower = Hex.digits a.bytes := by
  simp only [parse?, bind, Option.bind_eq_some_iff, digits?_eq_some_iff, Hex.bytes_eq_some_iff]
  constructor
  · rintro ⟨ds, ⟨hstart, rfl⟩, bs, hbs, ha⟩
    unfold ofBytes? at ha
    split at ha
    · obtain rfl := Option.some.inj ha
      exact ⟨hstart, hbs⟩
    · cases ha
  · rintro ⟨hstart, hds⟩
    refine ⟨_, ⟨hstart, rfl⟩, a.bytes, hds, ?_⟩
    rw [ofBytes?, dif_pos a.length_eq]

theorem exists_parse?_iff : (∃ a, parse? text = some a) ↔ IsAddress text := by
  simp only [parse?_eq_some_iff]
  constructor
  · rintro ⟨a, hstart, hds⟩
    refine ⟨hstart, ?_, ?_⟩
    · rw [← List.length_map, hds, Hex.length_digits, a.length_eq]
    · intro c hc
      have hlower : c.toLower ∈ Hex.digits a.bytes := hds ▸ List.mem_map_of_mem hc
      exact Hex.isDigit_iff.2 (Hex.exists_of_mem_digits hlower)
  · rintro ⟨hstart, hlength, hdigits⟩
    obtain ⟨bs, hbs, hcount⟩ := Hex.exists_bytes (n := 20) hlength hdigits
    exact ⟨⟨bs, hcount⟩, hstart, Hex.bytes_eq_some_iff.1 hbs⟩

theorem parse_eq_ok_iff : parse text = .ok a ↔ parse? text = some a := by
  rw [parse]
  cases parse? text <;> simp

theorem parse_eq_error_iff {e : ServiceError} :
    parse text = .error e ↔ ¬ IsAddress text ∧ e = .invalidAddress text := by
  rw [← exists_parse?_iff, parse]
  cases parse? text <;> simp [eq_comm]

/-- the word of the address that a text spells, by the characters of the text -/
theorem word_eq (h : parse? text = some a) : a.word = Call.wordOf text := by
  have hzeros : Hex.digits (List.replicate 12 0) = List.replicate 24 '0' := by decide
  rw [word, Hex.digits_append, hzeros, Call.wordOf, (parse?_eq_some_iff.1 h).2]

theorem word_injective {b : Address} (h : a.word = b.word) : a = b := by
  have hbytes := List.append_cancel_left (Hex.digits_injective h)
  cases a
  cases b
  subst hbytes
  rfl

theorem length_word (a : Address) : a.word.length = 64 := by
  rw [word, Hex.length_digits, List.length_append, List.length_replicate, a.length_eq]

/-! ## Words as numbers -/

theorem denoted_digits (bs : List UInt8) : Hex.denoted (Hex.digits bs) = bigEndian bs := by
  induction bs using List.reverseRecOn with
  | nil => rfl
  | append_singleton bs b ih =>
    have hb := b.toNat_lt
    have hpair : Hex.digits (bs ++ [b]) =
        Hex.digits bs ++ [Hex.digit (b.toNat / 16)] ++ [Hex.digit (b.toNat % 16)] := by
      rw [Hex.digits_append, List.append_assoc]
      rfl
    rw [hpair, Hex.denoted_snoc _ (by omega), Hex.denoted_snoc _ (by omega), ih, bigEndian, bigEndian,
      List.foldl_append]
    simp only [List.foldl_cons, List.foldl_nil]
    omega

/-- the zeros in front of an address do not count -/
theorem denoted_word (a : Address) : Hex.denoted a.word = bigEndian a.bytes := by
  rw [word, denoted_digits, bigEndian, List.foldl_append]
  rfl

theorem isNumeral_word (a : Address) : Hex.IsNumeral a.word := by
  refine Hex.isNumeral_of_digits (List.ne_nil_of_length_eq_add_one a.length_word) fun c hc => ?_
  obtain ⟨d, hd, rfl⟩ := Hex.exists_of_mem_digits hc
  exact Hex.isDigit_digit hd

end Address

/-! ## Arguments -/

namespace Call

variable {selector data : String} {texts texts' : List String}

theorem words_cons_of_ok {t : String} {a : Address} (h : Address.parse t = .ok a) :
    words (t :: texts) = (words texts).map (a.word ++ ·) := by
  rw [words, h]
  cases words texts <;> rfl

theorem words_cons_of_error {t : String} {e : ServiceError} (h : Address.parse t = .error e) :
    words (t :: texts) = .error e := by
  rw [words, h]
  rfl

theorem words_eq_ok_iff {cs : List Char} :
    words texts = .ok cs ↔ (∀ t ∈ texts, IsAddress t) ∧ cs = texts.flatMap wordOf := by
  induction texts generalizing cs with
  | nil =>
    rw [words, Except.ok.injEq, List.flatMap_nil]
    exact ⟨fun h => ⟨nofun, h.symm⟩, fun h => h.2.symm⟩
  | cons t texts ih =>
    rw [List.forall_mem_cons, List.flatMap_cons]
    cases ht : Address.parse t with
    | error e =>
      rw [words_cons_of_error ht]
      exact iff_of_false nofun (fun h => (Address.parse_eq_error_iff.1 ht).1 h.1.1)
    | ok a =>
      have hparse := Address.parse_eq_ok_iff.1 ht
      have haddress : IsAddress t := Address.exists_parse?_iff.1 ⟨a, hparse⟩
      rw [words_cons_of_ok ht, ← Address.word_eq hparse]
      constructor
      · intro h
        cases hrest : words texts with
        | error e =>
          rw [hrest] at h
          cases h
        | ok rest =>
          rw [hrest] at h
          obtain ⟨hall, rfl⟩ := ih.1 hrest
          exact ⟨⟨haddress, hall⟩, (Except.ok.inj h).symm⟩
      · rintro ⟨⟨-, hall⟩, rfl⟩
        rw [ih.2 ⟨hall, rfl⟩]
        rfl

/-- the fault is that of the first text that is no address -/
theorem words_eq_error_iff {e : ServiceError} :
    words texts = .error e ↔ ∃ before bad after, texts = before ++ bad :: after ∧ (∀ t ∈ before, IsAddress t) ∧
      ¬ IsAddress bad ∧ e = .invalidAddress bad := by
  induction texts with
  | nil =>
    refine iff_of_false nofun ?_
    rintro ⟨before, bad, after, h, -⟩
    simp at h
  | cons t texts ih =>
    cases ht : Address.parse t with
    | error e' =>
      obtain ⟨hbad, rfl⟩ := Address.parse_eq_error_iff.1 ht
      rw [words_cons_of_error ht]
      constructor
      · intro h
        exact ⟨[], t, texts, rfl, nofun, hbad, (Except.error.inj h).symm⟩
      · rintro ⟨before, bad, after, h, hbefore, -, rfl⟩
        cases before with
        | nil =>
          obtain ⟨rfl, rfl⟩ := List.cons.inj h
          rfl
        | cons t' before =>
          obtain ⟨rfl, -⟩ := List.cons.inj h
          exact absurd (hbefore t List.mem_cons_self) hbad
    | ok a =>
      have haddress : IsAddress t := Address.exists_parse?_iff.1 ⟨a, Address.parse_eq_ok_iff.1 ht⟩
      have hrest : words (t :: texts) = .error e ↔ words texts = .error e := by
        rw [words_cons_of_ok ht]
        cases words texts <;> simp [Except.map]
      rw [hrest, ih]
      constructor
      · rintro ⟨before, bad, after, rfl, hbefore, hbad, he⟩
        exact ⟨t :: before, bad, after, rfl, List.forall_mem_cons.2 ⟨haddress, hbefore⟩, hbad, he⟩
      · rintro ⟨before, bad, after, h, hbefore, hbad, he⟩
        cases before with
        | nil =>
          obtain ⟨rfl, -⟩ := List.cons.inj h
          exact absurd haddress hbad
        | cons t' before =>
          obtain ⟨rfl, rfl⟩ := List.cons.inj h
          exact ⟨before, bad, after, rfl, (List.forall_mem_cons.1 hbefore).2, hbad, he⟩

/-! ## The data -/

theorem encode_eq (selector : String) (texts : List String) :
    encode selector texts = (words texts).map fun cs => String.ofList ('0' :: 'x' :: selector.toList ++ cs) := by
  rw [encode]
  cases words texts <;> rfl

theorem encode_eq_ok_iff : encode selector texts = .ok data ↔
    (∀ t ∈ texts, IsAddress t) ∧ data.toList = '0' :: 'x' :: selector.toList ++ texts.flatMap wordOf := by
  rw [encode_eq]
  constructor
  · intro h
    cases hwords : words texts with
    | error e =>
      rw [hwords] at h
      cases h
    | ok cs =>
      obtain ⟨hall, rfl⟩ := words_eq_ok_iff.1 hwords
      rw [hwords] at h
      obtain rfl := Except.ok.inj h
      exact ⟨hall, String.toList_ofList⟩
  · rintro ⟨hall, hdata⟩
    rw [words_eq_ok_iff.2 ⟨hall, rfl⟩, Except.map, ← hdata, String.ofList_toList]

theorem encode_eq_error_iff {e : ServiceError} : encode selector texts = .error e ↔ words texts = .error e := by
  rw [encode_eq]
  cases words texts <;> simp [Except.map]

/-! ## Places in the data -/

/-- the word of the argument at a place -/
def wordAt (selector data : String) (i : Nat) : List Char :=
  (data.toList.drop (2 + selector.toList.length + 64 * i)).take 64

theorem length_wordOf {t : String} (h : IsAddress t) : (wordOf t).length = 64 := by
  rw [wordOf, List.length_append, List.length_replicate, List.length_map, h.2.1]

theorem length_flatMap_wordOf (h : ∀ t ∈ texts, IsAddress t) : (texts.flatMap wordOf).length = 64 * texts.length := by
  induction texts with
  | nil => rfl
  | cons t texts ih =>
    obtain ⟨ht, hrest⟩ := List.forall_mem_cons.1 h
    rw [List.flatMap_cons, List.length_append, length_wordOf ht, ih hrest, List.length_cons, Nat.mul_succ, Nat.add_comm]

theorem wordAt_encode (h : encode selector texts = .ok data) {i : Nat} {t : String} (ht : texts[i]? = some t) :
    wordAt selector data i = wordOf t := by
  obtain ⟨hall, hdata⟩ := encode_eq_ok_iff.1 h
  have hwords : ∀ (texts : List String) (i : Nat), (∀ t ∈ texts, IsAddress t) → texts[i]? = some t →
      ((texts.flatMap wordOf).drop (64 * i)).take 64 = wordOf t := by
    intro texts
    induction texts with
    | nil =>
      intro i _ ht
      cases ht
    | cons t' texts ih =>
      intro i hall ht
      obtain ⟨ht', hrest⟩ := List.forall_mem_cons.1 hall
      have hlength := length_wordOf ht'
      rw [List.flatMap_cons]
      cases i with
      | zero =>
        obtain rfl := Option.some.inj ht
        rw [Nat.mul_zero, List.drop_zero, List.take_left' hlength]
      | succ i =>
        rw [Nat.mul_succ, Nat.add_comm, ← List.drop_drop, List.drop_left' hlength]
        exact ih i hrest ht
  have hstart : ('0' :: 'x' :: selector.toList).length = 2 + selector.toList.length := by
    simp only [List.length_cons]
    omega
  rw [wordAt, hdata, ← List.drop_drop, List.drop_left' hstart]
  exact hwords texts i hall ht

/-- a word and what it stands for: the bytes of an address, read back in two ways -/
theorem wordOf_read {t : String} {a : Address} (h : Address.parse t = .ok a) :
    Address.parse (String.ofList ('0' :: 'x' :: (wordOf t).drop 24)) = .ok a ∧
      Quantity.parse (String.ofList ('0' :: 'x' :: wordOf t)) = .ok (bigEndian a.bytes) := by
  rw [Address.parse_eq_ok_iff] at h
  rw [← Address.word_eq h]
  constructor
  · have hdrop : a.word.drop 24 = Hex.digits a.bytes := by
      rw [Address.word, Hex.digits_append]
      exact List.drop_left' (by decide)
    rw [Address.parse_eq_ok_iff, Address.parse?_eq_some_iff, String.toList_ofList, hdrop]
    refine ⟨Or.inl rfl, ?_⟩
    -- digits that are written are in lower case already
    exact Hex.bytes_eq_some_iff.1 (Hex.bytes_digits a.bytes)
  · rw [Quantity.parse_eq_ok_iff, String.toList_ofList]
    exact ⟨_, rfl, a.isNumeral_word, a.denoted_word.symm⟩

/-! ## Data and arguments -/

/-- two texts of addresses with the same bytes -/
def SameBytes (t t' : String) : Prop := ∃ a b, Address.parse t = .ok a ∧ Address.parse t' = .ok b ∧ a.bytes = b.bytes

theorem wordOf_eq_iff {t t' : String} (h : IsAddress t) (h' : IsAddress t') :
    wordOf t = wordOf t' ↔ SameBytes t t' := by
  obtain ⟨a, ha⟩ := Address.exists_parse?_iff.2 h
  obtain ⟨b, hb⟩ := Address.exists_parse?_iff.2 h'
  simp only [SameBytes, Address.parse_eq_ok_iff, ← Address.word_eq ha, ← Address.word_eq hb]
  constructor
  · intro hword
    exact ⟨a, b, ha, hb, congrArg Address.bytes (Address.word_injective hword)⟩
  · rintro ⟨a', b', ha', hb', hbytes⟩
    obtain rfl := Option.some.inj (ha.symm.trans ha')
    obtain rfl := Option.some.inj (hb.symm.trans hb')
    rw [Address.word, hbytes, Address.word]

theorem flatMap_wordOf_eq_iff (h : ∀ t ∈ texts, IsAddress t) (h' : ∀ t ∈ texts', IsAddress t) :
    texts.flatMap wordOf = texts'.flatMap wordOf ↔ List.Forall₂ SameBytes texts texts' := by
  induction texts generalizing texts' with
  | nil =>
    cases texts' with
    | nil => exact iff_of_true rfl .nil
    | cons t' texts' =>
      refine iff_of_false (fun heq => ?_) nofun
      have hlength := congrArg List.length heq
      rw [length_flatMap_wordOf h, length_flatMap_wordOf h', List.length_cons, List.length_nil] at hlength
      omega
  | cons t texts ih =>
    obtain ⟨ht, hrest⟩ := List.forall_mem_cons.1 h
    cases texts' with
    | nil =>
      refine iff_of_false (fun heq => ?_) nofun
      have hlength := congrArg List.length heq
      rw [length_flatMap_wordOf h, length_flatMap_wordOf h', List.length_cons, List.length_nil] at hlength
      omega
    | cons t' texts' =>
      obtain ⟨ht', hrest'⟩ := List.forall_mem_cons.1 h'
      rw [List.flatMap_cons, List.flatMap_cons, List.forall₂_cons, ← ih hrest hrest', ← wordOf_eq_iff ht ht']
      constructor
      · intro heq
        exact List.append_inj heq ((length_wordOf ht).trans (length_wordOf ht').symm)
      · rintro ⟨heq, hflat⟩
        rw [heq, hflat]

/-! ## Length -/

theorem utf8ByteSize_ofList {cs : List Char} (h : ∀ c ∈ cs, c.toNat < 128) :
    (String.ofList cs).utf8ByteSize = cs.length := by
  have hsize : (String.ofList cs).utf8ByteSize = (Text.bytes (String.ofList cs)).length := rfl
  rw [hsize, Text.bytes_eq, String.toList_ofList, List.length_flatMap]
  have hone : ∀ c ∈ cs, (String.utf8EncodeChar c).length = 1 := by
    intro c hc
    rw [String.length_utf8EncodeChar, Char.utf8Size_eq_one_iff]
    exact UInt32.le_iff_toNat_le.2 (Nat.le_of_lt_succ (h c hc))
  rw [List.map_congr_left hone]
  simp

/-- the bytes of the data, whatever the selector is -/
theorem utf8ByteSize_encode (h : encode selector texts = .ok data) :
    data.utf8ByteSize = 2 + selector.utf8ByteSize + 64 * texts.length := by
  obtain ⟨hall, hdata⟩ := encode_eq_ok_iff.1 h
  have hascii : ∀ c ∈ texts.flatMap wordOf, c.toNat < 128 := by
    intro c hc
    obtain ⟨t, ht, hc⟩ := List.mem_flatMap.1 hc
    obtain ⟨a, ha⟩ := Address.exists_parse?_iff.2 (hall t ht)
    rw [← Address.word_eq ha] at hc
    obtain ⟨d, hd, rfl⟩ := Hex.exists_of_mem_digits hc
    have hdigit : ∀ d, d < 16 → (Hex.digit d).toNat < 128 := by decide
    exact hdigit d hd
  have hwords : (String.ofList (texts.flatMap wordOf)).toList = texts.flatMap wordOf := String.toList_ofList
  have hsplit : data = "0x" ++ selector ++ String.ofList (texts.flatMap wordOf) := by
    rw [← String.toList_inj, hdata, String.toList_append, String.toList_append, hwords]
    rfl
  rw [hsplit, String.utf8ByteSize_append, String.utf8ByteSize_append, utf8ByteSize_ofList hascii,
    length_flatMap_wordOf hall]
  rfl

/-- **The data of a call are faithful.** There are data exactly if every argument is an address, and the first that is
none is reported. The data are the selector and a word for each argument, zeros and its digits in lower case; so their
length is known, each argument is read back from its own word, as an address and as the number of its bytes, and under
one selector only the arguments of equal bytes have equal data. -/
theorem encode_faithful (selector : String) (texts : List String) :
    (∀ data, encode selector texts = .ok data ↔
        (∀ t ∈ texts, IsAddress t) ∧ data.toList = '0' :: 'x' :: selector.toList ++ texts.flatMap wordOf) ∧
      (∀ e, encode selector texts = .error e ↔ ∃ before bad after, texts = before ++ bad :: after ∧
        (∀ t ∈ before, IsAddress t) ∧ ¬ IsAddress bad ∧ e = .invalidAddress bad) ∧
      (∀ data, encode selector texts = .ok data →
        data.utf8ByteSize = 2 + selector.utf8ByteSize + 64 * texts.length ∧
          ∀ i t, texts[i]? = some t → (wordAt selector data i).length = 64 ∧ ∃ a, Address.parse t = .ok a ∧
            Address.parse (String.ofList ('0' :: 'x' :: (wordAt selector data i).drop 24)) = .ok a ∧
              Quantity.parse (String.ofList ('0' :: 'x' :: wordAt selector data i)) = .ok (bigEndian a.bytes)) ∧
      ∀ texts', (∀ t ∈ texts, IsAddress t) → (∀ t ∈ texts', IsAddress t) →
        (encode selector texts = encode selector texts' ↔ List.Forall₂ SameBytes texts texts') := by
  refine ⟨fun data => encode_eq_ok_iff, fun e => encode_eq_error_iff.trans words_eq_error_iff, ?_, ?_⟩
  · intro data h
    refine ⟨utf8ByteSize_encode h, fun i t ht => ?_⟩
    have haddress := (encode_eq_ok_iff.1 h).1 t (List.mem_of_getElem? ht)
    obtain ⟨a, ha⟩ := Address.exists_parse?_iff.2 haddress
    have hparse := Address.parse_eq_ok_iff.2 ha
    rw [wordAt_encode h ht]
    exact ⟨length_wordOf haddress, a, hparse, wordOf_read hparse⟩
  · intro texts' hall hall'
    have hdata : encode selector texts = encode selector texts' ↔ texts.flatMap wordOf = texts'.flatMap wordOf := by
      rw [encode_eq, encode_eq, words_eq_ok_iff.2 ⟨hall, rfl⟩, words_eq_ok_iff.2 ⟨hall', rfl⟩, Except.map, Except.map,
        Except.ok.injEq, String.ofList_inj, List.append_right_inj]
    rw [hdata, flatMap_wordOf_eq_iff hall hall']

/-- two arguments, in two spellings each -/
theorem encode_faithful_spelled :
    let texts := ["0xA0b86991c6218b36c1d19D4a2e9Eb0cE3606eB48", "0Xdef1C0ded9bec7F1a1670819833240f027b25eff"]
    let texts' := ["0XA0B86991C6218B36C1D19D4A2E9EB0CE3606EB48", "0xdef1c0ded9bec7f1a1670819833240f027b25eff"]
    (∀ t ∈ texts, IsAddress t) ∧ (∀ t ∈ texts', IsAddress t) ∧ List.Forall₂ SameBytes texts texts' ∧
      encode allowance texts = encode allowance texts' := by
  intro texts texts'
  have hall : ∀ t ∈ texts, IsAddress t := by decide +kernel
  have hall' : ∀ t ∈ texts', IsAddress t := by decide +kernel
  have hflat : texts.flatMap wordOf = texts'.flatMap wordOf := by decide +kernel
  have hsame := (flatMap_wordOf_eq_iff hall hall').1 hflat
  obtain ⟨-, -, -, hiff⟩ := encode_faithful allowance texts
  exact ⟨hall, hall', hsame, (hiff texts' hall hall').2 hsame⟩

end Call

end ReplicatedOrders
